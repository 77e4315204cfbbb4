import Countdown.Proofs.Session.Removal
import Countdown.Proofs.Session.Telling
set_option autoImplicit false

namespace Countdown.Session
open Countdown.Task World

variable {s s' : Session} {t : Task} {tasks rest : List Task} {k : Nat} {id : String} {f : Figures} {fuel : Nat}

def Still (s : Session) (tasks : List Task) (id : String) (f : Figures) : Prop :=
  ∀ s₁ tasks₁, s.Follows tasks s₁ tasks₁ → s₁.world.figures? id = some f

/-- On the way to another session clients are told of a timer, by note number `n`, when its figures are the same
as from then on. -/
def Tells (s : Session) (tasks : List Task) (id : String) (f : Figures) (n : Nat) (s' : Session) : Prop :=
  ∃ s₁ rest, s.Follows tasks s₁ (.tell .observer .state id :: rest) ∧ s₁.world.journal.length = n ∧
    s₁.Follows (.tell .observer .state id :: rest) s' [] ∧ s₁.Still (.tell .observer .state id :: rest) id f

/-- The figures of a timer stay the same, or clients are told of those that it has in the end. -/
def Informs (s : Session) (tasks : List Task) (id : String) (f : Figures) (s' : Session) : Prop :=
  s.Still tasks id f ∨ ∃ f' n, s.Tells tasks id f' n s'

theorem Follows.head {s₁ : Session} {tasks₁ : List Task} (h : (s.step t rest).1.Follows (s.step t rest).2 s₁ tasks₁) :
    s.Follows (t :: rest) s₁ tasks₁ := by
  induction h with
  | start => exact .work .start
  | work _ ih => exact .work ih

theorem Follows.of_nil {s₁ : Session} {tasks₁ : List Task} (h : s.Follows [] s₁ tasks₁) : s₁ = s ∧ tasks₁ = [] := by
  induction h with
  | start => exact ⟨rfl,rfl⟩
  | work _ ih => exact absurd ih.2 (List.cons_ne_nil _ _)

theorem Follows.uncons {s₁ : Session} {tasks₁ : List Task} (h : s.Follows (t :: rest) s₁ tasks₁) :
    s₁ = s ∧ tasks₁ = t :: rest ∨ (s.step t rest).1.Follows (s.step t rest).2 s₁ tasks₁ := by
  induction h with
  | start => exact .inl ⟨rfl,rfl⟩
  | work h ih =>
    obtain ⟨rfl,hcons⟩ | hlater := ih
    · cases hcons
      exact .inr .start
    · exact .inr hlater.work

theorem follows_settle (h : settle fuel s tasks = some s') : s.Follows tasks s' [] :=
  settle_keeps (P := s.Follows tasks) (fun _ _ _ h => .work h) .start h

theorem Still.cons (hf : s.world.figures? id = some f) (h : (s.step t rest).1.Still (s.step t rest).2 id f) :
    s.Still (t :: rest) id f := by
  intro s₁ tasks₁ hfollows
  obtain ⟨rfl,-⟩ | hlater := hfollows.uncons
  · exact hf
  · exact h s₁ tasks₁ hlater

theorem still_nil (hf : s.world.figures? id = some f) : s.Still [] id f := by
  intro s₁ tasks₁ hfollows
  rw [hfollows.of_nil.1]
  exact hf

theorem Tells.cons {n : Nat} (h : (s.step t rest).1.Tells (s.step t rest).2 id f n s') : s.Tells (t :: rest) id f n s' := by
  obtain ⟨s₁,rest₁,hfollows,hlater⟩ := h
  exact ⟨s₁,rest₁,hfollows.head,hlater⟩

theorem informs_cons (hh : s.world.Heralds (s.step t rest).1.world (s.step t rest).2) (hf : s.world.figures? id = some f)
    (h : ∀ f₁, (s.step t rest).1.world.figures? id = some f₁ →
      (s.step t rest).1.Informs (s.step t rest).2 id f₁ s' ∧
      (Promised id (s.step t rest).2 → ∃ f' n, (s.step t rest).1.Tells (s.step t rest).2 id f' n s')) :
    s.Still (t :: rest) id f ∧ ¬ Promised id (s.step t rest).2 ∨ ∃ f' n, s.Tells (t :: rest) id f' n s' := by
  by_cases hp : Promised id (s.step t rest).2
  · have hlisted : ∃ f₁, (s.step t rest).1.world.figures? id = some f₁ := by
      obtain hsame | ⟨-,hlisted⟩ := hh id f hf
      · exact ⟨f,hsame⟩
      · exact hlisted
    obtain ⟨f₁,hf₁⟩ := hlisted
    obtain ⟨f',n,htells⟩ := (h f₁ hf₁).2 hp
    exact .inr ⟨f',n,htells.cons⟩
  · obtain hsame | ⟨hpromised,-⟩ := hh id f hf
    · obtain ⟨hstill | ⟨f',n,htells⟩,-⟩ := h f hsame
      · exact .inl ⟨.cons hf hstill,hp⟩
      · exact .inr ⟨f',n,htells.cons⟩
    · exact absurd hpromised hp

/-- In a course that is attended to clients are informed of every timer, and told of it if that was promised. -/
theorem Attended.informs (h : Attended s tasks) (hs : settle fuel s tasks = some s')
    (hf : s.world.figures? id = some f) :
    s.Informs tasks id f s' ∧ (Promised id tasks → ∃ f' n, s.Tells tasks id f' n s') := by
  -- from the end of the course back to its start, so that the last change is met first
  induction fuel generalizing s tasks f with
  | zero =>
    cases tasks with
    | nil => exact ⟨.inl (still_nil hf),fun hp => absurd hp (not_promised (by simp))⟩
    | cons t rest => contradiction
  | succ fuel ih =>
    cases tasks with
    | nil => exact ⟨.inl (still_nil hf),fun hp => absurd hp (not_promised (by simp))⟩
    | cons t rest =>
      obtain ⟨hattended,hheralds⟩ := h.step
      obtain ⟨hstill,hnone⟩ | htells := informs_cons hheralds hf fun f₁ => ih hattended hs
      · refine ⟨.inl hstill,fun hp => ?_⟩
        obtain rfl | hpassed := h.promised hp
        · exact ⟨f,_,s,rest,.start,rfl,follows_settle hs,hstill⟩
        · exact absurd hpassed hnone
      · exact ⟨.inr htells,fun _ => htells⟩

theorem settle_of_run {c : Command} {r : Except Failure Reply} (h : s.run fuel c = some (s',r)) :
    settle (fuel + 1) s [.command none c] = some s' := by
  unfold Session.run at h
  change settle fuel (s.step (.command none c) []).1 (s.step (.command none c) []).2 = some s'
  cases hp : s.perform none c with
  | mk s₁ outcome =>
    rw [hp] at h
    cases outcome with
    | error f =>
      cases h
      simp [Session.step, task, hp, unwind, settle_nil]
    | ok p =>
      obtain ⟨tasks,reply⟩ := p
      obtain ⟨s₂,hs,heq⟩ := Option.map_eq_some_iff.mp h
      cases heq
      rw [step_ok (t := .command none c) hp, List.append_nil]
      exact hs

theorem attended_one {c : Command} (h : Reached s []) (hc : s.world.callbacks = [.observer])
    (hl : ∀ p ∈ s.listeners, p.2.Looks) (hs : c.Sound) (hfrank : c.isFrank = true) : Attended s [.command none c] where
  reached := h.ask none (by simp) hs
  callbacks := hc
  listeners := hl
  frank t ht := by
    rw [List.mem_singleton.mp ht]
    exact hfrank
  firm := firm_one _

theorem attended_act {a : Action} (h : Reached s []) (hc : s.world.callbacks = [.observer])
    (hl : ∀ p ∈ s.listeners, p.2.Looks) (ha : a.Sound) (hsafe : ∀ t n line, (applyAction t n a line).2 = none)
    (hk : s.world.find? id = some k) :
    let next := s.step (.command none (.act (.id id) a)) [.command none (.notify (.id id))]
    Attended next.1 next.2 ∧ s.world.Heralds next.1.world next.2 := by
  intro next
  have hreached : Reached next.1 next.2 := by
    have hnotify : Reached s [.command none (.notify (.id id))] := h.ask none (by simp) (Command.sound_notify _)
    exact (hnotify.ask none (by simp [inScript]) (Command.sound_act.mpr ha)).work
  obtain ⟨rfl,e,he,-⟩ := of_find? hk
  have hlt := h.wired.timers k e.timer (owner?_of_getElem? he)
  obtain ⟨t,ht⟩ : ∃ t, s.world.timers[e.timer]? = some t := ⟨_,List.getElem?_eq_getElem hlt⟩
  let effect := (applyAction t e.timer a s.world.line).1
  have htimer : s.timer? none (.id (Entry.idOf k)) = some e.timer := by simp [timer?, entry?, hk, he]
  have htask : s.task (.command none (.act (.id (Entry.idOf k)) a)) =
      ⟨s.withWorld (s.world.take e.timer effect).1,.ok (calls (s.world.take e.timer effect).2,.done)⟩ := by
    simp only [task, perform, htimer, act, ht, hsafe]
    rfl
  have hnext : next = (s.withWorld (s.world.take e.timer effect).1,
      calls (s.world.take e.timer effect).2 ++ [.command none (.notify (.id (Entry.idOf k)))]) := step_ok htask _
  rw [hnext] at hreached ⊢
  have hcalls : ∀ u ∈ calls (s.world.take e.timer effect).2, u.isFrank = true ∧ u.isSafe = true :=
    fun u hu => isFrank_of_isSequel (isSequel_calls hu)
  refine ⟨⟨hreached,(callbacks_take _ _ _).trans hc,hl,fun u hu => ?_,?_⟩,?_⟩
  · obtain hu | hu := List.mem_append.mp hu
    · exact (hcalls u hu).1
    · rw [List.mem_singleton.mp hu]
      rfl
  · exact firm_append (fun u hu => (hcalls u hu).2) (firm_one _)
  · exact (alters_take h.apart he effect).heralds ⟨_,List.mem_append_right _ List.mem_cons_self,rfl⟩

theorem journal_step (s : Session) (t : Task) (rest : List Task) :
    ∃ ns, (s.step t rest).1.world.journal = s.world.journal ++ ns := by
  by_cases ht : ∃ c e id, t = .tell c e id
  · obtain ⟨c,e,id,rfl⟩ := ht
    obtain ⟨x,-,heq⟩ := s.step_tell c e id rest
    exact ⟨[x],by rw [heq]; rfl⟩
  · obtain ⟨ns,hjournal,-⟩ := (s.grows_step (fun c e id htell => ht ⟨c,e,id,htell⟩) rest).notes
    exact ⟨ns,hjournal⟩

theorem Follows.journal {s₁ : Session} {tasks₁ : List Task} (h : s.Follows tasks s₁ tasks₁) :
    ∃ ns, s₁.world.journal = s.world.journal ++ ns := by
  induction h with
  | start => exact ⟨[],(List.append_nil _).symm⟩
  | @work s₁ t rest _ ih =>
    obtain ⟨ns,hns⟩ := ih
    obtain ⟨ms,hms⟩ := s₁.journal_step t rest
    exact ⟨ns ++ ms,by rw [hms, hns, List.append_assoc]⟩

theorem Tells.noted {n : Nat} (h : s.Tells tasks id f n s') : s'.world.figures? id = some f ∧
    s.world.journal.length ≤ n ∧ ∃ now v, s'.world.journal[n]? = some (.observed .state id now (some v)) ∧
      v.id = id ∧ v.figures = f := by
  obtain ⟨s₁,rest,hbefore,rfl,hafter,hstill⟩ := h
  obtain ⟨v,hv,hfigures⟩ := Option.map_eq_some_iff.mp (hstill s₁ _ .start)
  obtain ⟨ns,hns⟩ := hbefore.journal
  obtain ⟨-,hcons⟩ | hlater := hafter.uncons
  · contradiction
  obtain ⟨ms,hms⟩ := hlater.journal
  have hnote : (s₁.step (.tell .observer .state id) rest).1.world.journal =
      s₁.world.journal ++ [.observed .state id s₁.now (some v)] := by
    rw [← hv]
    rfl
  refine ⟨hstill s' [] hafter,by simp [hns],s₁.now,v,?_,?_,hfigures⟩
  · rw [hms, hnote]
    simp
  · obtain ⟨k,hk,hview⟩ := Option.bind_eq_some_iff.mp hv
    obtain ⟨rfl,e,he,-⟩ := of_find? hk
    simp only [view?, he, Option.bind_eq_bind, Option.bind_some] at hview
    obtain ⟨t,-,hview⟩ := Option.bind_eq_some_iff.mp hview
    cases hview
    rfl

theorem settle_notify {e : Event} (hc : s.world.callbacks = [.observer]) (h : settle fuel s [.notify e id] = some s') :
    s' = (s.tell .observer e id).1 := by
  cases fuel with
  | zero => contradiction
  | succ fuel =>
    change settle fuel s (s.world.callbacks.map (fun c => .tell c e id) ++ []) = some s' at h
    rw [hc] at h
    cases fuel with
    | zero => contradiction
    | succ fuel =>
      change settle fuel (s.tell .observer e id).1 [] = some s' at h
      rw [settle_nil] at h
      exact (Option.some.inj h).symm

theorem informs_remove {removed : String} {r : Except Failure Reply} (h : Reached s [])
    (hc : s.world.callbacks = [.observer]) (hrun : s.run fuel (.remove (.id removed)) = some (s',r))
    (hf : s.world.figures? id = some f) : s'.world.figures? id = some f ∨
      s'.world.find? id = none ∧ ∃ now view, s'.world.journal = s.world.journal ++ [.observed .removed id now view] := by
  cases hk : s.world.find? removed with
  | none =>
    simp only [Session.run, perform, entry?, hk, ok, settle_nil, Option.map_some] at hrun
    cases hrun
    exact .inl hf
  | some k =>
    rw [run_remove hk] at hrun
    obtain ⟨s₁,hs,heq⟩ := Option.map_eq_some_iff.mp hrun
    cases heq
    have hcallbacks : (s.world.unlist k).callbacks = [.observer] := by
      unfold unlist
      split <;> exact hc
    have hjournal : (s.world.unlist k).journal = s.world.journal := by
      unfold unlist
      split <;> rfl
    obtain rfl := settle_notify hcallbacks hs
    by_cases hid : id = Entry.idOf k
    · subst hid
      obtain ⟨-,e,he,-⟩ := of_find? hk
      refine .inr ⟨?_,_,_,congrArg (· ++ _) hjournal⟩
      cases hfind : (s.world.unlist k).find? (Entry.idOf k) with
      | none => exact hfind
      | some l =>
        obtain ⟨hsame,e',he',hl⟩ := of_find? hfind
        rw [← idOf_injective hsame, (unlist_retired h.wired he).1] at he'
        cases he'
        contradiction
    · exact .inl (figures_unlist h.apart hf hid)

end Countdown.Session
