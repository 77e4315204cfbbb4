import Countdown.Proofs.Session.Caught
import Countdown.Proofs.Session.Figures
set_option autoImplicit false

namespace Countdown

def Command.isFrank : Command → Bool
  | .advance _ | .tick _ | .fire _ | .setInput _ _ | .next _ | .notify _ => true
  | c => c.looks

theorem Command.isFrank_of_looks {c : Command} (h : c.looks = true) : c.isFrank = true := by
  cases c <;> first | rfl | exact h

namespace Task

def word? : Task → Option String
  | .command subject (.notify r) => some (Session.idOf subject r)
  | .notify .state id | .tell .observer .state id => some id
  | _ => none

def isFrank : Task → Bool
  | .command _ c => c.isFrank
  | .tell c _ _ => c == .observer
  | _ => true

/-- Some task is to tell clients of the state of a timer. -/
def Promised (id : String) (tasks : List Task) : Prop := ∃ t ∈ tasks, t.word? = some id

def spared (rest : List Task) : List Task := ((Session.unwind rest).map Prod.snd).getD []

/-- No failure takes back what is promised. -/
def Firm : List Task → Prop
  | [] => True
  | t :: rest => (t.isSafe = false → ∀ id, Promised id rest → Promised id (spared rest)) ∧ Firm rest

variable {t : Task} {xs ys rest : List Task} {id : String} {site : Site}

theorem promised_append : Promised id (xs ++ ys) ↔ Promised id xs ∨ Promised id ys := by
  simp [Promised, or_and_right, exists_or]

theorem Promised.mono (h : Promised id xs) (hs : ∀ t ∈ xs, t ∈ ys) : Promised id ys := by
  obtain ⟨t,ht,hword⟩ := h
  exact ⟨t,hs t ht,hword⟩

theorem not_promised (h : ∀ t ∈ xs, t.word? = none) : ¬ Promised id xs := by
  rintro ⟨t,ht,hword⟩
  rw [h t ht] at hword
  contradiction

theorem word?_of_looks {subject : Option String} {c : Command} (h : c.looks = true) :
    (Task.command subject c).word? = none := by
  cases c <;> first | rfl | contradiction

theorem firm_one (t : Task) : Firm [t] := ⟨fun _ _ hp => absurd hp (not_promised (by simp)),trivial⟩

theorem firm_append (hx : ∀ t ∈ xs, t.isSafe = true) (h : Firm rest) : Firm (xs ++ rest) := by
  induction xs with
  | nil => exact h
  | cons t xs ih =>
    refine ⟨fun ht => ?_,ih fun u hu => hx u (List.mem_cons_of_mem _ hu)⟩
    rw [hx t List.mem_cons_self] at ht
    contradiction

theorem firm_script (hx : ∀ t ∈ xs, t.word? = none ∧ t.isEnd = false) (h : Firm rest) :
    Firm (xs ++ .caught site :: rest) := by
  induction xs with
  | nil => exact ⟨nofun,h⟩
  | cons t xs ih =>
    have hxs : ∀ u ∈ xs, u.word? = none ∧ u.isEnd = false := fun u hu => hx u (List.mem_cons_of_mem _ hu)
    refine ⟨fun _ id hpromised => ?_,ih hxs⟩
    have hspared : spared (xs ++ .caught site :: rest) = rest := by
      rw [spared, Session.unwind_script fun u hu => (hxs u hu).2]
      rfl
    change Promised id (spared (xs ++ .caught site :: rest))
    rw [hspared]
    obtain hpromised | ⟨u,hu,hword⟩ := promised_append.mp hpromised
    · exact absurd hpromised (not_promised fun u hu => (hxs u hu).1)
    · obtain rfl | hu := List.mem_cons.mp hu
      · contradiction
      · exact ⟨u,hu,hword⟩

theorem Firm.suffix {after : List Task} (hs : after <:+ rest) (h : Firm rest) : Firm after := by
  obtain ⟨pre,rfl⟩ := hs
  induction pre with
  | nil => exact h
  | cons t pre ih => exact ih h.2

theorem spared_suffix (rest : List Task) : spared rest <:+ rest := by
  unfold spared
  cases h : Session.unwind rest with
  | none => exact List.nil_suffix
  | some p => exact Session.unwind_suffix h

end Task

open Countdown.Task

def World.Heralds (w w' : World) (tasks : List Task) : Prop := ∀ id f, w.figures? id = some f →
  w'.figures? id = some f ∨ Promised id tasks ∧ ∃ f', w'.figures? id = some f'

namespace World

variable {w w' : World} {k : Nat} {tasks more : List Task}

theorem Retains.heralds (h : w.Retains w') (tasks : List Task) : w.Heralds w' tasks :=
  fun id f hf => .inl (h id f hf)

theorem Alters.heralds (h : w.Alters k w') (ht : Promised (Entry.idOf k) tasks) : w.Heralds w' tasks := by
  intro id f hf
  obtain ⟨hsame,hlisted⟩ := h.figures hf
  by_cases hid : id = Entry.idOf k
  · subst hid
    exact .inr ⟨ht,hlisted⟩
  · exact .inl (hsame hid)

theorem Heralds.mono (h : w.Heralds w' tasks) (hs : ∀ t ∈ tasks, t ∈ more) : w.Heralds w' more := by
  intro id f hf
  obtain hsame | ⟨hpromised,hlisted⟩ := h id f hf
  · exact .inl hsame
  · exact .inr ⟨hpromised.mono hs,hlisted⟩

theorem callbacks_setInput {text : String} (h : w.setInput k text = .ok w') : w'.callbacks = w.callbacks := by
  unfold setInput at h
  split at h
  · contradiction
  · cases h
    exact callbacks_take _ _ _
  · cases h
    rfl

theorem callbacks_next? {cs : List Call} (h : w.next? k = some (w',cs)) : w'.callbacks = w.callbacks := by
  unfold next? at h
  split at h
  · split at h
    · obtain rfl := congrArg Prod.fst (Option.some.inj h)
      exact (callbacks_take _ _ _).trans (callbacks_take _ _ _)
    · contradiction
  · contradiction

end World

/-- A turn after which clients are told of whatever has changed; who is told of it and who listens is the same. -/
structure Turn.Frank (r : Turn) (s : Session) : Prop where
  callbacks : r.session.world.callbacks = s.world.callbacks
  listeners : r.session.listeners = s.listeners
  heralds : ∀ tasks reply, r.outcome = .ok (tasks,reply) → s.world.Heralds r.session.world tasks
  fails : ∀ f, r.outcome = .error f → s.world.Retains r.session.world

namespace Session
open World

variable {s s' s'' : Session} {t : Task} {tasks rest : List Task} {k : Nat} {id : String} {f : Figures} {fuel : Nat}

structure Idles (s s' : Session) : Prop where
  retains : s.world.Retains s'.world
  callbacks : s'.world.callbacks = s.world.callbacks
  listeners : s'.listeners = s.listeners

theorem Idles.refl (s : Session) : s.Idles s := ⟨.refl _,rfl,rfl⟩

theorem Idles.trans (h : s.Idles s') (h' : s'.Idles s'') : s.Idles s'' :=
  ⟨h.retains.trans h'.retains,h'.callbacks.trans h.callbacks,h'.listeners.trans h.listeners⟩

theorem idles_note (s : Session) (x : Note) : s.Idles (s.withWorld (s.world.note x)) :=
  ⟨retains_of_same rfl rfl,rfl,rfl⟩

theorem idles_setClock (s : Session) (now : Int) : s.Idles (s.setClock now) := ⟨retains_of_same rfl rfl,rfl,rfl⟩

theorem idles_fire (s : Session) (i : Nat) : s.Idles (s.fire i).1 := by
  unfold fire
  split
  · exact .refl s
  · dsimp only
    split
    · exact ⟨retains_of_same rfl rfl,rfl,rfl⟩
    · rename_i ht
      exact ⟨retains_wake ht _ _,callbacks_take _ _ _,rfl⟩

theorem idles_advanceTo (s : Session) (target : Int) : s.Idles (s.advanceTo target).1 := by
  unfold advanceTo
  split
  · exact idles_setClock s target
  · exact (idles_setClock s _).trans (idles_fire _ _)

theorem idles_call (s : Session) (c : Call) : s.Idles (s.call c).1 := by
  unfold call
  dsimp only
  split
  · exact (idles_note s _).trans (idles_note _ _)
  · exact idles_note s _

theorem idles_tell (s : Session) (c : Callback) (e : Event) (id : String) : s.Idles (s.tell c e id).1 := by
  obtain ⟨x,-,heq⟩ := s.tell_eq c e id
  rw [heq]
  exact idles_note s x

theorem Idles.frank (h : s.Idles s') (tasks : List Task) (r : Reply) : (s'.ok tasks r).Frank s :=
  ⟨h.callbacks,h.listeners,fun tasks _ _ => h.retains.heralds tasks,nofun⟩

theorem Idles.failed (h : s.Idles s') (f : Failure) : (s'.failed f).Frank s :=
  ⟨h.callbacks,h.listeners,nofun,fun _ _ => h.retains⟩

theorem frank_next (hw : s.world.Apart) (k : Nat) (r : Reply) : ((s.next k).1.ok (s.next k).2 r).Frank s := by
  unfold next
  split
  · exact (Idles.refl s).frank [] r
  · rename_i w cs h
    refine ⟨callbacks_next? h,rfl,?_,nofun⟩
    rintro _ _ ⟨⟩
    exact (alters_next? hw h).heralds ⟨.notify .state (Entry.idOf k),by simp,rfl⟩

theorem frank_perform (hw : s.world.Apart) (subject : Option String) {c : Command} (hc : c.isFrank = true) :
    (s.perform subject c).Frank s := by
  -- the commands of scripts only look, and may fail; of the others only one for an input does
  by_cases hlooks : c.looks = true
  · obtain ⟨text,hr⟩ := perform_looks s subject hlooks
    have hidles : s.Idles (s.beside [] text) := ⟨retains_of_same rfl rfl,rfl,rfl⟩
    obtain ⟨r,hr⟩ | ⟨f,hr⟩ := hr
    · rw [hr]
      exact hidles.frank [] r
    · rw [hr]
      exact hidles.failed f
  · cases c with
    | advance ms => exact (Idles.refl s).frank _ _
    | tick ms => exact (idles_setClock s _).frank _ _
    | fire i =>
      simp only [perform]
      split
      · exact (Idles.refl s).frank _ _
      · exact (idles_fire s _).frank _ _
    | setInput r text =>
      simp only [perform]
      split
      · exact (Idles.refl s).frank _ _
      · rename_i k _
        simp only [onEntry]
        split
        · exact (Idles.refl s).failed _
        · rename_i w h
          refine ⟨callbacks_setInput h,rfl,?_,?_⟩
          · rintro _ _ ⟨⟩
            exact (alters_setInput hw h).heralds ⟨.notify .state (Entry.idOf k),by simp,rfl⟩
          · rintro _ ⟨⟩
    | next r =>
      simp only [perform]
      split
      · exact (Idles.refl s).frank _ _
      · exact frank_next hw _ _
    | notify r => exact (Idles.refl s).frank _ _
    | _ => exact absurd hc hlooks

theorem frank_task (hw : s.world.Apart) (ht : t.isFrank = true) : (s.task t).Frank s := by
  cases t with
  | command subject c => exact frank_perform hw subject ht
  | call c => exact (idles_call s c).frank _ _
  | tell c e id => exact (idles_tell s c e id).frank _ _
  | proceed k =>
    simp only [task, proceed]
    split
    · split
      · exact frank_next hw k _
      · exact (Idles.refl s).frank _ _
    · exact (Idles.refl s).frank _ _
  | advanceTo target => exact (idles_advanceTo s target).frank _ _
  | notify e id => exact (Idles.refl s).frank _ _
  | fail => exact (Idles.refl s).failed _
  | caught site => exact (Idles.refl s).frank _ _

theorem isFrank_of_isSequel (h : t.isSequel = true) : t.isFrank = true ∧ t.isSafe = true := by
  cases t <;> first | exact ⟨rfl,rfl⟩ | contradiction

theorem frank_scripted {p : Script} (hp : p.Looks) (subject : Option String) (site : Site) (hrest : Firm rest) :
    (∀ u ∈ scripted p subject site, u.isFrank = true) ∧ Firm (scripted p subject site ++ rest) := by
  constructor
  · intro u hu
    obtain ⟨c,hc,rfl⟩ | rfl | rfl := mem_scripted hu
    · exact Command.isFrank_of_looks (hp c hc)
    · rfl
    · rfl
  · have hscript : ∀ u ∈ p.steps.map (Task.command subject) ++ (if p.fails then [Task.fail] else []),
        u.word? = none ∧ u.isEnd = false := by
      intro u hu
      refine ⟨?_,not_isEnd (inScript_of_mem hu)⟩
      obtain hu | hu := List.mem_append.mp hu
      · obtain ⟨c,hc,rfl⟩ := List.mem_map.mp hu
        exact word?_of_looks (hp c hc)
      · split at hu
        · rw [List.mem_singleton.mp hu]
          rfl
        · contradiction
    have hfirm : Firm (p.steps.map (Task.command subject) ++ (if p.fails then [Task.fail] else []) ++
        .caught site :: rest) := firm_script hscript hrest
    simpa [scripted] using hfirm

theorem frank_left {reply : Reply} (hc : s.world.callbacks = [.observer]) (hl : ∀ p ∈ s.listeners, p.2.Looks)
    (ht : t.isFrank = true) (h : (s.task t).outcome = .ok (tasks,reply)) (hrest : Firm rest) :
    (∀ u ∈ tasks, u.isFrank = true) ∧ Firm (tasks ++ rest) := by
  have hplain : ∀ {xs : List Task}, (∀ u ∈ xs, u.isFrank = true ∧ u.isSafe = true) →
      (∀ u ∈ xs, u.isFrank = true) ∧ Firm (xs ++ rest) := fun hxs =>
    ⟨fun u hu => (hxs u hu).1,firm_append (fun u hu => (hxs u hu).2) hrest⟩
  have hsequel : ∀ {xs : List Task}, (∀ u ∈ xs, u.isSequel = true) →
      (∀ u ∈ xs, u.isFrank = true) ∧ Firm (xs ++ rest) := fun hxs =>
    hplain fun u hu => isFrank_of_isSequel (hxs u hu)
  cases t with
  | command subject c => exact hsequel (sequel_perform s subject c tasks reply h)
  | call c =>
    cases h
    obtain ⟨a,l⟩ := c
    cases l with
    | named name => exact frank_scripted (forall_script? hl name) _ _ hrest
    | entry k => exact hplain (by simp [isFrank, isSafe])
  | tell c e id =>
    obtain rfl : c = .observer := beq_iff_eq.mp ht
    cases h
    exact hplain (by simp)
  | notify e id =>
    cases h
    rw [hc]
    exact hplain (by simp [isFrank, isSafe])
  | proceed k =>
    cases h
    exact hsequel (isSequel_proceed s k)
  | advanceTo target =>
    cases h
    exact hsequel (isSequel_advanceTo s target)
  | fail => contradiction
  | caught site =>
    cases h
    exact hplain (by simp)

/-- Only the one who watches is told of what happens, and nothing is left to be done but what is frank. -/
structure Attended (s : Session) (tasks : List Task) : Prop where
  reached : Reached s tasks
  callbacks : s.world.callbacks = [.observer]
  listeners : ∀ p ∈ s.listeners, p.2.Looks
  frank : ∀ t ∈ tasks, t.isFrank = true
  firm : Firm tasks

theorem step_ok {reply : Reply} (h : s.task t = ⟨s',.ok (tasks,reply)⟩) (rest : List Task) :
    s.step t rest = (s',tasks ++ rest) := by
  simp only [Session.step, h]

theorem step_error {f : Failure} (h : s.task t = ⟨s',.error f⟩) (rest : List Task) :
    s'.Idles (s.step t rest).1 ∧ (s.step t rest).2 = spared rest := by
  simp only [Session.step, h, spared]
  cases unwind rest with
  | none => exact ⟨.refl s',rfl⟩
  | some p => exact ⟨idles_note s' _,rfl⟩

theorem Attended.step (h : Attended s (t :: rest)) : Attended (s.step t rest).1 (s.step t rest).2 ∧
    s.world.Heralds (s.step t rest).1.world (s.step t rest).2 := by
  have ht := h.frank t List.mem_cons_self
  have hrest : ∀ u ∈ rest, u.isFrank = true := fun u hu => h.frank u (List.mem_cons_of_mem _ hu)
  have hfrank := frank_task h.reached.apart ht
  have hreached := h.reached.work
  cases hr : s.task t with
  | mk s' outcome =>
    rw [hr] at hfrank
    have hcallbacks := hfrank.callbacks.trans h.callbacks
    have hlisteners : ∀ p ∈ s'.listeners, p.2.Looks := hfrank.listeners ▸ h.listeners
    cases outcome with
    | ok p =>
      obtain ⟨tasks,reply⟩ := p
      obtain ⟨htasks,hfirm⟩ := frank_left h.callbacks h.listeners ht (by rw [hr]) h.firm.2
      rw [step_ok hr] at hreached ⊢
      refine ⟨⟨hreached,hcallbacks,hlisteners,fun u hu => ?_,hfirm⟩,
        (hfrank.heralds tasks reply rfl).mono fun u hu => List.mem_append_left _ hu⟩
      obtain hu | hu := List.mem_append.mp hu
      · exact htasks u hu
      · exact hrest u hu
    | error f =>
      obtain ⟨hidles,hspared⟩ := step_error hr rest
      have hsuffix := spared_suffix rest
      rw [hspared] at hreached ⊢
      exact ⟨⟨hreached,hidles.callbacks.trans hcallbacks,hidles.listeners ▸ hlisteners,
        fun u hu => hrest u (hsuffix.mem hu),h.firm.2.suffix hsuffix⟩,
        ((hfrank.fails f rfl).trans hidles.retains).heralds _⟩

theorem passes_on (hc : s.world.callbacks = [.observer]) (hword : t.word? = some id) :
    t = .tell .observer .state id ∨ ∃ tasks, s.task t = ⟨s,.ok (tasks,.done)⟩ ∧ Promised id tasks := by
  unfold word? at hword
  split at hword
  · cases hword
    exact .inr ⟨_,rfl,_,List.mem_cons_self,rfl⟩
  · cases hword
    refine .inr ⟨_,rfl,.tell .observer .state id,?_,rfl⟩
    rw [hc]
    exact List.mem_cons_self
  · cases hword
    exact .inl rfl
  · contradiction

/-- What is promised is done, or is promised still. -/
theorem Attended.promised (h : Attended s (t :: rest)) (hp : Promised id (t :: rest)) :
    t = .tell .observer .state id ∨ Promised id (s.step t rest).2 := by
  obtain ⟨u,hu,hword⟩ := hp
  obtain rfl | hu := List.mem_cons.mp hu
  · obtain htell | ⟨tasks,hr,hpromised⟩ := passes_on h.callbacks hword
    · exact .inl htell
    · rw [step_ok hr]
      exact .inr (hpromised.mono fun _ => List.mem_append_left _)
  refine .inr ?_
  cases hr : s.task t with
  | mk s' outcome =>
    cases outcome with
    | ok p =>
      rw [step_ok hr]
      exact ⟨u,List.mem_append_right _ hu,hword⟩
    | error f =>
      rw [(step_error hr rest).2]
      exact h.firm.1 (not_isSafe_of_error (congrArg Turn.outcome hr)) id ⟨u,hu,hword⟩

end Session
end Countdown
