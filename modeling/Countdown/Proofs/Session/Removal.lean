import Countdown.Proofs.Session.Caught
import Countdown.Proofs.Session.Growth
import Countdown.Proofs.Timer.Life
set_option autoImplicit false

/-!
A timer that was removed stays removed. Its wakes may still be fired and whoever holds it may still act on it,
but it is closed, so its end is not announced, its entry goes on to no further duration, and no wake of it is
still to come.
-/

namespace Countdown

namespace Timer

variable {t : Timer} {n : Nat} {line : Timeline}

theorem Shaped.closed_applyAction (h : t.Shaped) {a : Action} (ha : a.Sound) (hc : t.closed = true) :
    (Session.applyAction t n a line).1.timer.closed = true := by
  have hconsistent : ∀ f, a = .setFields f → f.Consistent := by
    rintro f rfl
    exact ha
  have hlife : (Session.applyAction t n a line).1.timer.closed = (t.life.after a).closed :=
    congrArg Life.closed (h.life_applyAction hconsistent)
  have hafter : (t.life.after a).closed = true := by
    unfold Life.after
    split
    · cases a <;> first
        | rfl
        | exact hc
    · exact hc
  exact hlife.trans hafter

theorem closed_wake (t : Timer) (n g : Nat) (line : Timeline) : (t.wake n g line).timer.closed = t.closed :=
  congrArg Life.closed (life_wake t n g line)

theorem Guarded.live_of_closed (k : t.Guarded n line) (hc : t.closed = true) : line.live n = [] := by
  refine k.keeps.live_eq_nil ?_
  cases hp : t.alarm.pending with
  | none => rfl
  | some i =>
    have hopen := (k.keeps.held i hp).1
    rw [k.closed, hc] at hopen
    contradiction

end Timer

namespace World

variable {w w' : World} {k m n : Nat} {t : Timer} {made due : List Call}

/-- The timer of an entry is closed. -/
structure Retired (w : World) (k n : Nat) : Prop where
  owner : w.owner? k = some n
  closed : ∃ t, w.timers[n]? = some t ∧ t.closed = true

theorem Retired.set (h : w.Retired k n) {u : Timer} (ht : w.timers[m]? = some t) (hu : t.closed = true → u.closed = true)
    (htimers : w'.timers = w.timers.set m u) (hentries : w'.entries = w.entries) : w'.Retired k n := by
  obtain ⟨v,hv,hclosed⟩ := h.closed
  refine ⟨(owner?_of_entries hentries k).trans h.owner,?_⟩
  rw [htimers]
  by_cases hm : m = n
  · subst hm
    rw [ht] at hv
    cases hv
    exact ⟨u,List.getElem?_set_self (List.getElem?_eq_some_iff.mp ht).1,hu hclosed⟩
  · exact ⟨v,(List.getElem?_set_ne hm).trans hv,hclosed⟩

theorem Retired.take (h : w.Retired k n) (hw : w.Wired) {e : Timer.Effect} (ht : w.timers[m]? = some t)
    (he : e.Latches t) (hl : e.timer.listeners = t.listeners) (hc : t.closed = true → e.timer.closed = true) :
    (w.take m e).1.Retired k n ∧ ∀ c ∈ (w.take m e).2, c.listener ≠ .entry k := by
  refine ⟨h.set ht hc (timers_take w m e) (entries_take w m e),fun c hcall hk => ?_⟩
  rw [take_eq] at hcall
  cases hannounced : e.announced with
  | none =>
    rw [hannounced] at hcall
    contradiction
  | some ls =>
    obtain ⟨hls,-,hopen,-⟩ := he.told ls hannounced
    simp only [hannounced, List.mem_map] at hcall
    obtain ⟨l,hmem,rfl⟩ := hcall
    obtain rfl : l = .entry k := hk
    rw [hls, hl] at hmem
    obtain rfl : m = n := Option.some.inj ((hw.listeners m t k ht hmem).symm.trans h.owner)
    obtain ⟨v,hv,hclosed⟩ := h.closed
    rw [ht] at hv
    cases hv
    rw [hc hclosed] at hopen
    contradiction

theorem Retired.change (h : w.Retired k n) (hg : w.Guarded) (hw : w.Wired) (hc : w.Change made due w') :
    w'.Retired k n ∧ ∀ c ∈ due, c.listener ≠ .entry k := by
  obtain ⟨v,hv,hclosed⟩ := h.closed
  cases hc with
  | @act m t a ht ha =>
    exact h.take hw ht (applyAction_latches t m a w.line) (listeners_applyAction t m a w.line)
      ((hg.timers m t ht).shaped.closed_applyAction ha)
  | @ring i x t hx ht =>
    refine h.take hw ht (Timer.wake_latches _ _ _ _) ?_ fun hclosed => ?_
    · unfold Timer.wake
      split
      · rfl
      · exact listeners_check _ _ _ _
    · rw [Timer.closed_wake, hclosed]
  | orphan _ _ => exact ⟨⟨h.owner,v,hv,hclosed⟩,by simp⟩
  | clock now => exact ⟨⟨h.owner,v,hv,hclosed⟩,by simp⟩
  | add d _ => exact ⟨⟨h.owner,v,List.getElem?_append_left (List.getElem?_eq_some_iff.mp hv).1 ▸ hv,hclosed⟩,by simp⟩
  | @listeners m t ls ht _ => exact ⟨h.set (u := { t with listeners := ls }) ht id rfl rfl,by simp⟩
  | note _ => exact ⟨⟨h.owner,v,hv,hclosed⟩,by simp⟩
  | call c => exact ⟨⟨h.owner,v,hv,hclosed⟩,by simp⟩
  | aside htimers _ _ hextends => exact ⟨⟨hextends.kept k n h.owner,v,htimers ▸ hv,hclosed⟩,by simp⟩

theorem Retired.changes (h : w.Retired k n) (hg : w.Guarded) (hw : w.Wired) (hc : w.Changes made due w') :
    w'.Retired k n ∧ ∀ c ∈ due, c.listener ≠ .entry k := by
  induction hc with
  | refl => exact ⟨h,by simp⟩
  | head c _ ih =>
    obtain ⟨h₁,hdue⟩ := h.change hg hw c
    obtain ⟨h₂,hdue'⟩ := ih h₁ (hg.change c) (hw.change c)
    refine ⟨h₂,fun x hx => ?_⟩
    obtain hx | hx := List.mem_append.mp hx
    · exact hdue x hx
    · exact hdue' x hx

theorem owner?_of_getElem? {e : Entry} (he : w.entries[k]? = some e) : w.owner? k = some e.timer := by
  simp [owner?, he]

theorem unlist_retired (hw : w.Wired) {e : Entry} (he : w.entries[k]? = some e) :
    (w.unlist k).entries[k]? = some { e with listed := false } ∧ (w.unlist k).Retired k e.timer := by
  have hlt := hw.timers k e.timer (owner?_of_getElem? he)
  obtain ⟨t,ht⟩ : ∃ t, w.timers[e.timer]? = some t := ⟨_,List.getElem?_eq_getElem hlt⟩
  have htimer : w.timerOf? k = some (e.timer,t) := by simp [timerOf?, he, ht]
  have hentry : (w.unlist k).entries[k]? = some { e with listed := false } := by
    simp only [unlist, he, htimer]
    exact List.getElem?_set_self (List.getElem?_eq_some_iff.mp he).1
  refine ⟨hentry,by simp [owner?, hentry],(t.close w.line).1,?_,rfl⟩
  simp only [unlist, he, htimer]
  exact List.getElem?_set_self hlt

theorem entries_unlist (w : World) (h : m ≠ k) : (w.unlist m).entries[k]? = w.entries[k]? := by
  unfold unlist
  split
  · exact List.getElem?_set_ne h
  · rfl

theorem unlistAll_retired (hg : w.Guarded) (hw : w.Wired) {e : Entry} (he : w.entries[k]? = some e)
    (hl : e.listed = true) :
    w.unlistAll.entries[k]? = some { e with listed := false } ∧ w.unlistAll.Retired k e.timer := by
  have hmem : k ∈ w.listed :=
    List.mem_filter.mpr ⟨List.mem_range.mpr (List.getElem?_eq_some_iff.mp he).1,by simp [he, hl]⟩
  unfold unlistAll
  generalize w.listed = ks at hmem
  induction ks generalizing w with
  | nil => contradiction
  | cons m ks ih =>
    have hquiet := quiet_unlist w m
    have hg₁ : (w.unlist m).Guarded := hquiet.keeps (fun _ _ _ _ h c => h.change c) hg
    have hw₁ : (w.unlist m).Wired := hquiet.keeps (fun _ _ _ _ h c => h.change c) hw
    by_cases hm : m = k
    · subst hm
      obtain ⟨hentry,hretired⟩ := unlist_retired hw he
      -- what is still to be done spares an entry that is off the list
      exact ⟨(grows_unlists ks _).unlisted _ _ hentry rfl,(hretired.changes hg₁ hw₁ (quiet_unlists ks _)).1⟩
    · obtain hk | hk := List.mem_cons.mp hmem
      · exact absurd hk.symm hm
      · exact ih hg₁ hw₁ ((entries_unlist w hm).trans he) hk

end World

def Task.finish? : Task → Option String
  | .notify .finished id | .tell _ .finished id => some id
  | _ => none

namespace Session
open Countdown.Task World

variable {s₀ s s' : Session} {t : Task} {tasks rest : List Task} {k : Nat} {e : Entry} {id : String}

theorem finish?_of_isSequel (h : t.isSequel = true) : t.finish? = none := by
  cases t with
  | notify e id => cases e <;> first | rfl | contradiction
  | _ => first | rfl | contradiction

theorem finish?_scripted (p : Script) (subject : Option String) (site : Site) :
    ∀ t ∈ scripted p subject site, t.finish? = none := by
  intro t ht
  simp only [scripted, List.mem_append, List.mem_map] at ht
  obtain (⟨c,-,rfl⟩ | ht) | ht := ht
  · rfl
  · split at ht
    · rw [List.mem_singleton.mp ht]
      rfl
    · contradiction
  · rw [List.mem_singleton.mp ht]
    rfl

/-- Others are told of an end by one who is being told of it, or by the entry that was called about it. -/
theorem finish?_task {reply : Reply} (h : (s.task t).outcome = .ok (tasks,reply)) {u : Task} (hu : u ∈ tasks)
    (hid : u.finish? = some id) : t.finish? = some id ∨ ∃ c k, t = .call c ∧ c.listener = .entry k ∧ id = Entry.idOf k := by
  have hno : u.finish? = none → False := by
    intro hnone
    rw [hnone] at hid
    contradiction
  cases t with
  | command subject c => exact (hno (finish?_of_isSequel (sequel_perform s subject c tasks reply h u hu))).elim
  | call c =>
    cases h
    obtain ⟨a,l⟩ := c
    cases l with
    | named name => exact (hno (finish?_scripted _ _ _ u hu)).elim
    | entry k =>
      simp only [List.mem_cons, List.not_mem_nil, or_false] at hu
      obtain rfl | rfl | rfl := hu
      · exact .inr ⟨_,k,rfl,rfl,(Option.some.inj hid).symm⟩
      · contradiction
      · contradiction
  | tell c e id' =>
    cases h
    cases c with
    | named name => exact (hno (finish?_scripted _ _ _ u hu)).elim
    | observer => contradiction
  | notify e id' =>
    cases h
    obtain ⟨c,-,rfl⟩ := List.mem_map.mp hu
    cases e with
    | finished => exact .inl hid
    | _ => contradiction
  | proceed k =>
    cases h
    exact (hno (finish?_of_isSequel (isSequel_proceed s k u hu))).elim
  | advanceTo target =>
    cases h
    exact (hno (finish?_of_isSequel (isSequel_advanceTo s target u hu))).elim
  | fail => contradiction
  | caught site =>
    cases h
    contradiction

theorem finish?_step (h : ∀ u ∈ t :: rest, u.finish? ≠ some (Entry.idOf k))
    (hcall : ∀ c ∈ t.call?, c.listener ≠ .entry k) : ∀ u ∈ (s.step t rest).2, u.finish? ≠ some (Entry.idOf k) := by
  have hrest : ∀ u ∈ rest, u.finish? ≠ some (Entry.idOf k) := fun u hu => h u (List.mem_cons_of_mem _ hu)
  unfold step
  cases hr : s.task t with
  | mk s' outcome =>
    cases outcome with
    | ok p =>
      obtain ⟨tasks,reply⟩ := p
      intro u hu hid
      obtain hu | hu := List.mem_append.mp hu
      · have hok : (s.task t).outcome = .ok (tasks,reply) := by rw [hr]
        obtain hsame | ⟨c,l,rfl,hl,heq⟩ := finish?_task hok hu hid
        · exact h t List.mem_cons_self hsame
        · exact hcall c rfl (idOf_injective heq ▸ hl)
      · exact hrest u hu hid
    | error f =>
      dsimp only
      cases hu : unwind rest with
      | none => simp
      | some p => exact fun u hmem => hrest u ((unwind_suffix hu).mem hmem)

/-- What can be got to from a session when any timer may be taken in hand at any time, also one that is no
longer on the list. -/
inductive Roams (s₀ : Session) : Session → List Task → Prop where
  | start : Roams s₀ s₀ []
  | hold {s : Session} {tasks : List Task} (n : Nat) : Roams s₀ s tasks → Roams s₀ { s with focus := n } tasks
  | ask {s : Session} {tasks : List Task} (subject : Option String) {c : Command} :
      Roams s₀ s tasks → (∀ t ∈ tasks.head?, t.inScript = true ∨ t.isEnd = true) → c.Sound →
      Roams s₀ s (.command subject c :: tasks)
  | work {s : Session} {t : Task} {rest : List Task} :
      Roams s₀ s (t :: rest) → Roams s₀ (s.step t rest).1 (s.step t rest).2

structure Settled (s : Session) (tasks : List Task) : Prop where
  orderly : s.Orderly tasks
  guarded : s.world.Guarded
  wired : s.world.Wired

theorem Fresh.settled (h : s.Fresh) : s.Settled [] := ⟨h.orderly,guarded_of_fresh h,wired_of_fresh h⟩

theorem Settled.hold (h : s.Settled tasks) (n : Nat) : ({ s with focus := n } : Session).Settled tasks :=
  ⟨⟨⟨h.orderly.sound.listeners,h.orderly.sound.callbacks⟩,h.orderly.commands,h.orderly.nested⟩,h.guarded,h.wired⟩

theorem Settled.step (h : s.Settled (t :: rest)) : (s.step t rest).1.Settled (s.step t rest).2 := by
  obtain ⟨horderly,due,hc,-⟩ := h.orderly.step
  exact ⟨horderly,hc.keeps (fun _ _ _ _ h c => h.change c) h.guarded,hc.keeps (fun _ _ _ _ h c => h.change c) h.wired⟩

theorem Settled.leaves (h : s.Settled []) {w : World} (hq : s.world.Quiet w) (ht : ∀ t ∈ tasks, t.inScript = false) :
    (s.withWorld w).Settled tasks where
  orderly :=
    { sound := h.orderly.sound.withWorld w
      commands := by
        intro t hmem
        have hplain := ht t hmem
        cases t <;> trivial
      nested := by simpa using nested_append ht (show Nested [] from trivial) }
  guarded := hq.keeps (fun _ _ _ _ h c => h.change c) h.guarded
  wired := hq.keeps (fun _ _ _ _ h c => h.change c) h.wired

theorem Roams.keeps {P : Session → List Task → Prop} (h : s₀.Roams s tasks) (h₀ : P s₀ [])
    (hhold : ∀ s tasks n, P s tasks → P { s with focus := n } tasks)
    (hask : ∀ s tasks subject (c : Command), P s tasks → (∀ t ∈ tasks.head?, t.inScript = true ∨ t.isEnd = true) →
      c.Sound → P s (.command subject c :: tasks))
    (hstep : ∀ s t rest, P s (t :: rest) → P (s.step t rest).1 (s.step t rest).2) : P s tasks := by
  induction h with
  | start => exact h₀
  | hold n _ ih => exact hhold _ _ n ih
  | ask subject _ hopen hc ih => exact hask _ _ subject _ ih hopen hc
  | work _ ih => exact hstep _ _ _ ih

theorem Roams.settled (h : s₀.Roams s tasks) (h₀ : s₀.Settled []) : s.Settled tasks :=
  h.keeps h₀ (fun _ _ n h => h.hold n)
    (fun _ _ _ _ h hopen hc => ⟨h.orderly.ask hopen hc,h.guarded,h.wired⟩) fun _ _ _ h => h.step

/-- An entry is off the list with its timer closed, and since the first `seen` notes nobody was told of an end
of it, nor is anybody about to be. -/
structure Departed (k : Nat) (e : Entry) (seen : Nat) (s : Session) (tasks : List Task) : Prop where
  settled : s.Settled tasks
  entry : s.world.entries[k]? = some e
  unlisted : e.listed = false
  retired : s.world.Retired k e.timer
  calls : ∀ c ∈ awaited tasks, c.listener ≠ .entry k
  pending : ∀ t ∈ tasks, t.finish? ≠ some (Entry.idOf k)
  later : seen ≤ s.world.journal.length
  silent : ∀ x ∈ s.world.journal.drop seen, ∀ c, x.delivery? ≠ some (c,.finished,Entry.idOf k)

variable {seen : Nat}

theorem Departed.hold (h : Departed k e seen s tasks) (n : Nat) : Departed k e seen { s with focus := n } tasks :=
  { h with settled := h.settled.hold n }

theorem Departed.ask (h : Departed k e seen s tasks) (subject : Option String) {c : Command}
    (hopen : ∀ t ∈ tasks.head?, t.inScript = true ∨ t.isEnd = true) (hc : c.Sound) :
    Departed k e seen s (.command subject c :: tasks) :=
  { h with
    settled := ⟨h.settled.orderly.ask hopen hc,h.settled.guarded,h.settled.wired⟩
    calls := h.calls
    pending := by
      intro t ht
      obtain rfl | ht := List.mem_cons.mp ht
      · exact nofun
      · exact h.pending t ht }

theorem silent_append {j ns : List Note} (hle : seen ≤ j.length)
    (h : ∀ x ∈ j.drop seen, ∀ c, x.delivery? ≠ some (c,.finished,Entry.idOf k))
    (hns : ∀ x ∈ ns, ∀ c, x.delivery? ≠ some (c,.finished,Entry.idOf k)) :
    ∀ x ∈ (j ++ ns).drop seen, ∀ c, x.delivery? ≠ some (c,.finished,Entry.idOf k) := by
  intro x hx
  rw [List.drop_append_of_le_length hle] at hx
  obtain hx | hx := List.mem_append.mp hx
  · exact h x hx
  · exact hns x hx

theorem Departed.step (h : Departed k e seen s (t :: rest)) :
    Departed k e seen (s.step t rest).1 (s.step t rest).2 := by
  obtain ⟨-,due,hc,hawaited⟩ := h.settled.orderly.step
  obtain ⟨hretired,hdue⟩ := h.retired.changes h.settled.guarded h.settled.wired hc
  have hcall : ∀ c ∈ t.call?, c.listener ≠ .entry k := by
    intro c hc
    refine h.calls c ?_
    simp only [awaited, List.filterMap_cons]
    rw [hc]
    exact List.mem_cons_self
  have hcalls : ∀ c ∈ awaited (s.step t rest).2, c.listener ≠ .entry k := by
    intro c hmem
    rw [hawaited] at hmem
    obtain hmem | hmem := List.mem_append.mp hmem
    · exact hdue c hmem
    · refine h.calls c ?_
      have hsub : (awaited rest).Sublist (awaited (t :: rest)) := (List.sublist_cons_self t rest).filterMap _
      exact hsub.mem hmem
  have hpending := finish?_step (s := s) h.pending hcall
  by_cases ht : ∃ c e id, t = .tell c e id
  · obtain ⟨c,ev,id,rfl⟩ := ht
    obtain ⟨x,hx,heq⟩ := s.step_tell c ev id rest
    refine ⟨h.settled.step,?_,h.unlisted,hretired,hcalls,hpending,?_,?_⟩
    · rw [heq]
      exact h.entry
    · rw [heq]
      exact Nat.le_trans h.later (by simp [World.note, withWorld])
    · rw [heq]
      refine silent_append h.later h.silent fun y hy c' hc' => ?_
      rw [List.mem_singleton.mp hy, hx] at hc'
      cases hc'
      exact h.pending _ List.mem_cons_self rfl
  · have hgrows := s.grows_step (fun c ev id htell => ht ⟨c,ev,id,htell⟩) rest
    obtain ⟨ns,hjournal,hnone⟩ := hgrows.notes
    refine ⟨h.settled.step,hgrows.unlisted k e h.entry h.unlisted,h.unlisted,hretired,hcalls,hpending,?_,?_⟩
    · rw [hjournal, List.length_append]
      exact Nat.le_trans h.later (Nat.le_add_right _ _)
    · rw [hjournal]
      refine silent_append h.later h.silent fun x hx c hc => ?_
      rw [hnone x hx] at hc
      contradiction

theorem Roams.departed (h : s₀.Roams s tasks) (h₀ : Departed k e seen s₀ []) : Departed k e seen s tasks :=
  h.keeps h₀ (fun _ _ n h => h.hold n) (fun _ _ subject _ h hopen hc => h.ask subject hopen hc) fun _ _ _ h => h.step

/-- An entry of one session is gone from another one for good: whatever is done from then on, its queue stays
as it was, it has no live wake, and nobody is told of an end of it, nor was since the first session. -/
def Gone (s s₁ : Session) (k : Nat) : Prop :=
  ∃ e, s.world.entries[k]? = some e ∧ e.listed = true ∧ ∀ s' tasks, s₁.Roams s' tasks →
    s'.world.entries[k]? = some { e with listed := false } ∧ s'.world.line.live e.timer = [] ∧
    ∀ x ∈ s'.world.journal.drop s.world.journal.length, ∀ c, x.delivery? ≠ some (c,.finished,Entry.idOf k)

theorem Departed.gone {s s₁ : Session} (he : s.world.entries[k]? = some e) (hl : e.listed = true)
    (h : Departed k { e with listed := false } s.world.journal.length s₁ []) : s.Gone s₁ k := by
  refine ⟨e,he,hl,fun s' tasks hroams => ?_⟩
  have hdeparted := hroams.departed h
  obtain ⟨t,ht,hclosed⟩ := hdeparted.retired.closed
  exact ⟨hdeparted.entry,(hdeparted.settled.guarded.timers _ t ht).live_of_closed hclosed,hdeparted.silent⟩

theorem Roams.runOn {fuel : Nat} {cs : List (Nat × Command)} (h : s₀.Roams s []) (hc : ∀ p ∈ cs, p.2.Sound)
    (hr : s.runOn fuel cs = some s') : s₀.Roams s' [] := by
  induction cs generalizing s with
  | nil =>
    cases hr
    exact h
  | cons p cs ih =>
    obtain ⟨⟨s₁,r⟩,hp,hr⟩ := Option.bind_eq_some_iff.mp hr
    have hasked := (h.hold p.1).ask none (by simp) (hc p List.mem_cons_self)
    have h₁ : s₀.Roams s₁ [] := run_keeps (fun _ _ _ => .work) hasked hp
    exact ih h₁ (fun d hd => hc d (List.mem_cons_of_mem _ hd)) hr

theorem run_remove (h : s.world.find? id = some k) (fuel : Nat) : s.run fuel (.remove (.id id)) =
    (settle fuel (s.withWorld (s.world.unlist k)) [.notify .removed (Entry.idOf k)]).map fun s => (s,.ok (.truth true)) := by
  simp only [Session.run, perform, entry?, h, onEntry, ok]

theorem run_stopAll (s : Session) (fuel : Nat) :
    s.run fuel .stopAll = some (s.withWorld s.world.unlistAll,.ok .done) := by
  simp only [Session.run, perform, ok, settle_nil, Option.map_some]

theorem departed_of_unlisted {w : World} (hs : (s.withWorld w).Settled tasks) (hgrows : s.world.Grows w)
    (hentry : w.entries[k]? = some { e with listed := false }) (hretired : w.Retired k e.timer)
    (htasks : ∀ t ∈ tasks, t.call? = none ∧ t.finish? = none) :
    Departed k { e with listed := false } s.world.journal.length (s.withWorld w) tasks := by
  obtain ⟨ns,hjournal,hnone⟩ := hgrows.notes
  refine ⟨hs,hentry,rfl,hretired,fun c hc => ?_,fun t ht hid => ?_,?_,?_⟩
  · obtain ⟨t,ht,hcall⟩ := List.mem_filterMap.mp hc
    rw [(htasks t ht).1] at hcall
    contradiction
  · rw [(htasks t ht).2] at hid
    contradiction
  · change s.world.journal.length ≤ w.journal.length
    rw [hjournal, List.length_append]
    exact Nat.le_add_right _ _
  · change ∀ x ∈ w.journal.drop _, _
    rw [hjournal]
    refine silent_append (Nat.le_refl _) (by simp) fun x hx c hc => ?_
    rw [hnone x hx] at hc
    contradiction

/-- When a timer was removed, by itself or with all others, it is gone for good: nothing that is done later
tells of an end of it, takes a duration from its queue or leaves it a wake, whatever wakes are fired, wherever
the clock is set, and whoever still has the timer in hand. -/
theorem removal_final (h₀ : s₀.Fresh) (h : s₀.Roams s []) {fuel : Nat} {c : Command} {s₁ : Session} {r : Reply}
    (hrun : s.run fuel c = some (s₁,.ok r)) :
    (∀ id, c = .remove (.id id) → r = .truth true → ∃ k, s.world.find? id = some k ∧ s.Gone s₁ k) ∧
    (c = .stopAll → ∀ k ∈ s.world.listed, s.Gone s₁ k) := by
  have hsettled := h.settled h₀.settled
  refine ⟨?_,?_⟩
  · rintro id rfl rfl
    cases hfind : s.world.find? id with
    | none =>
      have hfalse : s.run fuel (.remove (.id id)) = some (s,.ok (.truth false)) := by
        simp only [Session.run, perform, entry?, hfind, ok, settle_nil, Option.map_some]
      rw [hfalse] at hrun
      cases hrun
    | some k =>
      obtain ⟨rfl,e,he,hl⟩ := of_find? hfind
      rw [run_remove hfind] at hrun
      obtain ⟨s₂,hset,heq⟩ := Option.map_eq_some_iff.mp hrun
      cases heq
      obtain ⟨hentry,hretired⟩ := unlist_retired hsettled.wired he
      have hafter : (s.withWorld (s.world.unlist k)).Settled [.notify .removed (Entry.idOf k)] :=
        hsettled.leaves (quiet_unlist s.world k) (by simp [inScript])
      have hdeparted := departed_of_unlisted hafter (grows_unlist _ _) hentry hretired (by simp [call?, finish?])
      exact ⟨k,rfl,(settle_keeps (fun _ _ _ h => h.step) hdeparted hset).gone he hl⟩
  · rintro rfl k hk
    obtain ⟨-,hk⟩ := List.mem_filter.mp hk
    obtain ⟨e,he,hl⟩ := Option.any_eq_true _ _ |>.mp hk
    rw [run_stopAll] at hrun
    cases hrun
    obtain ⟨hentry,hretired⟩ := unlistAll_retired hsettled.guarded hsettled.wired he hl
    have hafter : (s.withWorld s.world.unlistAll).Settled [] := hsettled.leaves (quiet_unlistAll s.world) (by simp)
    exact (departed_of_unlisted hafter (grows_unlists _ _) hentry hretired (by simp)).gone he hl

/-- A timer is removed while it is running. Its wake fires all the same when its time is over, and whoever has
it in hand takes more time from it than it has left. -/
theorem removal_final_held :
    let s₀ : Session := { world := { line := { now := 1000 }, callbacks := [.observer] } }
    let before := [(0,Command.create "1s + 2s" none),(0,.act (.id "t1") .start)]
    let after := [(0,Command.tick 2000),(0,.fire 0),(0,.act .focus .pause),(0,.act .focus .resume),
      (0,.act .focus (.add (.int (-5000)))),(0,.advance 9000)]
    ∃ s s₁ s', s₀.runOn 9 before = some s ∧ s.run 9 (.remove (.id "t1")) = some (s₁,.ok (.truth true)) ∧
      s₁.runOn 9 after = some s' ∧ s'.world.timers.map (fun t => t.phase) = [.running] ∧ s'.now = 12000 ∧
      s.Gone s₁ 0 ∧ s'.world.line.live 0 = [] := by
  intro s₀ before after
  have hfresh : s₀.Fresh := ⟨by simp [s₀],rfl,rfl,rfl,rfl,rfl⟩
  have hbefore : ∀ p ∈ before, p.2.Sound := by simp [before, Action.Sound]
  have hafter : ∀ p ∈ after, p.2.Sound := by simp [after, Action.Sound]
  have hstate : ((s₀.runOn 9 before).bind fun s => (s.run 9 (.remove (.id "t1"))).bind fun p =>
      (p.1.runOn 9 after).map fun s' => (s.world.find? "t1",s.world.owner? 0,s'.world.timers.map fun t => t.phase,s'.now)) =
      some (some 0,some 0,[.running],12000) := by decide +kernel
  obtain ⟨s,hs,hstate⟩ := Option.bind_eq_some_iff.mp hstate
  obtain ⟨⟨s₁,r⟩,hrun,hstate⟩ := Option.bind_eq_some_iff.mp hstate
  obtain ⟨s',hs',hstate⟩ := Option.map_eq_some_iff.mp hstate
  obtain ⟨hfind,hlater⟩ := Prod.mk.inj hstate
  obtain ⟨howner,hlater⟩ := Prod.mk.inj hlater
  obtain ⟨hphase,hnow⟩ := Prod.mk.inj hlater
  obtain ⟨s₂,-,heq⟩ := Option.map_eq_some_iff.mp (run_remove hfind 9 ▸ hrun)
  obtain rfl : r = .ok (.truth true) := (congrArg Prod.snd heq).symm
  obtain ⟨k,hk,hgone⟩ := (removal_final hfresh (Roams.start.runOn hbefore hs) hrun).1 "t1" rfl rfl
  rw [hfind] at hk
  cases hk
  refine ⟨s,s₁,s',hs,hrun,hs',hphase,hnow,hgone,?_⟩
  obtain ⟨e,he,-,hlater⟩ := hgone
  obtain ⟨-,hlive,-⟩ := hlater s' [] (Roams.start.runOn hafter hs')
  rw [owner?_of_getElem? he] at howner
  rwa [Option.some.inj howner] at hlive

end Session
end Countdown
