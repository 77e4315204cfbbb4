import Countdown.Proofs.Session.Moves
set_option autoImplicit false

namespace Countdown

def Listener.isNamed : Listener → Bool
  | .named _ => true
  | .entry _ => false

/-- The listeners of a timer that have names. -/
def Timer.audience (t : Timer) : List Listener := t.listeners.filter Listener.isNamed

theorem Timer.audience_of_listeners {t u : Timer} (h : t.listeners = u.listeners) : t.audience = u.audience := by
  rw [audience, audience, h]

namespace World

def audience (w : World) (n : Nat) : List Listener := ((w.timers[n]?).map Timer.audience).getD []

/-- Each timer has the audience that it had, and announcements are for that. -/
structure Hears (w w' : World) : Prop where
  audience : ∀ n, w'.audience n = w.audience n
  told : ∃ ns, w'.journal = w.journal ++ ns ∧
    ∀ n t now, .announced n t now ∈ ns → t.audience = w.audience n

variable {w w' w'' : World} {n k : Nat} {t u : Timer} {e : Entry}

theorem audience_eq (h : w.timers[n]? = some t) : w.audience n = t.audience := by
  rw [audience, h]
  rfl

theorem audience_setTimer (w : World) (n : Nat) (u : Timer) (m : Nat) :
    (w.setTimer n u).audience m = if n = m ∧ m < w.timers.length then u.audience else w.audience m := by
  simp only [audience, setTimer, List.getElem?_set]
  by_cases hm : n = m
  · subst hm
    by_cases hlt : n < w.timers.length
    · simp [hlt]
    · simp [hlt]
  · simp [hm]

theorem audience_set (hu : u.audience = w.audience n) (m : Nat) : (w.setTimer n u).audience m = w.audience m := by
  rw [audience_setTimer]
  split
  · rename_i hm
    rw [hu, hm.1]
  · rfl

theorem audience_append (w : World) (ht : t.listeners = []) (m : Nat) :
    ({ w with timers := w.timers ++ [t] } : World).audience m = w.audience m := by
  unfold audience
  obtain hlt | rfl | hgt := Nat.lt_trichotomy m w.timers.length
  · rw [List.getElem?_append_left hlt]
  · simp [Timer.audience, ht]
  · rw [List.getElem?_eq_none (by simp; omega), List.getElem?_eq_none (by omega)]

theorem Hears.trans (h : w.Hears w') (h' : w'.Hears w'') : w.Hears w'' where
  audience n := (h'.audience n).trans (h.audience n)
  told := by
    obtain ⟨ns,hns,htold⟩ := h.told
    obtain ⟨ms,hms,htold'⟩ := h'.told
    refine ⟨ns ++ ms,by rw [hms, hns, List.append_assoc],fun n t now hmem => ?_⟩
    obtain hmem | hmem := List.mem_append.mp hmem
    · exact htold n t now hmem
    · exact (htold' n t now hmem).trans (h.audience n)

theorem hears_of_journal (ha : ∀ n, w'.audience n = w.audience n) (hj : w'.journal = w.journal) : w.Hears w' :=
  ⟨ha,[],by rw [hj, List.append_nil],by simp⟩

theorem hears_aside (ht : w'.timers = w.timers) (hj : w'.journal = w.journal) : w.Hears w' :=
  hears_of_journal (fun n => by rw [audience, ht, audience]) hj

theorem Hears.refl (w : World) : w.Hears w := hears_aside rfl rfl

theorem hears_note {x : Note} (hx : ∀ n, x.announces n = false) : w.Hears (w.note x) := by
  refine ⟨fun _ => rfl,[x],rfl,fun n t now hmem => ?_⟩
  have := hx n
  simp [← List.mem_singleton.mp hmem, Note.announces] at this

theorem hears_add (w : World) (ht : t.listeners = []) : w.Hears { w with timers := w.timers ++ [t] } :=
  hears_of_journal (audience_append w ht) rfl

theorem hears_put {p : Timer × Timeline} (hp : ∀ t, w.timers[n]? = some t → p.1.listeners = t.listeners) :
    w.Hears (w.put n p) := by
  refine hears_of_journal (fun m => ?_) rfl
  change (w.setTimer n p.1).audience m = w.audience m
  rw [audience_setTimer]
  split
  · rename_i hm
    obtain ⟨rfl,hlt⟩ := hm
    have ht := List.getElem?_eq_getElem hlt
    rw [Timer.audience_of_listeners (hp _ ht), audience_eq ht]
  · rfl

theorem hears_take {f : Timer.Effect} (ht : w.timers[n]? = some t) (hf : f.timer.listeners = t.listeners) :
    w.Hears (w.take n f).1 := by
  have haudience : f.timer.audience = w.audience n := (Timer.audience_of_listeners hf).trans (audience_eq ht).symm
  have hcleared : w.Hears (w.cleared n f) := by
    have hset : w.Hears { w.setTimer n f.timer with line := f.line } := hears_of_journal (audience_set haudience) rfl
    unfold cleared
    dsimp only
    split
    · exact hset.trans (hears_note fun _ => rfl)
    · exact hset
  rw [take_eq]
  cases f.announced with
  | none => exact hcleared
  | some ls =>
    refine hcleared.trans ⟨fun _ => rfl,[.announced n f.timer f.line.now],rfl,fun m u now hmem => ?_⟩
    cases List.mem_singleton.mp hmem
    exact haudience.trans (hcleared.audience n).symm

theorem hears_addEntry (w : World) (n : Nat) (input : String) (queue : Option Queue) :
    w.Hears (w.addEntry n input queue).1 := by
  refine hears_of_journal (fun m => ?_) rfl
  simp only [audience, addEntry, List.getElem?_modify]
  cases w.timers[m]? with
  | none => rfl
  | some u =>
    by_cases hm : n = m
    · simp [hm, Timer.audience, Timer.listen, Listener.isNamed]
    · simp [hm]

theorem Moves.hears {replaced : Option Nat} (h : Moves none replaced w w') : w.Hears w' := by
  induction h with
  | refl w => exact .refl w
  | trans _ _ ih ih' => exact ih.trans ih'
  | take ht hf => exact hears_take ht hf
  | put hp => exact hears_put hp
  | add ht => exact hears_add _ ht
  | attend t hn => contradiction
  | enter n input queue => exact hears_addEntry _ n input queue
  | spend n input => exact hears_aside rfl rfl
  | list listed _ => exact hears_aside rfl rfl
  | goOn queue _ _ => exact hears_aside rfl rfl
  | replace input queue _ _ => exact hears_aside rfl rfl
  | note hx => exact hears_note hx
  | aside ht _ hj => exact hears_aside ht hj

end World

namespace Task

def registers? (s : Session) (n : Nat) : Task → Option String
  | .command _ (.listen name _ _) => if s.focus = n ∧ n < s.world.timers.length then some name else none
  | _ => none

def withdraws? (s : Session) (n : Nat) : Task → Option String
  | .command _ (.unlisten name) => match s.registered.find? fun p => p.1 == name with
    | some (_, m) => if m = n then some name else none
    | none => none
  | _ => none

end Task

namespace Session
open World

/-- What a task makes of the audience of timer `n`, and to whom it announces the end of that timer. -/
structure Heeds (s : Session) (t : Task) (n : Nat) (w : World) : Prop where
  audience : w.audience n =
    ((t.withdraws? s n).elim (s.world.audience n) fun name => (s.world.audience n).erase (.named name)) ++
      ((t.registers? s n).map .named).toList
  told : ∃ ns, w.journal = s.world.journal ++ ns ∧
    ∀ u now, .announced n u now ∈ ns → u.audience = s.world.audience n

theorem audience_focused (s : Session) : s.focused.audience = s.world.audience s.focus := by
  rw [focused, List.getD_eq_getElem?_getD, World.audience]
  cases s.world.timers[s.focus]? <;> rfl

theorem heeds_listen (s : Session) (subject : Option String) (name : String) (steps : List Command) (fails : Bool)
    (n : Nat) : let t := Task.command subject (.listen name steps fails)
    s.Heeds t n (s.task t).session.world := by
  intro t
  refine ⟨?_,[],(List.append_nil _).symm,by simp⟩
  have hlisten : (s.focused.listen (.named name)).audience = s.world.audience s.focus ++ [.named name] := by
    rw [← s.audience_focused]
    simp [Timer.audience, Timer.listen, Listener.isNamed]
  change (s.world.setTimer s.focus (s.focused.listen (.named name))).audience n =
    s.world.audience n ++ ((t.registers? s n).map .named).toList
  rw [audience_setTimer]
  simp only [t, Task.registers?]
  split
  · rename_i hn
    rw [hlisten, hn.1]
    rfl
  · simp

theorem heeds_unlisten (s : Session) (subject : Option String) (name : String) (n : Nat) :
    let t := Task.command subject (.unlisten name)
    s.Heeds t n (s.task t).session.world := by
  intro t
  have hjournal : (s.task t).session.world.journal = s.world.journal := by
    simp only [t, task, perform, onFocus]
    split
    · rfl
    · split <;> rfl
  refine ⟨?_,[],by rw [hjournal, List.append_nil],by simp⟩
  simp only [t, task, perform, onFocus, Task.withdraws?]
  refine Eq.trans ?_ (List.append_nil _).symm
  cases s.registered.find? fun p => p.1 == name with
  | none => rfl
  | some p =>
    obtain ⟨x,m⟩ := p
    dsimp only
    cases ht : s.world.timers[m]? with
    | none =>
      by_cases hm : m = n
      · subst hm
        simp [ok, World.audience, ht]
      · simp [ok, hm]
    | some u =>
      have hlt := (List.getElem?_eq_some_iff.mp ht).1
      have hunlisten : (u.unlisten (.named name)).audience = (s.world.audience m).erase (.named name) := by
        rw [audience_eq ht]
        exact List.erase_filter.symm
      change (s.world.setTimer m (u.unlisten (.named name))).audience n = _
      rw [audience_setTimer]
      by_cases hm : m = n
      · subst hm
        simp [hlt, hunlisten]
      · simp [hm]

theorem heeds_other {s : Session} {t : Task} {n : Nat} (ha : t.attends? s = none) (hr : t.registers? s n = none)
    (hw : t.withdraws? s n = none) : s.Heeds t n (s.task t).session.world := by
  have hmoves := moves_task s t
  rw [ha] at hmoves
  obtain ⟨haudience,ns,hjournal,htold⟩ := hmoves.hears
  refine ⟨?_,ns,hjournal,fun u now => htold n u now⟩
  rw [hr, hw, haudience n]
  exact (List.append_nil _).symm

theorem heeds_task (s : Session) (t : Task) (n : Nat) : s.Heeds t n (s.task t).session.world := by
  cases t with
  | command subject c => cases c with
    | listen name steps fails => exact heeds_listen s subject name steps fails n
    | unlisten name => exact heeds_unlisten s subject name n
    | _ => exact heeds_other rfl rfl rfl
  | _ => exact heeds_other rfl rfl rfl

theorem heeds_step (s : Session) (t : Task) (rest : List Task) (n : Nat) :
    s.Heeds t n (s.step t rest).1.world := by
  obtain ⟨haudience,ns,hjournal,htold⟩ := heeds_task s t n
  obtain hworld | ⟨l,hworld⟩ := step_world s t rest
  · rw [hworld]
    exact ⟨haudience,ns,hjournal,htold⟩
  · rw [hworld]
    refine ⟨haudience,ns ++ [.logged l],?_,fun u now hmem => ?_⟩
    · rw [World.log, World.note, hjournal, List.append_assoc]
    · exact htold u now (by simpa using hmem)

end Session
end Countdown
