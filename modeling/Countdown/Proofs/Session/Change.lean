import Countdown.Proofs.Snapshot
import Countdown.Proofs.Timer.Announcement
set_option autoImplicit false

/-!
What can happen to the timers, the clock and the journal of a world, whatever the command. Every
operation on a world is a chain of such changes, so a fact that each of them keeps holds of all.
-/

namespace Countdown

/-- Timekeeping fields that are set must not contradict each other. -/
def Action.Sound : Action → Prop
  | .setFields f => f.Consistent
  | _ => True

def Note.isPlain : Note → Bool
  | .cleared _ | .announced _ _ _ | .called _ _ => false
  | _ => true

namespace World

def owner? (w : World) (k : Nat) : Option Nat := (w.entries[k]?).map fun e => e.timer

/-- Entries keep their timers, and a new entry is for a timer that there is. -/
structure Extends (w w' : World) : Prop where
  kept : ∀ (k n : Nat), w.owner? k = some n → w'.owner? k = some n
  added : ∀ (k n : Nat), w'.owner? k = some n → w.owner? k = some n ∨ n < w.timers.length

theorem extends_of_eq {w w' : World} (h : w'.entries = w.entries) : Extends w w' := by
  have hsame : ∀ k, w'.owner? k = w.owner? k := fun k => by simp [owner?, h]
  exact ⟨fun k n hk => by rw [hsame, hk],fun k n hk => Or.inl (by rw [← hsame, hk])⟩

theorem owner?_setEntry {w : World} {k : Nat} {e e' : Entry} (he : w.entries[k]? = some e)
    (ht : e'.timer = e.timer) (l : Nat) : (w.setEntry k e').owner? l = w.owner? l := by
  simp only [owner?, setEntry, List.getElem?_set]
  by_cases hk : k = l
  · subst hk
    rw [if_pos rfl, if_pos (List.getElem?_eq_some_iff.mp he).1, he]
    simp [ht]
  · simp [hk]

theorem extends_setEntry {w : World} {k : Nat} {e e' : Entry} (he : w.entries[k]? = some e)
    (ht : e'.timer = e.timer) : Extends w (w.setEntry k e') where
  kept l n hl := by rw [owner?_setEntry he ht, hl]
  added l n hl := Or.inl (by rw [← owner?_setEntry he ht, hl])

theorem owner?_append {w : World} (e : Entry) (k : Nat) :
    owner? { w with entries := w.entries ++ [e] } k =
      if k = w.entries.length then some e.timer else w.owner? k := by
  unfold owner?
  obtain hlt | rfl | hgt := Nat.lt_trichotomy k w.entries.length
  · have hne : k ≠ w.entries.length := by omega
    simp [List.getElem?_append_left hlt, hne]
  · simp
  · have hne : k ≠ w.entries.length := by omega
    have hnone : w.entries[k]? = none := List.getElem?_eq_none_iff.mpr (by omega)
    have hnone' : (w.entries ++ [e])[k]? = none :=
      List.getElem?_eq_none_iff.mpr (by simp only [List.length_append, List.length_singleton]; omega)
    simp [hnone, hnone', hne]

theorem owner?_lt {w : World} {k n : Nat} (h : w.owner? k = some n) : k < w.entries.length := by
  obtain ⟨e,he,-⟩ := Option.map_eq_some_iff.mp h
  exact (List.getElem?_eq_some_iff.mp he).1

theorem extends_append {w : World} {e : Entry} (h : e.timer < w.timers.length) :
    Extends w { w with entries := w.entries ++ [e] } where
  kept k n hk := by
    have hlt := owner?_lt hk
    rw [owner?_append, if_neg (by omega), hk]
  added k n hk := by
    rw [owner?_append] at hk
    split at hk
    · cases hk
      exact Or.inr h
    · exact Or.inl hk

/-- One change of a world, with the calls that are made in it and those that it asks for. -/
inductive Change : World → List Call → List Call → World → Prop where
  | act {w : World} {n : Nat} {t : Timer} {a : Action} : w.timers[n]? = some t → a.Sound →
      Change w [] (w.take n (Session.applyAction t n a w.line).1).2
        (w.take n (Session.applyAction t n a w.line).1).1
  | ring {w : World} {i : Nat} {v : Wake} {t : Timer} : w.line.wakes[i]? = some v →
      w.timers[v.owner]? = some t →
      Change w [] (w.take v.owner (t.wake v.owner v.generation (w.line.markFired i))).2
        (w.take v.owner (t.wake v.owner v.generation (w.line.markFired i))).1
  | orphan {w : World} {i : Nat} {v : Wake} : w.line.wakes[i]? = some v →
      w.timers[v.owner]? = none → Change w [] [] { w with line := w.line.markFired i }
  | clock {w : World} (now : Int) : Change w [] [] { w with line := { w.line with now := now } }
  | add {w : World} (d : Int) : 0 ≤ d →
      Change w [] [] { w with timers := w.timers ++ [{ duration := d }] }
  | listeners {w : World} {n : Nat} {t : Timer} (ls : List Listener) : w.timers[n]? = some t →
      (∀ k, .entry k ∈ ls → .entry k ∈ t.listeners ∨ w.owner? k = some n) →
      Change w [] [] (w.setTimer n { t with listeners := ls })
  | note {w : World} {x : Note} : x.isPlain = true → Change w [] [] (w.note x)
  | call {w : World} (c : Call) : Change w [c] [] (w.note (.called c w.now))
  | aside {w w' : World} : w'.timers = w.timers → w'.line = w.line → w'.journal = w.journal →
      w.Extends w' → Change w [] [] w'

inductive Changes : World → List Call → List Call → World → Prop where
  | refl (w : World) : Changes w [] [] w
  | head {w w' w'' : World} {made due made' due' : List Call} :
      Change w made due w' → Changes w' made' due' w'' → Changes w (made ++ made') (due ++ due') w''

theorem Change.single {w w' : World} {made due : List Call} (h : Change w made due w') :
    Changes w made due w' := by
  simpa using Changes.head h (Changes.refl w')

theorem Changes.trans {w w' w'' : World} {made due made' due' : List Call}
    (h : Changes w made due w') (h' : Changes w' made' due' w'') :
    Changes w (made ++ made') (due ++ due') w'' := by
  induction h with
  | refl => exact h'
  | head c _ ih =>
    rw [List.append_assoc, List.append_assoc]
    exact Changes.head c (ih h')

theorem Changes.keeps {P : World → Prop} {w w' : World} {made due : List Call}
    (hchange : ∀ (w w' : World) (made due : List Call), P w → Change w made due w' → P w')
    (h : Changes w made due w') (hw : P w) : P w' := by
  induction h with
  | refl => exact hw
  | head c _ ih => exact ih (hchange _ _ _ _ hw c)

abbrev Quiet (w w' : World) : Prop := Changes w [] [] w'

theorem Quiet.trans {w w' w'' : World} (h : Quiet w w') (h' : Quiet w' w'') : Quiet w w'' :=
  Changes.trans h h'

theorem quiet_aside {w w' : World} (ht : w'.timers = w.timers) (hl : w'.line = w.line)
    (hj : w'.journal = w.journal) (he : w'.entries = w.entries) : Quiet w w' :=
  (Change.aside ht hl hj (extends_of_eq he)).single

theorem quiet_setEntry {w : World} {k : Nat} {e e' : Entry} (he : w.entries[k]? = some e)
    (ht : e'.timer = e.timer) : Quiet w (w.setEntry k e') := by
  have hc : Change w [] [] (w.setEntry k e') := .aside rfl rfl rfl (extends_setEntry he ht)
  exact hc.single

theorem quiet_append {w : World} {e : Entry} (h : e.timer < w.timers.length) :
    Quiet w { w with entries := w.entries ++ [e] } := by
  have hc : Change w [] [] { w with entries := w.entries ++ [e] } :=
    .aside rfl rfl rfl (extends_append h)
  exact hc.single

theorem quiet_log (w : World) (l : Log) : Quiet w (w.log l) := (Change.note rfl).single

theorem quiet_logs (ls : List Log) (w : World) : Quiet w (ls.foldl log w) := by
  induction ls generalizing w with
  | nil => exact Changes.refl w
  | cons l ls ih => exact (quiet_log w l).trans (ih (w.log l))

theorem quiet_clock (w : World) (now : Int) :
    Quiet w { w with line := { w.line with now := now } } := (Change.clock now).single

theorem quiet_add (w : World) {d : Int} (h : 0 ≤ d) :
    Quiet w { w with timers := w.timers ++ [{ duration := d }] } := (Change.add d h).single

theorem quiet_close {w : World} {n : Nat} {t : Timer} (h : w.timers[n]? = some t) :
    Quiet w (w.put n (t.close w.line)) := (Change.act (a := .close) h trivial).single

theorem take_reset {w : World} {n : Nat} (t : Timer) (d : Option Number.Amount) (line : Timeline) :
    (w.take n (t.reset d line).1).2 = [] := by
  obtain ⟨d',h⟩ := Timer.reset_eq t d line
  rw [h]
  rfl

theorem quiet_reset {w : World} {n : Nat} {t : Timer} (h : w.timers[n]? = some t)
    (d : Option Number.Amount) : Quiet w (w.take n (t.reset d w.line).1).1 := by
  have hc := (Change.act (a := .reset d) h trivial).single
  simp only [Session.applyAction, take_reset] at hc
  exact hc

/-- An entry is told of the end of its own timer. -/
theorem quiet_connect {w : World} {n k : Nat} (h : n < w.timers.length)
    (hk : w.owner? k = some n) :
    Quiet w { w with timers := w.timers.modify n fun t => t.listen (.entry k) } := by
  obtain ⟨t,ht⟩ : ∃ t, w.timers[n]? = some t := ⟨_,List.getElem?_eq_getElem h⟩
  have hs : w.timers.modify n (fun t => t.listen (.entry k)) = w.timers.set n (t.listen (.entry k)) := by
    apply List.ext_getElem?
    intro i
    simp only [List.getElem?_modify, List.getElem?_set]
    by_cases hi : n = i
    · subst hi
      rw [if_pos rfl, if_pos h, ht]
      simp
    · simp [hi]
  rw [hs]
  refine (Change.listeners (t.listeners ++ [.entry k]) ht ?_).single
  intro l hl
  obtain hl | hl := List.mem_append.mp hl
  · exact Or.inl hl
  · simp only [List.mem_singleton, Listener.entry.injEq] at hl
    subst hl
    exact Or.inr hk

theorem quiet_addEntry {w : World} {n : Nat} (h : n < w.timers.length) (input : String)
    (queue : Option Queue) : Quiet w (w.addEntry n input queue).1 := by
  have hnew : owner? { w with entries := w.entries ++ [⟨n,input,queue,true⟩] } w.entries.length =
      some n := by
    rw [owner?_append, if_pos rfl]
  exact (quiet_append (e := ⟨n,input,queue,true⟩) h).trans (quiet_connect h hnew)

theorem quiet_addTimer {w w' : World} {k : Nat} (input : String) (queue : Option Queue)
    (d : Number.Amount)
    (h : (match Timer.ofDuration d with
      | .error e => .error (.noInteger e)
      | .ok t => .ok (addEntry { w with timers := w.timers ++ [t] } w.timers.length input queue) :
        Except Failure (World × Nat)) = .ok (w',k)) : Quiet w w' := by
  unfold Timer.ofDuration at h
  cases hd : d.toInt with
  | error e => simp [hd, bind, Except.bind] at h
  | ok d =>
    simp only [hd, bind, Except.bind, pure, Except.pure, Except.ok.injEq] at h
    have hw := (quiet_add w (Int.le_max_left 0 d)).trans (quiet_addEntry (n := w.timers.length) (by simp) input queue)
    rw [h] at hw
    exact hw

theorem quiet_create {w w' : World} {input : String} {d : Option Number.Amount} {k : Nat}
    (h : w.create input d = .ok (w',k)) : Quiet w w' := by
  unfold create at h
  cases d with
  | some d => exact quiet_addTimer input none d h
  | none =>
    cases hr : w.readInput input with
    | error e => simp [hr, Except.map, bind, Except.bind] at h
    | ok r =>
      simp only [hr, Except.map, bind, Except.bind] at h
      exact quiet_addTimer input r.1 (.int r.2) h

theorem timerOf?_eq {w : World} {k n : Nat} {t : Timer} (h : w.timerOf? k = some (n,t)) :
    w.timers[n]? = some t ∧ (w.entries[k]?).map (·.timer) = some n := by
  unfold timerOf? at h
  simp only [Option.bind_eq_bind, Option.bind_eq_some_iff, Option.pure_def,
    Option.some.injEq] at h
  obtain ⟨e,he,t',ht,heq⟩ := h
  cases heq
  exact ⟨ht,by rw [he]; rfl⟩

theorem quiet_unlist (w : World) (k : Nat) : Quiet w (w.unlist k) := by
  unfold unlist
  split
  · rename_i e n t he ht
    have hq : Quiet w (w.setEntry k { e with listed := false }) := quiet_setEntry he rfl
    exact hq.trans (quiet_close (timerOf?_eq ht).1)
  · exact Changes.refl w

theorem quiet_unlists (ks : List Nat) (w : World) : Quiet w (ks.foldl unlist w) := by
  induction ks generalizing w with
  | nil => exact Changes.refl w
  | cons k ks ih => exact (quiet_unlist w k).trans (ih (w.unlist k))

theorem quiet_unlistAll (w : World) : Quiet w w.unlistAll := quiet_unlists w.listed w

theorem quiet_setInput {w w' : World} {k : Nat} {text : String}
    (h : w.setInput k text = .ok w') : Quiet w w' := by
  unfold setInput at h
  split at h
  · contradiction
  · rename_i q e n t _ he ht
    cases h
    have hq : Quiet w (w.setEntry k { e with input := text, queue := some q.pop.2 }) :=
      quiet_setEntry he rfl
    exact hq.trans (quiet_reset (w := w.setEntry k _) (timerOf?_eq ht).1 _)
  · cases h
    exact Changes.refl w

theorem timers_take (w : World) (n : Nat) (e : Timer.Effect) :
    (w.take n e).1.timers = w.timers.set n e.timer := by
  unfold take
  split <;> dsimp only <;> split <;> rfl

theorem line_take (w : World) (n : Nat) (e : Timer.Effect) : (w.take n e).1.line = e.line := by
  unfold take
  split <;> dsimp only <;> split <;> rfl

theorem entries_take (w : World) (n : Nat) (e : Timer.Effect) :
    (w.take n e).1.entries = w.entries := by
  unfold take
  split <;> dsimp only <;> split <;> rfl

theorem getElem?_take {w : World} {n : Nat} {t : Timer} (h : w.timers[n]? = some t)
    (e : Timer.Effect) : (w.take n e).1.timers[n]? = some e.timer := by
  rw [timers_take, List.getElem?_set_self (List.getElem?_eq_some_iff.mp h).1]

theorem take_eq_nil {w : World} {n : Nat} {e : Timer.Effect} {t : Timer} (h : e.Latches t)
    (hl : e.timer.listeners = []) : (w.take n e).2 = [] := by
  unfold take
  cases he : e.announced with
  | none => rfl
  | some ls =>
    have hls := (h.told ls he).1
    simp [hls, hl]

theorem changes_start {w : World} {n : Nat} {t : Timer} (h : w.timers[n]? = some t)
    (d : Option Number.Amount) :
    let e := (t.reset d w.line).1
    Changes w [] ((w.take n e).1.take n (e.timer.start n e.line)).2
      ((w.take n e).1.take n (e.timer.start n e.line)).1 := by
  intro e
  have hreset : Quiet w (w.take n e).1 := quiet_reset h d
  have hget : (w.take n e).1.timers[n]? = some e.timer := getElem?_take h e
  have hstart := (Change.act (a := .start) hget trivial).single
  simp only [Session.applyAction, line_take] at hstart
  exact Changes.trans hreset hstart

theorem changes_next? {w w' : World} {k : Nat} {cs : List Call} (h : w.next? k = some (w',cs)) :
    Changes w [] cs w' := by
  unfold next? at h
  split at h
  · rename_i e n t he ht
    split at h
    · rename_i d q _
      have hq : Quiet w (w.setEntry k { e with queue := some q }) := quiet_setEntry he rfl
      have hs := changes_start (w := w.setEntry k { e with queue := some q }) (timerOf?_eq ht).1
        (some (.int d))
      simp only [Option.some.injEq] at h
      dsimp only at hs
      rw [h] at hs
      exact Changes.trans hq hs
    · contradiction
  · contradiction

theorem listeners_check (t : Timer) (n : Nat) (g : Option Nat) (line : Timeline) :
    (t.check n g line).timer.listeners = t.listeners := by
  unfold Timer.check
  split
  · unfold Timer.expire
    split <;> rfl
  · rfl

theorem listeners_setFields (t : Timer) (n : Nat) (f : Timer.GivenFields) (line : Timeline) :
    (t.setFields n f line).1.timer.listeners = t.listeners := by
  unfold Timer.setFields
  dsimp only
  split
  · rfl
  · split
    · rfl
    · split
      · exact listeners_check _ _ _ _
      · rfl

theorem addRestored_calls (w : World) (f : TimerFields) : (w.addRestored f).2 = [] :=
  take_eq_nil (Timer.setFields_latches _ _ _ _) (listeners_setFields _ _ _ _)

theorem addRestored_eq (w : World) (f : TimerFields) :
    w.addRestored f =
      take { w with timers := w.timers ++ [{ duration := max 0 f.duration }] } w.timers.length
        (Timer.restore f w.timers.length w.line) := by
  simp [addRestored, take, setTimer, List.set_append_right]

theorem quiet_addRestored (w : World) {f : TimerFields} (h : Snapshot.contradiction? f = none) :
    Quiet w (w.addRestored f).1 := by
  have hget : (w.timers ++ [({ duration := max 0 f.duration } : Timer)])[w.timers.length]? =
      some { duration := max 0 f.duration } := by simp
  have hset := (Change.act (w := { w with timers := w.timers ++ [{ duration := max 0 f.duration }] })
    (a := .setFields (.ofFields f)) hget (Snapshot.consistent_ofFields h)).single
  have hnone := addRestored_calls w f
  rw [addRestored_eq] at hnone ⊢
  simp only [Session.applyAction] at hset
  unfold Timer.restore at hnone ⊢
  rw [hnone] at hset
  exact (quiet_add w (Int.le_max_left 0 f.duration)).trans hset

theorem length_addRestored (w : World) (f : TimerFields) :
    (w.addRestored f).1.timers.length = w.timers.length + 1 := by
  simp [addRestored, timers_take]

theorem timers_logs (ls : List Log) (w : World) : (ls.foldl log w).timers = w.timers := by
  induction ls generalizing w with
  | nil => rfl
  | cons l ls ih => exact ih (w.log l)

theorem quiet_restoreAll {ss : List Snapshot}
    (h : ∀ s ∈ ss, Snapshot.contradiction? s.fields = none) (w : World) :
    Quiet w (w.restoreAll ss).1 := by
  induction ss generalizing w with
  | nil => exact Changes.refl w
  | cons s ss ih =>
    have hadd := quiet_addRestored w (h s (by simp))
    have hlen : w.timers.length < (w.addRestored s.fields).1.timers.length := by
      rw [length_addRestored]
      omega
    simp only [restoreAll]
    split
    · exact hadd.trans (quiet_append hlen)
    · rename_i queue logs _
      have hnew : w.timers.length < (logs.foldl log (w.addRestored s.fields).1).timers.length := by
        rw [timers_logs]
        exact hlen
      have hentry := quiet_addEntry hnew s.input queue
      exact ((hadd.trans (quiet_logs logs _)).trans hentry).trans
        (ih (fun s' hs' => h s' (by simp [hs'])) _)

theorem quiet_importText (w : World) (text : String) : Quiet w (w.importText text).1 := by
  unfold importText
  split
  · exact Changes.refl w
  · exact Changes.refl w
  · rename_i ss logs h
    exact (quiet_logs logs w).trans
      (quiet_restoreAll (fun s hs => (Snapshot.readAll_checked h hs).2) _)

end World
end Countdown
