import Countdown.Proofs.Session.Reached
set_option autoImplicit false

namespace Countdown

theorem toDigits_injective {m n : Nat} (h : Nat.toDigits 10 m = Nat.toDigits 10 n) : m = n := by
  have hread : ∀ k, Nat.ofDigitChars 10 (Nat.toDigits 10 k) 0 = k := by simp
  rw [← hread m, h, hread n]

theorem idOf_injective {k l : Nat} (h : Entry.idOf k = Entry.idOf l) : k = l := by
  have hlist := congrArg String.toList h
  simp only [Entry.idOf, String.toList_append, Nat.toString_eq_repr, Nat.toList_repr] at hlist
  have hnext := toDigits_injective (List.append_cancel_left hlist)
  omega

def Entry.view (e : Entry) (k : Nat) (t : Timer) (now : Int) : View where
  id := Entry.idOf k
  input := e.input
  consumed := e.consumed
  upcoming := e.upcoming
  phase := t.phase
  duration := t.duration
  elapsed := t.elapsed now
  remaining := t.remaining now
  started := t.isStarted
  paused := t.isPaused
  running := t.isRunning
  stopped := t.isStopped
  finished := t.isFinished now

namespace World

theorem view?_eq {w : World} {k : Nat} {e : Entry} {t : Timer} (he : w.entries[k]? = some e)
    (ht : w.timers[e.timer]? = some t) : w.view? k = some (e.view k t w.now) := by
  simp only [view?, he, Option.bind_eq_bind, Option.bind_some, ht]
  rfl

theorem find?_idOf {w : World} {k : Nat} {e : Entry} (he : w.entries[k]? = some e)
    (hl : e.listed = true) : w.find? (Entry.idOf k) = some k := by
  have hk : k < w.entries.length := (List.getElem?_eq_some_iff.mp he).1
  have hmatch : (Entry.idOf k == Entry.idOf k && (w.entries[k]?.any fun e => e.listed)) = true := by
    simp [he, hl]
  unfold find?
  cases hf : (List.range w.entries.length).find? fun l =>
      Entry.idOf l == Entry.idOf k && (w.entries[l]?.any fun e => e.listed) with
  | none =>
    have hno := List.find?_eq_none.mp hf k (List.mem_range.mpr hk)
    exact absurd hmatch hno
  | some l =>
    have hl := List.find?_some hf
    simp only [Bool.and_eq_true, beq_iff_eq] at hl
    rw [idOf_injective hl.1]

theorem of_find? {w : World} {id : String} {k : Nat} (h : w.find? id = some k) :
    id = Entry.idOf k ∧ ∃ e, w.entries[k]? = some e ∧ e.listed = true := by
  have hk := List.find?_some h
  simp only [Bool.and_eq_true, beq_iff_eq, Option.any_eq_true] at hk
  exact ⟨hk.1.symm,hk.2⟩

/-- Every entry has a timer, and is told of the end of no other. -/
structure Wired (w : World) : Prop where
  timers : ∀ (k n : Nat), w.owner? k = some n → n < w.timers.length
  listeners : ∀ (n : Nat) (t : Timer) (k : Nat), w.timers[n]? = some t →
    .entry k ∈ t.listeners → w.owner? k = some n

variable {w w' : World} {n : Nat} {t t' : Timer}

theorem listeners_pause (t : Timer) (line : Timeline) :
    (t.pause line).1.listeners = t.listeners := by
  unfold Timer.pause
  split <;> rfl

theorem listeners_wake (t : Timer) (n g : Nat) (line : Timeline) :
    (t.wake n g line).timer.listeners = t.listeners := by
  unfold Timer.wake
  split
  · rfl
  · exact listeners_check _ _ _ _

theorem listeners_applyAction (t : Timer) (n : Nat) (a : Action) (line : Timeline) :
    (Session.applyAction t n a line).1.timer.listeners = t.listeners := by
  cases a with
  | start =>
    simp only [Session.applyAction, Timer.start]
    split
    · rfl
    · exact listeners_check _ _ _ _
  | resume =>
    simp only [Session.applyAction, Timer.resume]
    split
    · exact listeners_check _ _ _ _
    · rfl
  | pause => exact listeners_pause t line
  | stop =>
    simp only [Session.applyAction, Timer.stop]
    split
    · exact listeners_pause t line
    · rfl
  | close => rfl
  | reset d =>
    obtain ⟨d',he⟩ := Timer.reset_eq t d line
    simp only [Session.applyAction, he]
    rfl
  | add ms =>
    simp only [Session.applyAction, Timer.add]
    split
    · rfl
    · split
      · rfl
      · unfold Timer.addInt
        dsimp only
        split
        · rfl
        · split
          · exact listeners_check _ _ _ _
          · rfl
  | setFields f => exact listeners_setFields t n f line

theorem owner?_of_entries (h : w'.entries = w.entries) (k : Nat) : w'.owner? k = w.owner? k := by
  simp [owner?, h]

theorem Wired.set (h : w.Wired) (ht : w.timers[n]? = some t)
    (hl : ∀ k, .entry k ∈ t'.listeners → .entry k ∈ t.listeners ∨ w.owner? k = some n)
    (htimers : w'.timers = w.timers.set n t') (hentries : w'.entries = w.entries) : w'.Wired where
  timers k m hk := by
    rw [owner?_of_entries hentries] at hk
    rw [htimers, List.length_set]
    exact h.timers k m hk
  listeners m u k hu hk := by
    rw [owner?_of_entries hentries]
    rw [htimers, List.getElem?_set] at hu
    split at hu
    · rename_i hm
      subst hm
      split at hu
      · cases hu
        obtain hk | hk := hl k hk
        · exact h.listeners n t k ht hk
        · exact hk
      · contradiction
    · exact h.listeners m u k hu hk

theorem Wired.take (h : w.Wired) (ht : w.timers[n]? = some t) {e : Timer.Effect}
    (hl : e.timer.listeners = t.listeners) : (w.take n e).1.Wired := by
  refine h.set ht ?_ (timers_take w n e) (entries_take w n e)
  intro k hk
  rw [hl] at hk
  exact Or.inl hk

theorem Wired.congr (h : w.Wired) (ht : w'.timers = w.timers) (he : w'.entries = w.entries) :
    w'.Wired where
  timers k n hk := by
    rw [owner?_of_entries he] at hk
    rw [ht]
    exact h.timers k n hk
  listeners n t k hn hk := by
    rw [owner?_of_entries he]
    rw [ht] at hn
    exact h.listeners n t k hn hk

theorem Wired.change {made due : List Call} (h : w.Wired) (hc : w.Change made due w') :
    w'.Wired := by
  cases hc with
  | act ht _ => exact h.take ht (listeners_applyAction _ _ _ _)
  | ring _ ht => exact h.take ht (listeners_wake _ _ _ _)
  | orphan _ _ => exact h.congr rfl rfl
  | clock now => exact h.congr rfl rfl
  | add d =>
    constructor
    · intro k n hk
      have := h.timers k n hk
      simp only [List.length_append, List.length_singleton]
      omega
    · intro n t k ht hk
      obtain hlt | hge := Nat.lt_or_ge n w.timers.length
      · rw [List.getElem?_append_left hlt] at ht
        exact h.listeners n t k ht hk
      · rw [List.getElem?_append_right hge] at ht
        have hmem := List.mem_of_getElem? ht
        simp only [List.mem_singleton] at hmem
        subst hmem
        simp at hk
  | listeners ls ht hl => exact h.set ht hl rfl rfl
  | note _ => exact h.congr rfl rfl
  | call c => exact h.congr rfl rfl
  | aside ht _ _ he =>
    constructor
    · intro k n hk
      rw [ht]
      obtain hk | hn := he.added k n hk
      · exact h.timers k n hk
      · exact hn
    · intro n t k hn hk
      rw [ht] at hn
      exact he.kept k n (h.listeners n t k hn hk)

theorem wired_of_fresh {s : Session} (h : s.Fresh) : s.world.Wired where
  timers k n hk := by simp [owner?, h.entries] at hk
  listeners n t k ht hk := by
    obtain ⟨d,rfl⟩ := h.timers t (List.mem_of_getElem? ht)
    simp at hk

end World

theorem Session.Reached.wired {s : Session} {tasks : List Task} (h : Reached s tasks) :
    s.world.Wired :=
  h.holds (fun _ h => World.wired_of_fresh h) fun _ _ _ _ hw hc => hw.change hc

end Countdown
