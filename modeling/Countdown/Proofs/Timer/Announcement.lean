import Countdown.Proofs.Timer.Guard
set_option autoImplicit false

namespace Countdown.Timer

def isOver (t : Timer) (now : Int) : Bool := t.isStarted && !t.isStopped && t.isFinished now

/-- What an operation on `t` announces. -/
structure Effect.Latches (e : Effect) (t : Timer) : Prop where
  told : ∀ ls, e.announced = some ls → ls = e.timer.listeners ∧ e.timer.finished = true ∧
    e.timer.closed = false ∧ e.timer.isOver e.line.now = true
  once : e.announced ≠ none → e.cleared = true ∨ t.finished = false
  kept : t.finished = true → e.cleared = false → e.timer.finished = true

variable {t u : Timer} {n : Nat} {line : Timeline} {g : Option Nat}

theorem isOver_iff {now : Int} : t.isOver now = true ↔
    t.startedAt ≠ none ∧ t.stoppedAt = none ∧ t.remaining now ≤ 0 := by
  simp [isOver, isStarted, isStopped, isFinished, Option.isSome_iff_ne_none, and_assoc]

theorem isDue_iff {now : Int} : t.isDue now = true ↔
    t.closed = false ∧ t.finished = false ∧ t.isOver now = true := by
  simp [isDue, isOver, and_assoc]

theorem silent_latches (h : t.finished = true → u.finished = true) :
    (Effect.silent u line).Latches t where
  told ls h := by simp [Effect.silent] at h
  once h := absurd rfl h
  kept hf _ := h hf

theorem Effect.Latches.ofCleared {e : Effect} (h : e.Latches u) : e.ofCleared.Latches t where
  told := h.told
  once _ := Or.inl rfl
  kept _ hc := by simp [Effect.ofCleared] at hc

theorem Effect.Latches.of_finished {e : Effect} (h : e.Latches u) (hf : u.finished = t.finished) :
    e.Latches t :=
  ⟨h.told, fun ha => hf ▸ h.once ha, fun ht => h.kept (hf ▸ ht)⟩

theorem expire_latches (t : Timer) (line : Timeline) : (t.expire line).Latches t := by
  cases h : t.isDue line.now with
  | false =>
    rw [expire_not_due h]
    exact silent_latches id
  | true =>
    obtain ⟨hc,hf,ho⟩ := isDue_iff.mp h
    rw [expire_due h]
    refine ⟨fun ls hls => ?_, fun _ => Or.inr hf, fun _ _ => rfl⟩
    simp only [Option.some.injEq] at hls
    exact ⟨hls.symm,rfl,hc,ho⟩

theorem check_latches (t : Timer) (n : Nat) (g : Option Nat) (line : Timeline) :
    (t.check n g line).Latches t := by
  cases hs : t.alarm.isStale g with
  | true =>
    rw [check_stale hs]
    exact silent_latches id
  | false =>
    by_cases hl : 0 < t.remaining line.now
    · rw [check_waiting hs hl]
      exact silent_latches id
    · rw [check_over hs (Int.not_lt.mp hl)]
      exact (expire_latches _ _).of_finished rfl

theorem wake_latches (t : Timer) (n g : Nat) (line : Timeline) : (t.wake n g line).Latches t := by
  unfold wake
  split
  · exact silent_latches id
  · rename_i a h
    have ha : ({ t with alarm := a } : Timer).finished = t.finished := rfl
    exact (check_latches _ _ _ _).of_finished ha

theorem start_latches (t : Timer) (n : Nat) (line : Timeline) : (t.start n line).Latches t := by
  unfold start
  split
  · exact silent_latches id
  · exact (check_latches _ _ _ _).ofCleared

theorem resume_latches (t : Timer) (n : Nat) (line : Timeline) : (t.resume n line).Latches t := by
  unfold resume
  split
  · exact (check_latches _ _ _ _).of_finished rfl
  · exact silent_latches id

@[simp] theorem finished_pause (t : Timer) (line : Timeline) :
    (t.pause line).1.finished = t.finished := by
  unfold pause; split <;> rfl

@[simp] theorem finished_stop (t : Timer) (line : Timeline) :
    (t.stop line).1.finished = t.finished := by
  unfold stop
  split
  · exact finished_pause t line
  · rfl

theorem addInt_latches (t : Timer) (n : Nat) (ms : Int) (line : Timeline) :
    (t.addInt n ms line).Latches t := by
  cases h : t.isStarted with
  | false =>
    rw [addInt_idle ms h]
    exact silent_latches id
  | true =>
    rw [addInt_started ms h]
    split
    · exact (check_latches _ _ _ _).of_finished rfl
    · exact silent_latches id

theorem add_latches (t : Timer) (n : Nat) (ms : Number.Amount) (line : Timeline) :
    (t.add n ms line).1.Latches t := by
  unfold add
  split
  · exact silent_latches id
  · split
    · exact silent_latches id
    · exact addInt_latches t n _ line

theorem reset_eq (t : Timer) (d : Option Number.Amount) (line : Timeline) :
    ∃ d', (t.reset d line).1 =
      (Effect.silent { (t.clear line).1 with duration := d' } (t.clear line).2).ofCleared := by
  unfold reset
  dsimp only
  split
  · exact ⟨t.duration,rfl⟩
  · split
    · exact ⟨t.duration,rfl⟩
    · exact ⟨_,rfl⟩

theorem reset_latches (t : Timer) (d : Option Number.Amount) (line : Timeline) :
    (t.reset d line).1.Latches t := by
  obtain ⟨d',h⟩ := reset_eq t d line
  rw [h]
  exact (silent_latches id).ofCleared

theorem setFields_latches (t : Timer) (n : Nat) (f : GivenFields) (line : Timeline) :
    (t.setFields n f line).1.Latches t := by
  unfold setFields
  dsimp only
  split
  · exact (silent_latches id).ofCleared
  · split
    · exact (silent_latches id).ofCleared
    · split
      · exact (check_latches _ _ _ _).ofCleared
      · exact (silent_latches id).ofCleared

end Countdown.Timer
