import Countdown.Proofs.Timer.Alarm
import Countdown.Session.Basic
set_option autoImplicit false

/-!
A timer and the wakes of its alarm fit together: a live wake means that the timer is running and not
closed, and a timer that is running, not closed and not finished has a live wake. Every operation
keeps this, and leaves the wakes of other timers alone.
-/

namespace Countdown.Timer
open Timeline

/-- Only a timer that was started has been resumed or stopped, and a stopped one is not running. -/
structure Shaped (t : Timer) : Prop where
  resumed : t.resumedAt ≠ none → t.startedAt ≠ none ∧ t.stoppedAt = none
  stopped : t.stoppedAt ≠ none → t.startedAt ≠ none

structure Guarded (t : Timer) (n : Nat) (line : Timeline) : Prop where
  shaped : t.Shaped
  closed : t.alarm.closed = t.closed
  keeps : t.alarm.Keeps n line
  armed : t.alarm.pending ≠ none → t.isRunning = true
  watched : t.isRunning = true → t.closed = false → t.finished = false → t.alarm.pending ≠ none

/-- An operation on timer `n` guards that timer, and nothing else changes. -/
structure Effect.Sound (e : Effect) (n : Nat) (line : Timeline) : Prop where
  guarded : e.timer.Guarded n e.line
  agrees : Agrees n line e.line
  now : e.line.now = line.now

variable {t : Timer} {n : Nat} {line : Timeline} {g : Option Nat}

theorem Guarded.agrees {m : Nat} {line' : Timeline} (k : t.Guarded m line) (hm : m ≠ n)
    (h : Agrees n line line') : t.Guarded m line' :=
  { k with keeps := k.keeps.agrees hm h }

theorem Guarded.setClock (k : t.Guarded n line) (now : Int) :
    t.Guarded n { line with now := now } :=
  ⟨k.shaped, k.closed, ⟨k.keeps.bound, k.keeps.current, k.keeps.held⟩, k.armed, k.watched⟩

theorem Guarded.silent (k : t.Guarded n line) : (Effect.silent t line).Sound n line :=
  ⟨k, Agrees.refl n line, rfl⟩

theorem Effect.Sound.ofCleared {e : Effect} (h : e.Sound n line) : e.ofCleared.Sound n line :=
  ⟨h.guarded, h.agrees, h.now⟩

theorem Effect.Sound.trans {e : Effect} {line' : Timeline} (h : e.Sound n line')
    (ha : Agrees n line line') (hn : line'.now = line.now) : e.Sound n line :=
  ⟨h.guarded, ha.trans h.agrees, h.now.trans hn⟩

theorem isRunning_iff : t.isRunning = true ↔ t.startedAt ≠ none ∧ t.resumedAt ≠ none := by
  simp [isRunning, isStarted, Option.isSome_iff_ne_none]

theorem check_stale (h : t.alarm.isStale g = true) : t.check n g line = .silent t line := by
  simp [check, Alarm.settle, h]

theorem check_waiting (h : t.alarm.isStale g = false) (hl : 0 < t.remaining line.now) :
    t.check n g line =
      .silent { t with alarm := { t.alarm.renewed with pending := some line.wakes.length } }
        ((t.alarm.cancelled line).schedule n t.alarm.renewed.generation
          (min (t.remaining line.now) maxWait)) := by
  simp [check, Alarm.settle, h, hl]

theorem check_over (h : t.alarm.isStale g = false) (hl : t.remaining line.now ≤ 0) :
    t.check n g line = expire { t with alarm := t.alarm.renewed } (t.alarm.cancelled line) := by
  simp [check, Alarm.settle, h, Int.not_lt.mpr hl]

theorem expire_due (h : t.isDue line.now = true) : t.expire line =
    { timer := { t with finished := true }, line := line, announced := some t.listeners } := by
  simp [expire, h]

theorem expire_not_due (h : t.isDue line.now = false) : t.expire line = .silent t line := by
  simp [expire, h]

theorem Shaped.isDue {now : Int} (hs : t.Shaped) (hr : t.isRunning = true) (hc : t.closed = false)
    (hf : t.finished = false) (hl : t.remaining now ≤ 0) : t.isDue now = true := by
  have hrun := isRunning_iff.mp hr
  have hstop := (hs.resumed hrun.2).2
  simp [Timer.isDue, isStarted, isStopped, isFinished, Option.isSome_iff_ne_none, *]

/-- A check that is not stale leaves the timer guarded if the timer is running or has no time
left. -/
theorem check_sound (hs : t.Shaped) (hc : t.alarm.closed = t.closed)
    (hspent : (t.alarm.cancelled line).Spent n t.alarm.generation)
    (hagrees : Agrees n line (t.alarm.cancelled line)) (hg : t.alarm.isStale g = false)
    (hr : t.isRunning = true ∨ t.remaining line.now ≤ 0) : (t.check n g line).Sound n line := by
  by_cases hl : 0 < t.remaining line.now
  · have hclosed : t.alarm.closed = false := by
      simp only [Alarm.isStale, Bool.or_eq_false_iff] at hg
      exact hg.1
    have hrun : t.isRunning = true := hr.resolve_right (Int.not_le.mpr hl)
    have hpos : 0 < min (t.remaining line.now) maxWait := by
      simp only [maxWait]; omega
    have hkeeps := Alarm.keeps_schedule hspent hclosed hpos (Int.min_le_right _ _)
    rw [Alarm.length_cancelled] at hkeeps
    rw [check_waiting hg hl]
    refine ⟨⟨⟨hs.resumed,hs.stopped⟩, hc, hkeeps, fun _ => hrun, ?_⟩, ?_, ?_⟩
    · intro _ _ _
      simp [Effect.silent]
    · exact hagrees.trans (agrees_schedule _ _ _ _)
    · simp [Effect.silent]
  · have hl : t.remaining line.now ≤ 0 := Int.not_lt.mp hl
    rw [check_over hg hl]
    have hkeeps := Alarm.keeps_renewed hspent
    cases hd : ({ t with alarm := t.alarm.renewed } : Timer).isDue (t.alarm.cancelled line).now with
    | true =>
      rw [expire_due hd]
      refine ⟨⟨⟨hs.resumed,hs.stopped⟩, hc, hkeeps, ?_, ?_⟩, hagrees, ?_⟩
      · intro h
        exact absurd rfl h
      · intro _ _ h
        cases h
      · simp
    | false =>
      rw [expire_not_due hd]
      refine ⟨⟨⟨hs.resumed,hs.stopped⟩, hc, hkeeps, ?_, ?_⟩, hagrees, ?_⟩
      · intro h
        exact absurd rfl h
      · intro hrun hcl hf
        have hdue : t.isDue line.now = true := hs.isDue hrun hcl hf hl
        rw [Alarm.now_cancelled] at hd
        exact absurd (hdue.symm.trans hd) (by simp)
      · simp [Effect.silent]

theorem check_none_sound (hs : t.Shaped) (hc : t.alarm.closed = t.closed)
    (hk : t.alarm.Keeps n line) (hr : t.isRunning = true ∨ t.remaining line.now ≤ 0) :
    (t.check n none line).Sound n line := by
  cases hcl : t.closed with
  | false =>
    apply check_sound hs hc hk.spent_cancelled hk.agrees_cancelled _ hr
    simp [Alarm.isStale, hc, hcl]
  | true =>
    have hstale : t.alarm.isStale none = true := by simp [Alarm.isStale, hc, hcl]
    rw [check_stale hstale]
    refine ⟨⟨hs, hc, hk, ?_, ?_⟩, Agrees.refl n line, rfl⟩
    · intro hp
      obtain ⟨i,hi⟩ := Option.ne_none_iff_exists'.mp hp
      have hopen := (hk.held i hi).1
      rw [hc, hcl] at hopen
      contradiction
    · intro _ h
      rw [show (Effect.silent t line).timer.closed = true from hcl] at h
      contradiction

theorem Guarded.of_not_running (hs : t.Shaped) (hc : t.alarm.closed = t.closed)
    (hk : t.alarm.Keeps n line) (hp : t.alarm.pending = none) (hr : t.isRunning = false) :
    t.Guarded n line where
  shaped := hs
  closed := hc
  keeps := hk
  armed h := absurd hp h
  watched h := by rw [hr] at h; contradiction

/-- A live wake is of the alarm's generation, so marking a stale one as fired changes nothing. -/
theorem Guarded.markFired_stale (k : t.Guarded n line) {i : Nat} {w : Wake}
    (hw : line.wakes[i]? = some w) (ho : w.owner = n)
    (hst : t.alarm.isStale (some w.generation) = true) : line.markFired i = line := by
  have hnot : w.status ≠ .pending := by
    intro hp
    have hpend := k.keeps.current i w hw ho (Or.inl hp)
    obtain ⟨hopen,v,hv,-,-,hg,-⟩ := k.keeps.held i hpend
    rw [hw] at hv
    cases hv
    simp [Alarm.isStale, hopen, hg] at hst
  exact markFired_of_not_pending hw hnot

theorem wake_stale {g : Nat} (h : t.alarm.isStale (some g) = true) :
    t.wake n g line = .silent t line := by
  simp [Timer.wake, Alarm.roused?, h]

theorem wake_current {g : Nat} (h : t.alarm.isStale (some g) = false) :
    t.wake n g line =
      check { t with alarm := { t.alarm with pending := none } } n (some g) line := by
  simp [Timer.wake, Alarm.roused?, h]

theorem Guarded.wake (k : t.Guarded n line) {i : Nat} {w : Wake} (hw : line.wakes[i]? = some w)
    (ho : w.owner = n) : (t.wake n w.generation (line.markFired i)).Sound n line := by
  have hmine : ∀ v, line.wakes[i]? = some v → v.owner = n := by
    intro v hv
    rw [hw] at hv
    cases hv
    exact ho
  have hfired := agrees_markFired hmine
  cases hst : t.alarm.isStale (some w.generation) with
  | true =>
    rw [wake_stale hst, k.markFired_stale hw ho hst]
    exact k.silent
  | false =>
    have hgen : w.generation = t.alarm.generation := by
      simp only [Alarm.isStale, Option.any_some, Bool.or_eq_false_iff, bne_eq_false_iff_eq] at hst
      exact hst.2
    have hpend := k.keeps.current i w hw ho (Or.inr hgen)
    have hrun := k.armed (by simp [hpend])
    have hspent := k.keeps.spent_modify (s := .fired) (by simp) (Or.inr hpend)
    rw [wake_current hst]
    apply Effect.Sound.trans _ hfired (now_markFired line i)
    exact check_sound (t := { t with alarm := { t.alarm with pending := none } })
      ⟨k.shaped.resumed,k.shaped.stopped⟩ k.closed hspent (Agrees.refl n _) hst (Or.inl hrun)

theorem Guarded.start (k : t.Guarded n line) : (t.start n line).Sound n line := by
  unfold Timer.start
  split
  · exact k.silent
  · have hk := k.keeps.disarm
    apply Effect.Sound.ofCleared
    apply Effect.Sound.trans _ k.keeps.agrees_cancelled (Alarm.now_cancelled _ _)
    apply check_none_sound
    · exact ⟨fun _ => ⟨by simp,rfl⟩, fun h => absurd rfl h⟩
    · exact k.closed
    · exact hk
    · exact Or.inl rfl

theorem Guarded.resume (k : t.Guarded n line) : (t.resume n line).Sound n line := by
  unfold Timer.resume
  split
  · rename_i h
    simp only [isPaused, isStarted, isStopped, Bool.and_eq_true, Bool.not_eq_true',
      Option.isSome_iff_ne_none, Option.isSome_eq_false_iff, Option.isNone_iff_eq_none] at h
    refine check_none_sound ⟨fun _ => ⟨h.1.1,h.2⟩, k.shaped.stopped⟩ k.closed k.keeps (Or.inl ?_)
    exact isRunning_iff.mpr ⟨h.1.1,by simp⟩
  · exact k.silent

theorem Guarded.pause (k : t.Guarded n line) :
    (Effect.silent (t.pause line).1 (t.pause line).2).Sound n line := by
  unfold Timer.pause
  split
  · refine ⟨.of_not_running ⟨fun h => absurd rfl h, k.shaped.stopped⟩ k.closed k.keeps.disarm rfl ?_,
      k.keeps.agrees_cancelled, Alarm.now_cancelled _ _⟩
    simp [isRunning, Timer.disarmed, Effect.silent]
  · exact k.silent

theorem Guarded.stop (k : t.Guarded n line) :
    (Effect.silent (t.stop line).1 (t.stop line).2).Sound n line := by
  unfold Timer.stop
  split
  · rename_i h
    simp only [isStarted, isStopped, Bool.and_eq_true, Bool.not_eq_true',
      Option.isSome_iff_ne_none] at h
    have hp := k.pause
    have hstart : (t.pause line).1.startedAt ≠ none := by
      unfold Timer.pause
      split <;> exact h.1
    have hrun : (t.pause line).1.isRunning = false := by
      unfold Timer.pause
      split
      · simp [isRunning, Timer.disarmed]
      · simp_all
    have hres : (t.pause line).1.resumedAt = none := by
      by_cases hr : (t.pause line).1.resumedAt = none
      · exact hr
      · rw [isRunning_iff.mpr ⟨hstart,hr⟩] at hrun
        contradiction
    refine ⟨.of_not_running ⟨fun hr => absurd hres hr, fun _ => hstart⟩ hp.guarded.closed
      hp.guarded.keeps.disarm rfl hrun, ?_, ?_⟩
    · exact hp.agrees.trans hp.guarded.keeps.agrees_cancelled
    · exact (Alarm.now_cancelled _ _).trans hp.now
  · exact k.silent

theorem Guarded.close (k : t.Guarded n line) :
    (Effect.silent (t.close line).1 (t.close line).2).Sound n line where
  guarded :=
    { shaped := ⟨k.shaped.resumed,k.shaped.stopped⟩
      closed := rfl
      keeps := k.keeps.close
      armed := fun h => absurd rfl h
      watched := fun _ h => by cases h }
  agrees := k.keeps.agrees_cancelled
  now := Alarm.now_cancelled _ _

def lengthened (t : Timer) (ms : Int) : Timer :=
  { t with duration := max 0 (t.duration + ms), alarm := t.alarm.renewed }

theorem addInt_idle (ms : Int) (h : t.isStarted = false) :
    t.addInt n ms line = .silent { t with duration := max 0 (t.duration + ms) } line :=
  if_pos (show (!t.isStarted) = true by rw [h]; rfl)

theorem addInt_started (ms : Int) (h : t.isStarted = true) :
    t.addInt n ms line =
      if (t.lengthened ms).isRunning || (t.lengthened ms).isFinished (t.alarm.cancelled line).now
      then (t.lengthened ms).check n none (t.alarm.cancelled line)
      else .silent (t.lengthened ms) (t.alarm.cancelled line) :=
  if_neg (show ¬ (!t.isStarted) = true by rw [h]; simp)

theorem Guarded.addInt (k : t.Guarded n line) (ms : Int) : (t.addInt n ms line).Sound n line := by
  have hs : (t.lengthened ms).Shaped := ⟨k.shaped.resumed,k.shaped.stopped⟩
  cases h : t.isStarted with
  | false =>
    rw [addInt_idle ms h]
    exact ⟨⟨⟨hs.resumed,hs.stopped⟩,k.closed,k.keeps,k.armed,k.watched⟩, Agrees.refl n line, rfl⟩
  | true =>
    rw [addInt_started ms h]
    apply Effect.Sound.trans _ k.keeps.agrees_cancelled (Alarm.now_cancelled t.alarm line)
    split
    · rename_i hr
      refine check_none_sound hs k.closed k.keeps.disarm ?_
      simpa [isFinished] using hr
    · rename_i hr
      simp only [Bool.or_eq_true, not_or, Bool.not_eq_true] at hr
      exact (Guarded.of_not_running hs k.closed k.keeps.disarm rfl hr.1).silent

theorem Guarded.add (k : t.Guarded n line) (ms : Number.Amount) :
    (t.add n ms line).1.Sound n line := by
  unfold Timer.add
  split
  · exact k.silent
  · split
    · exact k.silent
    · exact k.addInt _

theorem Guarded.clear (k : t.Guarded n line) (d : Int) :
    (Effect.silent { (t.clear line).1 with duration := d } (t.clear line).2).Sound n line where
  guarded := .of_not_running ⟨fun h => absurd rfl h,fun h => absurd rfl h⟩ k.closed k.keeps.disarm
    rfl rfl
  agrees := k.keeps.agrees_cancelled
  now := Alarm.now_cancelled _ _

theorem Guarded.reset (k : t.Guarded n line) (d : Option Number.Amount) :
    (t.reset d line).1.Sound n line := by
  unfold Timer.reset
  dsimp only
  split
  · exact (k.clear t.duration).ofCleared
  · split
    · exact (k.clear t.duration).ofCleared
    · exact (k.clear _).ofCleared

/-- Timekeeping fields that a timer can have: they do not contradict each other, and the time spent
running is a number. -/
structure GivenFields.Consistent (f : GivenFields) : Prop where
  resumed : f.resumedAt ≠ none → f.startedAt ≠ none ∧ f.stoppedAt = none
  stopped : f.stoppedAt ≠ none → f.startedAt ≠ none
  accumulated : ∃ a, f.accumulated.toInt = .ok a

theorem Guarded.setFields (k : t.Guarded n line) {f : GivenFields} (hf : f.Consistent) :
    (t.setFields n f line).1.Sound n line := by
  obtain ⟨a,ha⟩ := hf.accumulated
  unfold Timer.setFields
  dsimp only
  split
  · exact (k.clear t.duration).ofCleared
  · rename_i d _
    simp only [ha]
    split
    · rename_i h
      apply Effect.Sound.ofCleared
      apply Effect.Sound.trans _ k.keeps.agrees_cancelled (Alarm.now_cancelled t.alarm line)
      exact check_none_sound ⟨hf.resumed,hf.stopped⟩ k.closed k.keeps.disarm (Or.inl h)
    · rename_i h
      refine ⟨.of_not_running ⟨hf.resumed,hf.stopped⟩ k.closed k.keeps.disarm rfl ?_,
        k.keeps.agrees_cancelled, Alarm.now_cancelled _ _⟩
      exact Bool.not_eq_true _ ▸ h

end Countdown.Timer
