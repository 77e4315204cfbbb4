import Countdown.Proofs.Snapshot
import Countdown.Proofs.Timer.Punctual
set_option autoImplicit false

namespace Countdown.Timer
open Timeline

variable {f : TimerFields} {t : Timer} {n : Nat} {line : Timeline}

/-- The timer with the timekeeping fields of a snapshot, before its deadline is checked. -/
def ofFields (f : TimerFields) : Timer where
  duration := f.duration
  startedAt := f.startedAt
  resumedAt := f.resumedAt
  stoppedAt := f.stoppedAt
  accumulated := f.accumulated
  finished := f.finished
  alarm := { generation := 1 }

theorem restore_eq (hd : 0 ≤ f.duration) (n : Nat) (line : Timeline) : restore f n line =
    (if (ofFields f).isRunning then (ofFields f).check n none line
      else .silent (ofFields f) line).ofCleared := by
  have hmax : max 0 f.duration = f.duration := by omega
  simp only [restore, setFields, GivenFields.ofFields, Number.Amount.toInt, clear, hmax]
  have hfields : ({ startedAt := f.startedAt, resumedAt := f.resumedAt, stoppedAt := f.stoppedAt
                    duration := f.duration, accumulated := f.accumulated, finished := f.finished
                    alarm := (({} : Alarm).disarm line).1 } : Timer) = ofFields f := rfl
  rw [hfields]
  split <;> rfl

/-- The timer keeps time like a saved one, and does nothing about an end that had passed by `now`. -/
structure Restores (f : TimerFields) (now : Int) (t : Timer) : Prop where
  duration : t.duration = f.duration
  startedAt : t.startedAt = f.startedAt
  resumedAt : t.resumedAt = f.resumedAt
  stoppedAt : t.stoppedAt = f.stoppedAt
  accumulated : t.accumulated = f.accumulated
  unclosed : t.closed = false
  finished : t.finished = (f.finished || t.isRunning && t.isFinished now)
  armed : t.alarm.pending ≠ none ↔ t.isRunning = true ∧ 0 < t.remaining now

theorem shaped_ofFields (h : Snapshot.contradiction? f = none) : (ofFields f).Shaped := by
  obtain ⟨hresumed,hstopped,-⟩ := Snapshot.consistent_ofFields h
  exact ⟨hresumed,hstopped⟩

theorem restore_restores (hd : 0 ≤ f.duration) (hc : Snapshot.contradiction? f = none) (n : Nat)
    (line : Timeline) : (restore f n line).timer.Restores f line.now ∧
      (restore f n line).timer.listeners = [] ∧ (restore f n line).line.now = line.now := by
  rw [restore_eq hd]
  cases hr : (ofFields f).isRunning with
  | false =>
    rw [if_neg Bool.false_ne_true]
    refine ⟨⟨rfl,rfl,rfl,rfl,rfl,rfl,?_,?_⟩,rfl,rfl⟩
    · change f.finished = (f.finished || (ofFields f).isRunning && _)
      rw [hr, Bool.false_and, Bool.or_false]
    · change none ≠ none ↔ (ofFields f).isRunning = true ∧ _
      simp [hr]
  | true =>
    rw [if_pos rfl]
    by_cases hl : 0 < (ofFields f).remaining line.now
    · rw [check_waiting rfl hl]
      refine ⟨⟨rfl,rfl,rfl,rfl,rfl,rfl,?_,?_⟩,rfl,rfl⟩
      · have hleft : (ofFields f).isFinished line.now = false := decide_eq_false (Int.not_le.mpr hl)
        change f.finished = (f.finished || (ofFields f).isRunning && (ofFields f).isFinished line.now)
        rw [hleft, Bool.and_false, Bool.or_false]
      · exact iff_of_true (by simp [Effect.ofCleared, Effect.silent]) ⟨hr,hl⟩
    · have hover := Int.not_lt.mp hl
      have hleft : (ofFields f).isFinished line.now = true := decide_eq_true hover
      rw [check_over rfl hover]
      cases hf : f.finished with
      | true =>
        have hnot : ({ ofFields f with alarm := (ofFields f).alarm.renewed } : Timer).isDue
            (Alarm.cancelled (ofFields f).alarm line).now = false := by
          simp [isDue, ofFields, hf]
        rw [expire_not_due hnot]
        refine ⟨⟨rfl,rfl,rfl,rfl,rfl,rfl,?_,?_⟩,rfl,rfl⟩
        · rw [hf, Bool.true_or]
          exact hf
        · exact iff_of_false (fun h => h rfl) fun h => hl h.2
      | false =>
        have hdue : ({ ofFields f with alarm := (ofFields f).alarm.renewed } : Timer).isDue
            (Alarm.cancelled (ofFields f).alarm line).now = true :=
          Shaped.isDue (t := ofFields f) (shaped_ofFields hc) hr rfl hf hover
        rw [expire_due hdue]
        refine ⟨⟨rfl,rfl,rfl,rfl,rfl,rfl,?_,?_⟩,rfl,rfl⟩
        · change true = (f.finished || (ofFields f).isRunning && (ofFields f).isFinished line.now)
          rw [hr, hleft, Bool.and_true, Bool.or_true]
        · exact iff_of_false (fun h => h rfl) fun h => hl h.2

theorem Restores.isRunning (h : t.Restores f line.now) : t.isRunning = (ofFields f).isRunning := by
  simp [Timer.isRunning, isStarted, h.startedAt, h.resumedAt, ofFields]

theorem Restores.eq_of_fields {u : Timer} {now : Int} (h : u.Restores t.fields now) : u = { t with
    finished := u.finished, closed := u.closed, listeners := u.listeners, alarm := u.alarm } := by
  obtain ⟨hduration,hstarted,hresumed,hstopped,haccumulated,-,-,-⟩ := h
  cases u
  simp only [fields] at hduration hstarted hresumed hstopped haccumulated
  simp [hduration, hstarted, hresumed, hstopped, haccumulated]

end Countdown.Timer
