import Countdown.Proofs.Timer.Forward
import Countdown.Proofs.Timer.Restore
set_option autoImplicit false

namespace Countdown.Timer
open Timeline

variable {t u : Timer} {n m : Nat} {line line' : Timeline} {g : Option Nat} {now : Int}

def Alike (t u : Timer) : Prop := ∃ (ls : List Listener) (a : Alarm), u = { t with listeners := ls, alarm := a }

theorem alike_iff : t.Alike u ↔ t.fields = u.fields ∧ t.closed = u.closed := by
  constructor
  · rintro ⟨ls,a,rfl⟩
    exact ⟨rfl,rfl⟩
  · rintro ⟨hfields,hclosed⟩
    cases t
    cases u
    simp only [fields, TimerFields.mk.injEq] at hfields
    obtain ⟨rfl,rfl,rfl,rfl,rfl,rfl⟩ := hfields
    cases hclosed
    exact ⟨_,_,rfl⟩

theorem Alike.forward (h : t.Alike u) (hf : t.Forward now) : u.Forward now := by
  obtain ⟨ls,a,rfl⟩ := h
  exact hf.congr rfl rfl rfl

/-- What can be seen of two timers is the same. -/
structure Matches (t u : Timer) (now : Int) : Prop where
  fields : t.fields = u.fields
  elapsed : t.elapsed now = u.elapsed now
  remaining : t.remaining now = u.remaining now
  phase : t.phase = u.phase
  isStarted : t.isStarted = u.isStarted
  isPaused : t.isPaused = u.isPaused
  isRunning : t.isRunning = u.isRunning
  isStopped : t.isStopped = u.isStopped
  isFinished : t.isFinished now = u.isFinished now

theorem Alike.matches (h : t.Alike u) (now : Int) : t.Matches u now := by
  obtain ⟨ls,a,rfl⟩ := h
  exact ⟨rfl,rfl,rfl,rfl,rfl,rfl,rfl,rfl,rfl⟩

/-- Two operations leave timers that are alike, and both announce an end or neither does. -/
structure Effect.Alike (e e' : Effect) : Prop where
  timer : e.timer.Alike e'.timer
  announced : e.announced.isSome = e'.announced.isSome

theorem Effect.Alike.ofCleared {e e' : Effect} (h : e.Alike e') : e.ofCleared.Alike e'.ofCleared :=
  ⟨h.timer,h.announced⟩

theorem Alike.silent (h : t.Alike u) : (Effect.silent t line).Alike (.silent u line') := ⟨h,rfl⟩

theorem announced_check (h : t.alarm.isStale g = false) :
    (t.check n g line).announced = if t.isDue line.now then some t.listeners else none := by
  by_cases hl : 0 < t.remaining line.now
  · rw [check_waiting h hl, isDue_of_remaining hl]
    rfl
  · have hsame : ({ t with alarm := t.alarm.renewed } : Timer).isDue (t.alarm.cancelled line).now =
        t.isDue line.now := by
      rw [Alarm.now_cancelled]
      rfl
    rw [check_over h (Int.not_lt.mp hl)]
    cases hd : t.isDue line.now with
    | true =>
      rw [expire_due (hsame.trans hd)]
      rfl
    | false =>
      rw [expire_not_due (hsame.trans hd)]
      rfl

theorem finished_check (h : t.alarm.isStale g = false) :
    (t.check n g line).timer.finished = (t.isDue line.now || t.finished) := by
  have honTime : (t.check n g line).OnTime t := check_onTime h
  have hmarked := honTime.marked
  rw [announced_check h, cleared_check, Bool.not_false, Bool.and_true] at hmarked
  rw [hmarked]
  cases t.isDue line.now <;> rfl

theorem Alike.check (h : t.Alike u) (ht : t.alarm.closed = false) (hu : u.alarm.closed = false)
    (hnow : line'.now = line.now) : (t.check n none line).Alike (u.check m none line') := by
  obtain ⟨ls,a,rfl⟩ := h
  have hsame : ({ t with listeners := ls, alarm := a } : Timer).isDue line'.now = t.isDue line.now := by
    rw [hnow]
    rfl
  constructor
  · obtain ⟨f,b,hf⟩ := check_timer t n none line
    obtain ⟨f',b',hf'⟩ := check_timer { t with listeners := ls, alarm := a } m none line'
    have hmark : (t.check n none line).timer.finished = _ := finished_check (isStale_none ht)
    have hmark' : (({ t with listeners := ls, alarm := a } : Timer).check m none line').timer.finished = _ :=
      finished_check (isStale_none hu)
    rw [hf] at hmark ⊢
    rw [hf', hsame] at hmark'
    rw [hf']
    obtain rfl : f' = f := hmark'.trans hmark.symm
    exact ⟨ls,b',rfl⟩
  · rw [announced_check (isStale_none ht), announced_check (isStale_none hu), hsame]
    cases t.isDue line.now <;> rfl

theorem Alike.clear (h : t.Alike u) (line line' : Timeline) : (t.clear line).1.Alike (u.clear line').1 := by
  obtain ⟨ls,a,rfl⟩ := h
  exact ⟨ls,_,rfl⟩

theorem Alike.start (h : t.Alike u) (ht : t.alarm.closed = false) (hu : u.alarm.closed = false)
    (hnow : line'.now = line.now) : (t.start n line).Alike (u.start m line') := by
  have hstarted := (h.matches line.now).isStarted
  have hclosed := (alike_iff.mp h).2
  have hclock : (t.clear line).2.now = line.now := Alarm.now_cancelled _ _
  have hclock' : (u.clear line').2.now = line.now := (Alarm.now_cancelled _ _).trans hnow
  unfold Timer.start
  rw [← hstarted, ← hclosed]
  split
  · exact h.silent
  · dsimp only
    rw [hclock, hclock']
    have hfresh : Alike { (t.clear line).1 with startedAt := some line.now, resumedAt := some line.now }
        { (u.clear line').1 with startedAt := some line.now, resumedAt := some line.now } := by
      obtain ⟨ls,a,rfl⟩ := h
      exact ⟨ls,_,rfl⟩
    exact (hfresh.check ht hu (hclock'.trans hclock.symm)).ofCleared

theorem Alike.resume (h : t.Alike u) (ht : t.alarm.closed = false) (hu : u.alarm.closed = false)
    (hnow : line'.now = line.now) : (t.resume n line).Alike (u.resume m line') := by
  have hpaused := (h.matches line.now).isPaused
  unfold Timer.resume
  rw [← hpaused, hnow]
  split
  · have hresumed : Alike { t with resumedAt := some line.now } { u with resumedAt := some line.now } := by
      obtain ⟨ls,a,rfl⟩ := h
      exact ⟨ls,_,rfl⟩
    exact hresumed.check ht hu hnow
  · exact h.silent

theorem Alike.pause (h : t.Alike u) (hnow : line'.now = line.now) :
    (t.pause line).1.Alike (u.pause line').1 := by
  have hrunning := (h.matches line.now).isRunning
  unfold Timer.pause
  rw [← hrunning, hnow]
  split
  · obtain ⟨ls,a,rfl⟩ := h
    exact ⟨ls,_,rfl⟩
  · exact h

theorem Alike.stop (h : t.Alike u) (hnow : line'.now = line.now) :
    (t.stop line).1.Alike (u.stop line').1 := by
  have hstarted := (h.matches line.now).isStarted
  have hstopped := (h.matches line.now).isStopped
  have hpause : (t.pause line).1.Alike (u.pause line').1 := h.pause hnow
  unfold Timer.stop
  rw [← hstarted, ← hstopped]
  split
  · have hclock : (t.pause line).2.now = line.now := now_pause t line
    have hclock' : (u.pause line').2.now = line.now := (now_pause u line').trans hnow
    dsimp only
    rw [hclock, hclock']
    obtain ⟨ls,a,hu⟩ := hpause
    rw [hu]
    exact ⟨ls,_,rfl⟩
  · exact h

theorem Alike.addInt (h : t.Alike u) (ht : t.alarm.closed = false) (hu : u.alarm.closed = false)
    (hnow : line'.now = line.now) (ms : Int) : (t.addInt n ms line).Alike (u.addInt m ms line') := by
  have hstarted := (h.matches line.now).isStarted
  cases hs : t.isStarted with
  | false =>
    rw [addInt_idle ms hs, addInt_idle ms (hstarted.symm.trans hs)]
    refine Alike.silent ?_
    obtain ⟨ls,a,rfl⟩ := h
    exact ⟨ls,_,rfl⟩
  | true =>
    have hlong : (t.lengthened ms).Alike (u.lengthened ms) := by
      obtain ⟨ls,a,rfl⟩ := h
      exact ⟨ls,_,rfl⟩
    have hclock : (t.alarm.cancelled line).now = line.now := Alarm.now_cancelled _ _
    have hclock' : (u.alarm.cancelled line').now = line.now := (Alarm.now_cancelled _ _).trans hnow
    rw [addInt_started ms hs, addInt_started ms (hstarted.symm.trans hs), hclock, hclock',
      ← (hlong.matches line.now).isRunning, ← (hlong.matches line.now).isFinished]
    split
    · exact hlong.check ht hu (hclock'.trans hclock.symm)
    · exact hlong.silent

theorem Alike.add (h : t.Alike u) (ht : t.alarm.closed = false) (hu : u.alarm.closed = false)
    (hnow : line'.now = line.now) (ms : Number.Amount) :
    (t.add n ms line).1.Alike (u.add m ms line').1 ∧ (t.add n ms line).2 = (u.add m ms line').2 := by
  unfold Timer.add
  rw [← (h.matches line.now).isStopped]
  split
  · exact ⟨h.silent,rfl⟩
  · split
    · exact ⟨h.silent,rfl⟩
    · exact ⟨h.addInt ht hu hnow _,rfl⟩

theorem Alike.reset (h : t.Alike u) (d : Option Number.Amount) :
    (t.reset d line).1.Alike (u.reset d line').1 ∧ (t.reset d line).2 = (u.reset d line').2 := by
  have hcleared := h.clear line line'
  unfold Timer.reset
  dsimp only
  split
  · exact ⟨hcleared.silent.ofCleared,rfl⟩
  · split
    · exact ⟨hcleared.silent.ofCleared,rfl⟩
    · refine ⟨(Alike.silent ?_).ofCleared,rfl⟩
      obtain ⟨ls,a,hu⟩ := hcleared
      rw [hu]
      exact ⟨ls,_,rfl⟩

theorem Alike.applyAction (h : t.Alike u) (ht : t.alarm.closed = false) (hu : u.alarm.closed = false)
    (hnow : line'.now = line.now) {a : Action} (ha : a.isPlain = true) :
    (Session.applyAction t n a line).1.Alike (Session.applyAction u m a line').1 ∧
      (Session.applyAction t n a line).2 = (Session.applyAction u m a line').2 := by
  cases a with
  | start => exact ⟨h.start ht hu hnow,rfl⟩
  | resume => exact ⟨h.resume ht hu hnow,rfl⟩
  | pause => exact ⟨(h.pause hnow).silent,rfl⟩
  | stop => exact ⟨(h.stop hnow).silent,rfl⟩
  | close =>
    refine ⟨Alike.silent ?_,rfl⟩
    obtain ⟨ls,a,rfl⟩ := h
    exact ⟨ls,_,rfl⟩
  | reset d => exact h.reset d
  | add ms => exact h.add ht hu hnow ms
  | setFields f => contradiction

/-- What a snapshot of a punctual timer is restored to is like that timer, and is punctual too. -/
theorem restore_alike (hd : 0 ≤ t.duration) (hc : t.closed = false) (hp : t.Punctual line) (n : Nat)
    (hnow : line'.now = line.now) :
    t.Alike (restore t.fields n line').timer ∧ (restore t.fields n line').timer.listeners = [] ∧
      (restore t.fields n line').timer.Punctual (restore t.fields n line').line := by
  have hsame : (ofFields t.fields).isDue line'.now = false := by
    have hdue := hp.due
    rw [hnow]
    simp only [isDue, hc] at hdue ⊢
    exact hdue
  rw [restore_eq hd]
  split
  · obtain ⟨f,a,hf⟩ := check_timer (ofFields t.fields) n none line'
    have hmark : ((ofFields t.fields).check n none line').timer.finished = _ := finished_check rfl
    rw [hsame, Bool.false_or, hf] at hmark
    obtain rfl : f = t.finished := hmark
    refine ⟨?_,?_,(check_onTime (t := ofFields t.fields) rfl).punctual⟩
    · change t.Alike ((ofFields t.fields).check n none line').timer
      rw [hf]
      exact alike_iff.mpr ⟨rfl,hc⟩
    · change ((ofFields t.fields).check n none line').timer.listeners = []
      rw [hf]
      rfl
  · exact ⟨alike_iff.mpr ⟨rfl,hc⟩,rfl,.of_no_wake hsame rfl⟩

end Countdown.Timer
