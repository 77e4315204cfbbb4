import Countdown.Proofs.Timer.Punctual
import Countdown.Session.Basic
set_option autoImplicit false

namespace Countdown

def Action.isPlain : Action → Bool
  | .setFields _ => false
  | _ => true

def Action.continues : Action → Bool
  | .reset _ | .setFields _ => false
  | _ => true

theorem Action.isPlain_of_continues {a : Action} (h : a.continues = true) : a.isPlain = true := by
  cases a <;> first | rfl | contradiction

namespace TimerFields

variable {f f' : TimerFields} {now now' : Int}

def elapsed (f : TimerFields) (now : Int) : Int :=
  match f.resumedAt with
  | none => f.accumulated
  | some r => f.accumulated + (now - r)

def Tidy (f : TimerFields) : Prop := f.startedAt = none → f = { duration := f.duration }

/-- The end of a run that is under way may have been announced. -/
def Marked (f f' : TimerFields) : Prop :=
  ∃ b, f' = { f with finished := b } ∧ (f.startedAt = none → b = f.finished)

/-- What becomes of the timekeeping fields by `now` while a run goes on. -/
inductive Evolves (f : TimerFields) (now : Int) : TimerFields → Prop where
  | adjusted {d : Int} {b : Bool} : (0 ≤ f.duration → 0 ≤ d) → (f.startedAt = none → b = f.finished) →
      Evolves f now { f with duration := d, finished := b }
  | started (b : Bool) : f.startedAt = none →
      Evolves f now ⟨f.duration,some now,some now,none,0,b⟩
  | resumed (b : Bool) : f.startedAt ≠ none → f.resumedAt = none → f.stoppedAt = none →
      Evolves f now { f with resumedAt := some now, finished := b }
  | paused : f.startedAt ≠ none →
      Evolves f now { f with accumulated := f.elapsed now, resumedAt := none }
  | stopped : f.startedAt ≠ none →
      Evolves f now { f with accumulated := f.elapsed now, resumedAt := none, stoppedAt := some now }

theorem Marked.refl (f : TimerFields) : f.Marked f := ⟨f.finished,rfl,fun _ => rfl⟩

theorem Marked.evolves (h : f.Marked f') (now : Int) : f.Evolves now f' := by
  obtain ⟨b,rfl,hb⟩ := h
  exact .adjusted id hb

theorem Evolves.refl (f : TimerFields) (now : Int) : f.Evolves now f := (Marked.refl f).evolves now

theorem elapsed_of_not_resumed (h : f.resumedAt = none) : f.elapsed now = f.accumulated := by
  unfold elapsed
  rw [h]

/-- No operation by itself changes the time that was spent running. -/
theorem Evolves.elapsed_eq (h : f.Evolves now f') (hf : f.Tidy) : f'.elapsed now = f.elapsed now := by
  cases h with
  | adjusted _ _ => rfl
  | started b hs =>
    rw [hf hs]
    change 0 + (now - now) = 0
    omega
  | resumed b _ hr _ =>
    rw [elapsed_of_not_resumed hr]
    change f.accumulated + (now - now) = f.accumulated
    omega
  | paused _ => rfl
  | stopped _ => rfl

theorem Evolves.tidy (h : f.Evolves now f') (hf : f.Tidy) : f'.Tidy := by
  intro hs
  cases h with
  | adjusted _ hb =>
    rw [hb hs, hf hs]
  | started => contradiction
  | resumed b hstart => exact absurd hs hstart
  | paused hstart => exact absurd hs hstart
  | stopped hstart => exact absurd hs hstart

theorem Evolves.duration (h : f.Evolves now f') (hd : 0 ≤ f.duration) : 0 ≤ f'.duration := by
  cases h with
  | adjusted hd' _ => exact hd' hd
  | _ => exact hd

theorem Tidy.elapsed_clock (hf : f.Tidy) (now now' : Int) : f.elapsed now' =
    f.elapsed now + if f.startedAt.isSome && f.resumedAt.isSome then now' - now else 0 := by
  unfold elapsed
  cases hr : f.resumedAt with
  | none => simp
  | some r =>
    have hstart : f.startedAt.isSome = true := by
      rw [Option.isSome_iff_ne_none]
      intro hs
      rw [hf hs] at hr
      contradiction
    simp only [hstart, Option.isSome_some, Bool.and_self, if_true]
    omega

end TimerFields

namespace Timer
open TimerFields

variable {t : Timer} {n : Nat} {line : Timeline} {now : Int}

@[simp] theorem elapsed_fields (t : Timer) (now : Int) : t.fields.elapsed now = t.elapsed now := rfl

theorem now_pause (t : Timer) (line : Timeline) : (t.pause line).2.now = line.now := by
  unfold Timer.pause
  split
  · exact Alarm.now_cancelled _ _
  · rfl

theorem now_check (t : Timer) (n : Nat) (g : Option Nat) (line : Timeline) :
    (t.check n g line).line.now = line.now := by
  cases hs : t.alarm.isStale g with
  | true =>
    rw [check_stale hs]
    rfl
  | false =>
    by_cases hl : 0 < t.remaining line.now
    · rw [check_waiting hs hl]
      exact Alarm.now_cancelled t.alarm line
    · rw [check_over hs (Int.not_lt.mp hl)]
      unfold expire
      split <;> exact Alarm.now_cancelled t.alarm line

theorem marked_expire (t : Timer) (line : Timeline) : t.fields.Marked (t.expire line).timer.fields := by
  unfold expire
  split
  · rename_i hdue
    have hstart : t.startedAt ≠ none := by
      simp only [isDue, Bool.and_eq_true, isStarted, Option.isSome_iff_ne_none] at hdue
      exact hdue.1.1.2
    exact ⟨true,rfl,fun hs => absurd hs hstart⟩
  · exact .refl _

theorem marked_check (t : Timer) (n : Nat) (g : Option Nat) (line : Timeline) :
    t.fields.Marked (t.check n g line).timer.fields := by
  unfold check
  split
  · exact marked_expire _ _
  · exact .refl _

theorem marked_wake (t : Timer) (n g : Nat) (line : Timeline) :
    t.fields.Marked (t.wake n g line).timer.fields := by
  unfold wake
  split
  · exact .refl _
  · exact marked_check _ _ _ _

theorem now_wake (t : Timer) (n g : Nat) (line : Timeline) : (t.wake n g line).line.now = line.now := by
  unfold wake
  split
  · rfl
  · exact now_check _ _ _ _

theorem start_evolves (t : Timer) (n : Nat) (line : Timeline) :
    t.fields.Evolves line.now (t.start n line).timer.fields := by
  unfold start
  split
  · exact .refl _ _
  · rename_i hnot
    have hidle : t.startedAt = none := by
      simp only [isStarted, Bool.or_eq_true, not_or, Option.isSome_iff_ne_none, Classical.not_not] at hnot
      exact hnot.1
    have hnow : (t.clear line).2.now = line.now := Alarm.now_cancelled t.alarm line
    dsimp only
    rw [hnow]
    obtain ⟨b,hb,-⟩ := marked_check { (t.clear line).1 with
      startedAt := some line.now, resumedAt := some line.now } n none (t.clear line).2
    rw [Effect.ofCleared, hb]
    exact .started b hidle

theorem resume_evolves (t : Timer) (n : Nat) (line : Timeline) :
    t.fields.Evolves line.now (t.resume n line).timer.fields := by
  unfold resume
  split
  · rename_i hp
    simp only [isPaused, isStarted, isStopped, Bool.and_eq_true, Option.isSome_iff_ne_none,
      Option.isNone_iff_eq_none, Bool.not_eq_true', Option.isSome_eq_false_iff] at hp
    obtain ⟨⟨hstart,hresume⟩,hstop⟩ := hp
    obtain ⟨b,hb,-⟩ := marked_check { t with resumedAt := some line.now } n none line
    rw [hb]
    exact .resumed b hstart hresume hstop
  · exact .refl _ _

theorem fields_pause (t : Timer) (line : Timeline) : (t.pause line).1.fields =
    if t.isRunning then { t.fields with accumulated := t.elapsed line.now, resumedAt := none }
    else t.fields := by
  unfold pause
  split <;> rfl

theorem pause_evolves (t : Timer) (line : Timeline) :
    t.fields.Evolves line.now (t.pause line).1.fields := by
  rw [fields_pause]
  split
  · rename_i hr
    exact .paused (isRunning_iff.mp hr).1
  · exact .refl _ _

theorem stop_evolves (t : Timer) (line : Timeline) :
    t.fields.Evolves line.now (t.stop line).1.fields := by
  unfold stop
  split
  · rename_i hopen
    have hstart : t.startedAt ≠ none := by
      simp only [isStarted, Bool.and_eq_true, Option.isSome_iff_ne_none] at hopen
      exact hopen.1
    have hnow : (t.pause line).2.now = line.now := now_pause t line
    have hfields : ({ (t.pause line).1 with stoppedAt := some (t.pause line).2.now }.disarmed
        (t.pause line).2).1.fields = { (t.pause line).1.fields with stoppedAt := some line.now } := by
      rw [← hnow]
      rfl
    dsimp only
    rw [hfields, fields_pause]
    split
    · exact .stopped hstart
    · rename_i hr
      have hresume : t.fields.resumedAt = none := by
        have hnot := fun hresume => hr (isRunning_iff.mpr ⟨hstart,hresume⟩)
        exact Classical.not_not.mp hnot
      have hstopped : { t.fields with stoppedAt := some line.now } = { t.fields with
          accumulated := t.fields.elapsed line.now, resumedAt := none, stoppedAt := some line.now } := by
        rw [elapsed_of_not_resumed hresume, ← hresume]
      rw [hstopped]
      exact .stopped hstart
  · exact .refl _ _

theorem add_evolves (t : Timer) (n : Nat) (ms : Number.Amount) (line : Timeline) :
    t.fields.Evolves line.now (t.add n ms line).1.timer.fields := by
  unfold add
  split
  · exact .refl _ _
  · split
    · exact .refl _ _
    · rename_i m _
      have hd : 0 ≤ t.fields.duration → 0 ≤ max 0 (t.duration + m) := fun _ => Int.le_max_left _ _
      cases hs : t.isStarted with
      | false =>
        rw [addInt_idle m hs]
        exact .adjusted hd fun _ => rfl
      | true =>
        rw [addInt_started m hs]
        split
        · obtain ⟨b,hb,hidle⟩ := marked_check (t.lengthened m) n none (t.alarm.cancelled line)
          rw [hb]
          exact .adjusted hd hidle
        · exact .adjusted hd fun _ => rfl

theorem applyAction_evolves (t : Timer) (n : Nat) {a : Action} (ha : a.continues = true)
    (line : Timeline) : t.fields.Evolves line.now (Session.applyAction t n a line).1.timer.fields := by
  cases a with
  | start => exact start_evolves t n line
  | resume => exact resume_evolves t n line
  | pause => exact pause_evolves t line
  | stop => exact stop_evolves t line
  | close => exact .refl _ _
  | add ms => exact add_evolves t n ms line
  | reset d => contradiction
  | setFields f => contradiction

theorem reset_fields (t : Timer) (d : Option Number.Amount) (line : Timeline) :
    ∃ d', (t.reset d line).1.timer.fields = { duration := d' } ∧ (0 ≤ t.duration → 0 ≤ d') := by
  unfold reset
  dsimp only
  split
  · exact ⟨t.duration,rfl,id⟩
  · split
    · exact ⟨t.duration,rfl,id⟩
    · exact ⟨_,rfl,fun _ => Int.le_max_left _ _⟩

theorem now_stop (t : Timer) (line : Timeline) : (t.stop line).2.now = line.now := by
  unfold stop
  split
  · exact (Alarm.now_cancelled _ _).trans (now_pause t line)
  · rfl

theorem now_add (t : Timer) (n : Nat) (ms : Number.Amount) (line : Timeline) :
    (t.add n ms line).1.line.now = line.now := by
  unfold add
  split
  · rfl
  · split
    · rfl
    · rename_i m _
      cases hs : t.isStarted with
      | false =>
        rw [addInt_idle m hs]
        rfl
      | true =>
        rw [addInt_started m hs]
        split
        · exact (now_check _ _ _ _).trans (Alarm.now_cancelled _ _)
        · exact Alarm.now_cancelled _ _

theorem now_applyAction (t : Timer) (n : Nat) {a : Action} (ha : a.isPlain = true) (line : Timeline) :
    (Session.applyAction t n a line).1.line.now = line.now := by
  cases a with
  | start =>
    simp only [Session.applyAction, start]
    split
    · rfl
    · exact (now_check _ _ _ _).trans (Alarm.now_cancelled _ _)
  | resume =>
    simp only [Session.applyAction, resume]
    split
    · exact now_check _ _ _ _
    · rfl
  | pause => exact now_pause t line
  | stop => exact now_stop t line
  | close => exact Alarm.now_cancelled _ _
  | reset d =>
    obtain ⟨d',he⟩ := reset_eq t d line
    simp only [Session.applyAction, he]
    exact Alarm.now_cancelled _ _
  | add ms => exact now_add t n ms line
  | setFields f => contradiction

end Timer
end Countdown
