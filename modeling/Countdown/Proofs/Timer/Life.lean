import Countdown.Proofs.Timer.Punctual
set_option autoImplicit false

namespace Countdown

def Phase.ofStamps (startedAt resumedAt stoppedAt : Option Int) : Phase :=
  if stoppedAt.isSome then .stopped
  else if startedAt.isNone then .idle
  else if resumedAt.isSome then .running
  else .paused

def Timer.GivenFields.phase (f : GivenFields) : Phase :=
  match f.duration.toInt with
  | .error _ => .idle
  | .ok _ => .ofStamps f.startedAt f.resumedAt f.stoppedAt

/-- What the machine knows of a timer. -/
structure Life where
  phase : Phase
  closed : Bool
  deriving DecidableEq, Repr

namespace Life

def applies (l : Life) : Action → Bool
  | .start => l.phase == .idle && !l.closed
  | .resume => l.phase == .paused
  | .pause => l.phase == .running
  | .stop => l.phase == .running || l.phase == .paused
  | .add _ => l.phase != .stopped
  | .reset _ | .close | .setFields _ => true

def next (l : Life) : Action → Life
  | .start | .resume => { l with phase := .running }
  | .pause => { l with phase := .paused }
  | .stop => { l with phase := .stopped }
  | .reset _ => { l with phase := .idle }
  | .add _ => l
  | .close => { l with closed := true }
  | .setFields f => { l with phase := f.phase }

def after (l : Life) (a : Action) : Life := if l.applies a then l.next a else l

@[simp] theorem after_add (l : Life) (ms : Number.Amount) : l.after (.add ms) = l := by
  simp [after, next]

end Life

namespace Timer

variable {t : Timer} {n : Nat} {line : Timeline} {p : Phase}

def life (t : Timer) : Life := ⟨t.phase,t.closed⟩

def HasShape (t : Timer) : Phase → Prop
  | .idle => t.startedAt = none ∧ t.resumedAt = none ∧ t.stoppedAt = none
  | .running => t.startedAt ≠ none ∧ t.resumedAt ≠ none ∧ t.stoppedAt = none
  | .paused => t.startedAt ≠ none ∧ t.resumedAt = none ∧ t.stoppedAt = none
  | .stopped => t.startedAt ≠ none ∧ t.resumedAt = none ∧ t.stoppedAt ≠ none

theorem phase_eq (t : Timer) : t.phase = .ofStamps t.startedAt t.resumedAt t.stoppedAt := by
  unfold phase isPaused isRunning isStopped isStarted Phase.ofStamps
  cases t.startedAt <;> cases t.resumedAt <;> cases t.stoppedAt <;> rfl

theorem HasShape.phase (h : t.HasShape p) : t.phase = p := by
  rw [phase_eq]
  cases p <;> obtain ⟨hstarted,hresumed,hstopped⟩ := h <;>
    simp [Phase.ofStamps, Option.isSome_iff_ne_none, hstarted, hresumed, hstopped]

theorem HasShape.life (h : t.HasShape p) : t.life = ⟨p,t.closed⟩ := by
  rw [Timer.life, h.phase]

theorem Shaped.hasShape (h : t.Shaped) : t.HasShape t.phase := by
  obtain ⟨hresumed,hstopped⟩ := h
  rw [phase_eq]
  cases hstart : t.startedAt with
  | none =>
    have hstop : t.stoppedAt = none := Classical.byContradiction fun h => hstopped h hstart
    have hresume : t.resumedAt = none := Classical.byContradiction fun h => (hresumed h).1 hstart
    rw [hstop]
    exact ⟨hstart,hresume,hstop⟩
  | some a =>
    have hne : t.startedAt ≠ none := by simp [hstart]
    cases hresume : t.resumedAt with
    | none => cases hstop : t.stoppedAt with
      | none => exact ⟨hne,hresume,hstop⟩
      | some b => exact ⟨hne,hresume,by simp [hstop]⟩
    | some r =>
      have hrun : t.resumedAt ≠ none := by simp [hresume]
      have hstop : t.stoppedAt = none := (hresumed hrun).2
      rw [hstop]
      exact ⟨hne,hrun,hstop⟩

theorem Shaped.hasShape_iff (h : t.Shaped) : t.HasShape p ↔ t.phase = p := by
  constructor
  · exact HasShape.phase
  · rintro rfl
    exact h.hasShape

theorem isStopped_iff : t.isStopped = true ↔ t.phase = .stopped := by
  rw [phase_eq]
  unfold isStopped Phase.ofStamps
  cases t.stoppedAt <;> cases t.startedAt <;> cases t.resumedAt <;> simp

theorem Shaped.isStarted_iff (h : t.Shaped) : t.isStarted = true ↔ t.phase ≠ .idle := by
  have hshape := h.hasShape
  cases hp : t.phase <;> rw [hp] at hshape <;> simp [isStarted, Option.isSome_iff_ne_none, hshape.1]

theorem Shaped.isRunning_iff_phase (h : t.Shaped) : t.isRunning = true ↔ t.phase = .running := by
  have hshape := h.hasShape
  cases hp : t.phase <;> rw [hp] at hshape <;> simp [isRunning_iff, hshape.1, hshape.2.1]

theorem Shaped.isPaused_iff (h : t.Shaped) : t.isPaused = true ↔ t.phase = .paused := by
  have hshape := h.hasShape
  cases hp : t.phase <;> rw [hp] at hshape <;>
    simp [isPaused, isStarted, isStopped, Option.isSome_iff_ne_none, hshape.1, hshape.2.1, hshape.2.2]

theorem Shaped.isOpen_eq (h : t.Shaped) :
    (t.isStarted && !t.isStopped) = (t.phase == .running || t.phase == .paused) := by
  rw [Bool.eq_iff_iff, Bool.and_eq_true, Bool.not_eq_true', ← Bool.not_eq_true, h.isStarted_iff, isStopped_iff]
  cases t.phase <;> simp

/-- An operation that does not apply does nothing at all. -/
theorem Shaped.applyAction_still (h : t.Shaped) {a : Action} (hno : t.life.applies a = false) :
    Session.applyAction t n a line = (.silent t line,none) := by
  cases a with
  | start =>
    have hor : (t.isStarted || t.closed) = true := by
      simpa [Life.applies, life, h.isStarted_iff, Classical.or_iff_not_imp_left] using hno
    simp only [Session.applyAction, start, if_pos hor]
  | resume =>
    have hnot : ¬ t.isPaused = true := by simpa [Life.applies, life, h.isPaused_iff] using hno
    simp only [Session.applyAction, resume, if_neg hnot]
  | pause =>
    have hnot : ¬ t.isRunning = true := by simpa [Life.applies, life, h.isRunning_iff_phase] using hno
    simp only [Session.applyAction, pause, if_neg hnot]
  | stop =>
    have hnot : ¬ (t.isStarted && !t.isStopped) = true := by
      rwa [h.isOpen_eq, Bool.not_eq_true]
    simp only [Session.applyAction, stop, if_neg hnot]
  | add ms =>
    have hstopped : t.isStopped = true := by simpa [Life.applies, life, isStopped_iff] using hno
    simp only [Session.applyAction, add, if_pos hstopped]
  | reset d => contradiction
  | close => contradiction
  | setFields f => contradiction

@[simp] theorem life_check (t : Timer) (n : Nat) (g : Option Nat) (line : Timeline) :
    (t.check n g line).timer.life = t.life := by
  obtain ⟨f,a,htimer⟩ := check_timer t n g line
  rw [htimer]
  rfl

@[simp] theorem life_wake (t : Timer) (n g : Nat) (line : Timeline) :
    (t.wake n g line).timer.life = t.life := by
  obtain ⟨f,a,htimer⟩ := wake_timer t n g line
  rw [htimer]
  rfl

theorem life_add (t : Timer) (n : Nat) (ms : Number.Amount) (line : Timeline) :
    (t.add n ms line).1.timer.life = t.life := by
  unfold add
  split
  · rfl
  · split
    · rfl
    · rename_i ms _
      cases hs : t.isStarted with
      | false =>
        rw [addInt_idle ms hs]
        rfl
      | true =>
        rw [addInt_started ms hs]
        split
        · rw [life_check]
          rfl
        · rfl

theorem life_setFields {f : GivenFields} (hf : f.Consistent) (t : Timer) (n : Nat) (line : Timeline) :
    (t.setFields n f line).1.timer.life = ⟨f.phase,t.closed⟩ := by
  obtain ⟨ms,hms⟩ := hf.accumulated
  unfold setFields GivenFields.phase
  dsimp only
  cases f.duration.toInt with
  | error e => rfl
  | ok d =>
    rw [hms]
    dsimp only
    have hlife : ∀ t' : Timer, t'.startedAt = f.startedAt → t'.resumedAt = f.resumedAt →
        t'.stoppedAt = f.stoppedAt → t'.life = ⟨.ofStamps f.startedAt f.resumedAt f.stoppedAt,t'.closed⟩ := by
      intro t' hstarted hresumed hstopped
      rw [life, phase_eq, hstarted, hresumed, hstopped]
    split
    · rw [Effect.ofCleared, life_check, hlife _ rfl rfl rfl]
      rfl
    · rw [Effect.ofCleared, Effect.silent, hlife _ rfl rfl rfl]
      rfl

theorem Shaped.life_start (h : t.Shaped) (hp : t.phase = .idle) (hc : t.closed = false) :
    (t.start n line).timer.life = ⟨.running,t.closed⟩ := by
  have hnot : ¬ (t.isStarted || t.closed) = true := by simp [h.isStarted_iff, hp, hc]
  simp only [start, if_neg hnot, Effect.ofCleared, life_check]
  rfl

theorem Shaped.life_resume (h : t.Shaped) (hp : t.phase = .paused) :
    (t.resume n line).timer.life = ⟨.running,t.closed⟩ := by
  obtain ⟨hstart,-,hstop⟩ : t.HasShape .paused := h.hasShape_iff.mpr hp
  have hrun : HasShape { t with resumedAt := some line.now } .running := ⟨hstart,by simp,hstop⟩
  rw [resume, if_pos (h.isPaused_iff.mpr hp), life_check]
  exact hrun.life

@[simp] theorem closed_pause (t : Timer) (line : Timeline) : (t.pause line).1.closed = t.closed := by
  unfold pause
  split <;> rfl

theorem hasShape_pause (h : t.HasShape .running) : (t.pause line).1.HasShape .paused := by
  obtain ⟨hstart,hresume,hstop⟩ := h
  rw [pause, if_pos (isRunning_iff.mpr ⟨hstart,hresume⟩)]
  exact ⟨hstart,rfl,hstop⟩

theorem Shaped.life_pause (h : t.Shaped) (hp : t.phase = .running) :
    (t.pause line).1.life = ⟨.paused,t.closed⟩ := by
  rw [(hasShape_pause (h.hasShape_iff.mpr hp)).life, closed_pause]

theorem Shaped.life_stop (h : t.Shaped) (hp : t.phase = .running ∨ t.phase = .paused) :
    (t.stop line).1.life = ⟨.stopped,t.closed⟩ := by
  have hopen : (t.isStarted && !t.isStopped) = true := by simpa [h.isOpen_eq] using hp
  have hpaused : (t.pause line).1.HasShape .paused := by
    obtain hrun | hpaused := hp
    · exact hasShape_pause (h.hasShape_iff.mpr hrun)
    · have hnot : ¬ t.isRunning = true := by simp [h.isRunning_iff_phase, hpaused]
      rw [pause, if_neg hnot]
      exact h.hasShape_iff.mpr hpaused
  obtain ⟨hstart,hresume,-⟩ := hpaused
  have hstopped : (t.stop line).1.HasShape .stopped := by
    rw [stop, if_pos hopen]
    exact ⟨hstart,hresume,by simp [disarmed]⟩
  rw [hstopped.life, stop, if_pos hopen]
  simp [disarmed]

theorem Shaped.life_applied (h : t.Shaped) {a : Action} (happ : t.life.applies a = true)
    (ha : ∀ f, a = .setFields f → f.Consistent) :
    (Session.applyAction t n a line).1.timer.life = t.life.next a := by
  cases a with
  | start =>
    simp only [Life.applies, life, Bool.and_eq_true, beq_iff_eq, Bool.not_eq_true'] at happ
    exact h.life_start happ.1 happ.2
  | resume => exact h.life_resume (beq_iff_eq.mp happ)
  | pause => exact h.life_pause (beq_iff_eq.mp happ)
  | stop => exact h.life_stop (by simpa [Life.applies, life] using happ)
  | reset d =>
    obtain ⟨d',he⟩ := reset_eq t d line
    simp only [Session.applyAction, he]
    rfl
  | add ms => exact life_add t n ms line
  | close => rfl
  | setFields f => exact life_setFields (ha f rfl) t n line

/-- Every operation on a timer is one of the machine. -/
theorem Shaped.life_applyAction (h : t.Shaped) {a : Action} (ha : ∀ f, a = .setFields f → f.Consistent) :
    (Session.applyAction t n a line).1.timer.life = t.life.after a := by
  cases happ : t.life.applies a with
  | true => rw [h.life_applied happ ha, Life.after, if_pos happ]
  | false => rw [h.applyAction_still happ, Life.after, if_neg (by simp [happ]), Effect.silent]

end Timer
end Countdown
