import Countdown.Proofs.Session.Change
set_option autoImplicit false

/-!
What an operation on a timer leaves behind when one of its numbers cannot be converted. A number that is to
be added is converted first, and nothing happens. A reset, and the setting of fields, forget the run and
cancel the wake before they convert anything.
-/

namespace Countdown
open Number

def Number.Amount.fault? (x : Amount) : Option NoInteger :=
  match x.toInt with
  | .error f => some f
  | .ok _ => none

theorem Number.Amount.fault?_eq_some {x : Amount} {f : NoInteger} :
    x.fault? = some f ↔ x.toInt = .error f := by
  unfold fault?
  cases x.toInt <;> simp

theorem Number.Amount.toInt_eq_error {x : Amount} {f : NoInteger} : x.toInt = .error f ↔
    ∃ y, x = .real y ∧ (Double.ofFloat y = .nan ∧ f = .nan ∨
      (∃ negative, Double.ofFloat y = .infinite negative) ∧ f = .infinite) := by
  cases x with
  | int i => simp [toInt]
  | real y =>
    simp only [toInt, truncate, real.injEq, exists_eq_left']
    cases Double.ofFloat y <;> simp [eq_comm]

namespace Action

def amounts : Action → List Amount
  | .reset d => d.toList
  | .add ms => [ms]
  | .setFields f => [f.duration, f.accumulated]
  | _ => []

def isAdd : Action → Bool
  | .add _ => true
  | _ => false

/-- Why an action on a timer fails, if it does. Nothing is added to a timer that was stopped. -/
def fault? (t : Timer) (a : Action) : Option NoInteger :=
  if a.isAdd && t.isStopped then none else a.amounts.findSome? Amount.fault?

/-- An action fails exactly if some number that is to be converted is infinite or not a number. -/
theorem fault?_ne_none {t : Timer} {a : Action} : a.fault? t ≠ none ↔ ¬(a.isAdd = true ∧ t.isStopped = true) ∧
    ∃ y, Amount.real y ∈ a.amounts ∧ (Double.ofFloat y = .nan ∨ ∃ negative, Double.ofFloat y = .infinite negative) := by
  have hnumber : ∀ x : Amount, x.fault? ≠ none ↔
      ∃ y, x = .real y ∧ (Double.ofFloat y = .nan ∨ ∃ negative, Double.ofFloat y = .infinite negative) := by
    intro x
    rw [Option.ne_none_iff_exists']
    simp only [Amount.fault?_eq_some, Amount.toInt_eq_error]
    constructor
    · rintro ⟨f,y,hx,⟨hnan,-⟩ | ⟨hinfinite,-⟩⟩
      · exact ⟨y,hx,.inl hnan⟩
      · exact ⟨y,hx,.inr hinfinite⟩
    · rintro ⟨y,hx,hnan | hinfinite⟩
      · exact ⟨.nan,y,hx,.inl ⟨hnan,rfl⟩⟩
      · exact ⟨.infinite,y,hx,.inr ⟨hinfinite,rfl⟩⟩
  have hamounts : a.amounts.findSome? Amount.fault? ≠ none ↔ ∃ x ∈ a.amounts, x.fault? ≠ none := by
    simp
  unfold fault?
  split
  · rename_i hstopped
    simp_all
  · rename_i hopen
    rw [hamounts]
    simp only [hnumber]
    constructor
    · rintro ⟨_,hx,y,rfl,hy⟩
      exact ⟨by simpa using hopen,y,hx,hy⟩
    · rintro ⟨-,y,hx,hy⟩
      exact ⟨_,hx,y,rfl,hy⟩

def remnant (t : Timer) : Action → TimerFields
  | .add _ => t.fields
  | .setFields f => match f.duration.toInt with
    | .error _ => { duration := t.duration }
    | .ok d => ⟨max 0 d,f.startedAt,f.resumedAt,f.stoppedAt,0,false⟩
  | _ => { duration := t.duration }

end Action

namespace Timer

variable {t : Timer} {n : Nat} {a : Action} {line : Timeline} {e : Effect} {f : NoInteger}

def forgotten (t : Timer) (g : TimerFields) : Timer :=
  { t with
    duration := g.duration, startedAt := g.startedAt, resumedAt := g.resumedAt, stoppedAt := g.stoppedAt
    accumulated := g.accumulated, finished := g.finished, alarm := t.alarm.renewed }

/-- What has happened when an action fails. -/
def failedEffect (t : Timer) (a : Action) (line : Timeline) : Effect :=
  if a.isAdd then .silent t line
  else (Effect.silent (t.forgotten (a.remnant t)) (t.alarm.cancelled line)).ofCleared

theorem fault_applyAction (t : Timer) (n : Nat) (a : Action) (line : Timeline) :
    (Session.applyAction t n a line).2 = a.fault? t := by
  cases a with
  | reset d =>
    cases d with
    | none => simp [Session.applyAction, reset, Action.fault?, Action.amounts, Action.isAdd]
    | some d =>
      simp only [Session.applyAction, reset, Action.fault?, Action.amounts, Action.isAdd, Amount.fault?,
        Option.toList_some, Bool.false_and, Bool.false_eq_true, if_false, List.findSome?_cons]
      cases d.toInt <;> rfl
  | add ms =>
    simp only [Session.applyAction, add, Action.fault?, Action.amounts, Action.isAdd, Amount.fault?,
      Bool.true_and, List.findSome?_cons, List.findSome?_nil]
    split
    · rfl
    · cases ms.toInt <;> rfl
  | setFields g =>
    simp only [Session.applyAction, setFields, Action.fault?, Action.amounts, Action.isAdd, Amount.fault?,
      Bool.false_and, Bool.false_eq_true, if_false, List.findSome?_cons, List.findSome?_nil]
    cases g.duration.toInt with
    | error f => rfl
    | ok d =>
      cases g.accumulated.toInt with
      | error f => rfl
      | ok x =>
        dsimp only
        split <;> rfl
  | _ => rfl

theorem applyAction_of_fault (n : Nat) (line : Timeline) (h : a.fault? t = some f) :
    (Session.applyAction t n a line).1 = t.failedEffect a line := by
  cases a with
  | reset d =>
    obtain ⟨d,rfl,hd⟩ : ∃ x, d = some x ∧ x.toInt = .error f := by
      cases d <;> simp_all [Action.fault?, Action.amounts, Action.isAdd, Amount.fault?_eq_some]
    simp only [Session.applyAction, reset, hd]
    rfl
  | add ms =>
    obtain ⟨hs,hms⟩ : t.isStopped = false ∧ ms.toInt = .error f := by
      simpa [Action.fault?, Action.amounts, Action.isAdd, Amount.fault?_eq_some] using h
    simp only [Session.applyAction, add, hs, hms, Bool.false_eq_true, if_false]
    rfl
  | setFields g =>
    simp only [Session.applyAction, setFields, failedEffect, Action.remnant, Action.isAdd]
    cases hd : g.duration.toInt with
    | error f => rfl
    | ok d =>
      cases hx : g.accumulated.toInt with
      | error f => rfl
      | ok x => simp [Action.fault?, Action.amounts, Action.isAdd, Amount.fault?, hd, hx] at h
  | _ => simp [Action.fault?, Action.amounts] at h

theorem failedEffect_timer (t : Timer) (a : Action) (line : Timeline) :
    (t.failedEffect a line).timer.fields = a.remnant t ∧
      (t.failedEffect a line).timer.listeners = t.listeners ∧
      (t.failedEffect a line).timer.closed = t.closed := by
  unfold failedEffect
  split
  · rename_i h
    obtain ⟨ms,rfl⟩ : ∃ ms, a = .add ms := by
      cases a <;> simp_all [Action.isAdd]
    exact ⟨rfl,rfl,rfl⟩
  · exact ⟨rfl,rfl,rfl⟩

/-- A timer and the wakes are as before: the fields and the latch among them, the listeners, and the wake
that it waits for. -/
structure Keeps (t t' : Timer) (line line' : Timeline) : Prop where
  fields : t'.fields = t.fields
  listeners : t'.listeners = t.listeners
  pending : t'.alarm.pending = t.alarm.pending
  line : line' = line

theorem keeps_failedEffect (t : Timer) (a : Action) (line : Timeline) :
    t.Keeps (t.failedEffect a line).timer line (t.failedEffect a line).line ↔
      a.isAdd = true ∨ a.remnant t = t.fields ∧ t.alarm.pending = none := by
  unfold failedEffect
  cases ha : a.isAdd with
  | true => exact ⟨fun _ => .inl rfl,fun _ => ⟨rfl,rfl,rfl,rfl⟩⟩
  | false =>
    simp only [Bool.false_eq_true, if_false, false_or]
    constructor
    · intro h
      exact ⟨h.fields,h.pending.symm⟩
    · rintro ⟨hfields,hpending⟩
      exact ⟨hfields,rfl,hpending.symm,by simp [Effect.ofCleared, Effect.silent, Alarm.cancelled, hpending]⟩

end Timer

namespace Session

variable {s : Session} {n : Nat} {t : Timer}

theorem run_act (fuel : Nat) {r : Ref} {a : Action} (hn : s.timer? none r = some n)
    (ht : s.world.timers[n]? = some t) :
    (∃ g, a.fault? t = some g ∧ s.run fuel (.act r a) =
      some (s.withWorld (s.world.take n (t.failedEffect a s.world.line)).1, .error (.noInteger g))) ∨
    a.fault? t = none ∧ ∀ s' f, s.run fuel (.act r a) ≠ some (s', .error f) := by
  have hfault := Timer.fault_applyAction t n a s.world.line
  simp only [run, perform, hn, act, ht]
  cases h : a.fault? t with
  | some g =>
    have heffect := Timer.applyAction_of_fault n s.world.line h
    rw [h] at hfault
    exact .inl ⟨g,rfl,by simp only [hfault, heffect, failed]⟩
  | none =>
    rw [h] at hfault
    refine .inr ⟨rfl,fun s' f heq => ?_⟩
    simp only [hfault, ok, Option.map_eq_some_iff] at heq
    obtain ⟨_,_,heq⟩ := heq
    cases heq

theorem take_frame (w : World) (n : Nat) (e : Timer.Effect) : (w.take n e).1 =
    { w with timers := w.timers.set n e.timer, line := e.line, journal := (w.take n e).1.journal } := by
  unfold World.take
  split <;> dsimp only <;> split <;> rfl

theorem take_failedEffect (ht : s.world.timers[n]? = some t) {a : Action} (h : a.isAdd = true) :
    s.withWorld (s.world.take n (t.failedEffect a s.world.line)).1 = s := by
  have hset : s.world.timers.set n t = s.world.timers := by
    obtain ⟨hlt,rfl⟩ := List.getElem?_eq_some_iff.mp ht
    exact List.set_getElem_self hlt
  simp [Timer.failedEffect, h, World.take, Timer.Effect.silent, World.setTimer, hset, withWorld]

/-- What a failed operation leaves of a session: nothing else than the timer and its wake has changed. -/
structure Failed (s s' : Session) (n : Nat) (t t' : Timer) (a : Action) : Prop where
  rest : s' = { s with world := { s.world with
    timers := s.world.timers.set n t', line := s'.world.line, journal := s'.world.journal } }
  fields : t'.fields = a.remnant t
  listeners : t'.listeners = t.listeners
  closed : t'.closed = t.closed
  add : a.isAdd = true → s' = s
  wake : a.isAdd = false → t'.alarm.pending = none ∧ s'.world.line = t.alarm.cancelled s.world.line

theorem failed_failedEffect (ht : s.world.timers[n]? = some t) (a : Action) :
    s.Failed (s.withWorld (s.world.take n (t.failedEffect a s.world.line)).1) n t
      (t.failedEffect a s.world.line).timer a := by
  have hline := World.line_take s.world n (t.failedEffect a s.world.line)
  have hframe := take_frame s.world n (t.failedEffect a s.world.line)
  rw [← hline] at hframe
  obtain ⟨hfields,hlisteners,hclosed⟩ := Timer.failedEffect_timer t a s.world.line
  refine ⟨congrArg s.withWorld hframe,hfields,hlisteners,hclosed,take_failedEffect ht,fun ha => ?_⟩
  rw [withWorld, hline]
  simp only [Timer.failedEffect, ha, Bool.false_eq_true, if_false]
  exact ⟨rfl,rfl⟩

/-- An operation fails exactly if one of its numbers has no whole part. If it was to add that to the
duration, nothing has changed. Else the run is forgotten and the wake cancelled, and the timer is as before
only if there was no wake and its fields are those that the operation had come to. -/
theorem failed_action (s : Session) (fuel : Nat) (r : Ref) (a : Action) (n : Nat) (t : Timer)
    (hn : s.timer? none r = some n) (ht : s.world.timers[n]? = some t) :
    ((∃ s' f, s.run fuel (.act r a) = some (s', .error f)) ↔ a.fault? t ≠ none) ∧
    ∀ (s' : Session) (f : Failure), s.run fuel (.act r a) = some (s', .error f) →
      (∃ g, a.fault? t = some g ∧ f = .noInteger g) ∧
      ∃ t', s.Failed s' n t t' a ∧
        (t.Keeps t' s.world.line s'.world.line ↔
          a.isAdd = true ∨ a.remnant t = t.fields ∧ t.alarm.pending = none) := by
  obtain ⟨g,hfault,hrun⟩ | ⟨hfault,hrun⟩ := run_act (s := s) fuel hn ht (a := a)
  · refine ⟨⟨fun _ => by simp [hfault],fun _ => ⟨_,_,hrun⟩⟩,fun s' f h => ?_⟩
    rw [hrun, Option.some.injEq, Prod.mk.injEq] at h
    obtain ⟨rfl,hf⟩ := h
    have hkeeps := Timer.keeps_failedEffect t a s.world.line
    rw [← World.line_take s.world n] at hkeeps
    exact ⟨⟨g,hfault,(Except.error.inj hf).symm⟩,_,failed_failedEffect ht a,hkeeps⟩
  · exact ⟨⟨fun ⟨s',f,h⟩ => absurd h (hrun s' f),fun h => absurd hfault h⟩,
      fun s' f h => absurd h (hrun s' f)⟩

def underWay : Session :=
  { world := {
      line := ⟨0,[⟨1000,1000,0,2,.pending⟩]⟩, journal := [.cleared 0],
      timers := [{ duration := 1000, startedAt := some 0, resumedAt := some 0, alarm := ⟨some 0,2,false⟩ }] } }

example : ({ world := { line := ⟨0,[]⟩, timers := [{ duration := 1000 }] } } : Session).run 0
    (.act .focus .start) = some (underWay,.ok .done) := rfl

def notANumber : Amount := .real (Float.ofBits 0x7ff8000000000000)

/-- What is not a number cannot be added, and the timer goes on running. -/
theorem failed_action_add :
    ∃ f, underWay.run 0 (.act .focus (.add notANumber)) = some (underWay, .error f) := by
  obtain ⟨hfails,hleaves⟩ := failed_action underWay 0 .focus (.add notANumber) 0 _ rfl rfl
  obtain ⟨s',f,hrun⟩ := hfails.mpr (by decide)
  obtain ⟨-,t',hfailed,-⟩ := hleaves s' f hrun
  rw [hfailed.add rfl] at hrun
  exact ⟨f,hrun⟩

/-- A reset to what is not a number fails, and the timer no longer runs. -/
theorem failed_reset_forgets : ∃ s',
    underWay.run 0 (.act .focus (.reset (some notANumber))) = some (s', .error (.noInteger .nan)) ∧
      underWay.focused.fields = ⟨1000,some 0,some 0,none,0,false⟩ ∧
      underWay.focused.alarm.pending = some 0 ∧
      s'.focused.fields = ⟨1000,none,none,none,0,false⟩ ∧ s'.focused.alarm.pending = none ∧
      ¬underWay.focused.Keeps s'.focused underWay.world.line s'.world.line :=
  ⟨_,rfl,rfl,rfl,rfl,rfl,fun h => absurd h.pending (by decide)⟩

end Session
end Countdown
