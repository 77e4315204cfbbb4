import Countdown.Number.Binary64
import Countdown.Snapshot
import Countdown.Timer.Alarm
set_option autoImplicit false

namespace Countdown

/-- Who is told that a timer has finished: a listener with a name, or the entry of a deck. -/
inductive Listener where
  | named (name : String)
  | entry (number : Nat)
  deriving DecidableEq, Repr

inductive Phase where
  | idle
  | running
  | paused
  | stopped
  deriving DecidableEq, Repr

def Phase.name : Phase → String
  | .idle => "idle"
  | .running => "running"
  | .paused => "paused"
  | .stopped => "stopped"

structure Timer where
  duration : Int := 0
  startedAt : Option Int := none
  resumedAt : Option Int := none
  stoppedAt : Option Int := none
  accumulated : Int := 0
  finished : Bool := false
  closed : Bool := false
  listeners : List Listener := []
  alarm : Alarm := {}
  deriving DecidableEq, Repr

namespace Timer
open Number

def ofDuration (d : Amount) : Except NoInteger Timer := do
  return { duration := max 0 (← d.toInt) }

def isStarted (t : Timer) : Bool := t.startedAt.isSome

def isStopped (t : Timer) : Bool := t.stoppedAt.isSome

def isRunning (t : Timer) : Bool := t.isStarted && t.resumedAt.isSome

def isPaused (t : Timer) : Bool := t.isStarted && t.resumedAt.isNone && !t.isStopped

def phase (t : Timer) : Phase :=
  if t.isStopped then .stopped
  else if t.isRunning then .running
  else if t.isPaused then .paused
  else .idle

def elapsed (t : Timer) (now : Int) : Int :=
  match t.resumedAt with
  | none => t.accumulated
  | some r => t.accumulated + (now - r)

/-- The time left, negative once the timer is overdue. -/
def remaining (t : Timer) (now : Int) : Int := t.duration - t.elapsed now

def isFinished (t : Timer) (now : Int) : Bool := t.remaining now ≤ 0

def fields (t : Timer) : TimerFields :=
  ⟨t.duration, t.startedAt, t.resumedAt, t.stoppedAt, t.accumulated, t.finished⟩

/-- A timer after an operation, the timeline, and the listeners that are to be told that the timer
has finished, if it has. -/
structure Effect where
  timer : Timer
  line : Timeline
  /-- Whether the run that was under way was forgotten, before anything else. -/
  cleared : Bool := false
  announced : Option (List Listener) := none
  deriving DecidableEq, Repr

def Effect.silent (t : Timer) (line : Timeline) : Effect := { timer := t, line := line }

def Effect.ofCleared (e : Effect) : Effect := { e with cleared := true }

def isDue (t : Timer) (now : Int) : Bool :=
  !t.closed && !t.finished && t.isStarted && !t.isStopped && t.isFinished now

def expire (t : Timer) (line : Timeline) : Effect :=
  if t.isDue line.now then
    { timer := { t with finished := true }, line := line, announced := some t.listeners }
  else .silent t line

/-- Checks the deadline of timer number `n`, for a wake of a generation or for none. -/
def check (t : Timer) (n : Nat) (generation : Option Nat) (line : Timeline) : Effect :=
  match t.alarm.settle n generation (t.remaining line.now) line with
  | (.due, a, line) => expire { t with alarm := a } line
  | (_, a, line) => .silent { t with alarm := a } line

def wake (t : Timer) (n : Nat) (generation : Nat) (line : Timeline) : Effect :=
  match t.alarm.roused? generation with
  | none => .silent t line
  | some a => check { t with alarm := a } n (some generation) line

def disarmed (t : Timer) (line : Timeline) : Timer × Timeline :=
  let (a, line) := t.alarm.disarm line
  ({ t with alarm := a }, line)

def clear (t : Timer) (line : Timeline) : Timer × Timeline :=
  ({ t with
      startedAt := none, resumedAt := none, stoppedAt := none, accumulated := 0, finished := false
      alarm := (t.alarm.disarm line).1 }, (t.alarm.disarm line).2)

def start (t : Timer) (n : Nat) (line : Timeline) : Effect :=
  if t.isStarted || t.closed then .silent t line
  else
    let (t, line) := t.clear line
    (check { t with startedAt := some line.now, resumedAt := some line.now } n none line).ofCleared

def resume (t : Timer) (n : Nat) (line : Timeline) : Effect :=
  if t.isPaused then check { t with resumedAt := some line.now } n none line
  else .silent t line

def pause (t : Timer) (line : Timeline) : Timer × Timeline :=
  if t.isRunning then
    { t with accumulated := t.elapsed line.now, resumedAt := none }.disarmed line
  else (t, line)

def stop (t : Timer) (line : Timeline) : Timer × Timeline :=
  if t.isStarted && !t.isStopped then
    let (t, line) := t.pause line
    { t with stoppedAt := some line.now }.disarmed line
  else (t, line)

def close (t : Timer) (line : Timeline) : Timer × Timeline :=
  let (a, line) := t.alarm.close line
  ({ t with closed := true, alarm := a }, line)

/-- Adds to the duration, which never falls below zero. The deadline of a timer that was started
moves with it, so a paused timer with no time left finishes at once. -/
def addInt (t : Timer) (n : Nat) (ms : Int) (line : Timeline) : Effect :=
  let t := { t with duration := max 0 (t.duration + ms) }
  if !t.isStarted then .silent t line
  else
    let (t, line) := t.disarmed line
    if t.isRunning || t.isFinished line.now then t.check n none line else .silent t line

abbrev Attempt := Effect × Option NoInteger

def add (t : Timer) (n : Nat) (ms : Amount) (line : Timeline) : Attempt :=
  if t.isStopped then (.silent t line, none)
  else match ms.toInt with
    | .error e => (.silent t line, some e)
    | .ok ms => (t.addInt n ms line, none)

def reset (t : Timer) (d : Option Amount) (line : Timeline) : Attempt :=
  let (t, line) := t.clear line
  match d with
  | none => ((Effect.silent t line).ofCleared, none)
  | some d => match d.toInt with
    | .error e => ((Effect.silent t line).ofCleared, some e)
    | .ok d => ((Effect.silent { t with duration := max 0 d } line).ofCleared, none)

/-- Timekeeping fields to be set, of which two are converted to whole numbers. -/
structure GivenFields where
  duration : Amount
  startedAt : Option Int
  resumedAt : Option Int
  stoppedAt : Option Int
  accumulated : Amount
  finished : Bool

def GivenFields.ofFields (f : TimerFields) : GivenFields :=
  ⟨.int f.duration, f.startedAt, f.resumedAt, f.stoppedAt, .int f.accumulated, f.finished⟩

def setFields (t : Timer) (n : Nat) (f : GivenFields) (line : Timeline) : Attempt :=
  let (t, line) := t.clear line
  match f.duration.toInt with
  | .error e => ((Effect.silent t line).ofCleared, some e)
  | .ok d =>
    let t := { t with
      duration := max 0 d, startedAt := f.startedAt, resumedAt := f.resumedAt
      stoppedAt := f.stoppedAt }
    match f.accumulated.toInt with
    | .error e => ((Effect.silent t line).ofCleared, some e)
    | .ok a =>
      let t := { t with accumulated := a, finished := f.finished }
      if t.isRunning then ((t.check n none line).ofCleared, none)
      else ((Effect.silent t line).ofCleared, none)

def restore (f : TimerFields) (n : Nat) (line : Timeline) : Effect :=
  (setFields { duration := max 0 f.duration } n (.ofFields f) line).1

def snapshot (t : Timer) (input : String) (consumed : Int) : Except Invalid Snapshot :=
  Snapshot.check ⟨t.fields, input, consumed⟩

def listen (t : Timer) (l : Listener) : Timer := { t with listeners := t.listeners ++ [l] }

def unlisten (t : Timer) (l : Listener) : Timer := { t with listeners := t.listeners.erase l }

def describe (t : Timer) (now : Int) : String :=
  s!"TimerController(duration={t.duration}, remaining={t.remaining now}, " ++
    s!"state='{t.phase.name}')"

end Timer
end Countdown
