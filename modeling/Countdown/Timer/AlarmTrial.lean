import Countdown.Log
import Countdown.Timer.Alarm
set_option autoImplicit false

/-!
An alarm under trial: its deadline can be moved, its wakes can be fired at will, and taking a sample
of the time left can itself carry out steps before the sample is acted on.
-/

namespace Countdown

inductive TrialStep where
  | arm
  | disarm
  | close
  | move (ms : Int)
  | advance (ms : Int)
  | tick (ms : Int)
  | fire (index : Int)
  /-- The next sample carries out these steps. -/
  | onSample (steps : List TrialStep)
  deriving Inhabited

inductive TrialTask where
  | step (s : TrialStep)
  | settle (generation : Option Nat) (left : Int)
  | advanceTo (target : Int)

structure AlarmTrial where
  line : Timeline
  deadline : Int
  fails : Bool := false
  alarm : Alarm := {}
  calls : Nat := 0
  sampling : List TrialStep := []
  logs : List Log := []

namespace AlarmTrial

def check (x : AlarmTrial) (generation : Option Nat) : AlarmTrial × List TrialTask :=
  ({ x with sampling := [] },
    x.sampling.map .step ++ [.settle generation (x.deadline - x.line.now)])

def settled (x : AlarmTrial) (generation : Option Nat) (left : Int) : AlarmTrial :=
  match x.alarm.settle 0 generation left x.line with
  | (.due, a, line) =>
    { x with
      alarm := a, line := line, calls := x.calls + 1
      logs := if x.fails then x.logs ++ [.alarmFailed] else x.logs }
  | (_, a, line) => { x with alarm := a, line := line }

def fire (x : AlarmTrial) (i : Nat) : AlarmTrial × List TrialTask :=
  match x.line.wakes[i]? with
  | none => (x, [])
  | some wake =>
    let x := { x with line := x.line.markFired i }
    match x.alarm.roused? wake.generation with
    | none => (x, [])
    | some a => check { x with alarm := a } (some wake.generation)

def setClock (x : AlarmTrial) (now : Int) : AlarmTrial := { x with line := { x.line with now := now } }

def advanceTo (x : AlarmTrial) (target : Int) : AlarmTrial × List TrialTask :=
  match x.line.next? target with
  | none => (x.setClock target, [])
  | some (i, wake) =>
    let (x, tasks) := (x.setClock (max x.line.now wake.due)).fire i
    (x, tasks ++ [.advanceTo target])

def perform (x : AlarmTrial) : TrialStep → AlarmTrial × List TrialTask
  | .arm => x.check none
  | .disarm =>
    let (a, line) := x.alarm.disarm x.line
    ({ x with alarm := a, line := line }, [])
  | .close =>
    let (a, line) := x.alarm.close x.line
    ({ x with alarm := a, line := line }, [])
  | .move ms => ({ x with deadline := x.deadline + ms }, [])
  | .advance ms => (x, [.advanceTo (x.line.now + ms)])
  | .tick ms => (x.setClock (x.line.now + ms), [])
  | .fire i => if i < 0 then (x, []) else x.fire i.toNat
  | .onSample steps => ({ x with sampling := steps }, [])

def task (x : AlarmTrial) : TrialTask → AlarmTrial × List TrialTask
  | .step s => x.perform s
  | .settle generation left => (x.settled generation left, [])
  | .advanceTo target => x.advanceTo target

/-- Does all tasks, in at most `fuel` steps; none if they are not done by then. -/
def settle : Nat → AlarmTrial → List TrialTask → Option AlarmTrial
  | _, x, [] => some x
  | 0, _, _ :: _ => none
  | fuel + 1, x, t :: rest =>
    let (x, tasks) := x.task t
    settle fuel x (tasks ++ rest)

def run (fuel : Nat) (x : AlarmTrial) (s : TrialStep) : Option AlarmTrial :=
  let (x, tasks) := x.perform s
  settle fuel x tasks

end AlarmTrial
end Countdown
