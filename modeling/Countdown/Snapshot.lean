import Countdown.Json.Reader
import Countdown.Json.Value
import Countdown.Log
import Countdown.Validation
set_option autoImplicit false

namespace Countdown

/-- The timekeeping fields of a timer. -/
structure TimerFields where
  duration : Int
  startedAt : Option Int := none
  resumedAt : Option Int := none
  stoppedAt : Option Int := none
  accumulated : Int := 0
  finished : Bool := false
  deriving DecidableEq, Repr

structure Snapshot where
  fields : TimerFields
  input : String := ""
  consumed : Int := 0
  deriving DecidableEq, Repr

namespace Snapshot
open Validation

def notStarted : String := "timer must be started to be running or stopped"

def stoppedRunning : String := "a stopped timer cannot be running"

/-- The reason why the timestamps of a timer contradict each other. -/
def contradiction? (t : TimerFields) : Option String :=
  if t.startedAt = none ∧ (t.resumedAt ≠ none ∨ t.stoppedAt ≠ none) then some notStarted
  else if t.resumedAt ≠ none ∧ t.stoppedAt ≠ none then some stoppedRunning
  else none

def negativeFields (s : Snapshot) : List String :=
  (if s.fields.accumulated < 0 then ["accumulated_elapsed"] else []) ++
    (if s.consumed < 0 then ["consumed"] else []) ++
    (if s.fields.duration < 0 then ["duration"] else [])

def check (s : Snapshot) : Except Invalid Snapshot :=
  if s.negativeFields ≠ [] then .error ⟨s.negativeFields, []⟩
  else match contradiction? s.fields with
    | some message => .error ⟨[""], [message]⟩
    | none => .ok s

def nonNegative? (v : Json) : Option Int :=
  (int? v).bind fun n => if 0 ≤ n then some n else none

def ofJson : Json → Except Invalid Snapshot
  | .obj fs =>
    let duration := required fs "duration" nonNegative?
    let startedAt := optional fs "started_at" none (nullable? int?)
    let resumedAt := optional fs "resumed_at" none (nullable? int?)
    let stoppedAt := optional fs "stopped_at" none (nullable? int?)
    let accumulated := optional fs "accumulated_elapsed" 0 nonNegative?
    let finished := optional fs "finished" false bool?
    let input := optional fs "input" "" str?
    let consumed := optional fs "consumed" 0 nonNegative?
    match duration, startedAt, resumedAt, stoppedAt, accumulated, finished, input, consumed with
    | .ok d, .ok s, .ok r, .ok p, .ok a, .ok f, .ok i, .ok c => check ⟨⟨d, s, r, p, a, f⟩, i, c⟩
    | _, _, _, _, _, _, _, _ =>
      .error ⟨sorted (duration.rejected ++ startedAt.rejected ++ resumedAt.rejected ++
        stoppedAt.rejected ++ accumulated.rejected ++ finished.rejected ++ input.rejected ++
        consumed.rejected), []⟩
  | _ => .error ⟨[""], []⟩

def toJson (s : Snapshot) : Json :=
  .obj [("duration", .int s.fields.duration),
    ("started_at", Json.ofOption .int s.fields.startedAt),
    ("resumed_at", Json.ofOption .int s.fields.resumedAt),
    ("stopped_at", Json.ofOption .int s.fields.stoppedAt),
    ("accumulated_elapsed", .int s.fields.accumulated),
    ("finished", .bool s.fields.finished),
    ("input", .str s.input),
    ("consumed", .int s.consumed)]

def writeAll (ss : List Snapshot) : String := (Json.arr (ss.map toJson)).text

/-- The valid snapshots among some values, numbered from `i`, and a log for each of the others. -/
def readItems (i : Nat) : List Json → List Snapshot × List Log
  | [] => ([], [])
  | v :: vs =>
    let r := readItems (i + 1) vs
    match ofJson v with
    | .ok s => (s :: r.1, r.2)
    | .error _ => (r.1, .timerSkipped i :: r.2)

/-- Reads the text form. A whole number that is too long for the reader is an error of its own;
other faults are logged, and what is at fault is left out. -/
def readAll (text : String) : Except JsonError (List Snapshot × List Log) :=
  match Json.read text with
  | .error (.integerTooLong n) => .error (.integerTooLong n)
  | .error .malformed => .ok ([], [.timersNotJson])
  | .ok (.arr items) => .ok (readItems 0 items)
  | .ok v => .ok ([], [.timersNotAList v.kind])

end Snapshot
end Countdown
