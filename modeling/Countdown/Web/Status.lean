import Countdown.Duration.Clock
import Countdown.Json.Value
import Countdown.Session.Basic
import Countdown.Settings.Basic
set_option autoImplicit false

namespace Countdown.Web
open Calendar Duration

/-- Segments without the sign of a time that is shown as zero. -/
def unsignedZero : List Segment → List Segment
  | [] => []
  | first :: rest =>
    if (first :: rest).all (·.value == 0) then { first with negative := false } :: rest
    else first :: rest

def Segment.json (s : Segment) : Json := .arr [.str s.unit.name, .str s.text]

inductive StatusError where
  | outOfRange (e : OutOfRange)
  | unwritable
  deriving DecidableEq, Repr

def endTime (s : Settings) (now : Except OutOfRange DateTime) (v : View) :
    Except StatusError (Option String) :=
  if v.started && !v.stopped then match now with
    | .error e => .error (.outOfRange e)
    | .ok t => .ok (some (endLabel s.timeFormat t (max v.remaining 0)).text)
  else .ok none

/-- The segments of the time left, if they can be written. -/
def displayed (s : Settings) (v : View) : Except StatusError (List Segment) :=
  match written s.unitRange s.autoTrim v.remaining with
  | .ok shown => .ok (unsignedZero shown)
  | .error _ => .error .unwritable

def statusOf (v : View) (shown : List Segment) (ending : Option String) : Json :=
  .obj [("id", .str v.id),
    ("input", .str v.input),
    ("consumed", .int v.consumed),
    ("next", Json.ofOption .int v.upcoming),
    ("state", .str v.phase.name),
    ("duration", .int v.duration),
    ("elapsed", .int v.elapsed),
    ("remaining", .int v.remaining),
    ("started", .bool v.started),
    ("paused", .bool v.paused),
    ("running", .bool v.running),
    ("stopped", .bool v.stopped),
    ("finished", .bool v.finished),
    ("display", .arr (shown.map Segment.json)),
    ("end_time", Json.ofOption .str ending)]

def status (s : Settings) (now : Except OutOfRange DateTime) (v : View) :
    Except StatusError Json := do
  let shown ← displayed s v
  return statusOf v shown (← endTime s now v)

inductive Message where
  | timers (statuses : List Json)
  | state (status : Json)
  | finished (id : String)
  | removed (id : String)

def Message.json : Message → Json
  | .timers ss => envelope "timers" (.obj [("timers", .arr ss)])
  | .state s => envelope "timer_state" s
  | .finished id => envelope "timer_finished" (.obj [("id", .str id)])
  | .removed id => envelope "timer_removed" (.obj [("id", .str id)])
where
  envelope (kind : String) (data : Json) : Json := .obj [("type", .str kind), ("data", data)]

def Message.text (m : Message) : String := m.json.text

def Message.isWritable (m : Message) : Bool := m.json.isWritable

end Countdown.Web
