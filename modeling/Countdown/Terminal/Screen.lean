import Countdown.Calendar.EndTime
import Countdown.Duration.Clock
import Countdown.Duration.Reader
import Countdown.Session.Basic
import Countdown.Settings.Basic
import Countdown.Terminal.Arguments
set_option autoImplicit false

namespace Countdown.Terminal
open Calendar

inductive EntryError where
  | duration (e : DurationError)
  | endTime (e : EndTimeError)
  deriving DecidableEq, Repr

def EntryError.message : EntryError → String
  | .duration e => e.message
  | .endTime e => e.message

def readEntry (s : Settings) (now : DateTime) (untilTime : Bool) (text : String) :
    Except EntryError Int :=
  if untilTime then match msUntil text now with
    | .ok ms => .ok ms
    | .error e => .error (.endTime e)
  else match Duration.read s.separator text.toList with
    | .ok ms => .ok ms
    | .error e => .error (.duration e)

inductive LineError where
  | tooLong (e : Text.TooLong)
  | outOfRange (e : OutOfRange)
  deriving DecidableEq, Repr

def LineError.message : LineError → String
  | .tooLong e => e.message
  | .outOfRange e => e.message

/-- The time left and when it ends. The present must be within the calendar unless no time is left. -/
def line (s : Settings) (now : Except OutOfRange DateTime) (remaining : Int) :
    Except LineError String :=
  match Duration.clock s.unitRange s.autoTrim s.separator remaining with
  | .error e => .error (.tooLong e)
  | .ok clock =>
    if remaining ≤ 0 then .ok s!"{clock}  done"
    else match now with
      | .error e => .error (.outOfRange e)
      | .ok t => .ok s!"{clock}  (ends {(endLabel s.timeFormat t remaining).text})"

/-- The width to which a line is filled up, so that it covers a longer one that it is drawn over. -/
def lineWidth : Nat := 32

def filled (text : String) : String :=
  text ++ String.ofList (List.replicate (lineWidth - text.length) ' ')

def drawn (text ending : String) : String := "\r" ++ filled text ++ ending

/-- A countdown that is under way. -/
structure Screen where
  session : Session
  settings : Settings
  wall : DateTime
  start : Int
  output : String := ""

namespace Screen

def timer (x : Screen) : Timer := x.session.focused

def remaining (x : Screen) : Int := x.timer.remaining x.session.now

def isDone (x : Screen) : Bool := x.timer.finished

def timeNow (x : Screen) : Except OutOfRange DateTime := x.wall.after (x.session.now - x.start)

def frame (x : Screen) (ending : String) : Except LineError String :=
  (line x.settings x.timeNow x.remaining).map fun text => drawn text ending

def draw (x : Screen) (ending : String) : Except LineError Screen :=
  (x.frame ending).map fun text => { x with output := x.output ++ text }

def perform (fuel : Nat) (x : Screen) (c : Command) : Option Screen :=
  (x.session.run fuel c).map fun r => { x with session := r.1 }

def act (fuel : Nat) (x : Screen) (a : Action) : Option Screen := x.perform fuel (.act .focus a)

def begin (fuel : Nat) (s : Settings) (wall : DateTime) (clock ms : Int) : Option Screen :=
  act fuel
    { session := { world := { line := { now := clock }, timers := [{ duration := max 0 ms }] } }
      settings := s, wall := wall, start := clock } .start

/-- What a countdown came to: the screen, the number of waits and how it ended, unless a line could
not be drawn. -/
abbrev Played := Except LineError (Screen × Nat × Ending)

def conclude (x : Screen) (text : String) (e : Ending) : Played :=
  (x.draw text).map fun x => (x, 0, e)

/-- Waits for `tick` milliseconds, at most `patience` times, and draws the line after each wait;
then the countdown is interrupted. -/
def play (fuel : Nat) (tick : Int) : (patience : Nat) → Screen → Option Played
  | patience, x =>
    if x.isDone then some (x.conclude "\x07\n" .finished)
    else match patience with
      | 0 => (x.act fuel .stop).map fun x => x.conclude "\n" .interrupted
      | n + 1 => match x.perform fuel (.advance tick) with
        | none => none
        | some x => match if x.isDone then .ok x else x.draw "" with
          | .error e => some (.error e)
          | .ok x => (play fuel tick n x).map fun p => p.map fun (x, waits, e) => (x, waits + 1, e)

def run (fuel : Nat) (tick : Int) (patience : Nat) (x : Screen) : Option Played :=
  match x.play fuel tick patience with
  | none => none
  | some (.error e) => some (.error e)
  | some (.ok (x, waits, e)) => (x.act fuel .close).map fun x => .ok (x, waits, e)

end Screen
end Countdown.Terminal
