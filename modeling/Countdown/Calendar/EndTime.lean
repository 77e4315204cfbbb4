import Countdown.Calendar.DateTime
import Countdown.Text.Character
set_option autoImplicit false

namespace Countdown.Calendar

inductive TimeFormat where
  | hours12
  | hours24
  deriving DecidableEq, Repr

def TimeFormat.name : TimeFormat → String
  | .hours12 => "12h"
  | .hours24 => "24h"

def TimeFormat.ofName? (n : String) : Option TimeFormat :=
  [TimeFormat.hours12, .hours24].find? fun f => f.name == n

def dialHour (h : Nat) : Nat := if h % 12 = 0 then 12 else h % 12

def clockTime (f : TimeFormat) (h m : Nat) : List Char :=
  match f with
  | .hours24 => Text.padded 2 h ++ ':' :: Text.padded 2 m
  | .hours12 => Text.digitsOf (dialHour h) ++ ':' :: Text.padded 2 m ++
      (if h < 12 then [' ', 'a', 'm'] else [' ', 'p', 'm'])

def DateTime.timeText (t : DateTime) (f : TimeFormat) : String :=
  String.ofList (clockTime f t.hour t.minute)

def weekdayName (n : Nat) : String := ["Mon", "Tue", "Wed", "Thu", "Fri", "Sat", "Sun"].getD n ""

inductive EndLabel where
  | farFuture
  | today (time : String)
  | tomorrow (time : String)
  | weekday (day : Nat) (time : String)
  | date (day : Date) (time : String)
  deriving DecidableEq, Repr

def EndLabel.text : EndLabel → String
  | .farFuture => "far future"
  | .today t => t
  | .tomorrow t => s!"tmr. {t}"
  | .weekday d t => s!"{weekdayName d}. {t}"
  | .date d t => s!"{d.iso} {t}"

/-- The label of the moment `ms` away from now, by the number of days between the two. -/
def endLabel (f : TimeFormat) (now : DateTime) (ms : Int) : EndLabel :=
  match now.later? ms with
  | none => .farFuture
  | some e =>
    let time := e.timeText f
    match now.daysBetween e with
    | 0 => .today time
    | 1 => .tomorrow time
    | n => if n < 7 then .weekday e.weekday time else .date e.date time

structure TimeOfDay where
  hour : Nat
  minute : Nat
  second : Nat
  deriving DecidableEq, Repr

namespace TimeOfDay

def micros (t : TimeOfDay) : Nat := (3600 * t.hour + 60 * t.minute + t.second) * microsPerSecond

def readHour? : List Char → Option (Nat × List Char)
  | c :: d :: t => match Text.digitValue? c, Text.digitValue? d with
    | some a, some b => some (10 * a + b, t)
    | some a, none => some (a, d :: t)
    | none, _ => none
  | [c] => (Text.digitValue? c).map fun a => (a, [])
  | [] => none

/-- A colon and two digits, if the text goes on with them; else nothing is read and it is 0. -/
def readField : List Char → Nat × List Char
  | ':' :: c :: d :: t => match Text.digitValue? c, Text.digitValue? d with
    | some a, some b => (10 * a + b, t)
    | _, _ => (0, ':' :: c :: d :: t)
  | t => (0, t)

def dropPoint : List Char → List Char
  | '.' :: t => t
  | t => t

def afternoon? (t : List Char) : Option Bool :=
  match t.map Char.toLower with
  | c :: t =>
    if c = 'a' ∨ c = 'p' then match dropPoint t with
      | 'm' :: t => if dropPoint t = [] then some (c == 'p') else none
      | _ => none
    else none
  | [] => none

def hourOf (dial : Nat) (afternoon : Bool) : Nat := dial % 12 + if afternoon then 12 else 0

def read? (t : List Char) : Option TimeOfDay := do
  let (hour, t) ← readHour? t
  let (minute, t) := readField t
  let (second, t) := readField t
  let afternoon ← afternoon? (t.dropWhile Text.isBlank)
  if 1 ≤ hour ∧ hour ≤ 12 ∧ minute ≤ 59 ∧ second ≤ 59 then
    some ⟨hourOf hour afternoon, minute, second⟩
  else none

end TimeOfDay

inductive EndTimeError where
  | invalid (text : String)
  | outOfRange (e : OutOfRange)
  deriving DecidableEq, Repr

def EndTimeError.message : EndTimeError → String
  | .invalid t => s!"Invalid time of day '{t}'"
  | .outOfRange e => e.message

def microsUntil (t : TimeOfDay) (now : DateTime) : Nat :=
  if now.ofDay < t.micros then t.micros - now.ofDay else microsPerDay + t.micros - now.ofDay

def TimeOfDay.ofText (text : String) : Except EndTimeError TimeOfDay :=
  match TimeOfDay.read? (Text.trim text.toList) with
  | none => .error (.invalid text)
  | some t => .ok t

/-- The whole milliseconds from now until the next occurrence of a time of day, if that is within the
calendar. -/
def TimeOfDay.msFrom (t : TimeOfDay) (now : DateTime) : Except OutOfRange Int :=
  match now.plus? (microsUntil t now) with
  | none => .error .date
  | some _ => .ok (microsUntil t now / microsPerMs : Nat)

def msUntil (text : String) (now : DateTime) : Except EndTimeError Int :=
  match TimeOfDay.ofText text with
  | .error e => .error e
  | .ok t => match t.msFrom now with
    | .error e => .error (.outOfRange e)
    | .ok ms => .ok ms

end Countdown.Calendar
