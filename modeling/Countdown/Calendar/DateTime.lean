import Countdown.Text.Character
set_option autoImplicit false

namespace Countdown.Calendar

structure Date where
  year : Nat
  month : Nat
  day : Nat
  deriving DecidableEq, Repr

def isLeap (y : Nat) : Bool := y % 4 == 0 && (y % 100 != 0 || y % 400 == 0)

def monthLengths (y : Nat) : List Nat :=
  [31, if isLeap y then 29 else 28, 31, 30, 31, 30, 31, 31, 30, 31, 30, 31]

def daysBefore (y : Nat) : Nat :=
  let p := y - 1
  365 * p + p / 4 - p / 100 + p / 400

namespace Date

def number (x : Date) : Nat :=
  daysBefore x.year + ((monthLengths x.year).take (x.month - 1)).foldl (· + ·) 0 + (x.day - 1)

def inYear (y month n : Nat) : List Nat → Date
  | [] => ⟨y, month, n + 1⟩
  | l :: ls => if n < l then ⟨y, month, n + 1⟩ else inYear y (month + 1) (n - l) ls

/-- The year of a day, found by cycles of 400, 100, 4 and 1 years; a fourth year or century in a
cycle is the leap day at the end of the third. -/
def yearOf (n : Nat) : Nat :=
  let c := n % 146097
  let q := c % 36524 % 1461
  400 * (n / 146097) + 100 * min (c / 36524) 3 +
    (if c / 36524 = 4 then 100 else 4 * (c % 36524 / 1461) + min (q / 365) 3 + 1)

def ofNumber (n : Nat) : Date :=
  let y := yearOf n
  inYear y 1 (n - daysBefore y) (monthLengths y)

def weekday (n : Nat) : Nat := n % 7

def isValid (x : Date) : Bool :=
  1 ≤ x.year && x.year ≤ 9999 && 1 ≤ x.month && x.month ≤ 12 && 1 ≤ x.day &&
    x.day ≤ (monthLengths x.year).getD (x.month - 1) 0

def iso (x : Date) : String :=
  String.ofList (Text.padded 4 x.year ++ '-' :: Text.padded 2 x.month ++ '-' :: Text.padded 2 x.day)

end Date

def dayCount : Nat := daysBefore 10000

def microsPerMs : Nat := 1000
def microsPerSecond : Nat := 1000000
def microsPerDay : Nat := 86400000000
def msPerDay : Nat := 86400000

/-- A date-time that the calendar can hold, counted in microseconds from the start of year 1. -/
structure DateTime where
  micros : Nat
  representable : micros < dayCount * microsPerDay
  deriving DecidableEq

/-- The most days that may lie between a moment and another that is named relative to it. -/
def maxSpanDays : Nat := 999999999

inductive OutOfRange where
  | date
  | days (n : Int)
  deriving DecidableEq, Repr

def OutOfRange.message : OutOfRange → String
  | .date => "date value out of range"
  | .days n => s!"days={n}; must have magnitude <= {maxSpanDays}"

namespace DateTime

def ofMicros? (n : Int) : Option DateTime :=
  if h : 0 ≤ n ∧ n.toNat < dayCount * microsPerDay then some ⟨n.toNat, h.2⟩ else none

def plus? (t : DateTime) (micros : Int) : Option DateTime := ofMicros? (t.micros + micros)

def later? (t : DateTime) (ms : Int) : Option DateTime := t.plus? (ms * microsPerMs)

/-- The date-time some milliseconds later, or why there is none. -/
def after (t : DateTime) (ms : Int) : Except OutOfRange DateTime :=
  let days := ms / msPerDay
  if maxSpanDays < days.natAbs then .error (.days days)
  else match t.later? ms with
    | none => .error .date
    | some e => .ok e

def day (t : DateTime) : Nat := t.micros / microsPerDay

def ofDay (t : DateTime) : Nat := t.micros % microsPerDay

def date (t : DateTime) : Date := Date.ofNumber t.day

def hour (t : DateTime) : Nat := t.ofDay / (3600 * microsPerSecond)

def minute (t : DateTime) : Nat := t.ofDay / (60 * microsPerSecond) % 60

def weekday (t : DateTime) : Nat := Date.weekday t.day

def daysBetween (a b : DateTime) : Nat := ((b.day : Int) - a.day).natAbs

def digits? (n : Nat) (t : List Char) : Option (Nat × List Char) :=
  let d := t.take n
  if d.length = n ∧ d.all Text.isAsciiDigit then some (Text.natOfAscii d, t.drop n) else none

def expect? (c : Char) : List Char → Option (List Char)
  | x :: t => if x = c then some t else none
  | [] => none

/-- The microseconds of the digits after a point, of which there are at most six. -/
def fraction? : List Char → Option Nat
  | [] => some 0
  | '.' :: d =>
    if d.isEmpty ∨ 6 < d.length ∨ !d.all Text.isAsciiDigit then none
    else some (Text.natOfAscii d * Nat.pow 10 (6 - d.length))
  | _ => none

def readDate? (t : List Char) : Option (Date × List Char) := do
  let (y, t) ← digits? 4 t
  let (m, t) ← digits? 2 (← expect? '-' t)
  let (d, t) ← digits? 2 (← expect? '-' t)
  if Date.isValid ⟨y, m, d⟩ then some (⟨y, m, d⟩, t) else none

def readTime? : List Char → Option Nat
  | [] => some 0
  | 'T' :: t => do
    let (h, t) ← digits? 2 t
    let (m, t) ← digits? 2 (← expect? ':' t)
    let (s, t) ← digits? 2 (← expect? ':' t)
    let f ← fraction? t
    if h < 24 ∧ m < 60 ∧ s < 60 then
      some ((3600 * h + 60 * m + s) * microsPerSecond + f)
    else none
  | _ => none

def readIso? (text : String) : Option DateTime := do
  let (d, t) ← readDate? text.toList
  ofMicros? (d.number * microsPerDay + (← readTime? t))

end DateTime
end Countdown.Calendar
