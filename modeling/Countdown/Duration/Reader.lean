import Countdown.Duration.Token
import Countdown.Number.Decimal
import Countdown.TimeUnit
set_option autoImplicit false

namespace Countdown.Duration
open Number

def maxDuration : Int := (maxDays * TimeUnit.d.size : Nat)

def readNumber (t : List Char) : Except DurationError Decimal :=
  match Decimal.read? t with
  | some x => .ok x
  | none => .error (.invalidNumber (String.ofList t))

def unitOf? (word : List Char) : Option TimeUnit :=
  TimeUnit.ofSpelling? (String.ofList (word.map Char.toLower))

/-- Every number and unit is well formed and only one notation is used, which is returned; none is
the notation of a bare number. -/
def notation? (seen : Option Kind) : List Token → Except DurationError (Option Kind)
  | [] => .ok seen
  | t :: ts =>
    if t.kind = .number then do
      let _ ← readNumber t.text
      notation? seen ts
    else if t.kind = .letter ∧ unitOf? t.text = none then
      .error (.invalidUnit (String.ofList t.text))
    else if seen = none ∨ seen = some t.kind then notation? (some t.kind) ts
    else .error .mixedNotations

def separatorCount (ts : List Token) : Nat := ts.countP fun t => t.kind = .separator

def validate (ts : List Token) : Except DurationError (Option Kind) := do
  let form ← notation? none ts
  if maxSeparators < separatorCount ts then throw (.tooManySeparators (separatorCount ts))
  if form = none ∧ ts.length ≠ 1 then throw .notOneNumber
  return form

/-- What has been read of a duration: the total so far, a number that waits for its unit, and the
unit used last. -/
structure Progress where
  total : Decimal := .zero
  pending : Option Decimal := none
  last : Option TimeUnit := none

def computed : Option Decimal → Except DurationError Decimal
  | some x => .ok x
  | none => .error .overflow

def addUnits (total x : Decimal) (u : TimeUnit) : Option Decimal := (x.scale u.size).bind total.add

def Progress.close (p : Progress) (u : TimeUnit) : Except DurationError Progress :=
  match p.pending with
  | some x => (computed (addUnits p.total x u)).map fun total => ⟨total, none, some u⟩
  | none => .ok ⟨p.total, none, some u⟩

/-- The unit that a separator stands for when `left` separators are left, itself included. -/
def separatorUnit? (left : Nat) : Option TimeUnit := TimeUnit.all[left + 1]?

def Progress.read (p : Progress) (left : Nat) : List Token → Except DurationError Progress
  | [] => .ok p
  | t :: ts => match t.kind with
    | .number => do
      let x ← readNumber t.text
      Progress.read { p with pending := some x } left ts
    | .letter => match p.pending, unitOf? t.text with
      | some _, some u => do Progress.read (← p.close u) left ts
      | _, _ => .error (.unitWithoutNumber (String.ofList t.text))
    | .separator => match separatorUnit? left with
      | some u => do Progress.read (← p.close u) (left - 1) ts
      | none => .error (.tooManySeparators left)

def Progress.finish (p : Progress) : Except DurationError Decimal :=
  match p.pending with
  | none => .ok p.total
  | some x => match p.last.bind TimeUnit.smaller with
    | some u => computed (addUnits p.total x u)
    | none => .error .belowMilliseconds

def total (ts : List Token) : Except DurationError Decimal := do
  match ← validate ts, ts with
  | none, t :: _ => computed ((← readNumber t.text).scale TimeUnit.m.size)
  | _, _ => (← Progress.read {} (separatorCount ts) ts).finish

def limit (ms : Int) : Except DurationError Int :=
  if maxDuration < ms then .error .tooLong else .ok ms

/-- The milliseconds that a text stands for. -/
def read (separator : String) (text : List Char) : Except DurationError Int := do
  let ts ← tokens separator text
  if ts.isEmpty then throw .empty
  limit (← total ts).toInt

end Countdown.Duration
