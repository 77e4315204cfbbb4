import Countdown.Duration.Reader
import Countdown.Sequence.Expr
set_option autoImplicit false

namespace Countdown.Sequence

/-- A run that is never empty. A repeated run is played once and then `more` times, or without end. -/
inductive Run where
  | one (ms : Int)
  | append (first second : Run)
  | again (r : Run) (more : Option Nat)
  deriving DecidableEq, Repr

abbrev Cursor := List Run

def Run.rest (r : Run) : Option Nat → Cursor
  | none => [.again r none]
  | some 0 => []
  | some (n + 1) => [.again r (some n)]

def Run.uncons : Run → Cursor → Int × Cursor
  | .one ms, next => (ms, next)
  | .append a b, next => a.uncons (b :: next)
  | .again r more, next => r.uncons (r.rest more ++ next)

def Cursor.next? : Cursor → Option (Int × Cursor)
  | [] => none
  | r :: next => some (r.uncons next)

def Cursor.take : Nat → Cursor → List Int
  | 0, _ => []
  | n + 1, c => match Cursor.next? c with
    | none => []
    | some (ms, c) => ms :: Cursor.take n c

inductive Value where
  | count (n : Nat)
  | forever
  | run (r : Run)
  deriving DecidableEq, Repr

/-- The largest number of rounds; a larger count stands for it. -/
def maxRounds : Nat := 9223372036854775807

def checked (separator : String) (t : List Char) : Except SequenceError Int :=
  match Duration.read separator t with
  | .error e => .error (.duration e)
  | .ok ms => if ms = 0 then .error (.zeroDuration (String.ofList t)) else .ok ms

def Value.toRun (separator : String) : Value → Except SequenceError Run
  | .run r => .ok r
  | .forever => .error (.unexpected Token.times.label)
  | .count n => (checked separator (Text.digitsOf n)).map .one

def Run.repeated (r : Run) : Value → Except SequenceError Run
  | .count 0 => .error .zeroTimes
  | .count (n + 1) => .ok (.again r (some (min (n + 1) maxRounds - 1)))
  | .forever => .ok (.again r none)
  | .run _ => .error .twoDurations

def Op.apply (separator : String) : Op → Value → Value → Except SequenceError Run
  | .add, a, b => do
    let a ← a.toRun separator
    let b ← b.toRun separator
    return .append a b
  | .mul, .run _, .run _ => .error .twoDurations
  | .mul, a, .run r => r.repeated a
  | .mul, a, b => do (← a.toRun separator).repeated b

def readCount (t : List Char) : Except SequenceError Nat :=
  if Text.maxDigits < t.length then .error (.countTooLong t.length) else .ok (Text.natOfAscii t)

def Expr.eval (separator : String) : Expr → Except SequenceError Value
  | .value t =>
    if isCount t then (readCount t).map .count else (checked separator t).map fun ms => .run (.one ms)
  | .forever => .ok .forever
  | .op o a b => do
    let a ← a.eval separator
    let b ← b.eval separator
    (o.apply separator a b).map .run

def checkValues (separator : String) : List Token → Except SequenceError Unit
  | [] => .ok ()
  | .value t :: ts =>
    if isCount t then checkValues separator ts
    else do
      let _ ← checked separator t
      checkValues separator ts
  | _ :: ts => checkValues separator ts

def Run.ofTokens (separator : String) (ts : List Token) : Except SequenceError Run := do
  checkValues separator ts
  (← (← Expr.ofTokens ts).eval separator).toRun separator

/-- The run that a text stands for; one without operators is a single duration. -/
def Run.read (separator : String) (text : List Char) : Except SequenceError Run :=
  if isSequence text then Run.ofTokens separator (tokens text)
  else match Duration.read separator text with
    | .error e => .error (.duration e)
    | .ok ms => .ok (.one ms)

end Countdown.Sequence

namespace Countdown

structure Queue where
  consumed : Nat
  upcoming : Option Int
  rest : Sequence.Cursor
  deriving DecidableEq, Repr

namespace Queue
open Sequence

def ofCursor (consumed : Nat) (c : Cursor) : Queue :=
  match Cursor.next? c with
  | none => ⟨consumed, none, []⟩
  | some (ms, rest) => ⟨consumed, some ms, rest⟩

def read (separator text : String) : Except SequenceError Queue :=
  (Run.read separator text.toList).map fun r => ofCursor 0 [r]

def peek (q : Queue) : Option Int := q.upcoming

def pop (q : Queue) : Option Int × Queue :=
  match q.upcoming with
  | none => (none, q)
  | some ms => (some ms, ofCursor (q.consumed + 1) q.rest)

/-- Takes up to `count` durations, and counts them on from `taken`. -/
def skipFrom (taken : Nat) : (count : Nat) → Queue → Nat × Queue
  | 0, q => (taken, q)
  | n + 1, q => match q.pop with
    | (none, q) => (taken, q)
    | (some _, q) => skipFrom (taken + 1) n q

def skip (count : Nat) (q : Queue) : Nat × Queue := skipFrom 0 count q

end Queue
end Countdown
