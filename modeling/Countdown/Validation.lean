import Countdown.Json.Value
import Countdown.Text.Character
set_option autoImplicit false

namespace Countdown

/-- The fields that were rejected, and the reasons given for them; the field without a name is the
object as a whole. -/
structure Invalid where
  fields : List String
  messages : List String := []
  deriving DecidableEq, Repr

namespace Validation
open Number

/-- Goes on without the noughts and underscores after a first nought, up to another digit or a minus
sign; of noughts alone the last one stays, and so does the one before a point. -/
def afterNoughts? (last : Char) : List Char → Option (List Char)
  | [] => some [last]
  | c :: t =>
    if c = '0' ∨ c = '_' then afterNoughts? c t
    else if c = '.' then some (last :: c :: t)
    else if Text.isAsciiDigit c ∨ c = '-' then some (c :: t)
    else none

def withoutNoughts? : List Char → Option (List Char)
  | '0' :: t => afterNoughts? '0' t
  | c :: t => if Text.isAsciiDigit c then some (c :: t) else none
  | [] => none

def withoutPoint (t : List Char) : List Char :=
  match t.dropWhile (· != '.') with
  | _ :: '0' :: zeros => if zeros.all (· == '0') then t.takeWhile (· != '.') else t
  | _ => t

def hasDoubleUnderscore : List Char → Bool
  | '_' :: '_' :: _ => true
  | _ :: t => hasDoubleUnderscore t
  | [] => false

/-- The text without underscores, which must stand apart from each other and not at an end. -/
def withoutUnderscores? (t : List Char) : Option (List Char) :=
  if t.head? = some '_' ∨ t.getLast? = some '_' ∨ hasDoubleUnderscore t then none
  else some (t.filter (· != '_'))

def cleaned? (t : List Char) : Option (List Char) := do
  withoutUnderscores? (withoutPoint (← withoutNoughts? t))

def maxTextDigits : Nat := 4300

def plainNat? (t : List Char) : Option Nat :=
  match t with
  | [] => none
  | ['0'] => some 0
  | '0' :: _ => none
  | t => if t.all Text.isAsciiDigit then some (Text.natOfAscii t) else none

def plainInt? (t : List Char) : Option Int :=
  if maxTextDigits < t.length then none
  else match t with
    | '-' :: t => (plainNat? t).map fun n => -(n : Int)
    | t => (plainNat? t).map fun n => (n : Int)

/-- A whole number as people write it: with white space around it, a sign, noughts before or after
a minus sign, underscores between digits, and a point with noughts after it. -/
def intOfText? (t : List Char) : Option Int := do
  match Text.trimNumber t with
  | '-' :: t => plainInt? ('-' :: (← cleaned? t))
  | '+' :: t => plainInt? (← cleaned? t)
  | t => plainInt? (← cleaned? t)

/-- A double counts as a whole number if it is one that 64 bits with a sign can hold. -/
def intOfReal? (x : Float) : Option Int :=
  match whole? x with
  | some n => if -(signBit : Int) < n ∧ n < signBit then some n else none
  | none => none

def int? : Json → Option Int
  | .int n => some n
  | .bool b => some (if b then 1 else 0)
  | .real x => intOfReal? x
  | .str s => intOfText? s.toList
  | _ => none

def falseWords : List String := ["0", "off", "f", "false", "n", "no"]

def trueWords : List String := ["1", "on", "t", "true", "y", "yes"]

def boolOfText? (s : String) : Option Bool :=
  let word := String.ofList (s.toList.map Char.toLower)
  if trueWords.contains word then some true
  else if falseWords.contains word then some false
  else none

def boolOfInt? (n : Int) : Option Bool :=
  if n = 0 then some false else if n = 1 then some true else none

def bool? : Json → Option Bool
  | .bool b => some b
  | .int n => boolOfInt? n
  | .real x => (whole? x).bind boolOfInt?
  | .str s => boolOfText? s
  | _ => none

def str? : Json → Option String
  | .str s => some s
  | _ => none

def nullable? {α : Type} (read : Json → Option α) : Json → Option (Option α)
  | .null => some none
  | v => (read v).map some

abbrev FieldReading (α : Type) := Except (List String) α

def required {α : Type} (fields : List (String × Json)) (name : String) (read : Json → Option α) :
    FieldReading α :=
  match (Json.field? fields name).bind read with
  | some a => .ok a
  | none => .error [name]

def optional {α : Type} (fields : List (String × Json)) (name : String) (fallback : α)
    (read : Json → Option α) : FieldReading α :=
  match Json.field? fields name with
  | none => .ok fallback
  | some v => match read v with
    | some a => .ok a
    | none => .error [name]

def FieldReading.rejected {α : Type} : FieldReading α → List String
  | .ok _ => []
  | .error names => names

def sorted (names : List String) : List String :=
  names.mergeSort fun a b => decide (a ≤ b)

end Validation
end Countdown
