import Countdown.Json.Value
import Countdown.Text.Character
import Countdown.Text.CodePoint
set_option autoImplicit false

namespace Countdown

inductive JsonError where
  | malformed
  | integerTooLong (digits : Nat)
  deriving DecidableEq, Repr

namespace Json

abbrev Reading (α : Type) := Except JsonError (α × List Char)

def isSpace (c : Char) : Bool := c == ' ' || c == '\t' || c == '\n' || c == '\r'

def skipSpace (t : List Char) : List Char := t.dropWhile isSpace

def hexUnit? (a b c d : Char) : Option Nat := do
  return 4096 * (← Text.hexValue? a) + 256 * (← Text.hexValue? b) + 16 * (← Text.hexValue? c) +
    (← Text.hexValue? d)

def unescape? : Char → Option Char
  | '"' => some '"'
  | '\\' => some '\\'
  | '/' => some '/'
  | 'b' => some (Char.ofNat 8)
  | 'f' => some (Char.ofNat 12)
  | 'n' => some '\n'
  | 'r' => some '\r'
  | 't' => some '\t'
  | _ => none

/-- The code points and 16-bit units of a string after its opening quote, in their order. -/
def readUnits : List Char → Reading (List Nat)
  | [] => .error .malformed
  | '"' :: t => .ok ([], t)
  | '\\' :: 'u' :: a :: b :: c :: d :: t => match hexUnit? a b c d with
    | none => .error .malformed
    | some n => (readUnits t).map fun r => (n :: r.1, r.2)
  | '\\' :: l :: t => match unescape? l with
    | none => .error .malformed
    | some c => (readUnits t).map fun r => (c.toNat :: r.1, r.2)
  | c :: t =>
    if c.toNat < 32 ∨ c = '\\' then .error .malformed
    else (readUnits t).map fun r => (c.toNat :: r.1, r.2)

/-- A string by its units: a text, unless a surrogate is left over when all pairs are joined. -/
def ofUnits (ns : List Nat) : Json :=
  let ps := Text.joinPairs ns
  if ps.any Text.isSurrogate then .unpaired ps else .str (String.ofList (Text.ofCodePoints ps))

def readString (t : List Char) : Reading Json :=
  (readUnits t).map fun r => (ofUnits r.1, r.2)

def digitRun (t : List Char) : List Char × List Char :=
  (t.takeWhile Text.isAsciiDigit, t.dropWhile Text.isAsciiDigit)

def fractionRun : List Char → Option (List Char × List Char)
  | '.' :: t => if (digitRun t).1.isEmpty then none else some (digitRun t)
  | _ => none

def exponentRun : List Char → Option (Int × List Char)
  | e :: t =>
    if e = 'e' ∨ e = 'E' then
      let (negative, t) := match t with
        | '-' :: t => (true, t)
        | '+' :: t => (false, t)
        | t => (false, t)
      let (digits, t) := digitRun t
      if digits.isEmpty then none
      else some (if negative then -(Text.natOfAscii digits : Int) else Text.natOfAscii digits, t)
    else none
  | [] => none

/-- The double nearest to `m * 10 ^ e`. Beyond the range of doubles it is infinite or zero. -/
def decimalBits (m : Nat) (e : Int) : Nat :=
  let magnitude := ((Text.digitsOf m).length : Int) + e
  if m = 0 ∨ magnitude < -400 then 0
  else if 400 < magnitude then Number.infinityBits
  else (Number.nearestBits? (m * Number.power 10 e) (Number.power 10 (-e))).getD Number.infinityBits

def realOf (negative : Bool) (m : Nat) (e : Int) : Json :=
  .real (Float.ofBits (UInt64.ofNat (decimalBits m e + if negative then Number.signBit else 0)))

def infinity (negative : Bool) : Float :=
  Float.ofBits (UInt64.ofNat (Number.infinityBits + if negative then Number.signBit else 0))

def wholeRun (t : List Char) : Option (List Char × List Char) :=
  match t with
  | '0' :: t => some (['0'], t)
  | t => if (digitRun t).1.isEmpty then none else some (digitRun t)

def readNumber (negative : Bool) (t : List Char) : Reading Json :=
  match wholeRun t with
  | none => .error .malformed
  | some (whole, t) =>
    let (fraction, t₁) := (fractionRun t).getD ([], t)
    let (exponent, t₂) := (exponentRun t₁).getD (0, t₁)
    if (fractionRun t).isSome ∨ (exponentRun t₁).isSome then
      .ok (realOf negative (Text.natOfAscii (whole ++ fraction)) (exponent - fraction.length), t₂)
    else if Text.maxDigits < whole.length then .error (.integerTooLong whole.length)
    else
      let n : Int := Text.natOfAscii whole
      .ok (.int (if negative then -n else n), t)

def strip? : List Char → List Char → Option (List Char)
  | [], t => some t
  | w :: ws, c :: t => if w = c then strip? ws t else none
  | _ :: _, [] => none

def words : List (List Char × Json) :=
  [("null".toList, .null), ("true".toList, .bool true), ("false".toList, .bool false),
   ("NaN".toList, .real (Float.ofBits 0x7FF8000000000000)),
   ("Infinity".toList, .real (infinity false)), ("-Infinity".toList, .real (infinity true))]

def readWord? (t : List Char) : Option (Json × List Char) :=
  words.findSome? fun w => (strip? w.1 t).map fun rest => (w.2, rest)

def readScalar (t : List Char) : Reading Json :=
  match t with
  | '"' :: t => readString t
  | t => match readWord? t with
    | some r => .ok r
    | none => match t with
      | '-' :: t => readNumber true t
      | t => readNumber false t

def readKey : List Char → Reading String
  | '"' :: t => match readUnits t with
    | .error e => .error e
    | .ok (ns, t) => match skipSpace t with
      | ':' :: t => .ok (String.ofList (Text.ofCodePoints (Text.joinPairs ns)), t)
      | _ => .error .malformed
  | _ => .error .malformed

mutual

/-- The value at the front of a text; the fuel bounds the number of nested calls. -/
def readValue : Nat → List Char → Reading Json
  | 0, _ => .error .malformed
  | fuel + 1, t => match t with
    | '[' :: t => match skipSpace t with
      | ']' :: t => .ok (.arr [], t)
      | t => (readItems fuel t).map fun r => (.arr r.1, r.2)
    | '{' :: t => match skipSpace t with
      | '}' :: t => .ok (.obj [], t)
      | t => (readFields fuel t).map fun r => (.obj r.1, r.2)
    | t => readScalar t

def readItems : Nat → List Char → Reading (List Json)
  | 0, _ => .error .malformed
  | fuel + 1, t => match readValue fuel t with
    | .error e => .error e
    | .ok (v, t) => match skipSpace t with
      | ']' :: t => .ok ([v], t)
      | ',' :: t => (readItems fuel (skipSpace t)).map fun r => (v :: r.1, r.2)
      | _ => .error .malformed

def readFields : Nat → List Char → Reading (List (String × Json))
  | 0, _ => .error .malformed
  | fuel + 1, t => match readKey t with
    | .error e => .error e
    | .ok (k, t) => match readValue fuel (skipSpace t) with
      | .error e => .error e
      | .ok (v, t) => match skipSpace t with
        | '}' :: t => .ok ([(k, v)], t)
        | ',' :: t => (readFields fuel (skipSpace t)).map fun r => ((k, v) :: r.1, r.2)
        | _ => .error .malformed

end

def read (text : String) : Except JsonError Json :=
  let t := text.toList
  match readValue (2 * t.length + 2) (skipSpace t) with
  | .error e => .error e
  | .ok (v, t) => if (skipSpace t).isEmpty then .ok v else .error .malformed

end Json
end Countdown
