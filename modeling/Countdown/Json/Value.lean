import Countdown.Number.Binary64
import Countdown.Text.Character
import Countdown.Text.CodePoint
set_option autoImplicit false

namespace Countdown

inductive Json where
  | null
  | bool (b : Bool)
  | int (n : Int)
  | real (x : Float)
  | str (s : String)
  /-- A string that holds a surrogate on its own, by its code points. -/
  | unpaired (points : List Nat)
  | arr (items : List Json)
  | obj (fields : List (String × Json))
  deriving BEq, Inhabited

namespace Json

/-- The value of a key; of several values the last one counts. -/
def field? (fields : List (String × Json)) (key : String) : Option Json :=
  (fields.reverse.find? fun f => f.1 == key).map (·.2)

def get? : Json → String → Option Json
  | .obj fields, key => field? fields key
  | _, _ => none

def kind : Json → String
  | .null => "NoneType"
  | .bool _ => "bool"
  | .int _ => "int"
  | .real _ => "float"
  | .str _ | .unpaired _ => "str"
  | .arr _ => "list"
  | .obj _ => "dict"

def ofOption {α : Type} (f : α → Json) : Option α → Json
  | none => .null
  | some a => f a

def unitEscape (n : Nat) : List Char := '\\' :: 'u' :: Text.hexDigits 4 n

def escapeLetter? (c : Char) : Option Char :=
  if c = '"' then some '"'
  else if c = '\\' then some '\\'
  else if c = '\n' then some 'n'
  else if c = '\r' then some 'r'
  else if c = '\t' then some 't'
  else if c.toNat = 8 then some 'b'
  else if c.toNat = 12 then some 'f'
  else none

def writeChar (c : Char) : List Char :=
  match escapeLetter? c with
  | some l => ['\\', l]
  | none =>
    if 32 ≤ c.toNat ∧ c.toNat < 127 then [c]
    else if c.toNat < 0x10000 then unitEscape c.toNat
    else unitEscape (0xD800 + (c.toNat - 0x10000) / 0x400) ++
      unitEscape (0xDC00 + (c.toNat - 0x10000) % 0x400)

def writeString (s : String) : List Char := '"' :: s.toList.flatMap writeChar ++ ['"']

/-- A code point; a surrogate on its own is written as an escape. -/
def writePoint (n : Nat) : List Char :=
  if Text.isSurrogate n then unitEscape n else writeChar (Char.ofNat n)

def writeInt (n : Int) : List Char :=
  (if n < 0 then ['-'] else []) ++ Text.digitsOf n.natAbs

/-- A double is written out in full, so that nothing of it is lost. -/
def writeReal (x : Float) : List Char :=
  match Number.Double.ofFloat x with
  | .nan => "NaN".toList
  | .infinite negative => (if negative then "-Infinity" else "Infinity").toList
  | .finite d =>
    (if d.negative then ['-'] else []) ++
      if 0 ≤ d.exponent then Text.digitsOf (d.mantissa * Number.power 2 d.exponent) ++ ['.', '0']
      else
        let places := (-d.exponent).toNat
        let digits := Text.padded (places + 1) (d.mantissa * Number.power 5 places)
        digits.take (digits.length - places) ++ '.' :: digits.drop (digits.length - places)

mutual

def write : Json → List Char
  | .null => ['n', 'u', 'l', 'l']
  | .bool true => ['t', 'r', 'u', 'e']
  | .bool false => ['f', 'a', 'l', 's', 'e']
  | .int n => writeInt n
  | .real x => writeReal x
  | .str s => writeString s
  | .unpaired ps => '"' :: ps.flatMap writePoint ++ ['"']
  | .arr items => '[' :: writeItems items
  | .obj fields => '{' :: writeFields fields

def writeItems : List Json → List Char
  | [] => [']']
  | v :: vs => write v ++ writeMoreItems vs

def writeMoreItems : List Json → List Char
  | [] => [']']
  | v :: vs => ',' :: ' ' :: write v ++ writeMoreItems vs

def writeFields : List (String × Json) → List Char
  | [] => ['}']
  | (k, v) :: fs => writeString k ++ ':' :: ' ' :: write v ++ writeMoreFields fs

def writeMoreFields : List (String × Json) → List Char
  | [] => ['}']
  | (k, v) :: fs => ',' :: ' ' :: writeString k ++ ':' :: ' ' :: write v ++ writeMoreFields fs

end

def text (v : Json) : String := String.ofList v.write

mutual

def isWritable : Json → Bool
  | .int n => Text.isShort n
  | .arr items => areWritable items
  | .obj fields => haveWritable fields
  | _ => true

def areWritable : List Json → Bool
  | [] => true
  | v :: vs => isWritable v && areWritable vs

def haveWritable : List (String × Json) → Bool
  | [] => true
  | (_, v) :: fs => isWritable v && haveWritable fs

end

end Json
end Countdown
