set_option autoImplicit false

namespace Countdown.Text

/-- A character of which some bytes have been read. -/
structure Unfinished where
  value : Nat
  left : Nat
  low : Nat := 0x80
  high : Nat := 0xBF
  deriving DecidableEq, Repr

/-- The character that a first byte starts; the bounds exclude overlong forms, surrogates, and all
that is above U+10FFFF. -/
def Unfinished.ofFirst? (b : Nat) : Option Unfinished :=
  if b < 0xC2 then none
  else if b < 0xE0 then some { value := b - 0xC0, left := 1 }
  else if b = 0xE0 then some { value := 0, left := 2, low := 0xA0 }
  else if b = 0xED then some { value := 0xD, left := 2, high := 0x9F }
  else if b < 0xF0 then some { value := b - 0xE0, left := 2 }
  else if b = 0xF0 then some { value := 0, left := 3, low := 0x90 }
  else if b < 0xF4 then some { value := b - 0xF0, left := 3 }
  else if b = 0xF4 then some { value := 4, left := 3, high := 0x8F }
  else none

def replacement : Char := Char.ofNat 0xFFFD

def firstByte (b : Nat) : List Char × Option Unfinished :=
  if b < 0x80 then ([Char.ofNat b], none)
  else match Unfinished.ofFirst? b with
    | none => ([replacement], none)
    | some u => ([], some u)

def Unfinished.next (u : Unfinished) (b : Nat) : List Char × Option Unfinished :=
  if u.low ≤ b ∧ b ≤ u.high then
    let value := u.value * 64 + (b - 0x80)
    if u.left = 1 then ([Char.ofNat value], none) else ([], some { value := value, left := u.left - 1 })
  else (replacement :: (firstByte b).1, (firstByte b).2)

def decodeFrom (u : Option Unfinished) : List UInt8 → List Char
  | [] => if u.isSome then [replacement] else []
  | b :: bs =>
    let (cs, u) := match u with
      | none => firstByte b.toNat
      | some u => u.next b.toNat
    cs ++ decodeFrom u bs

def decodeUtf8 (bytes : List UInt8) : List Char := decodeFrom none bytes

def isHighSurrogate (n : Nat) : Bool := 0xD800 ≤ n && n ≤ 0xDBFF

def isLowSurrogate (n : Nat) : Bool := 0xDC00 ≤ n && n ≤ 0xDFFF

def isSurrogate (n : Nat) : Bool := isHighSurrogate n || isLowSurrogate n

def joinedPair (h l : Nat) : Nat := 0x10000 + 0x400 * (h - 0xD800) + (l - 0xDC00)

def joinPairs : List Nat → List Nat
  | [] => []
  | [n] => [n]
  | h :: l :: ns =>
    if isHighSurrogate h && isLowSurrogate l then joinedPair h l :: joinPairs ns
    else h :: joinPairs (l :: ns)

/-- The characters of code points, of which a surrogate on its own is none and is replaced. -/
def ofCodePoints (ns : List Nat) : List Char :=
  ns.map fun n => if isSurrogate n then replacement else Char.ofNat n

def hexDigit (n : Nat) : Char := if n < 10 then Char.ofNat (48 + n) else Char.ofNat (87 + n)

def hexDigits : Nat → Nat → List Char
  | 0, _ => []
  | width + 1, n => hexDigits width (n / 16) ++ [hexDigit (n % 16)]

def hexValue? (c : Char) : Option Nat :=
  if '0' ≤ c ∧ c ≤ '9' then some (c.toNat - 48)
  else if 'a' ≤ c ∧ c ≤ 'f' then some (c.toNat - 87)
  else if 'A' ≤ c ∧ c ≤ 'F' then some (c.toNat - 55)
  else none

end Countdown.Text
