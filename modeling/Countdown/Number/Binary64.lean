import Countdown.Number.Decimal
set_option autoImplicit false

namespace Countdown.Number

/-- A finite double, `mantissa * 2 ^ exponent` with a sign. -/
structure Dyadic where
  negative : Bool
  mantissa : Nat
  exponent : Int
  deriving DecidableEq, Repr

inductive Double where
  | finite (x : Dyadic)
  | infinite (negative : Bool)
  | nan
  deriving DecidableEq, Repr

def hiddenBit : Nat := 4503599627370496

def signBit : Nat := 9223372036854775808

def infinityBits : Nat := 2047 * hiddenBit

def Double.ofBits (b : UInt64) : Double :=
  let negative := b.toNat / signBit == 1
  let e : Nat := b.toNat / hiddenBit % 2048
  let f : Nat := b.toNat % hiddenBit
  if e = 2047 then if f = 0 then .infinite negative else .nan
  else if e = 0 then .finite ⟨negative, f, -1074⟩
  else .finite ⟨negative, hiddenBit + f, (e : Int) - 1075⟩

def Double.ofFloat (x : Float) : Double := ofBits x.toBits

namespace Dyadic

def signed (x : Dyadic) (n : Nat) : Int := if x.negative then -(n : Int) else n

def truncate (x : Dyadic) : Int :=
  x.signed (if 0 ≤ x.exponent then x.mantissa * power 2 x.exponent
    else x.mantissa / power 2 (-x.exponent))

def isWhole (x : Dyadic) : Bool := 0 ≤ x.exponent || x.mantissa % power 2 (-x.exponent) == 0

end Dyadic

inductive NoInteger where
  | nan
  | infinite
  deriving DecidableEq, Repr

def NoInteger.message : NoInteger → String
  | .nan => "cannot convert float NaN to integer"
  | .infinite => "cannot convert float infinity to integer"

def truncate (x : Float) : Except NoInteger Int :=
  match Double.ofFloat x with
  | .finite d => .ok d.truncate
  | .infinite _ => .error .infinite
  | .nan => .error .nan

def whole? (x : Float) : Option Int :=
  match Double.ofFloat x with
  | .finite d => if d.isWhole then some d.truncate else none
  | _ => none

/-- The power of two of the last mantissa bit of the double nearest to `n / d`. -/
def lastBit (n d : Nat) : Int :=
  let guess : Int := (n.log2 : Int) - d.log2 - 53
  let scaled := n * power 2 (-guess) / (d * power 2 guess)
  max (if scaled < 2 * hiddenBit then guess else guess + 1) (-1074)

/-- The bits of the double nearest to `n / d`; none if it is beyond the largest double. -/
def nearestBits? (n d : Nat) : Option Nat :=
  if n = 0 then some 0 else
  let e := lastBit n d
  let m := roundHalfEven (n * power 2 (-e)) (d * power 2 e)
  let bits := (e + 1074).toNat * hiddenBit + m
  if bits < infinityBits then some bits else none

def quotient? (n : Int) (d : Nat) : Option Float :=
  (nearestBits? n.natAbs d).map fun b =>
    Float.ofBits (UInt64.ofNat (if n < 0 then signBit + b else b))

/-- A number of units that need not be whole. -/
inductive Amount where
  | int (n : Int)
  | real (x : Float)
  deriving DecidableEq

namespace Amount

def toInt : Amount → Except NoInteger Int
  | .int n => .ok n
  | .real x => truncate x

def times : Amount → Nat → Amount
  | .int n, k => .int (n * k)
  | .real x, k => .real (x * Float.ofNat k)

structure QuotientTooLarge where
  deriving DecidableEq, Repr

def QuotientTooLarge.message (_ : QuotientTooLarge) : String :=
  "integer division result too large for a float"

def per : Amount → Nat → Except QuotientTooLarge Float
  | .int n, k => match quotient? n k with
    | some x => .ok x
    | none => .error ⟨⟩
  | .real x, k => .ok (x / Float.ofNat k)

end Amount
end Countdown.Number
