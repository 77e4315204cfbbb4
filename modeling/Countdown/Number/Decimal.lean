import Countdown.Text.Character
set_option autoImplicit false

/-!
Decimal numbers kept to 28 significant digits: a product or a sum is computed exactly and then
rounded once, a half going to the even digit; there is none if it is too great then. Numbers as written
are exact, whatever their length.
-/

namespace Countdown.Number

def power (b : Nat) (e : Int) : Nat := Nat.pow b e.toNat

theorem power_natCast (b n : Nat) : power b n = Nat.pow b n := rfl

theorem power_zero (b : Nat) : power b 0 = 1 := rfl

theorem power_of_nonpos (b : Nat) {e : Int} (h : e ≤ 0) : power b e = 1 := by
  simp [power, Int.toNat_of_nonpos h]

theorem power_pos {b : Nat} (h : 0 < b) (e : Int) : 0 < power b e := Nat.pow_pos h

def roundHalfEven (n d : Nat) : Nat :=
  let q := n / d
  match compare (2 * (n % d)) d with
  | .lt => q
  | .gt => q + 1
  | .eq => if q % 2 = 0 then q else q + 1

/-- The rounded quotient lies within half a unit of the exact one. -/
theorem roundHalfEven_near (n d : Nat) (h : 0 < d) :
    2 * (roundHalfEven n d * d) ≤ 2 * n + d ∧ 2 * n ≤ 2 * (roundHalfEven n d * d) + d := by
  have e : d * (n / d) + n % d = n := Nat.div_add_mod n d
  have l : n % d < d := Nat.mod_lt _ h
  simp only [roundHalfEven]
  generalize n / d = q at *
  generalize n % d = r at *
  have hq : (q + 1) * d = d * q + d := by rw [Nat.add_mul, Nat.mul_comm]; simp
  have hq0 : q * d = d * q := Nat.mul_comm ..
  generalize d * q = p at *
  split
  · rename_i hc; rw [Nat.compare_eq_lt] at hc; omega
  · rename_i hc; rw [Nat.compare_eq_gt] at hc; omega
  · rename_i hc; rw [Nat.compare_eq_eq] at hc; split <;> omega

theorem roundHalfEven_tie (n d : Nat) (h : 2 * (n % d) = d) : roundHalfEven n d % 2 = 0 := by
  have hc : compare (2 * (n % d)) d = .eq := by rw [Nat.compare_eq_eq]; exact h
  simp only [roundHalfEven, hc]
  split <;> omega

theorem roundHalfEven_one (n : Nat) : roundHalfEven n 1 = n := by
  simp [roundHalfEven, Nat.mod_one, Nat.compare_eq_lt.2 (Nat.zero_lt_one)]

def withSign (z : Int) (n : Nat) : Int := if z < 0 then -(n : Int) else n

/-- The number `mantissa * 10 ^ exponent`. -/
structure Decimal where
  mantissa : Int
  exponent : Int
  deriving DecidableEq, Repr

namespace Decimal

def zero : Decimal := ⟨0, 0⟩

/-- The significant digits that a computed number keeps. -/
def precision : Nat := 28

def shorten (x : Decimal) (k : Nat) : Decimal :=
  ⟨withSign x.mantissa (roundHalfEven x.mantissa.natAbs (power 10 k)), x.exponent + k⟩

def round (x : Decimal) : Decimal := x.shorten (Text.digitCount x.mantissa.natAbs - precision)

def mantissaAt (x : Decimal) (e : Int) : Int := x.mantissa * (power 10 (x.exponent - e) : Nat)

def product (x : Decimal) (n : Nat) : Decimal := round ⟨x.mantissa * n, x.exponent⟩

def sum (x y : Decimal) : Decimal :=
  let e := min x.exponent y.exponent
  round ⟨x.mantissaAt e + y.mantissaAt e, e⟩

/-- The greatest exponent of the first digit of a computed number. Nothing is lost at the other end,
where whole numbers are wanted. -/
def maxExponent : Nat := 999999

def overflows (x : Decimal) : Bool :=
  x.mantissa ≠ 0 ∧ maxExponent + 1 < x.exponent + Text.digitCount x.mantissa.natAbs

/-- A computed number, unless it is too great. -/
def bounded (x : Decimal) : Option Decimal := if x.overflows then none else some x

def scale (x : Decimal) (n : Nat) : Option Decimal := (x.product n).bounded

def add (x y : Decimal) : Option Decimal := (x.sum y).bounded

def toInt (x : Decimal) : Int :=
  if 0 ≤ x.exponent then x.mantissa * (power 10 x.exponent : Nat)
  else withSign x.mantissa (roundHalfEven x.mantissa.natAbs (power 10 (-x.exponent)))

def readUnsigned? (t : List Char) : Option Decimal :=
  let whole := t.takeWhile Text.isAsciiDigit
  match t.dropWhile Text.isAsciiDigit with
  | [] => if whole.isEmpty then none else some ⟨Text.natOfAscii whole, 0⟩
  | '.' :: fraction =>
    if fraction.all Text.isAsciiDigit && !(whole.isEmpty && fraction.isEmpty) then
      some ⟨Text.natOfAscii (whole ++ fraction), -(fraction.length : Int)⟩
    else none
  | _ => none

/-- An unsigned number after at most one minus sign. -/
def read? : List Char → Option Decimal
  | '-' :: t => (readUnsigned? t).map fun x => ⟨-x.mantissa, x.exponent⟩
  | t => readUnsigned? t

end Decimal
end Countdown.Number
