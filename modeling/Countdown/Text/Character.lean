set_option autoImplicit false

namespace Countdown.Text

def inRanges (rs : List (Nat × Nat)) (n : Nat) : Bool := rs.any fun r => r.1 ≤ n && n ≤ r.2

def rangeStart? (rs : List (Nat × Nat)) (n : Nat) : Option Nat :=
  (rs.find? fun r => r.1 ≤ n && n ≤ r.2).map (·.1)

def blankRanges : List (Nat × Nat) :=
  [(0x09, 0x0D), (0x1C, 0x20), (0x85, 0x85), (0xA0, 0xA0), (0x1680, 0x1680), (0x2000, 0x200A),
   (0x2028, 0x2029), (0x202F, 0x202F), (0x205F, 0x205F), (0x3000, 0x3000)]

def isBlank (c : Char) : Bool := inRanges blankRanges c.toNat

def squeeze (t : List Char) : List Char := t.filter fun c => !isBlank c

def trim (t : List Char) : List Char :=
  ((t.dropWhile isBlank).reverse.dropWhile isBlank).reverse

def isNumberSpace (c : Char) : Bool := isBlank c && !(0x1C ≤ c.toNat && c.toNat ≤ 0x1F)

def trimNumber (t : List Char) : List Char :=
  ((t.dropWhile isNumberSpace).reverse.dropWhile isNumberSpace).reverse

/-- Each range holds runs of ten digits from nought to nine. -/
def digitRanges : List (Nat × Nat) :=
  [(48, 57), (1632, 1641), (1776, 1785), (1984, 1993), (2406, 2415), (2534, 2543), (2662, 2671),
   (2790, 2799), (2918, 2927), (3046, 3055), (3174, 3183), (3302, 3311), (3430, 3439),
   (3558, 3567), (3664, 3673), (3792, 3801), (3872, 3881), (4160, 4169), (4240, 4249),
   (6112, 6121), (6160, 6169), (6470, 6479), (6608, 6617), (6784, 6793), (6800, 6809),
   (6992, 7001), (7088, 7097), (7232, 7241), (7248, 7257), (42528, 42537), (43216, 43225),
   (43264, 43273), (43472, 43481), (43504, 43513), (43600, 43609), (44016, 44025),
   (65296, 65305), (66720, 66729), (68912, 68921), (69734, 69743), (69872, 69881),
   (69942, 69951), (70096, 70105), (70384, 70393), (70736, 70745), (70864, 70873),
   (71248, 71257), (71360, 71369), (71472, 71481), (71904, 71913), (72016, 72025),
   (72784, 72793), (73040, 73049), (73120, 73129), (92768, 92777), (92864, 92873),
   (93008, 93017), (120782, 120831), (123200, 123209), (123632, 123641), (125264, 125273),
   (130032, 130041)]

def digitValue? (c : Char) : Option Nat :=
  (rangeStart? digitRanges c.toNat).map fun start => (c.toNat - start) % 10

def isDigit (c : Char) : Bool := (digitValue? c).isSome

def natOfDigits (t : List Char) : Nat :=
  t.foldl (fun n c => 10 * n + (digitValue? c).getD 0) 0

def isAsciiDigit (c : Char) : Bool := '0' ≤ c && c ≤ '9'

/-- A run of digits that is being read. The last digits are a block of their own, so that a long number
is not multiplied for each of them. -/
structure DigitRun where
  whole : Nat := 0
  block : Nat := 0
  length : Nat := 0

namespace DigitRun

def maxLength : Nat := 2000

def value (r : DigitRun) : Nat := r.whole * Nat.pow 10 r.length + r.block

def push (r : DigitRun) (digit : Nat) : DigitRun :=
  if r.length < maxLength then { r with block := 10 * r.block + digit, length := r.length + 1 }
  else { whole := r.value, block := digit, length := 1 }

end DigitRun

def natOfAscii (t : List Char) : Nat :=
  (t.foldl (fun r c => DigitRun.push r (c.toNat - 48)) {}).value

def digitsOf (n : Nat) : List Char := Nat.toDigits 10 n

/-- How many decimal digits a number has. Of a long one only the front is written: a thousand binary
digits are more than 301 decimal ones. -/
def digitCount (n : Nat) : Nat :=
  let known := 301 * (n.log2 / 1000)
  known + (digitsOf (n / Nat.pow 10 known)).length

/-- The most digits of a whole number that is turned into text or read from it. -/
def maxDigits : Nat := 4300

def isShort (n : Int) : Bool := n.natAbs < Nat.pow 10 maxDigits

structure TooLong where
  deriving DecidableEq, Repr

def TooLong.message : TooLong → String
  | ⟨⟩ => s!"Exceeds the limit ({maxDigits} digits) for integer string conversion; " ++
      "use sys.set_int_max_str_digits() to increase the limit"

def padded (width n : Nat) : List Char :=
  List.replicate (width - (digitsOf n).length) '0' ++ digitsOf n

end Countdown.Text
