import Countdown.Number.Decimal
import Countdown.Proofs.Text.Character
set_option autoImplicit false

namespace Countdown.Number
open Text

/-- A number as it is written: digits, of which there is at least one, after at most one minus sign
and with at most one point among them. -/
structure Numeral where
  negative : Bool
  whole : List Char
  fraction : Option (List Char)
  digits : ∀ c ∈ whole ++ fraction.getD [], isAsciiDigit c = true
  nonempty : whole ++ fraction.getD [] ≠ []

namespace Numeral

def fractionChars : Option (List Char) → List Char
  | none => []
  | some f => '.' :: f

def chars (n : Numeral) : List Char :=
  (if n.negative then ['-'] else []) ++ (n.whole ++ fractionChars n.fraction)

def size (n : Numeral) : Nat := natOfAscii (n.whole ++ n.fraction.getD [])

def value (n : Numeral) : Decimal where
  mantissa := if n.negative then -(n.size : Int) else n.size
  exponent := -((n.fraction.getD []).length : Int)

def ofParts (width n : Nat) (thousandths : Option Nat) : Numeral where
  negative := false
  whole := padded width n
  fraction := thousandths.map (padded 3)
  digits := by
    intro c hc
    obtain hc | hc := List.mem_append.mp hc
    · exact isAsciiDigit_of_mem_padded hc
    · cases thousandths with
      | none => contradiction
      | some k => exact isAsciiDigit_of_mem_padded hc
  nonempty := by simp [padded_ne_nil]

theorem value_whole (width n : Nat) : (ofParts width n none).value = ⟨n,0⟩ := by
  simp [ofParts, value, size]

theorem value_thousandths (width n : Nat) {k : Nat} (hk : k < 1000) :
    (ofParts width n (some k)).value = ⟨(n * 1000 + k : Nat),-3⟩ := by
  have hlength : (padded 3 k).length = 3 := length_padded (by decide) hk
  simp [ofParts, value, size, natOfAscii_append, hlength]

end Numeral

theorem isAsciiDigit_point : isAsciiDigit '.' = false := by decide

theorem isAsciiDigit_minus : isAsciiDigit '-' = false := by decide

theorem span_whole {whole : List Char} (h : ∀ c ∈ whole, isAsciiDigit c = true)
    (fraction : Option (List Char)) :
    (whole ++ Numeral.fractionChars fraction).takeWhile isAsciiDigit = whole ∧
    (whole ++ Numeral.fractionChars fraction).dropWhile isAsciiDigit =
      Numeral.fractionChars fraction := by
  rw [List.takeWhile_append_of_pos h, List.dropWhile_append_of_pos h]
  cases fraction <;> simp [Numeral.fractionChars, isAsciiDigit_point]

namespace Decimal

theorem readUnsigned?_chars (n : Numeral) :
    readUnsigned? (n.whole ++ Numeral.fractionChars n.fraction) =
      some ⟨n.size,-((n.fraction.getD []).length : Int)⟩ := by
  have hdigits := n.digits
  have hne := n.nonempty
  obtain ⟨htake,hdrop⟩ := span_whole (fun c hc => hdigits c (List.mem_append_left _ hc)) n.fraction
  unfold readUnsigned? Numeral.size
  simp only [htake, hdrop]
  cases hf : n.fraction with
  | none =>
    rw [hf] at hne
    simp_all [Numeral.fractionChars]
  | some f =>
    rw [hf] at hne hdigits
    have hall : f.all isAsciiDigit = true :=
      List.all_eq_true.mpr fun c hc => hdigits c (List.mem_append_right _ hc)
    have hsome : (n.whole.isEmpty && f.isEmpty) = false := by
      cases hw : n.whole <;> cases f <;> simp_all
    simp [Numeral.fractionChars, hall, hsome]

theorem read?_chars (n : Numeral) : read? n.chars = some n.value := by
  unfold Numeral.chars Numeral.value
  cases hneg : n.negative with
  | true => simp [read?, readUnsigned?_chars]
  | false =>
    have hread := readUnsigned?_chars n
    have hminus : ∀ t, n.whole ++ Numeral.fractionChars n.fraction ≠ '-' :: t := by
      intro t ht
      rw [ht] at hread
      simp [readUnsigned?, isAsciiDigit_minus] at hread
    simp only [Bool.false_eq_true, if_false, List.nil_append]
    unfold read?
    split
    · rename_i t ht
      exact absurd ht (hminus t)
    · exact hread

theorem exists_of_readUnsigned? {t : List Char} {x : Decimal} (h : readUnsigned? t = some x) :
    ∃ n : Numeral, n.whole ++ Numeral.fractionChars n.fraction = t := by
  have hsplit : t.takeWhile isAsciiDigit ++ t.dropWhile isAsciiDigit = t := List.takeWhile_append_dropWhile
  have hwhole : ∀ c ∈ t.takeWhile isAsciiDigit, isAsciiDigit c = true :=
    List.all_eq_true.mp List.all_takeWhile
  simp only [readUnsigned?] at h
  generalize t.takeWhile isAsciiDigit = whole at h hsplit hwhole
  split at h
  · rename_i hrest
    split at h
    · contradiction
    · rename_i hne
      refine ⟨⟨false,whole,none,by simpa using hwhole,by simpa using hne⟩,?_⟩
      rw [← hsplit, hrest]
      rfl
  · rename_i f hrest
    split at h
    · rename_i hf
      simp only [Bool.and_eq_true, List.all_eq_true, Bool.not_eq_true', Bool.and_eq_false_iff] at hf
      refine ⟨⟨false,whole,some f,?_,?_⟩,?_⟩
      · intro c hc
        obtain hc | hc := List.mem_append.mp hc
        · exact hwhole c hc
        · exact hf.1 c hc
      · rcases hf.2 with hw | hf
        · simp_all
        · simp_all
      · rw [← hsplit, hrest]
        rfl
    · contradiction
  · contradiction

/-- The characters that are read as a number are those of a written number, with its value. -/
theorem read?_eq_some_iff {t : List Char} {x : Decimal} :
    read? t = some x ↔ ∃ n : Numeral, n.chars = t ∧ n.value = x := by
  constructor
  · intro h
    have hchars : ∃ n : Numeral, n.chars = t := by
      unfold read? at h
      split at h
      · rename_i u
        obtain ⟨y,hy,-⟩ := Option.map_eq_some_iff.mp h
        obtain ⟨n,hn⟩ := exists_of_readUnsigned? hy
        refine ⟨{ n with negative := true },?_⟩
        simp [Numeral.chars, hn]
      · obtain ⟨n,hn⟩ := exists_of_readUnsigned? h
        refine ⟨{ n with negative := false },?_⟩
        simp [Numeral.chars, hn]
    obtain ⟨n,rfl⟩ := hchars
    rw [read?_chars] at h
    exact ⟨n,rfl,Option.some.inj h⟩
  · rintro ⟨n,rfl,rfl⟩
    exact read?_chars n

theorem round_of_lt {x : Decimal} (h : x.mantissa.natAbs < Nat.pow 10 precision) : x.round = x := by
  have hlength := (digitCount_le_iff (by decide)).mpr h
  have hdrop : digitCount x.mantissa.natAbs - precision = 0 := by omega
  have hsign : withSign x.mantissa x.mantissa.natAbs = x.mantissa := by
    unfold withSign
    split <;> omega
  simp [round, shorten, hdrop, power_zero, roundHalfEven_one, hsign]

theorem toInt_of_exponent_zero (m : Int) : toInt ⟨m,0⟩ = m := by
  simp [toInt, power_zero]

theorem product_natCast {m n : Nat} {e : Int} (h : m * n < Nat.pow 10 precision) :
    product ⟨m,e⟩ n = ⟨(m * n : Nat),e⟩ :=
  round_of_lt (x := ⟨(m * n : Nat),e⟩) h

theorem sum_whole {x y : Nat} (h : x + y < Nat.pow 10 precision) :
    sum ⟨x,0⟩ ⟨y,0⟩ = ⟨(x + y : Nat),0⟩ := by
  have hround := round_of_lt (x := ⟨(x + y : Nat),0⟩) h
  simpa [sum, mantissaAt, power_zero] using hround

theorem sum_thousandths {x y : Nat} (h : x * 1000 + y < Nat.pow 10 precision) :
    sum ⟨x,0⟩ ⟨y,-3⟩ = ⟨(x * 1000 + y : Nat),-3⟩ := by
  have hround := round_of_lt (x := ⟨(x * 1000 + y : Nat),-3⟩) h
  have hx : mantissaAt ⟨x,0⟩ (-3) = (x * 1000 : Nat) := rfl
  have hy : mantissaAt ⟨y,-3⟩ (-3) = y := Int.mul_one _
  have hmin : min (0 : Int) (-3) = -3 := rfl
  simp only [sum, hmin, hx, hy]
  exact hround

theorem bounded_eq_some {x y : Decimal} (h : x.bounded = some y) : x = y := by
  unfold bounded at h
  split at h
  · contradiction
  · exact Option.some.inj h

theorem bounded_natCast {m : Nat} {e : Int} (h : m < Nat.pow 10 precision) (he : e ≤ 0) :
    bounded ⟨m,e⟩ = some ⟨m,e⟩ := by
  have hcount := (digitCount_le_iff (by decide)).mpr h
  have hprecision : precision = 28 := rfl
  have hplaces : ¬ (maxExponent + 1 : Int) < e + digitCount m := by
    unfold maxExponent
    omega
  simp [bounded, overflows, hplaces]

theorem toInt_thousandths (x : Nat) : toInt ⟨(x * 1000 : Nat),-3⟩ = x := by
  have hround : roundHalfEven (x * 1000) 1000 = x := by
    simp [roundHalfEven, Nat.compare_eq_lt.mpr]
  have hsign : ¬ ((x * 1000 : Nat) : Int) < 0 := by omega
  change withSign (x * 1000 : Nat) (roundHalfEven (x * 1000) 1000) = x
  rw [withSign, if_neg hsign, hround]

theorem le_toInt_round (m : Nat) : (m : Int) ≤ 2 * (round ⟨m,0⟩).toInt := by
  by_cases hm : m < Nat.pow 10 precision
  · rw [round_of_lt (x := ⟨m,0⟩) hm, toInt_of_exponent_zero]
    omega
  · have hcount : ¬ digitCount m ≤ precision := fun h => hm ((digitCount_le_iff (by decide)).mp h)
    obtain ⟨k,hk⟩ : ∃ k, digitCount m = k + 1 + precision := ⟨digitCount m - precision - 1,by omega⟩
    have hpower : power 10 (k + 1 : Nat) ≤ m := by
      have hdigits : ¬ digitCount m ≤ k + 1 := by
        have hprecision : precision = 28 := rfl
        omega
      exact Nat.le_of_not_lt fun h => hdigits ((digitCount_le_iff (Nat.succ_pos k)).mpr h)
    have hnear := (roundHalfEven_near m (power 10 (k + 1 : Nat)) (power_pos (by decide) _)).2
    have hround : round ⟨m,0⟩ = ⟨roundHalfEven m (power 10 (k + 1 : Nat)),(k + 1 : Nat)⟩ := by
      have hsign : ¬ (m : Int) < 0 := by omega
      simp [round, shorten, withSign, hsign, hk]
    have htoInt : (round ⟨m,0⟩).toInt =
        (roundHalfEven m (power 10 (k + 1 : Nat)) * power 10 (k + 1 : Nat) : Nat) := by
      rw [hround, toInt, if_pos (Int.natCast_nonneg (k + 1)), Int.natCast_mul]
    omega

end Decimal
end Countdown.Number
