import Countdown.Proofs.Number.Numeral
import Mathlib.Algebra.Order.Field.Power
import Mathlib.Algebra.Order.Ring.Rat
import Mathlib.Data.Rat.Cast.Order
import Mathlib.Tactic.FieldSimp
import Mathlib.Tactic.Linarith
import Mathlib.Tactic.Positivity
import Mathlib.Tactic.Ring
set_option autoImplicit false

namespace Countdown.Number

variable {q : ℚ} {m n : ℤ} {k d : Nat}

/-- A whole number that is nearest to `q`; if there are two, the even one. -/
structure NearestEven (q : ℚ) (n : ℤ) : Prop where
  near : |q - n| ≤ 1 / 2
  even : |q - n| = 1 / 2 → n % 2 = 0

namespace NearestEven

theorem not_succ (h : NearestEven q n) : ¬ NearestEven q (n + 1) := by
  intro h'
  have hlow := (abs_le.mp h'.near).1
  have hhigh := (abs_le.mp h.near).2
  push_cast at hlow
  have hq : q = n + 1 / 2 := by linarith
  have heven := h.even (by rw [hq, add_sub_cancel_left]; norm_num)
  have hodd := h'.even (by rw [hq]; push_cast; norm_num)
  omega

theorem unique (h : NearestEven q n) (h' : NearestEven q m) : n = m := by
  obtain ⟨hn,hn'⟩ := abs_le.mp h.near
  obtain ⟨hm,hm'⟩ := abs_le.mp h'.near
  have hle : n ≤ m + 1 := by
    have hcast : (n : ℚ) ≤ m + 1 := by linarith
    exact_mod_cast hcast
  have hge : m ≤ n + 1 := by
    have hcast : (m : ℚ) ≤ n + 1 := by linarith
    exact_mod_cast hcast
  have hnext : m ≠ n + 1 := fun heq => h.not_succ (heq ▸ h')
  have hnext' : n ≠ m + 1 := fun heq => h'.not_succ (heq ▸ h)
  omega

theorem neg (h : NearestEven q n) : NearestEven (-q) (-n) := by
  have habs : |-q - (-n : ℤ)| = |q - n| := by
    push_cast
    rw [← abs_neg]
    ring_nf
  constructor
  · rw [habs]
    exact h.near
  · intro htie
    rw [habs] at htie
    have heven := h.even htie
    omega

end NearestEven

theorem nearestEven_intCast (n : ℤ) : NearestEven n n := by
  constructor <;> norm_num

theorem two_mul_mod {j : ℤ} (hd : 0 < d) (h : 2 * (k : ℤ) = (2 * j + 1) * d) : 2 * (k % d) = d := by
  have hmod := Nat.div_add_mod k d
  have hlt := Nat.mod_lt k hd
  have hrest : 2 * ((k % d : Nat) : ℤ) = (2 * (j - (k / d : Nat)) + 1) * d := by
    have hcast : (d : ℤ) * (k / d : Nat) + (k % d : Nat) = k := by exact_mod_cast hmod
    linarith
  have hzero : j - (k / d : Nat) = 0 := by
    by_contra hne
    obtain hneg | hpos := Int.lt_or_gt_of_ne hne
    · have hle : (2 * (j - (k / d : Nat)) + 1) * d ≤ -1 * (d : ℤ) :=
        Int.mul_le_mul_of_nonneg_right (by omega) (by omega)
      omega
    · have hle : 3 * (d : ℤ) ≤ (2 * (j - (k / d : Nat)) + 1) * d :=
        Int.mul_le_mul_of_nonneg_right (by omega) (by omega)
      omega
  rw [hzero] at hrest
  omega

theorem nearestEven_div (k : Nat) (hd : 0 < d) : NearestEven (k / d : ℚ) (roundHalfEven k d) := by
  have hd' : (0 : ℚ) < d := by exact_mod_cast hd
  obtain ⟨hle,hge⟩ := roundHalfEven_near k d hd
  have hdiff : (k / d : ℚ) - (roundHalfEven k d : ℤ) = (k - roundHalfEven k d * d) / d := by
    push_cast
    field_simp
  constructor
  · have hle' : (2 * (roundHalfEven k d * d) : ℚ) ≤ 2 * k + d := by exact_mod_cast hle
    have hge' : (2 * k : ℚ) ≤ 2 * (roundHalfEven k d * d) + d := by exact_mod_cast hge
    rw [hdiff, abs_le, le_div_iff₀ hd', div_le_iff₀ hd']
    constructor <;> linarith
  · intro htie
    rw [hdiff, abs_div, abs_of_pos hd', div_eq_iff (ne_of_gt hd')] at htie
    have hhalf : 2 * (k % d) = d := by
      obtain htie | htie := (abs_eq (by positivity)).mp htie
      · have hodd : 2 * (k : ℚ) = (2 * (roundHalfEven k d : ℤ) + 1) * d := by
          push_cast
          linarith
        exact two_mul_mod (j := roundHalfEven k d) hd (by exact_mod_cast hodd)
      · have hodd : 2 * (k : ℚ) = (2 * ((roundHalfEven k d : ℤ) - 1 : ℤ) + 1) * d := by
          push_cast
          linarith
        exact two_mul_mod hd (by exact_mod_cast hodd)
    have heven := roundHalfEven_tie k d hhalf
    omega

theorem nearestEven_withSign (z : ℤ) (hd : 0 < d) :
    NearestEven (z / d : ℚ) (withSign z (roundHalfEven z.natAbs d)) := by
  have hsize := nearestEven_div z.natAbs hd
  unfold withSign
  split
  · rename_i hz
    have hneg : (z / d : ℚ) = -((z.natAbs : ℚ) / d) := by
      rw [Nat.cast_natAbs, abs_of_neg hz]
      push_cast
      ring
    rw [hneg]
    exact hsize.neg
  · rename_i hz
    have hpos : (z / d : ℚ) = (z.natAbs : ℚ) / d := by
      rw [Nat.cast_natAbs, abs_of_nonneg (by omega)]
    rw [hpos]
    exact hsize

namespace Decimal

variable {x y : Decimal}

def toRat (x : Decimal) : ℚ := x.mantissa * (10 : ℚ) ^ x.exponent

theorem power_cast {e : ℤ} (h : 0 ≤ e) : ((power 10 e : Nat) : ℚ) = (10 : ℚ) ^ e := by
  obtain ⟨n,rfl⟩ := Int.eq_ofNat_of_zero_le h
  rw [zpow_natCast, power_natCast]
  exact Nat.cast_pow 10 n

theorem nearestEven_toInt (x : Decimal) : NearestEven x.toRat x.toInt := by
  unfold toRat toInt
  split
  · rename_i hexponent
    rw [← power_cast hexponent]
    exact_mod_cast nearestEven_intCast (x.mantissa * (power 10 x.exponent : Nat))
  · rename_i hexponent
    have hdiv : (x.mantissa * (10 : ℚ) ^ x.exponent) = x.mantissa / (power 10 (-x.exponent) : Nat) := by
      rw [power_cast (by omega), zpow_neg, div_inv_eq_mul]
    rw [hdiv]
    exact nearestEven_withSign x.mantissa (power_pos (by decide) _)

theorem toRat_at {e : ℤ} (h : e ≤ x.exponent) : toRat ⟨x.mantissaAt e,e⟩ = x.toRat := by
  have hten : (10 : ℚ) ≠ 0 := by norm_num
  unfold toRat mantissaAt
  push_cast
  rw [power_cast (by omega), mul_assoc, ← zpow_add₀ hten, sub_add_cancel]

/-- A value that can be written with the digits that a computed number keeps. -/
def Short (q : ℚ) : Prop := ∃ m e : ℤ, m.natAbs < Nat.pow 10 precision ∧ q = m * (10 : ℚ) ^ e

theorem Short.exists_mul (h : Short q) {j : ℤ} (hlarge : (10 : ℚ) ^ (27 + j) ≤ |q|) :
    ∃ n : ℤ, q = n * (10 : ℚ) ^ j := by
  have hten : (10 : ℚ) ≠ 0 := by norm_num
  obtain ⟨m,e,hm,rfl⟩ := h
  have hm' : |(m : ℚ)| < (10 : ℚ) ^ (28 : ℤ) := by
    rw [← Int.cast_abs, Int.abs_eq_natAbs]
    exact_mod_cast hm
  have hpos : (0 : ℚ) < (10 : ℚ) ^ e := by positivity
  have hlt : (10 : ℚ) ^ (27 + j) < (10 : ℚ) ^ (28 + e) := by
    calc (10 : ℚ) ^ (27 + j) ≤ |(m : ℚ)| * (10 : ℚ) ^ e := by rwa [abs_mul, abs_of_pos hpos] at hlarge
      _ < (10 : ℚ) ^ (28 : ℤ) * (10 : ℚ) ^ e := mul_lt_mul_of_pos_right hm' hpos
      _ = (10 : ℚ) ^ (28 + e) := (zpow_add₀ hten _ _).symm
  have hje := (zpow_lt_zpow_iff_right₀ (by norm_num)).mp hlt
  refine ⟨m * (power 10 (e - j) : Nat),?_⟩
  push_cast
  rw [power_cast (by omega), mul_assoc, ← zpow_add₀ hten, sub_add_cancel]

theorem roundHalfEven_mul (n : Nat) (hd : 0 < d) : roundHalfEven (n * d) d = n := by
  have hlt : compare (2 * (n * d % d)) d = .lt := by
    rw [Nat.mul_mod_left, Nat.compare_eq_lt]
    exact hd
  simp only [roundHalfEven, hlt]
  exact Nat.mul_div_left n hd

theorem withSign_mul (n : ℤ) (hd : 0 < d) : withSign (n * d) n.natAbs = n := by
  have hd' : (0 : ℤ) < d := by exact_mod_cast hd
  unfold withSign
  split
  · rename_i hneg
    have hn : n < 0 := neg_of_mul_neg_left hneg (le_of_lt hd')
    omega
  · rename_i hpos
    have hn : 0 ≤ n := nonneg_of_mul_nonneg_left (not_lt.mp hpos) hd'
    omega

theorem div_le_roundHalfEven (n d : Nat) : n / d ≤ roundHalfEven n d := by
  unfold roundHalfEven
  dsimp only
  split
  · exact Nat.le_refl _
  · exact Nat.le_succ _
  · split
    · exact Nat.le_refl _
    · exact Nat.le_succ _

theorem round_cases (x : Decimal) : x.round = x ∨
    ∃ k : Nat, x.round = x.shorten k ∧ Nat.pow 10 (27 + k) ≤ x.mantissa.natAbs := by
  by_cases h : x.mantissa.natAbs < Nat.pow 10 precision
  · exact Or.inl (round_of_lt h)
  · refine Or.inr ⟨Text.digitCount x.mantissa.natAbs - precision,rfl,?_⟩
    have hcount : precision < Text.digitCount x.mantissa.natAbs :=
      Nat.lt_of_not_le fun hle => h ((Text.digitCount_le_iff (by decide)).mp hle)
    have hprecision : precision = 28 := rfl
    by_contra hlt
    have hle := (Text.digitCount_le_iff (n := x.mantissa.natAbs)
      (k := 27 + (Text.digitCount x.mantissa.natAbs - precision)) (by omega)).mpr (by omega)
    omega

theorem toRat_shorten (x : Decimal) (k : Nat) : (x.shorten k).toRat =
    withSign x.mantissa (roundHalfEven x.mantissa.natAbs (power 10 k)) * (10 : ℚ) ^ (x.exponent + k) := rfl

theorem toRat_div (x : Decimal) (k : Nat) :
    x.toRat = x.mantissa / (power 10 k : Nat) * (10 : ℚ) ^ (x.exponent + k) := by
  have hten : (10 : ℚ) ≠ 0 := by norm_num
  have hpower : (10 : ℚ) ^ (k : ℤ) ≠ 0 := zpow_ne_zero _ hten
  rw [power_cast (Int.natCast_nonneg k), zpow_add₀ hten, toRat]
  field_simp

theorem pow_le_abs_toRat {k : Nat} (h : Nat.pow 10 (27 + k) ≤ x.mantissa.natAbs) :
    (10 : ℚ) ^ (27 + (x.exponent + k)) ≤ |x.toRat| := by
  have hten : (10 : ℚ) ≠ 0 := by norm_num
  have hpos : (0 : ℚ) < (10 : ℚ) ^ x.exponent := by positivity
  have hcast : ((10 : ℚ) ^ ((27 + k : Nat) : ℤ)) ≤ |(x.mantissa : ℚ)| := by
    rw [← Int.cast_abs, Int.abs_eq_natAbs, zpow_natCast]
    exact_mod_cast h
  have hsum : 27 + (x.exponent + k) = ((27 + k : Nat) : ℤ) + x.exponent := by
    push_cast
    ring
  rw [hsum, zpow_add₀ hten, toRat, abs_mul, abs_of_pos hpos]
  exact mul_le_mul_of_nonneg_right hcast (le_of_lt hpos)

/-- No digit is lost that counts. -/
theorem toRat_round (h : Short x.toRat) : x.round.toRat = x.toRat := by
  obtain hkept | ⟨k,hround,hlarge⟩ := x.round_cases
  · rw [hkept]
  · obtain ⟨n,hn⟩ := h.exists_mul (pow_le_abs_toRat hlarge)
    have hunit : (10 : ℚ) ^ (x.exponent + k) ≠ 0 := zpow_ne_zero _ (by norm_num)
    have hpower : 0 < power 10 k := power_pos (by decide) _
    have hpower' : ((power 10 k : Nat) : ℚ) ≠ 0 := by
      exact_mod_cast Nat.ne_of_gt hpower
    have hmantissa : x.mantissa = n * (power 10 k : Nat) := by
      have hdiv := mul_right_cancel₀ hunit ((toRat_div x k).symm.trans hn)
      rw [div_eq_iff hpower'] at hdiv
      exact_mod_cast hdiv
    have hnatAbs : x.mantissa.natAbs = n.natAbs * power 10 k := by
      rw [hmantissa, Int.natAbs_mul, Int.natAbs_natCast]
    rw [hround, toRat_shorten, hnatAbs, roundHalfEven_mul _ hpower, hmantissa, withSign_mul n hpower, hn]

theorem toRat_shorten_of_nonneg (h : 0 ≤ x.mantissa) (k : Nat) : (x.shorten k).toRat =
    (roundHalfEven x.mantissa.natAbs (power 10 k) : ℚ) * (10 : ℚ) ^ (x.exponent + k) := by
  rw [toRat_shorten, withSign, if_neg (by omega)]
  norm_cast

theorem mantissa_nonneg (h : 0 ≤ x.toRat) : 0 ≤ x.mantissa := by
  have hten : (0 : ℚ) < (10 : ℚ) ^ x.exponent := by positivity
  exact_mod_cast nonneg_of_mul_nonneg_left h hten

theorem mul_le_toRat_shorten (hpos : 0 ≤ x.toRat) (h : n * (10 : ℚ) ^ (x.exponent + k) ≤ x.toRat) :
    n * (10 : ℚ) ^ (x.exponent + k) ≤ (x.shorten k).toRat := by
  have hunit : (0 : ℚ) < (10 : ℚ) ^ (x.exponent + k) := by positivity
  have hpower : 0 < power 10 k := power_pos (by decide) _
  have hpower' : (0 : ℚ) < (power 10 k : Nat) := by exact_mod_cast hpower
  have hmantissa := mantissa_nonneg hpos
  have hmul : n * (power 10 k : Nat) ≤ x.mantissa := by
    rw [toRat_div x k] at h
    have hdiv := le_of_mul_le_mul_right h hunit
    rw [le_div_iff₀ hpower'] at hdiv
    exact_mod_cast hdiv
  have hquotient : n ≤ (x.mantissa.natAbs / power 10 k : Nat) := by
    rw [Int.natCast_div, Int.natAbs_of_nonneg hmantissa]
    exact Int.le_ediv_of_mul_le (by exact_mod_cast hpower) hmul
  have hrounded := div_le_roundHalfEven x.mantissa.natAbs (power 10 k)
  rw [toRat_shorten_of_nonneg hmantissa]
  refine mul_le_mul_of_nonneg_right ?_ (le_of_lt hunit)
  exact_mod_cast le_trans hquotient (by exact_mod_cast hrounded)

theorem le_toRat_round (hq : Short q) (hpos : 0 ≤ q) (h : q ≤ x.toRat) : q ≤ x.round.toRat := by
  have hx : 0 ≤ x.toRat := le_trans hpos h
  obtain hkept | ⟨k,hround,hlarge⟩ := x.round_cases
  · rwa [hkept]
  · rw [hround]
    by_cases hsize : (10 : ℚ) ^ (27 + (x.exponent + k)) ≤ |q|
    · obtain ⟨n,rfl⟩ := hq.exists_mul hsize
      exact mul_le_toRat_shorten hx h
    · -- `q` need not be a multiple of the last digit that is kept, but the least number of that many digits is.
      have hten : (10 : ℚ) ≠ 0 := by norm_num
      have hleast : (10 : ℚ) ^ (27 + (x.exponent + k)) =
          ((10 ^ 27 : ℤ) : ℚ) * (10 : ℚ) ^ (x.exponent + k) := by
        rw [zpow_add₀ hten]
        norm_num
      have hlarge' := pow_le_abs_toRat hlarge
      rw [abs_of_nonneg hx, hleast] at hlarge'
      rw [abs_of_nonneg hpos, hleast] at hsize
      exact le_trans (le_of_lt (not_le.mp hsize)) (mul_le_toRat_shorten hx hlarge')

theorem product_eq (x : Decimal) (n : Nat) : ∃ y : Decimal, y.toRat = x.toRat * n ∧ x.product n = y.round := by
  refine ⟨⟨x.mantissa * n,x.exponent⟩,?_,rfl⟩
  simp only [toRat]
  push_cast
  ring

theorem sum_eq (x y : Decimal) : ∃ z : Decimal, z.toRat = x.toRat + y.toRat ∧ x.sum y = z.round := by
  refine ⟨⟨x.mantissaAt (min x.exponent y.exponent) + y.mantissaAt (min x.exponent y.exponent),
    min x.exponent y.exponent⟩,?_,rfl⟩
  have hx := x.toRat_at (min_le_left x.exponent y.exponent)
  have hy := y.toRat_at (min_le_right x.exponent y.exponent)
  rw [← hx, ← hy]
  simp only [toRat]
  push_cast
  ring

theorem toRat_product {n : Nat} (h : Short (x.toRat * n)) : (x.product n).toRat = x.toRat * n := by
  obtain ⟨y,hy,hproduct⟩ := x.product_eq n
  rw [hproduct, toRat_round (by rwa [hy]), hy]

theorem toRat_sum (h : Short (x.toRat + y.toRat)) : (x.sum y).toRat = x.toRat + y.toRat := by
  obtain ⟨z,hz,hsum⟩ := x.sum_eq y
  rw [hsum, toRat_round (by rwa [hz]), hz]

theorem le_toRat_product {n : Nat} (hq : Short q) (hpos : 0 ≤ q) (h : q ≤ x.toRat * n) :
    q ≤ (x.product n).toRat := by
  obtain ⟨y,hy,hproduct⟩ := x.product_eq n
  rw [hproduct]
  exact le_toRat_round hq hpos (by rwa [hy])

theorem le_toRat_sum (hq : Short q) (hpos : 0 ≤ q) (h : q ≤ x.toRat + y.toRat) : q ≤ (x.sum y).toRat := by
  obtain ⟨z,hz,hsum⟩ := x.sum_eq y
  rw [hsum]
  exact le_toRat_round hq hpos (by rwa [hz])

theorem abs_toRat (x : Decimal) : |x.toRat| = x.mantissa.natAbs * (10 : ℚ) ^ x.exponent := by
  have hunit : (0 : ℚ) < (10 : ℚ) ^ x.exponent := by positivity
  rw [toRat, abs_mul, abs_of_pos hunit, ← Int.cast_abs, Int.abs_eq_natAbs, Int.cast_natCast]

theorem pow_le_abs_iff (hm : x.mantissa ≠ 0) (j : ℤ) :
    (10 : ℚ) ^ j ≤ |x.toRat| ↔ j < x.exponent + Text.digitCount x.mantissa.natAbs := by
  have hten : (10 : ℚ) ≠ 0 := by norm_num
  have hone : (1 : ℚ) < 10 := by norm_num
  have hunit : (0 : ℚ) < (10 : ℚ) ^ x.exponent := by positivity
  obtain ⟨c,hc⟩ : ∃ c, Text.digitCount x.mantissa.natAbs = c + 1 :=
    Nat.exists_eq_succ_of_ne_zero (Nat.ne_of_gt (Text.digitCount_pos _))
  have hless : x.mantissa.natAbs < Nat.pow 10 (c + 1) := (Text.digitCount_le_iff (Nat.succ_pos c)).mp (Nat.le_of_eq hc)
  have hleast : Nat.pow 10 c ≤ x.mantissa.natAbs := by
    obtain rfl | hpos := Nat.eq_zero_or_pos c
    · exact Int.natAbs_pos.mpr hm
    · exact Nat.le_of_not_lt fun h => by
        have hle := (Text.digitCount_le_iff hpos).mpr h
        omega
  rw [abs_toRat, hc]
  constructor
  · intro h
    by_contra hplaces
    have hless' : (x.mantissa.natAbs : ℚ) < (10 : ℚ) ^ ((c + 1 : Nat) : ℤ) := by
      rw [zpow_natCast]
      exact_mod_cast hless
    have hpower : (10 : ℚ) ^ (((c + 1 : Nat) : ℤ) + x.exponent) ≤ (10 : ℚ) ^ j :=
      zpow_le_zpow_right₀ (le_of_lt hone) (by omega)
    rw [zpow_add₀ hten] at hpower
    exact absurd (lt_of_lt_of_le (mul_lt_mul_of_pos_right hless' hunit) hpower) (not_lt.mpr h)
  · intro hplaces
    have hleast' : (10 : ℚ) ^ (c : ℤ) ≤ (x.mantissa.natAbs : ℚ) := by
      rw [zpow_natCast]
      exact_mod_cast hleast
    calc (10 : ℚ) ^ j
      _ ≤ (10 : ℚ) ^ ((c : ℤ) + x.exponent) := zpow_le_zpow_right₀ (le_of_lt hone) (by push_cast at hplaces; omega)
      _ = (10 : ℚ) ^ (c : ℤ) * (10 : ℚ) ^ x.exponent := zpow_add₀ hten _ _
      _ ≤ x.mantissa.natAbs * (10 : ℚ) ^ x.exponent := mul_le_mul_of_nonneg_right hleast' (le_of_lt hunit)

theorem bounded_eq_none_iff : x.bounded = none ↔ (10 : ℚ) ^ ((maxExponent + 1 : Nat) : ℤ) ≤ |x.toRat| := by
  unfold bounded
  by_cases hm : x.mantissa = 0
  · have hzero : x.toRat = 0 := by simp [toRat, hm]
    have hpos : (0 : ℚ) < (10 : ℚ) ^ ((maxExponent + 1 : Nat) : ℤ) := by positivity
    simp only [overflows, hm, hzero, abs_zero]
    simpa using hpos
  · rw [pow_le_abs_iff hm]
    simp [overflows, hm]

theorem abs_round_le (x : Decimal) : |x.round.toRat| ≤ 2 * |x.toRat| := by
  obtain hkept | ⟨k,hround,hlarge⟩ := x.round_cases
  · rw [hkept]
    linarith [abs_nonneg x.toRat]
  · have hunit : (0 : ℚ) < (10 : ℚ) ^ (x.exponent + k) := by positivity
    have hpower : 0 < power 10 k := power_pos (by decide) _
    have hnear := (nearestEven_withSign x.mantissa hpower).near
    have hvalue := toRat_div x k
    have hlarge := pow_le_abs_toRat hlarge
    rw [zpow_add₀ (by norm_num)] at hlarge
    rw [hround, toRat_shorten, abs_mul, abs_of_pos hunit]
    rw [hvalue, abs_mul, abs_of_pos hunit] at hlarge ⊢
    generalize (x.mantissa / (power 10 k : Nat) : ℚ) = q at *
    generalize (withSign x.mantissa (roundHalfEven x.mantissa.natAbs (power 10 k))) = r at *
    have hsize : 1 ≤ |q| := by
      have hmul := le_of_mul_le_mul_right hlarge hunit
      norm_num at hmul
      linarith
    have htriangle := abs_sub_abs_le_abs_sub (r : ℚ) q
    rw [abs_sub_comm] at htriangle
    rw [← mul_assoc]
    exact mul_le_mul_of_nonneg_right (by linarith) (le_of_lt hunit)

theorem abs_product_le (x : Decimal) (n : Nat) : |(x.product n).toRat| ≤ 2 * (|x.toRat| * n) := by
  obtain ⟨y,hy,hproduct⟩ := x.product_eq n
  have hround := y.abs_round_le
  rwa [hy, abs_mul, Nat.abs_cast, ← hproduct] at hround

theorem abs_sum_le (x y : Decimal) : |(x.sum y).toRat| ≤ 2 * (|x.toRat| + |y.toRat|) := by
  obtain ⟨z,hz,hsum⟩ := x.sum_eq y
  have hround := z.abs_round_le
  have htriangle := abs_add_le x.toRat y.toRat
  rw [hz, ← hsum] at hround
  linarith

end Decimal
end Countdown.Number
