import Countdown.Number.Binary64
set_option autoImplicit false

namespace Countdown.Number

def quotientPart? (n d : Nat) : Option Int :=
  (nearestBits? n d).bind fun b => match Double.ofBits (UInt64.ofNat b) with
    | .finite x => some x.truncate
    | _ => none

variable {n d k m : Nat}

/-- The last mantissa bit of the double nearest to `n / d` has the weight `2 ^ -k`: the quotient has 53 bits
before its point when it is taken so many times, and `k` is large enough that `d` is less than twice that. -/
structure Scale (n d k : Nat) : Prop where
  lastBit : lastBit n d = -(k : Int)
  pos : 1 ≤ k
  bound : k ≤ 1074
  low : hiddenBit * d ≤ n * Nat.pow 2 k
  high : n * Nat.pow 2 k < 2 * hiddenBit * d
  fine : d < 2 * Nat.pow 2 k

theorem log2_bounds (h : n ≠ 0) : Nat.pow 2 n.log2 ≤ n ∧ n < 2 * Nat.pow 2 n.log2 := by
  have hlt : n < Nat.pow 2 (n.log2 + 1) := Nat.lt_log2_self
  have hsucc : Nat.pow 2 (n.log2 + 1) = Nat.pow 2 n.log2 * 2 := rfl
  exact ⟨Nat.log2_self_le h,by omega⟩

theorem log2_le (h : n < hiddenBit) : n.log2 ≤ 51 := by
  by_cases hn : n = 0
  · rw [hn]
    decide
  · exact Nat.lt_succ_iff.mp ((Nat.log2_lt hn).mpr h)

theorem mul_pow_succ (n g : Nat) : n * Nat.pow 2 (g + 1) = 2 * (n * Nat.pow 2 g) := by
  have hsucc : Nat.pow 2 (g + 1) = Nat.pow 2 g * 2 := rfl
  rw [hsucc, ← Nat.mul_assoc, Nat.mul_comm]

theorem lastBit_eq {g : Nat} (hg : g + n.log2 = 52 + d.log2) (hd : d ≠ 0) (hlog : d.log2 ≤ 51) :
    lastBit n d = if n * Nat.pow 2 g < hiddenBit * d then -((g + 1 : Nat) : Int) else -(g : Int) := by
  have hguess : (n.log2 : Int) - d.log2 - 53 = -((g + 1 : Nat) : Int) := by omega
  have hsmaller : n * Nat.pow 2 (g + 1) / d < 2 * hiddenBit ↔ n * Nat.pow 2 g < hiddenBit * d := by
    rw [Nat.div_lt_iff_lt_mul (Nat.pos_of_ne_zero hd), mul_pow_succ, Nat.mul_assoc]
    omega
  simp only [lastBit, hguess, Int.neg_neg, power_natCast,
    power_of_nonpos 2 (Int.neg_nonpos_of_nonneg (Int.natCast_nonneg (g + 1))), Nat.mul_one, hsmaller]
  split <;> omega

theorem exists_scale (hn : n ≠ 0) (hd : d ≠ 0) (hn' : n < hiddenBit) (hd' : d < hiddenBit) :
    ∃ k, Scale n d k := by
  obtain ⟨hnlow,hnhigh⟩ := log2_bounds hn
  obtain ⟨hdlow,hdhigh⟩ := log2_bounds hd
  have hnlog := log2_le hn'
  have hdlog := log2_le hd'
  obtain ⟨g,hg⟩ : ∃ g, g + n.log2 = 52 + d.log2 := ⟨52 + d.log2 - n.log2,by omega⟩
  have hscale : Nat.pow 2 n.log2 * Nat.pow 2 g = hiddenBit * Nat.pow 2 d.log2 := by
    have hleft := Nat.pow_add 2 n.log2 g
    have hright := Nat.pow_add 2 52 d.log2
    rw [Nat.add_comm, hg] at hleft
    exact hleft.symm.trans hright
  have hlow : hiddenBit * Nat.pow 2 d.log2 ≤ n * Nat.pow 2 g :=
    hscale ▸ Nat.mul_le_mul_right _ hnlow
  have hhigh : n * Nat.pow 2 g < 2 * (hiddenBit * Nat.pow 2 d.log2) := by
    rw [← hscale, ← Nat.mul_assoc]
    exact Nat.mul_lt_mul_of_pos_right hnhigh (Nat.pow_pos (by decide))
  have hlower : hiddenBit * Nat.pow 2 d.log2 ≤ hiddenBit * d := Nat.mul_le_mul_left _ hdlow
  have hhigher : hiddenBit * d < 2 * (hiddenBit * Nat.pow 2 d.log2) := by
    rw [Nat.mul_left_comm]
    exact Nat.mul_lt_mul_of_pos_left hdhigh (by decide)
  have hfine : Nat.pow 2 d.log2 ≤ Nat.pow 2 g := Nat.pow_le_pow_right (by decide) (by omega)
  have hlast := lastBit_eq hg hd hdlog
  split at hlast
  · have hdouble := mul_pow_succ n g
    have hpow := mul_pow_succ 1 g
    exact ⟨g + 1,hlast,by omega,by omega,by omega,by rw [Nat.mul_assoc]; omega,by omega⟩
  · exact ⟨g,hlast,by omega,by omega,by omega,by rw [Nat.mul_assoc]; omega,by omega⟩

theorem Scale.mantissa (h : Scale n d k) (hd : 0 < d) :
    hiddenBit ≤ roundHalfEven (n * Nat.pow 2 k) d ∧ roundHalfEven (n * Nat.pow 2 k) d ≤ 2 * hiddenBit := by
  obtain ⟨hle,hge⟩ := roundHalfEven_near (n * Nat.pow 2 k) d hd
  have hlow := h.low
  have hhigh := h.high
  generalize roundHalfEven (n * Nat.pow 2 k) d = m at *
  constructor
  · refine Nat.le_of_lt_succ (Nat.lt_of_mul_lt_mul_right (a := d) ?_)
    rw [Nat.succ_mul]
    omega
  · refine Nat.le_of_lt_succ (Nat.lt_of_mul_lt_mul_right (a := d) ?_)
    rw [Nat.succ_mul]
    omega

theorem ofBits_encoded {e f : Nat} (he : e < 2046) (hf : f < hiddenBit) :
    Double.ofBits (UInt64.ofNat ((e + 1) * hiddenBit + f)) = .finite ⟨false,hiddenBit + f,(e : Int) - 1074⟩ := by
  have hbits : (UInt64.ofNat ((e + 1) * hiddenBit + f)).toNat = (e + 1) * hiddenBit + f := by
    refine UInt64.toNat_ofNat_of_lt' ?_
    simp only [hiddenBit, UInt64.size] at hf ⊢
    omega
  have hsign : ((e + 1) * hiddenBit + f) / signBit = 0 := by
    simp only [hiddenBit, signBit] at hf ⊢
    omega
  have hexponent : ((e + 1) * hiddenBit + f) / hiddenBit % 2048 = e + 1 := by
    simp only [hiddenBit] at hf ⊢
    omega
  have hfraction : ((e + 1) * hiddenBit + f) % hiddenBit = f := by
    simp only [hiddenBit] at hf ⊢
    omega
  have hfinite : e + 1 ≠ 2047 := by omega
  simp only [Double.ofBits, hbits, hsign, hexponent, hfraction, hfinite, if_false, Nat.succ_ne_zero]
  congr 2
  omega

theorem truncate_finite (m k : Nat) : (Dyadic.mk false m (-(k : Int))).truncate = (m / Nat.pow 2 k : Nat) := by
  cases k with
  | zero => simp [Dyadic.truncate, Dyadic.signed, power_zero]
  | succ k =>
    have hneg : ¬ (0 : Int) ≤ -((k + 1 : Nat) : Int) := by omega
    simp only [Dyadic.truncate, Dyadic.signed, hneg, if_false, Int.neg_neg, power_natCast, Bool.false_eq_true]

theorem truncate_ofBits (hk : 1 ≤ k) (hk' : k ≤ 1074) (hlow : hiddenBit ≤ m) (hhigh : m ≤ 2 * hiddenBit) :
    ∃ x : Dyadic, Double.ofBits (UInt64.ofNat ((1074 - k) * hiddenBit + m)) = .finite x ∧
      x.truncate = (m / Nat.pow 2 k : Nat) := by
  obtain hm | hm := Nat.lt_or_eq_of_le hhigh
  · obtain ⟨f,rfl⟩ := Nat.exists_eq_add_of_le hlow
    have hbits : (1074 - k) * hiddenBit + (hiddenBit + f) = (1074 - k + 1) * hiddenBit + f := by
      rw [Nat.succ_mul, Nat.add_assoc]
    have hexponent : ((1074 - k : Nat) : Int) - 1074 = -(k : Int) := by omega
    rw [hbits, ofBits_encoded (by omega) (by omega), hexponent]
    exact ⟨_,rfl,truncate_finite _ k⟩
  · -- rounding up has made one bit more, which goes to the exponent
    obtain ⟨j,rfl⟩ := Nat.exists_eq_add_of_le' hk
    have hbits : (1074 - (j + 1)) * hiddenBit + m = (1074 - j + 1) * hiddenBit + 0 := by
      simp only [hm, hiddenBit]
      omega
    have hexponent : ((1074 - j : Nat) : Int) - 1074 = -(j : Int) := by omega
    have hpow : Nat.pow 2 (j + 1) = Nat.pow 2 j * 2 := rfl
    rw [hbits, ofBits_encoded (by omega) (by decide), hexponent]
    refine ⟨_,rfl,?_⟩
    rw [truncate_finite, hm, hpow, Nat.mul_comm 2, Nat.mul_div_mul_right _ _ (by decide)]
    rfl

/-- A quotient that is rounded to the nearest of fine enough fractions has the same whole part. -/
theorem roundHalfEven_div {p : Nat} (hd : 0 < d) (hp : d < 2 * p) : roundHalfEven (n * p) d / p = n / d := by
  obtain ⟨hle,hge⟩ := roundHalfEven_near (n * p) d hd
  generalize roundHalfEven (n * p) d = m at *
  refine Nat.div_eq_of_lt_le ?_ ?_
  · have hq : n / d * p * d ≤ n * p := by
      rw [Nat.mul_right_comm]
      exact Nat.mul_le_mul_right p (Nat.div_mul_le_self n d)
    refine Nat.le_of_lt_succ (Nat.lt_of_mul_lt_mul_right (a := d) ?_)
    rw [Nat.succ_mul]
    omega
  · have hq : (n + 1) * p ≤ (n / d + 1) * p * d := by
      rw [Nat.mul_right_comm, Nat.mul_comm (n / d + 1)]
      exact Nat.mul_le_mul_right p (Nat.lt_mul_div_succ n hd)
    refine Nat.lt_of_mul_lt_mul_right (a := d) ?_
    rw [Nat.succ_mul] at hq
    omega

theorem Scale.nearestBits? (h : Scale n d k) (hn : n ≠ 0) (hd : 0 < d) : Number.nearestBits? n d =
    some ((1074 - k) * hiddenBit + roundHalfEven (n * Nat.pow 2 k) d) := by
  have hbound := (h.mantissa hd).2
  have hk := h.bound
  have hexponent : (-(k : Int) + 1074).toNat = 1074 - k := by omega
  simp only [Number.nearestBits?, h.lastBit, hn, if_false, Int.neg_neg, power_natCast,
    power_of_nonpos 2 (Int.neg_nonpos_of_nonneg (Int.natCast_nonneg k)), Nat.mul_one, hexponent]
  refine if_pos ?_
  simp only [hiddenBit, infinityBits] at hbound ⊢
  omega

/-- The whole part of a quotient does not change when it is computed in doubles. -/
theorem quotientPart?_eq (hn : n < hiddenBit) (hd : 0 < d) (hd' : d < hiddenBit) :
    quotientPart? n d = some ((n / d : Nat) : Int) := by
  by_cases hzero : n = 0
  · have hnone : quotientPart? 0 d = some 0 := by
      rw [quotientPart?, nearestBits?, if_pos rfl, Option.bind_some]
      decide +kernel
    rw [hzero, hnone, Nat.zero_div]
    rfl
  · obtain ⟨k,hk⟩ := exists_scale hzero (Nat.ne_of_gt hd) hn hd'
    obtain ⟨hlow,hhigh⟩ := hk.mantissa hd
    obtain ⟨x,hx,htruncate⟩ := truncate_ofBits hk.pos hk.bound hlow hhigh
    rw [roundHalfEven_div hd hk.fine] at htruncate
    rw [quotientPart?, hk.nearestBits? hzero hd, Option.bind_some, hx]
    exact congrArg some htruncate

end Countdown.Number
