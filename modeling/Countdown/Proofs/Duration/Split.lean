import Countdown.Proofs.Duration.Display
set_option autoImplicit false

namespace Countdown.Duration.Parts

variable {p : Parts} {t : Int}

/-- Parts that a time is split into. -/
structure Splits (t : Int) (p : Parts) : Prop where
  total : p.d * 86400000 + p.h * 3600000 + p.m * 60000 + p.s * 1000 + p.ms = t
  sign : ∀ u, p.get u = 0 ∨ (p.get u).sign = t.sign
  h : p.h.natAbs < 24
  m : p.m.natAbs < 60
  s : p.s.natAbs < 60
  ms : p.ms.natAbs < 1000

theorem Splits.neg (h : Splits t p) : Splits (-t) p.neg where
  total := by
    rw [← h.total]
    simp only [Parts.neg]
    omega
  sign := by
    intro u
    rw [get_neg, Int.sign_neg, Int.sign_neg]
    exact (h.sign u).imp (by simp) (congrArg Neg.neg)
  h := (Int.natAbs_neg _).trans_lt h.h
  m := (Int.natAbs_neg _).trans_lt h.m
  s := (Int.natAbs_neg _).trans_lt h.s
  ms := (Int.natAbs_neg _).trans_lt h.ms

theorem splits_neg : Splits (-t) p.neg ↔ Splits t p := by
  refine ⟨fun h => ?_,Splits.neg⟩
  have hneg := h.neg
  rwa [neg_neg, Int.neg_neg] at hneg

theorem Splits.nonneg (h : Splits t p) (ht : 0 ≤ t) : p.Nonneg := by
  intro u
  refine Int.not_lt.mp fun hneg => Int.not_lt.mpr ht ?_
  obtain hzero | hsign := h.sign u
  · exact absurd hzero (Int.ne_of_lt hneg)
  · exact Int.neg_of_sign_eq_neg_one (hsign.symm.trans (Int.sign_eq_neg_one_of_neg hneg))

theorem pos_of_get {u : TimeUnit} (hp : p.Nonneg) (hu : 0 < p.get u) : 0 < p.total := by
  have hd := hp .d
  have hh := hp .h
  have hm := hp .m
  have hs := hp .s
  have hms := hp .ms
  cases u <;> simp only [get, total] at * <;> omega

theorem splits_iff_fits (ht : 0 ≤ t) : Splits t p ↔ Fits .ms .d t p := by
  have hratios := TimeUnit.perLarger_eq
  constructor
  · intro hp
    have hnonneg := hp.nonneg ht
    obtain ⟨htotal,-,hh,hm,hs,hms⟩ := hp
    refine ⟨htotal,hnonneg,fun u hu => absurd hu (Nat.not_lt_zero _),fun u hu => absurd hu (Nat.not_lt.mpr u.le_d),
      fun u hu => ?_⟩
    have hu' := hnonneg u
    cases u <;> simp only [get] at * <;> first
      | exact absurd hu (by decide)
      | omega
  · intro hp
    have hsmall (u : TimeUnit) (hu : u < .d) : ((p.get u).natAbs : Int) < u.perLarger := by
      rw [Int.natAbs_of_nonneg (hp.nonneg u)]
      exact hp.small u hu
    have hh := hsmall .h (by decide)
    have hm := hsmall .m (by decide)
    have hs := hsmall .s (by decide)
    have hms := hsmall .ms (by decide)
    simp only [get, hratios] at hh hm hs hms
    refine ⟨hp.total,fun u => ?_,by omega,by omega,by omega,by omega⟩
    obtain hpos | hzero := Int.lt_or_eq_of_le (hp.nonneg u)
    · have htime := pos_of_get hp.nonneg hpos
      rw [hp.total] at htime
      exact .inr ((Int.sign_eq_one_of_pos hpos).trans (Int.sign_eq_one_of_pos htime).symm)
    · exact .inl hzero.symm

theorem splits_of_nonneg (ht : 0 ≤ t) : Splits t p ↔ p = ofMs t := by
  have hparts : Fits .ms .d t (ofMs t) := fits_folded ht .d
  rw [splits_iff_fits ht]
  constructor
  · exact fun hp => hp.unique hparts
  · rintro rfl
    exact hparts

/-- The parts of a time are the one way to split it, and those of the opposite time are opposite. -/
theorem splits_uniquely (t : Int) : (∀ p, Splits t p ↔ p = ofMs t) ∧ ofMs (-t) = (ofMs t).neg := by
  refine ⟨fun p => ?_,ofMs_neg t⟩
  obtain ht | ht := Int.le_total 0 t
  · exact splits_of_nonneg ht
  · rw [← splits_neg, splits_of_nonneg (Int.neg_nonneg_of_nonpos ht), ofMs_neg]
    exact ⟨fun h => by rw [← neg_neg p, h, neg_neg],congrArg neg⟩

end Countdown.Duration.Parts
