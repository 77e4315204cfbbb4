import Countdown.Duration.Clock
set_option autoImplicit false

namespace Countdown

namespace TimeUnit

def perLarger (u : TimeUnit) : Int := (u.ratio.getD 1 : Nat)

theorem perLarger_eq : TimeUnit.ms.perLarger = 1000 ∧ TimeUnit.s.perLarger = 60 ∧
    TimeUnit.m.perLarger = 60 ∧ TimeUnit.h.perLarger = 24 := by decide

theorem larger_of_smaller {u v : TimeUnit} (h : u.smaller = some v) : v.larger = some u := by
  cases u <;> cases h <;> rfl

theorem size_larger {u v : TimeUnit} (h : u.larger = some v) :
    (v.size : Int) = u.perLarger * u.size := by
  cases u <;> cases h <;> rfl

theorem position_larger {u v : TimeUnit} (h : u.larger = some v) : v.position = u.position + 1 := by
  cases u <;> cases h <;> rfl

theorem lt_of_larger {u v : TimeUnit} (h : u.larger = some v) : u < v := by
  rw [lt_iff, position_larger h]
  exact Nat.lt_succ_self _

theorem ne_of_lt {u v : TimeUnit} (h : u < v) : u ≠ v := by
  rintro rfl
  exact Nat.lt_irrefl _ h

theorem lt_of_lt_larger {u v w : TimeUnit} (h : u.larger = some v) (hw : w < v) (hne : w ≠ u) : w < u := by
  have hposition := position_larger h
  rw [lt_iff] at hw ⊢
  have hdiffer : w.position ≠ u.position := by
    intro heq
    exact hne (by revert heq; cases w <;> cases u <;> decide)
  omega

theorem perLarger_pos (u : TimeUnit) : 0 < u.perLarger := by
  cases u <;> decide

theorem le_d (u : TimeUnit) : u ≤ .d := by
  cases u <;> decide

def roundUp (u : TimeUnit) (t : Int) : Int := -(-t / u.size) * u.size

@[simp] theorem roundUp_ms (t : Int) : TimeUnit.ms.roundUp t = t := by
  simp [roundUp, size]

theorem roundUp_roundUp {u v : TimeUnit} (h : u ≤ v) (t : Int) : v.roundUp (u.roundUp t) = v.roundUp t := by
  cases u <;> cases v <;> first
    | exact absurd h (by decide)
    | simp only [roundUp, size]; omega

end TimeUnit

namespace Duration.Parts

variable {p : Parts} {t : Int} {smallest top u v : TimeUnit} {us : List TimeUnit}

theorem total_set (p : Parts) (u : TimeUnit) (n : Int) :
    (p.set u n).total = p.total + (n - p.get u) * u.size := by
  cases u <;> simp only [set, get, total, TimeUnit.size] <;> omega

theorem set_get (p : Parts) (u : TimeUnit) : p.set u (p.get u) = p := by
  cases u <;> rfl

def Nonneg (p : Parts) : Prop := ∀ u, 0 ≤ p.get u

theorem Nonneg.set (h : p.Nonneg) {n : Int} (hn : 0 ≤ n) (u : TimeUnit) : (p.set u n).Nonneg := by
  intro v
  rw [get_set]
  split
  · exact hn
  · exact h v

theorem Nonneg.exists_nat (h : p.Nonneg) : ∃ d h m s ms : Nat, p = ⟨d,h,m,s,ms⟩ := by
  obtain ⟨d,hd⟩ := Int.eq_ofNat_of_zero_le (h .d)
  obtain ⟨hours,hh⟩ := Int.eq_ofNat_of_zero_le (h .h)
  obtain ⟨m,hm⟩ := Int.eq_ofNat_of_zero_le (h .m)
  obtain ⟨s,hs⟩ := Int.eq_ofNat_of_zero_le (h .s)
  obtain ⟨ms,hms⟩ := Int.eq_ofNat_of_zero_le (h .ms)
  refine ⟨d,hours,m,s,ms,?_⟩
  rw [← hd, ← hh, ← hm, ← hs, ← hms]
  rfl

theorem ofMs_of_nonneg {t : Int} (h : 0 ≤ t) :
    ofMs t = ⟨t / 86400000,t / 3600000 % 24,t / 60000 % 60,t / 1000 % 60,t % 1000⟩ := by
  have hdiv : ∀ n : Int, 0 ≤ n → 0 ≤ t / n := fun n hn => Int.ediv_nonneg h hn
  simp only [ofMs, Int.tdiv_eq_ediv_of_nonneg h, Int.tmod_eq_emod_of_nonneg h]
  rw [Int.tmod_eq_emod_of_nonneg (hdiv _ (by decide)), Int.tmod_eq_emod_of_nonneg (hdiv _ (by decide)),
    Int.tmod_eq_emod_of_nonneg (hdiv _ (by decide))]

theorem total_ofMs {t : Int} (h : 0 ≤ t) : (ofMs t).total = t := by
  rw [ofMs_of_nonneg h]
  simp only [total]
  omega

theorem nonneg_ofMs {t : Int} (h : 0 ≤ t) : (ofMs t).Nonneg := by
  rw [ofMs_of_nonneg h]
  intro u
  cases u <;> simp only [get] <;> omega

theorem ofMs_lt {t : Int} (h : 0 ≤ t) (hu : u < .d) : (ofMs t).get u < u.perLarger := by
  have hratios := TimeUnit.perLarger_eq
  rw [ofMs_of_nonneg h]
  cases u <;> simp only [get] <;> first
    | exact absurd hu (by decide)
    | omega

theorem breakDown_smaller (p : Parts) (hv : u.smaller = some v) :
    p.breakDown u = (p.set v (p.get v + p.get u * v.perLarger)).set u 0 := by
  unfold breakDown
  rw [hv]
  rfl

theorem total_breakDown (p : Parts) (u : TimeUnit) : (p.breakDown u).total = p.total := by
  cases hv : u.smaller with
  | none => simp [breakDown, hv]
  | some v =>
    have hlarger := TimeUnit.larger_of_smaller hv
    have hne := (TimeUnit.ne_of_lt (TimeUnit.lt_of_larger hlarger)).symm
    rw [breakDown_smaller p hv, total_set, total_set, get_set, if_neg hne, TimeUnit.size_larger hlarger]
    grind

theorem Nonneg.breakDown (h : p.Nonneg) (u : TimeUnit) : (p.breakDown u).Nonneg := by
  cases hv : u.smaller with
  | none => simpa [Parts.breakDown, hv] using h
  | some v =>
    have hsum : 0 ≤ p.get v + p.get u * v.perLarger :=
      Int.add_nonneg (h v) (Int.mul_nonneg (h u) (Int.le_of_lt v.perLarger_pos))
    rw [breakDown_smaller p hv]
    exact (h.set hsum v).set (Int.le_refl _) u

/-- The parts of a time in which no unit is larger than `top`. -/
def foldTo (top : TimeUnit) (p : Parts) : Parts :=
  ([.d,.h,.m,.s].filter fun u => top < u).foldl breakDown p

theorem foldl_breakDown (p : Parts) (us : List TimeUnit) :
    (us.foldl breakDown p).total = p.total ∧ (p.Nonneg → (us.foldl breakDown p).Nonneg) := by
  induction us generalizing p with
  | nil => exact ⟨rfl,id⟩
  | cons u us ih =>
    obtain ⟨htotal,hnonneg⟩ := ih (p.breakDown u)
    exact ⟨htotal.trans (p.total_breakDown u),fun h => hnonneg (h.breakDown u)⟩

theorem foldTo_above (p : Parts) (h : top < u) : (p.foldTo top).get u = 0 := by
  cases top <;> cases u <;> first
    | exact absurd h (by decide)
    | rfl

theorem foldTo_below (p : Parts) (h : u < top) : (p.foldTo top).get u = p.get u := by
  cases top <;> cases u <;> first
    | exact absurd h (by decide)
    | rfl

inductive Climbs (top : TimeUnit) : TimeUnit → List TimeUnit → Prop
  | nil : Climbs top top []
  | cons {u v : TimeUnit} {us : List TimeUnit} (larger : u.larger = some v) (rest : Climbs top v us) :
      Climbs top u (u :: us)

theorem Climbs.le (h : Climbs top u us) : u ≤ top := by
  induction h with
  | nil => exact Nat.le_refl _
  | cons larger _ ih => exact Nat.le_of_lt (Nat.lt_of_lt_of_le (TimeUnit.lt_of_larger larger) ih)

theorem climbs_below (u : TimeUnit) : Climbs u .ms ([.ms,.s,.m,.h].filter fun v => v < u) := by
  cases u
  · exact .nil
  · exact .cons rfl .nil
  · exact .cons rfl (.cons rfl .nil)
  · exact .cons rfl (.cons rfl (.cons rfl .nil))
  · exact .cons rfl (.cons rfl (.cons rfl (.cons rfl .nil)))

theorem climbs_range (r : UnitRange) :
    Climbs r.largest r.smallest (TimeUnit.all.filter fun u => r.smallest ≤ u ∧ u < r.largest) := by
  obtain ⟨smallest,largest,ordered⟩ := r
  cases smallest <;> cases largest <;> first
    | exact absurd ordered (by decide)
    | exact .nil
    | exact .cons rfl .nil
    | exact .cons rfl (.cons rfl .nil)
    | exact .cons rfl (.cons rfl (.cons rfl .nil))
    | exact .cons rfl (.cons rfl (.cons rfl (.cons rfl .nil)))

/-- The parts of a time rounded up to whole smallest units, of which at most the one of `u` and that
of the largest unit are too large. -/
structure Rounded (smallest top : TimeUnit) (t : Int) (u : TimeUnit) (p : Parts) : Prop where
  total : p.total = smallest.roundUp t
  nonneg : p.Nonneg
  below : ∀ v, v < smallest → p.get v = 0
  above : ∀ v, top < v → p.get v = 0
  small : ∀ v, v < top → v ≠ u → p.get v < v.perLarger
  current : u < top → p.get u ≤ u.perLarger

theorem rounded_folded (ht : 0 ≤ t) (top : TimeUnit) : Rounded .ms top t .ms ((ofMs t).foldTo top) := by
  have hsmall : ∀ v, v < top → ((ofMs t).foldTo top).get v < v.perLarger := by
    intro v hv
    have hd : v < .d := Nat.lt_of_lt_of_le hv top.le_d
    rw [foldTo_below _ hv]
    exact ofMs_lt ht hd
  obtain ⟨htotal,hnonneg⟩ := foldl_breakDown (ofMs t) ([.d,.h,.m,.s].filter fun u => top < u)
  exact {
    total := by rw [TimeUnit.roundUp_ms]; exact htotal.trans (total_ofMs ht)
    nonneg := hnonneg (nonneg_ofMs ht)
    below := fun v hv => absurd hv (Nat.not_lt_zero _)
    above := fun v hv => foldTo_above _ hv
    small := fun v hv _ => hsmall v hv
    current := fun hu => Int.le_of_lt (hsmall _ hu) }

theorem total_dropUp (hnonneg : p.Nonneg) (hbelow : ∀ v, v < u → p.get v = 0)
    (hle : p.get u ≤ u.perLarger) (hv : u.larger = some v) :
    (p.dropUp true u).total = v.roundUp p.total := by
  -- the larger parts are whole numbers of the larger unit, so that only this one is rounded
  have hratios := TimeUnit.perLarger_eq
  have hu := hnonneg u
  have hms := hbelow .ms
  have hs := hbelow .s
  have hm := hbelow .m
  obtain ⟨d,h,m,s,ms⟩ := p
  cases u <;> cases hv
  all_goals
    simp only [TimeUnit.lt_iff, TimeUnit.position, get, hratios] at hu hle hms hs hm
    simp only [dropUp, TimeUnit.larger, get, true_and, ne_eq]
    split
  all_goals
    simp only [set, total, TimeUnit.roundUp, TimeUnit.size]
    omega

theorem get_dropUp (p : Parts) (hv : u.larger = some v) (w : TimeUnit) : (p.dropUp true u).get w =
    if w = u then 0 else if w = v ∧ p.get u ≠ 0 then p.get v + 1 else p.get w := by
  simp only [dropUp, hv, true_and, get_set]
  by_cases hw : w = u
  · simp [hw]
  · by_cases hu : p.get u = 0 <;> simp [hw, hu, get_set]

theorem Rounded.dropUp (h : Rounded u top t u p) (hv : u.larger = some v) (htop : v ≤ top) :
    Rounded v top t v (p.dropUp true u) := by
  have huv := TimeUnit.lt_of_larger hv
  have hutop : u < top := Nat.lt_of_lt_of_le huv htop
  have hnonneg := h.nonneg
  have hget := get_dropUp p hv
  have hne : v ≠ u := (TimeUnit.ne_of_lt huv).symm
  refine ⟨?_,?_,?_,?_,?_,?_⟩
  · rw [total_dropUp h.nonneg h.below (h.current hutop) hv, h.total,
      TimeUnit.roundUp_roundUp (Nat.le_of_lt huv)]
  · intro w
    have hw := hnonneg w
    have hplus := hnonneg v
    rw [hget]
    split
    · exact Int.le_refl _
    · split <;> omega
  · intro w hw
    rw [hget]
    split
    · rfl
    · rw [if_neg fun hwv => TimeUnit.ne_of_lt hw hwv.1]
      exact h.below w (TimeUnit.lt_of_lt_larger hv hw ‹_›)
  · intro w hw
    have hvw : v < w := Nat.lt_of_le_of_lt htop hw
    have huw : u < w := Nat.lt_trans huv hvw
    rw [hget, if_neg (TimeUnit.ne_of_lt huw).symm, if_neg fun h => TimeUnit.ne_of_lt hvw h.1.symm]
    exact h.above w hw
  · intro w hw hwv
    rw [hget]
    split
    · exact w.perLarger_pos
    · rw [if_neg fun h => hwv h.1]
      exact h.small w hw ‹_›
  · intro hvtop
    have hlt := h.small v hvtop hne
    rw [hget, if_neg hne]
    split <;> omega

theorem Rounded.foldl_dropUp (h : Rounded u top t u p) (hus : Climbs v u us) (hv : v ≤ top) :
    Rounded v top t v (us.foldl (Parts.dropUp true) p) := by
  induction hus generalizing p with
  | nil => exact h
  | cons larger rest ih => exact ih (h.dropUp larger (Nat.le_trans rest.le hv))

theorem carry_small (hnonneg : 0 ≤ p.get u) (hsmall : p.get u < u.perLarger) : p.carry (u :: us) = p := by
  unfold TimeUnit.perLarger at hsmall
  unfold carry
  cases u.larger with
  | none => rfl
  | some v =>
    have hdiv : (p.get u).fdiv (u.ratio.getD 1 : Nat) = 0 := by
      rw [Int.fdiv_eq_ediv_of_nonneg _ (Int.natCast_nonneg _)]
      exact Int.ediv_eq_zero_of_lt hnonneg hsmall
    have hmod : (p.get u).fmod (u.ratio.getD 1 : Nat) = p.get u := by
      rw [Int.fmod_eq_emod_of_nonneg _ (Int.natCast_nonneg _)]
      exact Int.emod_eq_of_lt hnonneg hsmall
    simp only [hdiv, hmod, set_get, Int.le_refl, if_true]

theorem carry_full (hv : u.larger = some v) (hfull : p.get u = u.perLarger) : p.carry (u :: us) =
    ((p.set u 0).set v (p.get v + 1)).carry us := by
  have hpos := u.perLarger_pos
  have hne := (TimeUnit.ne_of_lt (TimeUnit.lt_of_larger hv)).symm
  have hdiv : (p.get u).fdiv (u.ratio.getD 1 : Nat) = 1 := by
    rw [hfull]
    exact Int.fdiv_self (Int.ne_of_gt hpos)
  have hmod : (p.get u).fmod (u.ratio.getD 1 : Nat) = 0 := by
    rw [hfull]
    exact Int.fmod_self
  rw [carry]
  simp [hv, hdiv, hmod, get_set, hne]

theorem Rounded.carry (h : Rounded smallest top t u p) (hus : Climbs top u us) (hu : smallest ≤ u) :
    Rounded smallest top t top (p.carry us) := by
  induction hus generalizing p with
  | nil => exact h
  | @cons u v us larger rest ih =>
    have huv := TimeUnit.lt_of_larger larger
    have hutop : u < top := Nat.lt_of_lt_of_le huv rest.le
    by_cases hsmall : p.get u < u.perLarger
    · rw [carry_small (h.nonneg u) hsmall]
      refine ⟨h.total,h.nonneg,h.below,h.above,?_,fun hlt => absurd hlt (Nat.lt_irrefl _)⟩
      intro w hw _
      by_cases hwu : w = u
      · rw [hwu]
        exact hsmall
      · exact h.small w hw hwu
    · -- no more than one has been added, so that no more than one is carried
      have hfull : p.get u = u.perLarger := by
        have hle := h.current hutop
        omega
      have hne := TimeUnit.ne_of_lt huv
      have hsize := TimeUnit.size_larger larger
      have hplus : 0 ≤ p.get v + 1 := by
        have hv := h.nonneg v
        omega
      have hget : ∀ w, ((p.set u 0).set v (p.get v + 1)).get w =
          if w = v then p.get v + 1 else if w = u then 0 else p.get w := by
        intro w
        rw [get_set, get_set]
      rw [carry_full larger hfull]
      refine ih ⟨?_,(h.nonneg.set (Int.le_refl _) u).set hplus v,?_,?_,?_,?_⟩
        (Nat.le_of_lt (Nat.lt_of_le_of_lt hu huv))
      · rw [total_set, total_set, get_set, if_neg hne.symm, hfull, hsize, h.total]
        grind
      · intro w hw
        have hwu : w < u := Nat.lt_of_lt_of_le hw hu
        rw [hget, if_neg (TimeUnit.ne_of_lt (Nat.lt_trans hwu huv)), if_neg (TimeUnit.ne_of_lt hwu)]
        exact h.below w hw
      · intro w hw
        have hvw : v < w := Nat.lt_of_le_of_lt rest.le hw
        rw [hget, if_neg (TimeUnit.ne_of_lt hvw).symm, if_neg (TimeUnit.ne_of_lt (Nat.lt_trans huv hvw)).symm]
        exact h.above w hw
      · intro w hw hwv
        rw [hget, if_neg hwv]
        split
        · exact w.perLarger_pos
        · exact h.small w hw ‹_›
      · intro hvtop
        have hlt := h.small v hvtop hne.symm
        rw [hget, if_pos rfl]
        omega

/-- The parts of a time that is not negative within a range. -/
theorem rounded_within (r : UnitRange) (ht : 0 ≤ t) :
    Rounded r.smallest r.largest t r.largest (within r t) := by
  have hdropped := (rounded_folded ht r.largest).foldl_dropUp (climbs_below r.smallest) r.ordered
  have hcarried := hdropped.carry (climbs_range r) (Nat.le_refl _)
  unfold within
  simp only [ht, if_true, decide_true]
  exact hcarried

end Duration.Parts
end Countdown
