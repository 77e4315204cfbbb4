import Countdown.Proofs.Duration.Reading
import Countdown.Proofs.Number.Exact
import Mathlib.Algebra.Order.BigOperators.Group.List
set_option autoImplicit false

namespace Countdown

namespace Number.Numeral

def decimals (n : Numeral) : Nat := (n.fraction.getD []).length

end Number.Numeral

namespace Duration
open Number Decimal

def amountOf (t : Numeral × TimeUnit) : ℚ := t.1.value.toRat * t.2.size

def amount (ts : List (Numeral × TimeUnit)) : ℚ := (ts.map amountOf).sum

def Written.terms : Written → List (Numeral × TimeUnit)
  | bare n => [(n,.m)]
  | clock ns _ _ => clockTerms ns
  | measures before last more _ => (before ++ [last]).map Measure.term ++
      more.toList.map fun n => (n,last.unit.smaller.getD .ms)

/-- All products, and all sums on the way from `x`, can be written with the digits that are kept. -/
def Keeps (x : ℚ) : List (Numeral × TimeUnit) → Prop
  | [] => True
  | t :: ts => Short (amountOf t) ∧ Short (x + amountOf t) ∧ Keeps (x + amountOf t) ts

variable {t : Numeral × TimeUnit} {ts : List (Numeral × TimeUnit)} {w : Written} {x y : Decimal} {p q : ℚ}

@[simp] theorem amount_nil : amount [] = 0 := rfl

@[simp] theorem amount_cons (t : Numeral × TimeUnit) (ts : List (Numeral × TimeUnit)) :
    amount (t :: ts) = amountOf t + amount ts := by
  simp [amount]

theorem toRat_zero : Decimal.zero.toRat = 0 := by simp [Decimal.zero, toRat]

theorem addUnits_eq_some {n : Decimal} {u : TimeUnit} (h : addUnits x n u = some y) :
    x.sum (n.product u.size) = y := by
  obtain ⟨z,hz,hy⟩ := Option.bind_eq_some_iff.mp h
  rw [bounded_eq_some hz]
  exact bounded_eq_some hy

theorem addTerms_tail (h : addTerms x (t :: ts) = some y) :
    addTerms (x.sum (t.1.value.product t.2.size)) ts = some y := by
  obtain ⟨z,hz,hy⟩ := Option.bind_eq_some_iff.mp h
  rwa [addUnits_eq_some hz]

theorem Written.total_cases (w : Written) :
    (∃ n, w.terms = [(n,.m)] ∧ w.total = n.value.scale TimeUnit.m.size) ∨ w.total = addTerms .zero w.terms := by
  cases w with
  | bare n => exact Or.inl ⟨n,rfl,rfl⟩
  | clock ns _ _ => exact Or.inr rfl
  | measures before last more _ => exact Or.inr rfl

theorem toRat_sum_product (hproduct : Short (amountOf t)) (hsum : Short (x.toRat + amountOf t)) :
    (x.sum (t.1.value.product t.2.size)).toRat = x.toRat + amountOf t := by
  have hvalue : (t.1.value.product t.2.size).toRat = amountOf t := toRat_product hproduct
  rw [toRat_sum (by rwa [hvalue]), hvalue]

theorem toRat_addTerms (h : Keeps x.toRat ts) (hy : addTerms x ts = some y) : y.toRat = x.toRat + amount ts := by
  induction ts generalizing x with
  | nil =>
    cases hy
    simp
  | cons t ts ih =>
    obtain ⟨hproduct,hsum,hrest⟩ := h
    have hstep := toRat_sum_product hproduct hsum
    rw [ih (by rwa [hstep]) (addTerms_tail hy), hstep, amount_cons, add_assoc]

theorem Written.toRat_total (h : Keeps 0 w.terms) (hx : w.total = some x) : x.toRat = amount w.terms := by
  obtain ⟨n,hterms,htotal⟩ | htotal := w.total_cases
  · rw [hterms] at h ⊢
    rw [← bounded_eq_some (htotal.symm.trans hx), amount_cons, amount_nil, add_zero]
    exact toRat_product h.1
  · rw [toRat_addTerms (by rwa [toRat_zero]) (htotal.symm.trans hx), toRat_zero, zero_add]

theorem Written.nearest (h : Keeps 0 w.terms) (hx : w.total = some x) :
    NearestEven (amount w.terms) x.toInt := by
  rw [← toRat_total h hx]
  exact nearestEven_toInt x

/-- A value of no more than sixteen decimals. -/
def Fine (q : ℚ) : Prop := ∃ k : ℤ, q = k * (10 : ℚ) ^ (-16 : ℤ)

def ample : ℚ := 10 ^ 12

theorem Fine.add (hp : Fine p) (hq : Fine q) : Fine (p + q) := by
  obtain ⟨j,rfl⟩ := hp
  obtain ⟨k,rfl⟩ := hq
  exact ⟨j + k,by push_cast; ring⟩

theorem fine_zero : Fine 0 := ⟨0,by simp⟩

theorem Fine.short (h : Fine q) (hq : |q| < ample) : Short q := by
  obtain ⟨k,rfl⟩ := h
  refine ⟨k,-16,?_,rfl⟩
  rw [abs_mul, abs_of_pos (by positivity : (0 : ℚ) < (10 : ℚ) ^ (-16 : ℤ)), ample] at hq
  have hk : |(k : ℚ)| < 10 ^ 28 := by
    rw [zpow_neg, ← div_eq_mul_inv, div_lt_iff₀ (by positivity)] at hq
    norm_num at hq ⊢
    exact hq
  rw [← Int.cast_abs, Int.abs_eq_natAbs] at hk
  exact_mod_cast hk

theorem short_ample : Short ample := ⟨1,12,by decide,by norm_num [ample]⟩

theorem fine_amountOf (h : t.1.decimals ≤ 16) : Fine (amountOf t) := by
  obtain ⟨n,u⟩ := t
  refine ⟨n.value.mantissa * u.size * (power 10 (16 - (n.decimals : ℤ)) : Nat),?_⟩
  have hten : (10 : ℚ) ≠ 0 := by norm_num
  have hexponent : n.value.exponent = 16 - (n.decimals : ℤ) + -16 := by
    rw [Numeral.value, Numeral.decimals]
    ring
  push_cast
  rw [power_cast (by dsimp only at h; omega), mul_assoc, ← zpow_add₀ hten, ← hexponent, amountOf, toRat]
  ring

theorem amountOf_nonneg (h : t.1.negative = false) : 0 ≤ amountOf t := by
  have hmantissa : 0 ≤ t.1.value.mantissa := by simp [Numeral.value, h]
  have hcast : (0 : ℚ) ≤ t.1.value.mantissa := by exact_mod_cast hmantissa
  unfold amountOf toRat
  positivity

/-- Few decimals are kept as long as all amounts together are not too great, whatever their signs. -/
theorem keeps_of_fine (hts : ∀ t ∈ ts, t.1.decimals ≤ 16) (hq : Fine q)
    (h : |q| + (ts.map fun t => |amountOf t|).sum < ample) : Keeps q ts := by
  induction ts generalizing q with
  | nil => trivial
  | cons t ts ih =>
    have hfine := fine_amountOf (hts t List.mem_cons_self)
    have hsum := hq.add hfine
    have htriangle := abs_add_le q (amountOf t)
    have hrest : 0 ≤ (ts.map fun t => |amountOf t|).sum :=
      List.sum_nonneg (by simp only [List.mem_map]; rintro y ⟨t,-,rfl⟩; exact abs_nonneg _)
    have hq' := abs_nonneg q
    have ht' := abs_nonneg (amountOf t)
    rw [List.map_cons, List.sum_cons] at h
    exact ⟨hfine.short (by linarith),hsum.short (by linarith),
      ih (fun t ht => hts t (List.mem_cons_of_mem _ ht)) hsum (by linarith)⟩

theorem nonneg_product (h : t.1.negative = false) : 0 ≤ (t.1.value.product t.2.size).toRat :=
  le_toRat_product ⟨0,0,by decide,by simp⟩ (le_refl 0) (amountOf_nonneg h)

theorem ample_addTerms (hts : ∀ t ∈ ts, t.1.negative = false) (h : ample ≤ x.toRat)
    (hy : addTerms x ts = some y) : ample ≤ y.toRat := by
  induction ts generalizing x with
  | nil =>
    cases hy
    exact h
  | cons t ts ih =>
    have hproduct := nonneg_product (hts t List.mem_cons_self)
    exact ih (fun t ht => hts t (List.mem_cons_of_mem _ ht))
      (le_toRat_sum short_ample (by norm_num [ample]) (by linarith)) (addTerms_tail hy)

/-- A sum that is too great is still too great when its digits have been cut: up to the number with which
it becomes so, nothing is lost. -/
theorem ample_of_amount (hts : ∀ t ∈ ts, t.1.negative = false) (hdecimals : ∀ t ∈ ts, t.1.decimals ≤ 16)
    (hx : Fine x.toRat) (hpos : 0 ≤ x.toRat) (h : ample ≤ x.toRat + amount ts)
    (hy : addTerms x ts = some y) : ample ≤ y.toRat := by
  induction ts generalizing x with
  | nil =>
    cases hy
    simpa using h
  | cons t ts ih =>
    have hrest : ∀ t ∈ ts, t.1.negative = false := fun t ht => hts t (List.mem_cons_of_mem _ ht)
    have hfine := fine_amountOf (hdecimals t List.mem_cons_self)
    have hterm := amountOf_nonneg (hts t List.mem_cons_self)
    have hsum := hx.add hfine
    have hy := addTerms_tail hy
    by_cases hsmall : x.toRat + amountOf t < ample
    · have hstep := toRat_sum_product (hfine.short (by rw [abs_of_nonneg hterm]; linarith))
        (hsum.short (by rwa [abs_of_nonneg (by linarith)]))
      rw [amount_cons] at h
      exact ih hrest (fun t ht => hdecimals t (List.mem_cons_of_mem _ ht)) (by rwa [hstep])
        (by rw [hstep]; linarith) (by rw [hstep]; linarith) hy
    · have hlarge : ample ≤ x.toRat + (t.1.value.product t.2.size).toRat := by
        by_cases hproduct : amountOf t < ample
        · have hvalue : (t.1.value.product t.2.size).toRat = amountOf t :=
            toRat_product (hfine.short (by rwa [abs_of_nonneg hterm]))
          rw [hvalue]
          exact not_lt.mp hsmall
        · have hvalue := le_toRat_product short_ample (by norm_num [ample]) (not_lt.mp hproduct)
          linarith
      exact ample_addTerms hrest (le_toRat_sum short_ample (by norm_num [ample]) hlarge) hy

theorem Written.ample_total (hts : ∀ t ∈ w.terms, t.1.negative = false)
    (hdecimals : ∀ t ∈ w.terms, t.1.decimals ≤ 16) (h : ample ≤ amount w.terms) (hx : w.total = some x) :
    ample ≤ x.toRat := by
  obtain ⟨n,hterms,htotal⟩ | htotal := w.total_cases
  · rw [hterms, amount_cons, amount_nil, add_zero] at h
    rw [← bounded_eq_some (htotal.symm.trans hx)]
    exact le_toRat_product short_ample (by norm_num [ample]) h
  · exact ample_of_amount hts hdecimals (toRat_zero ▸ fine_zero) (le_of_eq toRat_zero.symm)
      (by rwa [toRat_zero, zero_add]) (htotal.symm.trans hx)

theorem sum_abs (hts : ∀ t ∈ ts, t.1.negative = false) : (ts.map fun t => |amountOf t|).sum = amount ts := by
  have hmap : (ts.map fun t => |amountOf t|) = ts.map amountOf :=
    List.map_congr_left fun t ht => abs_of_nonneg (amountOf_nonneg (hts t ht))
  rw [hmap, amount]

theorem lt_ample_of_toInt (h : x.toInt ≤ maxDuration) : x.toRat < ample := by
  have hnear := (abs_le.mp x.nearestEven_toInt.near).2
  have hmax : (x.toInt : ℚ) ≤ (maxDuration : ℤ) := by exact_mod_cast h
  have hlimit : ((maxDuration : ℤ) : ℚ) + 1 / 2 < ample := by norm_num [maxDuration, maxDays, TimeUnit.size, ample]
  linarith

/-- Whatever text is read as a duration, its writing says how exact that is. It is the exact sum of the
numbers in their units, rounded once to the nearest whole number, a half to the even one, if no product and
no sum on the way needs more digits than are kept. That is so if no number has more than sixteen decimals
and none has a sign; with signs it is so if the amounts together are below a million million. -/
theorem read_exact (s : Settings) {text : List Char} {ms : Int} (h : read s.separator text = .ok ms) :
    (∃ w : Written, w.chars s.separatorChar = Text.squeeze text) ∧
    ∀ w : Written, w.chars s.separatorChar = Text.squeeze text →
      (Keeps 0 w.terms → NearestEven (amount w.terms) ms) ∧
      ((∀ t ∈ w.terms, t.1.decimals ≤ 16) →
        (∀ t ∈ w.terms, t.1.negative = false) ∨ (w.terms.map fun t => |amountOf t|).sum < 10 ^ 12 →
        NearestEven (amount w.terms) ms) := by
  obtain ⟨w,-,htext,-⟩ := (read_eq_ok_iff s.separator_valid).mp h
  refine ⟨⟨w,htext⟩,fun w htext => ?_⟩
  have hread := (read_written s.separator_valid htext).symm.trans h
  obtain ⟨x,hx,hlimit⟩ := computed_bind_eq_ok.mp hread
  obtain ⟨rfl,hmax⟩ := limit_eq_ok_iff.mp hlimit
  have hkeeps : (∀ t ∈ w.terms, t.1.decimals ≤ 16) → (w.terms.map fun t => |amountOf t|).sum < ample →
      NearestEven (amount w.terms) x.toInt := fun hdecimals hsum =>
    Written.nearest (keeps_of_fine hdecimals fine_zero (by rwa [abs_zero, zero_add])) hx
  refine ⟨fun hkeeps => Written.nearest hkeeps hx,fun hdecimals hcase => ?_⟩
  obtain hunsigned | hsum := hcase
  · by_cases hample : amount w.terms < ample
    · exact hkeeps hdecimals (by rwa [sum_abs hunsigned])
    · exact absurd (lt_ample_of_toInt hmax) (not_lt.mpr (Written.ample_total hunsigned hdecimals (not_lt.mp hample) hx))
  · exact hkeeps hdecimals hsum

/-- Hours, minutes and seconds with decimals come to 123247854.32 milliseconds. -/
theorem read_exact_decimals : ∃ w : Written, w.chars ':' = Text.squeeze "34.2:1.74:23.45432".toList ∧
    amount w.terms = 12324785432 / 100 ∧ NearestEven (amount w.terms) 123247854 := by
  let h : Numeral := ⟨false,['3','4'],some ['2'],List.all_eq_true.mp rfl,by decide⟩
  let m : Numeral := ⟨false,['1'],some ['7','4'],List.all_eq_true.mp rfl,by decide⟩
  let s : Numeral := ⟨false,['2','3'],some ['4','5','4','3','2'],List.all_eq_true.mp rfl,by decide⟩
  let w : Written := .clock [some h,some m,some s] (by decide) (by decide)
  have hread : read Settings.defaults.separator "34.2:1.74:23.45432".toList = .ok 123247854 :=
    toOption_eq_some.mp (by decide +kernel)
  obtain ⟨-,hexact⟩ := read_exact Settings.defaults hread
  obtain ⟨-,hfew⟩ := hexact w rfl
  refine ⟨w,rfl,?_,hfew (by decide) (Or.inl (by decide))⟩
  have hterms : w.terms = [(h,.h),(m,.m),(s,.s)] := rfl
  have hvalues : h.value = ⟨342,-1⟩ ∧ m.value = ⟨174,-2⟩ ∧ s.value = ⟨2345432,-5⟩ := by decide
  simp only [hterms, amount_cons, amount_nil, amountOf, hvalues, toRat, TimeUnit.size]
  norm_num

/-- The sum is above a half, and the last of its digits is lost before it is rounded. -/
theorem read_loses_digits : read ":" "0.5000000000000000000000000000001ms".toList = .ok 0 ∧
    ∃ w : Written, w.chars ':' = Text.squeeze "0.5000000000000000000000000000001ms".toList ∧
      NearestEven (amount w.terms) 1 ∧ ¬ NearestEven (amount w.terms) 0 := by
  let n : Numeral :=
    ⟨false,['0'],some "5000000000000000000000000000001".toList,List.all_eq_true.mp rfl,by decide⟩
  let w : Written := .measures [] ⟨n,['m','s'],.ms,by decide⟩ none (by simp)
  have hterms : w.terms = [(n,.ms)] := rfl
  have hvalue : n.value = ⟨5000000000000000000000000000001,-31⟩ := by decide +kernel
  have hamount : amount w.terms = 5000000000000000000000000000001 / 10 ^ 31 := by
    simp only [hterms, amount_cons, amount_nil, amountOf, hvalue, toRat, TimeUnit.size]
    norm_num
  have hone : NearestEven (amount w.terms) 1 := by
    rw [hamount]
    constructor
    · rw [abs_le]
      norm_num
    · intro htie
      norm_num [abs_eq] at htie
  exact ⟨toOption_eq_some.mp (by decide +kernel),w,rfl,hone,fun hzero => absurd (hone.unique hzero) (by decide)⟩

end Duration
end Countdown
