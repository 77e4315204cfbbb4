import Mathlib.Data.List.TakeWhile
import Countdown.Proofs.Duration.Clock
set_option autoImplicit false

namespace Countdown

open Text

namespace TimeUnit

def roundDown (u : TimeUnit) (t : Int) : Int := t / u.size * u.size

@[simp] theorem roundDown_ms (t : Int) : TimeUnit.ms.roundDown t = t := by
  simp [roundDown, size]

theorem roundDown_roundDown {u v : TimeUnit} (h : u ≤ v) (t : Int) :
    v.roundDown (u.roundDown t) = v.roundDown t := by
  cases u <;> cases v <;> first
    | exact absurd h (by decide)
    | simp only [roundDown, size]; omega

theorem roundUp_pos {t : Int} (h : 0 < t) (u : TimeUnit) : 0 < u.roundUp t := by
  cases u <;> simp only [roundUp, size] <;> omega

theorem ratio_of_lt {u v : TimeUnit} (h : u < v) : ∃ n : Nat, u.ratio = some n ∧ u.perLarger = n := by
  cases u with
  | d => exact absurd h (Nat.not_lt.mpr v.le_d)
  | ms | s | m | h => exact ⟨_,rfl,rfl⟩

end TimeUnit

namespace Duration.Parts

variable {p q : Parts} {t n : Int} {smallest top u v : TimeUnit} {us : List TimeUnit}

def neg (p : Parts) : Parts := ⟨-p.d,-p.h,-p.m,-p.s,-p.ms⟩

@[simp] theorem get_neg (p : Parts) (u : TimeUnit) : p.neg.get u = -p.get u := by
  cases u <;> rfl

theorem neg_set (p : Parts) (u : TimeUnit) (n : Int) : (p.set u n).neg = p.neg.set u (-n) := by
  cases u <;> rfl

theorem neg_neg (p : Parts) : p.neg.neg = p := by
  simp [neg]

theorem ofMs_neg (t : Int) : ofMs (-t) = (ofMs t).neg := by
  simp [ofMs, neg, Int.neg_tdiv, Int.neg_tmod]

theorem breakDown_neg (p : Parts) (u : TimeUnit) : p.neg.breakDown u = (p.breakDown u).neg := by
  cases hv : u.smaller with
  | none => simp [breakDown, hv]
  | some v =>
    rw [breakDown_smaller _ hv, breakDown_smaller _ hv, neg_set, neg_set, get_neg, get_neg, Int.neg_add,
      Int.neg_mul, Int.neg_zero]

theorem dropUp_false (p : Parts) (hv : u.larger = some v) : p.dropUp false u = p.set u 0 := by
  simp [dropUp, hv]

theorem dropUp_neg (p : Parts) (u : TimeUnit) : p.neg.dropUp false u = (p.dropUp false u).neg := by
  cases hv : u.larger with
  | none => simp [dropUp, hv]
  | some v => rw [dropUp_false _ hv, dropUp_false _ hv, neg_set, Int.neg_zero]

theorem foldl_neg {f : Parts → TimeUnit → Parts} (h : ∀ p u, f p.neg u = (f p u).neg) (p : Parts)
    (us : List TimeUnit) : us.foldl f p.neg = (us.foldl f p).neg := by
  induction us generalizing p with
  | nil => rfl
  | cons u us ih => rw [List.foldl_cons, h, ih, List.foldl_cons]

theorem within_neg (r : UnitRange) (ht : t < 0) : within r t =
    (([.ms,.s,.m,.h].filter fun u => u < r.smallest).foldl (dropUp false)
      ((ofMs (-t)).foldTo r.largest)).neg := by
  have hnot : ¬0 ≤ t := Int.not_le.mpr ht
  unfold within foldTo
  simp only [hnot, if_false, decide_false]
  rw [← foldl_neg dropUp_neg, ← foldl_neg breakDown_neg, ofMs_neg, neg_neg]

/-- The parts of `n` milliseconds in which there is no unit outside a range, and none but the largest
that is too large. -/
structure Fits (smallest top : TimeUnit) (n : Int) (p : Parts) : Prop where
  total : p.total = n
  nonneg : p.Nonneg
  below : ∀ v, v < smallest → p.get v = 0
  above : ∀ v, top < v → p.get v = 0
  small : ∀ v, v < top → p.get v < v.perLarger

theorem Rounded.fits (h : Rounded smallest top t top p) : Fits smallest top (smallest.roundUp t) p :=
  ⟨h.total,h.nonneg,h.below,h.above,fun v hv => h.small v hv (TimeUnit.ne_of_lt hv)⟩

theorem fits_folded (ht : 0 ≤ t) (top : TimeUnit) : Fits .ms top t ((ofMs t).foldTo top) := by
  have h := rounded_folded ht top
  refine ⟨h.total.trans (TimeUnit.roundUp_ms t),h.nonneg,h.below,h.above,fun v hv => ?_⟩
  rw [foldTo_below _ hv]
  exact ofMs_lt ht (Nat.lt_of_lt_of_le hv top.le_d)

theorem Fits.total_drop (h : Fits u top n p) (hv : u.larger = some v) (htop : v ≤ top) :
    (p.set u 0).total = v.roundDown n := by
  have hratios := TimeUnit.perLarger_eq
  have hu := h.nonneg u
  have hlt := h.small u (Nat.lt_of_lt_of_le (TimeUnit.lt_of_larger hv) htop)
  have hms := h.below .ms
  have hs := h.below .s
  have hm := h.below .m
  rw [← h.total]
  obtain ⟨d,h,m,s,ms⟩ := p
  cases u <;> cases hv
  all_goals
    simp only [TimeUnit.lt_iff, TimeUnit.position, get, hratios] at hu hlt hms hs hm
    simp only [set, Parts.total, TimeUnit.roundDown, TimeUnit.size]
    omega

theorem Fits.drop (h : Fits u top n p) (hv : u.larger = some v) (htop : v ≤ top) :
    Fits v top (v.roundDown n) (p.set u 0) := by
  have huv := TimeUnit.lt_of_larger hv
  refine ⟨h.total_drop hv htop,h.nonneg.set (Int.le_refl _) u,fun w hw => ?_,fun w hw => ?_,fun w hw => ?_⟩
  all_goals
    rw [get_set]
    split
  · rfl
  · exact h.below w (TimeUnit.lt_of_lt_larger hv hw ‹_›)
  · rfl
  · exact h.above w hw
  · exact w.perLarger_pos
  · exact h.small w hw

theorem Fits.foldl_drop (h : Fits u top (u.roundDown n) p) (hus : Climbs v u us) (hv : v ≤ top) :
    Fits v top (v.roundDown n) (us.foldl (dropUp false) p) := by
  induction hus generalizing p with
  | nil => exact h
  | cons larger rest ih =>
    have hdrop := h.drop larger (Nat.le_trans rest.le hv)
    rw [TimeUnit.roundDown_roundDown (Nat.le_of_lt (TimeUnit.lt_of_larger larger)),
      ← dropUp_false p larger] at hdrop
    exact ih hdrop

/-- There is one way to split a time within a range. -/
theorem Fits.unique (hp : Fits smallest top n p) (hq : Fits smallest top n q) : p = q := by
  have hratios := TimeUnit.perLarger_eq
  have htotal := hp.total.trans hq.total.symm
  have hbounds : ∀ u, (0 ≤ p.get u ∧ 0 ≤ q.get u) ∧ (top < u → p.get u = 0 ∧ q.get u = 0) ∧
      (u < top → p.get u < u.perLarger ∧ q.get u < u.perLarger) := fun u =>
    ⟨⟨hp.nonneg u,hq.nonneg u⟩,fun h => ⟨hp.above u h,hq.above u h⟩,fun h => ⟨hp.small u h,hq.small u h⟩⟩
  have hd := hbounds .d
  have hh := hbounds .h
  have hm := hbounds .m
  have hs := hbounds .s
  have hms := hbounds .ms
  obtain ⟨d,h,m,s,ms⟩ := p
  obtain ⟨d',h',m',s',ms'⟩ := q
  rw [mk.injEq]
  cases top
  all_goals
    simp only [TimeUnit.lt_iff, TimeUnit.position, get, Parts.total, hratios] at *
    -- from the smallest up: what is less than one of the next unit is a remainder of the total
    obtain rfl : ms = ms' := by omega
    obtain rfl : s = s' := by omega
    obtain rfl : m = m' := by omega
    obtain rfl : h = h' := by omega
    omega

/-- What is shown of a time, whether or not it is negative. -/
theorem fits_within (r : UnitRange) (t : Int) :
    ∃ q, Fits r.smallest r.largest (if 0 ≤ t then r.smallest.roundUp t else r.smallest.roundDown (-t)) q ∧
      ∀ u, (((within r t).get u).natAbs : Int) = q.get u := by
  split
  · rename_i ht
    have h := rounded_within r ht
    exact ⟨within r t,h.fits,fun u => Int.natAbs_of_nonneg (h.nonneg u)⟩
  · rename_i ht
    have hfolded := fits_folded (t := -t) (by omega) r.largest
    rw [← TimeUnit.roundDown_ms (-t)] at hfolded
    have h := hfolded.foldl_drop (climbs_below r.smallest) r.ordered
    rw [TimeUnit.roundDown_ms] at h
    refine ⟨_,h,fun u => ?_⟩
    rw [within_neg r (Int.not_le.mp ht), get_neg, Int.natAbs_neg]
    exact Int.natAbs_of_nonneg (h.nonneg u)

end Duration.Parts

namespace Duration

variable {r : UnitRange} {trim : Bool} {p : Parts} {t : Int} {u : TimeUnit} {us : List TimeUnit}

def shownCount (text : String) : Nat := natOfAscii (text.toList.filter isAsciiDigit)

def shownCounts (xs : List (TimeUnit × String)) : List (TimeUnit × Nat) := xs.map fun x => (x.1,shownCount x.2)

def unitSum : List (TimeUnit × Nat) → Nat
  | [] => 0
  | x :: xs => x.2 * x.1.size + unitSum xs

/-- The time that the texts of units show, largest first. The sign of the first one is that of all. -/
def denoted (xs : List (TimeUnit × String)) : Int :=
  let sum := unitSum (shownCounts xs)
  if (xs.head?.bind fun x => x.2.toList.head?) = some '-' then -sum else sum

def joined (separator : String) : List (TimeUnit × String) → String
  | [] => ""
  | x :: xs => x.2 ++ String.join (xs.map fun y => (if y.1 = .ms then "." else separator) ++ y.2)

theorem toList_text (x : Segment) :
    x.text.toList = (if x.negative then ['-'] else []) ++ padded x.width x.value := by
  simp [Segment.text, Segment.chars]

@[simp] theorem shownCount_text (x : Segment) : shownCount x.text = x.value := by
  have hdigits : (padded x.width x.value).filter isAsciiDigit = padded x.width x.value :=
    List.filter_eq_self.mpr fun c hc => isAsciiDigit_of_mem_padded hc
  have hsign : (if x.negative then ['-'] else []).filter isAsciiDigit = [] := by
    cases x.negative <;> rfl
  rw [shownCount, toList_text, List.filter_append, hsign, hdigits, List.nil_append, natOfAscii_padded]

theorem padded_one (n : Nat) : padded 1 n = digitsOf n := by
  have hlength : 0 < (digitsOf n).length := List.length_pos_iff.mpr (digitsOf_ne_nil n)
  have hnone : 1 - (digitsOf n).length = 0 := by omega
  rw [padded, hnone]
  rfl

theorem head?_text (x : Segment) : x.text.toList.head? = some '-' ↔ x.negative = true := by
  rw [toList_text]
  cases hx : x.negative with
  | true => simp
  | false =>
    cases hp : padded x.width x.value with
    | nil => exact absurd hp (padded_ne_nil _ _)
    | cons c cs =>
      have hdigit : isAsciiDigit c = true := isAsciiDigit_of_mem_padded (hp ▸ List.mem_cons_self)
      have hc : c ≠ '-' := by
        rintro rfl
        exact absurd hdigit (by decide)
      simp [hc]

def texts (xs : List Segment) : List (TimeUnit × String) := xs.map fun x => (x.unit,x.text)

@[simp] theorem shownCounts_texts (xs : List Segment) : shownCounts (texts xs) = xs.map fun x => (x.unit,x.value) := by
  simp [shownCounts, texts, Function.comp_def]

theorem clockText_eq_joined (separator : String) (xs : List Segment) :
    clockText separator xs = joined separator (texts xs) := by
  have hjoint : ∀ x : Segment, joint separator x = if x.unit = .ms then "." else separator := by
    intro x
    unfold joint
    split <;> simp_all
  cases xs with
  | nil => rfl
  | cons x xs => simp [clockText, joined, texts, hjoint, Function.comp_def]

theorem smallest_mem_units (r : UnitRange) : r.smallest ∈ r.units :=
  mem_units.mpr ⟨Nat.le_refl _,r.ordered⟩

theorem exists_shownUnits (r : UnitRange) (trim : Bool) (p : Parts) : ∃ u us, shownUnits r trim p = u :: us := by
  refine List.exists_cons_of_ne_nil ?_
  unfold shownUnits
  split
  · intro h
    have htrimmed := List.dropWhile_eq_nil_iff.mp h r.smallest (smallest_mem_units r)
    simp [isTrimmed] at htrimmed
  · exact List.ne_nil_of_mem (smallest_mem_units r)

theorem segments_eq (h : shownUnits r trim (Parts.within r t) = u :: us) :
    segments r trim t = ⟨u,t < 0,((Parts.within r t).get u).natAbs,1⟩ ::
      us.map fun v => ⟨v,false,((Parts.within r t).get v).natAbs,segmentWidth v⟩ := by
  rw [segments, h]

theorem counts_segments (r : UnitRange) (trim : Bool) (t : Int) :
    (segments r trim t).map (fun x => (x.unit,x.value)) =
      (shownUnits r trim (Parts.within r t)).map fun u => (u,((Parts.within r t).get u).natAbs) := by
  obtain ⟨u,us,h⟩ := exists_shownUnits r trim (Parts.within r t)
  rw [segments_eq h, h]
  simp

theorem short_counts (xs : List Segment) : (∀ x ∈ xs, isShort x.value = true) ↔
    ∀ y ∈ (xs.map fun x => (x.unit,x.value) : List (TimeUnit × Nat)), isShort y.2 = true := by
  simp

/-- What is left out can always be written. -/
theorem short_iff : (∀ x ∈ segments r trim t, isShort x.value = true) ↔
    ∀ u ∈ r.units, isShort ((Parts.within r t).get u).natAbs = true := by
  have hshown : (∀ x ∈ segments r trim t, isShort x.value = true) ↔
      ∀ u ∈ shownUnits r trim (Parts.within r t), isShort ((Parts.within r t).get u).natAbs = true := by
    rw [short_counts, counts_segments]
    simp
  rw [hshown]
  unfold shownUnits
  split
  · refine ⟨fun h u hu => ?_,fun h u hu => h u (List.dropWhile_suffix _ |>.subset hu)⟩
    rw [← List.takeWhile_append_dropWhile (p := isTrimmed r (Parts.within r t)) (l := r.units)] at hu
    obtain hu | hu := List.mem_append.mp hu
    · have htrimmed := List.all_eq_true.mp List.all_takeWhile u hu
      simp only [isTrimmed, decide_eq_true_eq] at htrimmed
      rw [htrimmed.1]
      decide +kernel
    · exact h u hu
  · rfl

theorem dropWhile_congr {α : Type} {f g : α → Bool} {xs : List α} (h : ∀ x ∈ xs, f x = g x) :
    xs.dropWhile f = xs.dropWhile g := by
  induction xs with
  | nil => rfl
  | cons x xs ih =>
    rw [List.dropWhile_cons, List.dropWhile_cons, h x List.mem_cons_self,
      ih fun y hy => h y (List.mem_cons_of_mem _ hy)]

theorem leading_iff {u v : TimeUnit} (h : v ≤ u) : u ≠ .s ∧ u ≠ v ↔ .s < u ∧ v < u := by
  revert h
  cases u <;> cases v <;> decide

theorem counts_trimmed (r : UnitRange) (t : Int) : (segments r true t).map (fun x => (x.unit,x.value)) =
    ((segments r false t).map fun x => (x.unit,x.value)).dropWhile
      fun x => x.2 = 0 ∧ .s < x.1 ∧ r.smallest < x.1 := by
  have hunits : ∀ u ∈ r.units, isTrimmed r (Parts.within r t) u =
      decide (((Parts.within r t).get u).natAbs = 0 ∧ .s < u ∧ r.smallest < u) := by
    intro u hu
    have hlow := (mem_units.mp hu).1
    rw [isTrimmed, decide_eq_decide, Int.natAbs_eq_zero]
    exact and_congr_right fun _ => leading_iff hlow
  rw [counts_segments, counts_segments, List.dropWhile_map, shownUnits, shownUnits, if_pos rfl,
    if_neg Bool.false_ne_true, dropWhile_congr hunits]
  rfl

theorem unitSum_filter (f : TimeUnit → Nat) {P : TimeUnit → Bool} {us : List TimeUnit}
    (h : ∀ u, P u = false → f u = 0) :
    unitSum ((us.filter P).map fun u => (u,f u)) = unitSum (us.map fun u => (u,f u)) := by
  induction us with
  | nil => rfl
  | cons u us ih =>
    rw [List.filter_cons]
    cases hu : P u with
    | true => simp [unitSum, ih]
    | false => simp [unitSum, ih, h u hu]

theorem unitSum_eq_zero {xs : List (TimeUnit × Nat)} (h : ∀ x ∈ xs, x.2 = 0) : unitSum xs = 0 := by
  induction xs with
  | nil => rfl
  | cons x xs ih =>
    rw [unitSum, h x List.mem_cons_self, ih fun y hy => h y (List.mem_cons_of_mem _ hy), Nat.zero_mul]

theorem unitSum_segments (r : UnitRange) (trim : Bool) (t : Int) :
    (unitSum ((segments r trim t).map fun x => (x.unit,x.value)) : Int) =
      if 0 ≤ t then r.smallest.roundUp t else r.smallest.roundDown (-t) := by
  obtain ⟨q,hfits,hget⟩ := Parts.fits_within r t
  obtain ⟨u,us,hshown⟩ := exists_shownUnits r trim (Parts.within r t)
  obtain ⟨hle,hunits,hlast,habove⟩ := shownUnits_eq hshown
  -- no time is left in units below the range, above it, or trimmed
  have hzero : ∀ v, decide (r.smallest ≤ v ∧ v ≤ u) = false → ((Parts.within r t).get v).natAbs = 0 := by
    intro v hv
    have hget := hget v
    obtain hv | hv := Decidable.not_and_iff_not_or_not.mp (of_decide_eq_false hv)
    · have hbelow := hfits.below v (Nat.lt_of_not_le hv)
      omega
    · by_cases hlarge : v ≤ r.largest
      · rw [habove v (Nat.lt_of_not_le hv) hlarge]
        rfl
      · have habove := hfits.above v (Nat.lt_of_not_le hlarge)
        omega
  rw [counts_segments, hshown, ← hunits, UnitRange.units, unitSum_filter _ hzero, ← hfits.total]
  have hd := hget .d
  have hh := hget .h
  have hm := hget .m
  have hs := hget .s
  have hms := hget .ms
  simp only [TimeUnit.all, List.reverse_cons, List.reverse_nil, List.nil_append, List.cons_append, List.map_cons,
    List.map_nil, unitSum, TimeUnit.size, Parts.total, Parts.get] at hd hh hm hs hms ⊢
  omega

theorem denoted_eq (r : UnitRange) (trim : Bool) (t : Int) : denoted (texts (segments r trim t)) =
    if 0 ≤ t then r.smallest.roundUp t else -r.smallest.roundDown (-t) := by
  have hsum := unitSum_segments r trim t
  obtain ⟨u,us,hshown⟩ := exists_shownUnits r trim (Parts.within r t)
  have hsign : (((texts (segments r trim t)).head?.bind fun x => x.2.toList.head?) = some '-') ↔ t < 0 := by
    rw [segments_eq hshown]
    simp only [texts, List.map_cons, List.head?_cons, Option.bind_some, head?_text, decide_eq_true_eq]
  simp only [denoted, hsign, shownCounts_texts, hsum]
  split <;> split <;> omega

theorem padded_of_mem_tail {x : TimeUnit × String} (h : x ∈ (texts (segments r trim t)).tail) :
    (∃ n, x.1.ratio = some n ∧ shownCount x.2 < n) ∧
      x.2.toList.length = (if x.1 = .ms then 3 else 2) ∧ ∀ c ∈ x.2.toList, isAsciiDigit c = true := by
  obtain ⟨q,hfits,hget⟩ := Parts.fits_within r t
  obtain ⟨u,us,hshown⟩ := exists_shownUnits r trim (Parts.within r t)
  obtain ⟨hle,hunits,hlast,-⟩ := shownUnits_eq hshown
  rw [segments_eq hshown, texts, List.map_cons, List.tail_cons, List.map_map] at h
  obtain ⟨v,hv,rfl⟩ := List.mem_map.mp h
  have hpairwise := pairwise_units ⟨r.smallest,u,hle⟩
  rw [hunits, List.pairwise_cons] at hpairwise
  have hvu : v < u := hpairwise.1 v hv
  obtain ⟨n,hratio,hn⟩ := TimeUnit.ratio_of_lt hvu
  have hsmall := hfits.small v (Nat.lt_of_lt_of_le hvu hlast)
  have hlt : ((Parts.within r t).get v).natAbs < n := by
    have hget := hget v
    omega
  have hdigits : n ≤ Nat.pow 10 (segmentWidth v) := by
    revert hratio
    cases v <;> rintro ⟨⟩ <;> decide
  have hwidth : segmentWidth v = if v = .ms then 3 else 2 := by
    cases v <;> rfl
  simp only [Function.comp_apply, shownCount_text, toList_text, Bool.false_eq_true, if_false, List.nil_append]
  refine ⟨⟨n,hratio,hlt⟩,?_,fun c hc => isAsciiDigit_of_mem_padded hc⟩
  rw [← hwidth]
  exact length_padded (by cases v <;> decide) (Nat.lt_of_lt_of_le hlt hdigits)

theorem between_ends (a b : TimeUnit) :
    ((UnitRange.between a b).smallest = a ∧ (UnitRange.between a b).largest = b) ∨
      ((UnitRange.between a b).smallest = b ∧ (UnitRange.between a b).largest = a) := by
  unfold UnitRange.between
  split
  · exact Or.inl ⟨rfl,rfl⟩
  · exact Or.inr ⟨rfl,rfl⟩

theorem clockStrings_eq (h : ∀ x ∈ segments r trim t, isShort x.value = true) :
    clockStrings r trim t = .ok (texts (segments r trim t)).reverse := by
  rw [clockStrings, written_eq_ok.mpr ⟨rfl,h⟩]
  simp [Except.map, texts]

/-- What a clock shows for two units, given in either order: a time rounded up to the smaller unit, or
what is left of a negative time when it is cut to that unit, in texts for all units from one down to
the smaller of the two. Only leading zeros are trimmed, and the texts are those of the clock. -/
theorem clock_denotes (a b : TimeUnit) (trim : Bool) (separator : String) (t : Int)
    (hshort : ∀ x ∈ segments (UnitRange.between a b) trim t, isShort x.value = true) :
    let r := UnitRange.between a b
    ∃ strings untrimmed, clockStrings r trim t = .ok strings ∧ clockStrings r false t = .ok untrimmed ∧
    clock r trim separator t = .ok (joined separator strings.reverse) ∧
    let shown := strings.reverse
    ((r.smallest = a ∧ r.largest = b) ∨ (r.smallest = b ∧ r.largest = a)) ∧
    (0 ≤ t → denoted shown = r.smallest.roundUp t) ∧
    (t < 0 → denoted shown = -r.smallest.roundDown (-t)) ∧
    (0 < t → ∃ x ∈ shown, shownCount x.2 ≠ 0) ∧
    (∃ first, ∃ h : r.smallest ≤ first, first ≤ r.largest ∧
      shown.map Prod.fst = (⟨r.smallest,first,h⟩ : UnitRange).units) ∧
    (∀ x ∈ shown.head?, x.2.toList = (if t < 0 then ['-'] else []) ++ digitsOf (shownCount x.2)) ∧
    (∀ x ∈ shown.tail, (∃ n, x.1.ratio = some n ∧ shownCount x.2 < n) ∧
      x.2.toList.length = (if x.1 = .ms then 3 else 2) ∧ ∀ c ∈ x.2.toList, isAsciiDigit c = true) ∧
    untrimmed.reverse.map Prod.fst = r.units ∧
    (trim = true → shownCounts shown =
      (shownCounts untrimmed.reverse).dropWhile fun x => x.2 = 0 ∧ .s < x.1 ∧ r.smallest < x.1) := by
  intro r
  refine ⟨_,_,clockStrings_eq hshort,clockStrings_eq (short_iff.mpr (short_iff.mp hshort)),?_,?_⟩
  · rw [clock, written_eq_ok.mpr ⟨rfl,hshort⟩, List.reverse_reverse]
    exact congrArg Except.ok (clockText_eq_joined separator _)
  intro shown
  have hshown : shown = texts (segments r trim t) := List.reverse_reverse _
  have hdenoted := denoted_eq r trim t
  have hsum := unitSum_segments r trim t
  obtain ⟨u,us,hunits⟩ := exists_shownUnits r trim (Parts.within r t)
  obtain ⟨hle,hrange,hlast,-⟩ := shownUnits_eq hunits
  rw [List.reverse_reverse, hshown]
  refine ⟨between_ends a b,fun ht => ?_,fun ht => ?_,fun ht => ?_,⟨u,hle,hlast,?_⟩,fun x hx => ?_,
    fun x hx => padded_of_mem_tail hx,?_,fun htrim => ?_⟩
  · rwa [if_pos ht] at hdenoted
  · rwa [if_neg (Int.not_le.mpr ht)] at hdenoted
  · refine Classical.byContradiction fun hnone => ?_
    have hzero : ∀ x ∈ shownCounts (texts (segments r trim t)), x.2 = 0 := by
      intro x hx
      obtain ⟨y,hy,rfl⟩ := List.mem_map.mp hx
      exact Decidable.byContradiction fun hne => hnone ⟨y,hy,hne⟩
    have hpos := TimeUnit.roundUp_pos ht r.smallest
    rw [if_pos (Int.le_of_lt ht), ← shownCounts_texts, unitSum_eq_zero hzero] at hsum
    omega
  · rw [segments_eq hunits, hrange]
    simp [texts, Function.comp_def]
  · rw [segments_eq hunits] at hx
    obtain rfl := Option.some.inj hx
    simp [toList_text, padded_one]
  · have hcounts := congrArg (List.map Prod.fst) (counts_segments r false t)
    simpa [texts, Function.comp_def, shownUnits] using hcounts
  · rw [shownCounts_texts, shownCounts_texts, htrim]
    exact counts_trimmed r t

/-- Nearly one minute is shown as one. -/
theorem clock_denotes_minute :
    (∀ x ∈ segments (UnitRange.between .m .s) true 59999, isShort x.value = true) ∧
    ∃ strings, clockStrings (UnitRange.between .m .s) true 59999 = .ok strings ∧
      clock (UnitRange.between .m .s) true ":" 59999 = .ok (joined ":" strings.reverse) ∧
      denoted strings.reverse = 60000 := by
  have hshort : ∀ x ∈ segments (UnitRange.between .m .s) true 59999, isShort x.value = true := by decide +kernel
  obtain ⟨strings,-,hstrings,-,hclock,-,hdenoted,-⟩ := clock_denotes .m .s true ":" 59999 hshort
  exact ⟨hshort,strings,hstrings,hclock,hdenoted (by decide)⟩

/-- A time of so many milliseconds that their number cannot be written. -/
theorem clock_too_long :
    let t : Int := Nat.pow 10 maxDigits
    clock (UnitRange.between .ms .ms) false ":" t = .error ⟨⟩ ∧
      clockStrings (UnitRange.between .ms .ms) false t = .error ⟨⟩ := by
  decide +kernel

end Duration
end Countdown
