import Countdown.Duration.Clock
import Countdown.Proofs.Duration.Parts
import Countdown.Proofs.Duration.Reading
set_option autoImplicit false

namespace Countdown

open Number Text

namespace Duration

theorem addTerms_whole {x width n : Nat} {u : TimeUnit} {ts : List (Numeral × TimeUnit)}
    (h : x + n * u.size < Nat.pow 10 Decimal.precision) :
    addTerms ⟨x,0⟩ ((Numeral.ofParts width n none,u) :: ts) = addTerms ⟨(x + n * u.size : Nat),0⟩ ts := by
  have hless : n * u.size < Nat.pow 10 Decimal.precision := Nat.lt_of_le_of_lt (Nat.le_add_left _ _) h
  have hproduct := Decimal.bounded_natCast hless (Int.le_refl 0)
  have hsum := Decimal.bounded_natCast h (Int.le_refl 0)
  rw [addTerms_cons, Numeral.value_whole,
    addUnits_eq (Decimal.product_natCast hless) hproduct (Decimal.sum_whole h) hsum]
  rfl

theorem addTerms_last (x width n : Nat) {k : Option Nat} (hk : k.getD 0 < 1000)
    (h : (x + n * 1000 + k.getD 0) * 1000 < Nat.pow 10 Decimal.precision) :
    ∃ y, addTerms ⟨x,0⟩ [(Numeral.ofParts width n k,.s)] = some y ∧ y.toInt = (x + n * 1000 + k.getD 0 : Nat) := by
  cases k with
  | none =>
    simp only [Option.getD_none] at h
    rw [addTerms_whole (by simp only [TimeUnit.size]; omega)]
    exact ⟨_,rfl,Decimal.toInt_of_exponent_zero _⟩
  | some k =>
    simp only [Option.getD_some] at h hk ⊢
    have htotal : x * 1000 + (n * 1000 + k) * 1000 = (x + n * 1000 + k) * 1000 := by omega
    rw [← htotal] at h
    have hless : (n * 1000 + k) * 1000 < Nat.pow 10 Decimal.precision := Nat.lt_of_le_of_lt (by omega) h
    have hproduct := Decimal.bounded_natCast (e := -3) hless (by decide)
    have hsum := Decimal.bounded_natCast (e := -3) h (by decide)
    rw [addTerms_cons, Numeral.value_thousandths _ _ hk,
      addUnits_eq (u := .s) (Decimal.product_natCast hless) hproduct (Decimal.sum_thousandths h) hsum]
    refine ⟨_,rfl,?_⟩
    change Decimal.toInt ⟨(x * 1000 + (n * 1000 + k) * 1000 : Nat),-3⟩ = _
    rw [htotal]
    exact Decimal.toInt_thousandths _

variable {r : UnitRange} {trim : Bool} {p : Parts} {t : Int} {u : TimeUnit} {us : List TimeUnit}

theorem mem_units {v : TimeUnit} : v ∈ r.units ↔ r.smallest ≤ v ∧ v ≤ r.largest := by
  have hall : v ∈ TimeUnit.all.reverse := by cases v <;> decide
  rw [UnitRange.units, List.mem_filter, decide_eq_true_iff]
  exact and_iff_right hall

theorem pairwise_units (r : UnitRange) : r.units.Pairwise fun u v => v < u := by
  have hall : TimeUnit.all.reverse.Pairwise fun u v => v < u := by decide
  exact hall.filter _

theorem units_of_append {before : List TimeUnit} (h : r.units = before ++ u :: us) :
    ∃ hu, (⟨r.smallest,u,hu⟩ : UnitRange).units = u :: us ∧ u ≤ r.largest ∧
      ∀ v, u < v → v ≤ r.largest → v ∈ before := by
  have hu : u ∈ r.units := by simp [h]
  obtain ⟨hlow,hhigh⟩ := mem_units.mp hu
  have hpairwise := pairwise_units r
  rw [h, List.pairwise_append, List.pairwise_cons] at hpairwise
  obtain ⟨-,⟨hafter,-⟩,hbefore⟩ := hpairwise
  refine ⟨hlow,?_,hhigh,fun v huv hv => ?_⟩
  · have hfilter : (⟨r.smallest,u,hlow⟩ : UnitRange).units = r.units.filter fun v => v ≤ u := by
      simp only [UnitRange.units, List.filter_filter]
      refine List.filter_congr fun v _ => ?_
      rw [← Bool.decide_and, decide_eq_decide]
      exact ⟨fun h => ⟨h.2,h.1,Nat.le_trans h.2 hhigh⟩,fun h => ⟨h.2.1,h.1⟩⟩
    have hnone : before.filter (fun v => v ≤ u) = [] := by
      refine List.filter_eq_nil_iff.mpr fun v hv => ?_
      rw [decide_eq_true_iff]
      exact Nat.not_le.mpr (hbefore v hv u List.mem_cons_self)
    have hself : (u :: us).filter (fun v => v ≤ u) = u :: us := by
      refine List.filter_eq_self.mpr fun v hv => ?_
      rw [decide_eq_true_iff]
      obtain rfl | hv := List.mem_cons.mp hv
      · exact Nat.le_refl _
      · exact Nat.le_of_lt (hafter v hv)
    rw [hfilter, h, List.filter_append, hnone, hself, List.nil_append]
  · have hv : v ∈ before ++ u :: us := h ▸ mem_units.mpr ⟨Nat.le_trans hlow (Nat.le_of_lt huv),hv⟩
    obtain hv | hv := List.mem_append.mp hv
    · exact hv
    · obtain rfl | hv := List.mem_cons.mp hv
      · exact absurd huv (Nat.lt_irrefl _)
      · exact absurd huv (Nat.lt_asymm (hafter v hv))

/-- Units in front of the first one that is shown are zero. -/
theorem shownUnits_eq (h : shownUnits r trim p = u :: us) :
    ∃ hu, (⟨r.smallest,u,hu⟩ : UnitRange).units = u :: us ∧ u ≤ r.largest ∧
      ∀ v, u < v → v ≤ r.largest → p.get v = 0 := by
  unfold shownUnits at h
  split at h
  · have hsplit : r.units = r.units.takeWhile (isTrimmed r p) ++ u :: us := by
      rw [← h, List.takeWhile_append_dropWhile]
    obtain ⟨hu,hunits,hlast,hmem⟩ := units_of_append hsplit
    refine ⟨hu,hunits,hlast,fun v huv hv => ?_⟩
    have htrimmed : isTrimmed r p v = true := List.all_eq_true.mp List.all_takeWhile v (hmem v huv hv)
    simp only [isTrimmed, decide_eq_true_eq] at htrimmed
    exact htrimmed.1
  · have hsplit : r.units = [] ++ u :: us := h
    obtain ⟨hu,hunits,hlast,hmem⟩ := units_of_append hsplit
    exact ⟨hu,hunits,hlast,fun v huv hv => absurd (hmem v huv hv) List.not_mem_nil⟩

variable {c : Char}

theorem toList_clockText (separator : String) (x : Segment) (xs : List Segment) :
    (clockText separator (x :: xs)).toList =
      x.chars ++ xs.flatMap fun v => (joint separator v).toList ++ v.chars := by
  simp [clockText, Segment.text, List.flatMap_map]

/-- The numbers of a clock text that starts with a unit: the seconds and the milliseconds behind
their point are one of them. -/
def clockNumbers (d h m s : Nat) (thousandths : Option Nat) : (first : TimeUnit) → List (Option Numeral)
  | .d => [some (.ofParts 1 d none),some (.ofParts 2 h none),some (.ofParts 2 m none),
      some (.ofParts 2 s thousandths)]
  | .h => [some (.ofParts 1 h none),some (.ofParts 2 m none),some (.ofParts 2 s thousandths)]
  | _ => [some (.ofParts 1 m none),some (.ofParts 2 s thousandths)]

theorem length_clockNumbers (d h m s : Nat) (k : Option Nat) (u : TimeUnit) :
    2 ≤ (clockNumbers d h m s k u).length ∧ (clockNumbers d h m s k u).length ≤ maxSeparators + 1 := by
  cases u <;> simp [clockNumbers, maxSeparators]

def thousandths (smallest : TimeUnit) (ms : Nat) : Option Nat :=
  match smallest with
  | .ms => some ms
  | _ => none

theorem chars_clockNumbers {smallest : TimeUnit} {d h m s ms : Nat} (hr : smallest = .ms ∨ smallest = .s)
    (hu : .m ≤ u) {hle : smallest ≤ u} (hunits : (⟨smallest,u,hle⟩ : UnitRange).units = u :: us) :
    [c].intercalate ((clockNumbers d h m s (thousandths smallest ms) u).map charsOf) =
      (clockText (String.ofList [c]) (⟨u,false,((⟨d,h,m,s,ms⟩ : Parts).get u).natAbs,1⟩ ::
        us.map fun v => ⟨v,false,((⟨d,h,m,s,ms⟩ : Parts).get v).natAbs,segmentWidth v⟩)).toList := by
  have htail : us = (⟨smallest,u,hle⟩ : UnitRange).units.tail := by rw [hunits]; rfl
  rw [toList_clockText, htail]
  cases u with
  | ms => exact absurd hu (by decide)
  | s => exact absurd hu (by decide)
  | m | h | d =>
    obtain rfl | rfl := hr
    all_goals
      simp [clockNumbers, thousandths, List.intercalate, charsOf, Numeral.chars, Numeral.fractionChars,
        Numeral.ofParts, UnitRange.units, TimeUnit.all, TimeUnit.le_iff, TimeUnit.position, Parts.get,
        Segment.chars, joint, segmentWidth]

theorem total_clockNumbers {d h m s ms : Nat} {k : Option Nat} (hk : k.getD 0 < 1000) (hu : .m ≤ u)
    (hbound : d * 86400000 + h * 3600000 + m * 60000 + s * 1000 + k.getD 0 ≤ maxDuration)
    (habove : ∀ v, u < v → (⟨d,h,m,s,ms⟩ : Parts).get v = 0) :
    ∃ y, addTerms .zero (clockTerms (clockNumbers d h m s k u)) = some y ∧
      y.toInt = (d * 86400000 + h * 3600000 + m * 60000 + s * 1000 + k.getD 0 : Nat) := by
  have hmax : maxDuration = 864000000000 := by decide
  have hprecision : Nat.pow 10 Decimal.precision = 10000000000000000000000000000 := by decide
  have hd : u < .d → (d : Int) = 0 := habove .d
  have hh : u < .h → (h : Int) = 0 := habove .h
  rw [hmax] at hbound
  -- no sum on the way is larger than the last one, so that none is rounded
  cases u with
  | ms => exact absurd hu (by decide)
  | s => exact absurd hu (by decide)
  | m =>
    have hd := hd (by decide)
    have hh := hh (by decide)
    obtain ⟨y,hy,hint⟩ := addTerms_last (0 + m * 60000) 2 s hk (by rw [hprecision]; omega)
    refine ⟨y,?_,by rw [hint]; omega⟩
    change addTerms ⟨(0 : Nat),0⟩ [(_,.m),(_,.s)] = _
    rwa [addTerms_whole (by rw [hprecision]; simp only [TimeUnit.size]; omega)]
  | h =>
    have hd := hd (by decide)
    obtain ⟨y,hy,hint⟩ := addTerms_last (0 + h * 3600000 + m * 60000) 2 s hk (by rw [hprecision]; omega)
    refine ⟨y,?_,by rw [hint]; omega⟩
    change addTerms ⟨(0 : Nat),0⟩ [(_,.h),(_,.m),(_,.s)] = _
    rwa [addTerms_whole, addTerms_whole]
    all_goals rw [hprecision]; simp only [TimeUnit.size]; omega
  | d =>
    obtain ⟨y,hy,hint⟩ := addTerms_last (0 + d * 86400000 + h * 3600000 + m * 60000) 2 s hk
      (by rw [hprecision]; omega)
    refine ⟨y,?_,by rw [hint]; omega⟩
    change addTerms ⟨(0 : Nat),0⟩ [(_,.d),(_,.h),(_,.m),(_,.s)] = _
    rwa [addTerms_whole, addTerms_whole, addTerms_whole]
    all_goals rw [hprecision]; simp only [TimeUnit.size]; omega

theorem squeeze_clock (hc : isSeparator c = true) (ns : List (Option Numeral)) (several few) :
    squeeze ((Written.clock ns several few).chars c) = (Written.clock ns several few).chars c := by
  refine List.filter_eq_self.mpr fun e he => ?_
  rw [← Written.render_tokens] at he
  obtain ⟨t,ht,he⟩ := List.mem_flatMap.mp he
  obtain ⟨n,rfl⟩ | rfl := mem_clockTokens ht
  · rw [isBlank_of_isNumberChar (isNumberChar_of_mem_chars he)]
    rfl
  · rw [List.mem_singleton.mp he, isBlank_of_isSeparator hc]
    rfl

theorem written_eq_ok {shown : List Segment} : written r trim t = .ok shown ↔
    segments r trim t = shown ∧ ∀ x ∈ shown, isShort x.value = true := by
  unfold written
  dsimp only
  rw [← List.all_eq_true]
  split <;> grind

theorem value_of_mem_segments {x : Segment} (h : x ∈ segments r trim t) :
    x.value = ((Parts.within r t).get x.unit).natAbs := by
  unfold segments at h
  dsimp only at h
  split at h
  · contradiction
  · obtain rfl | h := List.mem_cons.mp h
    · rfl
    · obtain ⟨v,-,rfl⟩ := List.mem_map.mp h
      rfl

theorem isShort_of_le {n : Nat} (h : (n : Int) ≤ maxDuration) : isShort n = true := by
  have hmax : maxDuration < (Nat.pow 10 maxDigits : Nat) := by decide +kernel
  simp only [isShort, decide_eq_true_eq, Int.natAbs_natCast]
  omega

/-- The clock text of a time is a clock time that adds up to what the range makes of the time. -/
theorem exists_clock (ht : 0 ≤ t) (hmax : r.smallest.roundUp t ≤ maxDuration)
    (hr : r.smallest = .ms ∨ r.smallest = .s) (hshown : shownUnits r trim (Parts.within r t) = u :: us)
    (hu : .m ≤ u) : ∃ text ns several few x,
      clock r trim (String.ofList [c]) t = .ok text ∧
      (Written.clock ns several few).chars c = text.toList ∧
      (Written.clock ns several few).total = some x ∧ x.toInt = r.smallest.roundUp t := by
  have hparts := Parts.rounded_within r ht
  obtain ⟨d,h,m,s,ms,hp⟩ := hparts.nonneg.exists_nat
  obtain ⟨hle,hunits,hlast,habove⟩ := shownUnits_eq hshown
  obtain ⟨several,few⟩ := length_clockNumbers d h m s (thousandths r.smallest ms) u
  have hms : TimeUnit.ms < r.largest := Nat.lt_of_lt_of_le (by decide) (Nat.le_trans hu hlast)
  have htotal := hparts.total
  have hsmall := hparts.small .ms hms (TimeUnit.ne_of_lt hms)
  have hbelow := hparts.below .ms
  have hlarge := hparts.above
  have hvalue : ∀ x ∈ segments r trim t, x.value = ((Parts.within r t).get x.unit).natAbs :=
    fun x hx => value_of_mem_segments hx
  rw [hp] at habove htotal hsmall hbelow hlarge hvalue
  have hk : (thousandths r.smallest ms).getD 0 = ms := by
    obtain hr | hr := hr
    · rw [hr]
      rfl
    · rw [hr] at hbelow ⊢
      exact (Int.natCast_eq_zero.mp (hbelow (by decide))).symm
  have hratio : (ms : Int) < 1000 := hsmall
  have hsum : ((d * 86400000 + h * 3600000 + m * 60000 + s * 1000 + ms : Nat) : Int) = r.smallest.roundUp t := by
    rw [← htotal]
    simp [Parts.total]
  have hzero : ∀ v, u < v → (⟨d,h,m,s,ms⟩ : Parts).get v = 0 := by
    intro v huv
    by_cases hv : v ≤ r.largest
    · exact habove v huv hv
    · exact hlarge v (Nat.lt_of_not_le hv)
  have hshort : ∀ x ∈ segments r trim t, isShort x.value = true := by
    intro x hx
    refine isShort_of_le ?_
    rw [hvalue x hx]
    cases x.unit <;> simp only [Parts.get, Int.natAbs_natCast] <;> omega
  obtain ⟨y,hy,htoInt⟩ := total_clockNumbers (k := thousandths r.smallest ms) (by omega) hu (by omega) hzero
  refine ⟨clockText (String.ofList [c]) (segments r trim t),_,several,few,y,?_,?_,hy,?_⟩
  · rw [clock, written_eq_ok.mpr ⟨rfl,hshort⟩]
    rfl
  · rw [segments, hshown, hp, decide_eq_false (Int.not_lt.mpr ht)]
    exact chars_clockNumbers hr hu hunits
  · rw [htoInt, hk, hsum]

/-- A clock text that starts with minutes or a larger unit is read as the time that it shows, which
is rounded up to whole seconds if it shows no milliseconds. -/
theorem clock_reads_back (s : Settings) (r : UnitRange) (trim : Bool) {t : Int} (ht : 0 ≤ t)
    (hmax : t ≤ maxDuration) (hfirst : ∃ x, (segments r trim t).head? = some x ∧ .m ≤ x.unit) :
    (r.smallest = .ms →
      ∃ text, clock r trim s.separator t = .ok text ∧ read s.separator text.toList = .ok t) ∧
    (r.smallest = .s →
      ∃ text, clock r trim s.separator t = .ok text ∧ read s.separator text.toList = .ok (TimeUnit.s.roundUp t)) := by
  have hread : r.smallest = .ms ∨ r.smallest = .s → ∃ text, clock r trim s.separator t = .ok text ∧
      read s.separator text.toList = .ok (r.smallest.roundUp t) := by
    intro hr
    have hlimit : r.smallest.roundUp t ≤ maxDuration := by
      obtain hr | hr := hr
      · rw [hr, TimeUnit.roundUp_ms]
        exact hmax
      · have hwhole : maxDuration = 864000000000 := by decide
        rw [hr]
        simp only [TimeUnit.roundUp, TimeUnit.size]
        omega
    obtain ⟨x,hx,hunit⟩ := hfirst
    cases hshown : shownUnits r trim (Parts.within r t) with
    | nil => simp [segments, hshown] at hx
    | cons u us =>
      have hu : .m ≤ u := by
        simp only [segments, hshown, List.head?_cons, Option.some.injEq] at hx
        rw [← hx] at hunit
        exact hunit
      obtain ⟨text,ns,several,few,y,hclock,hchars,hy,htoInt⟩ :=
        exists_clock (c := s.separatorChar) ht hlimit hr hshown hu
      have htext := (squeeze_clock s.separator_valid ns several few).symm
      rw [hchars] at htext
      exact ⟨text,hclock,(read_eq_ok_iff s.separator_valid).mpr ⟨_,y,hchars.trans htext,hy,htoInt,hlimit⟩⟩
  constructor
  · intro hr
    have hms := hread (Or.inl hr)
    rwa [hr, TimeUnit.roundUp_ms] at hms
  · intro hr
    have hs := hread (Or.inr hr)
    rwa [hr] at hs

/-- What is left of a second is carried through the seconds and minutes into the hours, of which no
day is made. -/
theorem clock_reads_back_carried :
    clock ⟨.s,.h,by decide⟩ true Settings.defaults.separator 107999001 = .ok "30:00:00" ∧
    ∃ text, clock ⟨.s,.h,by decide⟩ true Settings.defaults.separator 107999001 = .ok text ∧
      read Settings.defaults.separator text.toList = .ok 108000000 :=
  ⟨toOption_eq_some.mp (by decide +kernel),(clock_reads_back Settings.defaults ⟨.s,.h,by decide⟩ true (by decide) (by decide)
    ⟨⟨.h,false,30,1⟩,by decide +kernel,by decide⟩).2 rfl⟩

end Duration
end Countdown
