import Mathlib.Data.Rat.Floor
import Countdown.Proofs.Duration.Display
import Countdown.Proofs.Result
import Countdown.Web.Status
set_option autoImplicit false

/-!
What the status of a timer shows of the time left: a whole number of smallest units, rounded up, and
nothing else. An overdue time of which no whole unit is left is shown as no time at all, without a sign.
-/

namespace Countdown

open Text

namespace TimeUnit

/-- How many units a time is shown as: rounded up, and of an overdue time those that are whole. -/
def count (u : TimeUnit) (t : Int) : Int :=
  if 0 ≤ t then ⌈(t / u.size : ℚ)⌉ else -⌊(t.natAbs / u.size : ℚ)⌋

variable {u : TimeUnit} {t : Int}

theorem count_eq (u : TimeUnit) (t : Int) : u.count t = -(-t / u.size) := by
  unfold count
  split
  · exact Rat.ceil_intCast_div_natCast t u.size
  · rename_i ht
    have hsize : (t.natAbs : Int) = -t := by omega
    rw [← hsize]
    exact congrArg Neg.neg (Rat.floor_intCast_div_natCast t.natAbs u.size)

theorem count_mul_size (u : TimeUnit) (t : Int) :
    u.count t * u.size = if 0 ≤ t then u.roundUp t else -u.roundDown (-t) := by
  rw [count_eq, roundUp, roundDown, Int.neg_mul]
  split <;> rfl

theorem count_nonneg (h : 0 ≤ t) : 0 ≤ u.count t := by
  have hsize := u.size_pos
  have hdiv : -t / u.size ≤ 0 := Int.ediv_nonpos_of_nonpos_of_neg (by omega) (by omega)
  rw [count_eq]
  omega

theorem count_nonpos (h : t < 0) : u.count t ≤ 0 := by
  have hdiv : 0 ≤ -t / u.size := Int.ediv_nonneg (by omega) (by omega)
  rw [count_eq]
  omega

theorem natAbs_count_le (t : Int) : (u.count t).natAbs ≤ t.natAbs := by
  have hdiv := Int.natAbs_ediv_le_natAbs (-t) u.size
  rwa [count_eq, Int.natAbs_neg, ← Int.natAbs_neg t]

theorem size_le {u v : TimeUnit} (h : u ≤ v) : u.size ≤ v.size := by
  revert h
  cases u <;> cases v <;> decide

end TimeUnit

namespace Duration

variable {r : UnitRange} {trim : Bool} {p q : Parts} {t t' n : Int} {smallest top u : TimeUnit}
  {us : List TimeUnit}

theorem shown_size (r : UnitRange) (t : Int) :
    (if 0 ≤ t then r.smallest.roundUp t else r.smallest.roundDown (-t)) =
      ((r.smallest.count t).natAbs * r.smallest.size : Nat) := by
  have hmul := r.smallest.count_mul_size t
  rw [Int.natCast_mul]
  split
  · rename_i ht
    rw [if_pos ht] at hmul
    rw [← hmul, Int.natAbs_of_nonneg (TimeUnit.count_nonneg ht)]
  · rename_i ht
    rw [if_neg ht] at hmul
    rw [Int.ofNat_natAbs_of_nonpos (TimeUnit.count_nonpos (Int.not_le.mp ht)), Int.neg_mul, hmul, Int.neg_neg]

theorem Parts.natAbs_get_within (h : r.smallest.count t = r.smallest.count t') (u : TimeUnit) :
    ((within r t).get u).natAbs = ((within r t').get u).natAbs := by
  obtain ⟨q,hq,hget⟩ := fits_within r t
  obtain ⟨q',hq',hget'⟩ := fits_within r t'
  rw [shown_size, h] at hq
  rw [shown_size] at hq'
  have hu := hget u
  rw [hq.unique hq', ← hget' u] at hu
  exact Int.ofNat.inj hu

theorem shownUnits_congr (h : ∀ u, p.get u = 0 ↔ q.get u = 0) : shownUnits r trim p = shownUnits r trim q := by
  have htrimmed : isTrimmed r p = isTrimmed r q := by
    funext u
    simp only [isTrimmed, h u]
  rw [shownUnits, shownUnits, htrimmed]

theorem unitSum_eq_zero_iff {xs : List (TimeUnit × Nat)} : unitSum xs = 0 ↔ ∀ x ∈ xs, x.2 = 0 := by
  refine ⟨fun h => ?_,unitSum_eq_zero⟩
  induction xs with
  | nil => exact fun x hx => absurd hx List.not_mem_nil
  | cons x xs ih =>
    obtain ⟨hfirst,hrest⟩ := Nat.add_eq_zero_iff.mp h
    obtain hx | hx := Nat.mul_eq_zero.mp hfirst
    · exact List.forall_mem_cons.mpr ⟨hx,ih hrest⟩
    · exact absurd hx (Nat.ne_of_gt x.1.size_pos)

theorem le_unitSum {xs : List (TimeUnit × Nat)} {x : TimeUnit × Nat} (h : x ∈ xs) :
    x.2 * x.1.size ≤ unitSum xs := by
  induction xs with
  | nil => contradiction
  | cons y ys ih =>
    obtain rfl | h := List.mem_cons.mp h
    · exact Nat.le_add_right _ _
    · exact Nat.le_trans (ih h) (Nat.le_add_left _ _)

theorem all_zero_iff (r : UnitRange) (trim : Bool) (t : Int) :
    (segments r trim t).all (·.value == 0) = true ↔ r.smallest.count t = 0 := by
  have hsum := unitSum_segments r trim t
  rw [shown_size, Int.natCast_inj] at hsum
  have hzero : (r.smallest.count t).natAbs * r.smallest.size = 0 ↔ r.smallest.count t = 0 := by
    rw [Nat.mul_eq_zero, Int.natAbs_eq_zero]
    exact or_iff_left (Nat.ne_of_gt r.smallest.size_pos)
  rw [← hzero, ← hsum, unitSum_eq_zero_iff]
  simp

end Duration

namespace Web

open Duration

variable {s : Settings} {t t' : Int} {v : View} {shown : List Segment}

/-- The segments that a status shows, if their numbers can be written. -/
def display (s : Settings) (t : Int) : List Segment := unsignedZero (segments s.unitRange s.autoTrim t)

/-- The first segment has the sign of the count. -/
theorem display_eq (s : Settings) (t : Int) : ∃ u us,
    shownUnits s.unitRange s.autoTrim (Parts.within s.unitRange t) = u :: us ∧
    display s t = ⟨u,s.unitRange.smallest.count t < 0,((Parts.within s.unitRange t).get u).natAbs,1⟩ ::
      us.map fun v => ⟨v,false,((Parts.within s.unitRange t).get v).natAbs,segmentWidth v⟩ := by
  obtain ⟨u,us,hshown⟩ := exists_shownUnits s.unitRange s.autoTrim (Parts.within s.unitRange t)
  have hzero := all_zero_iff s.unitRange s.autoTrim t
  refine ⟨u,us,hshown,?_⟩
  rw [display, segments_eq hshown, unsignedZero]
  rw [segments_eq hshown] at hzero
  split
  · rename_i hall
    rw [hzero.mp hall]
    rfl
  · rename_i hall
    have hne := mt hzero.mpr hall
    have hsign : t < 0 ↔ s.unitRange.smallest.count t < 0 := by
      constructor
      · intro ht
        exact lt_of_le_of_ne (TimeUnit.count_nonpos ht) hne
      · intro hcount
        refine Int.not_le.mp fun ht => ?_
        exact absurd (TimeUnit.count_nonneg (u := s.unitRange.smallest) ht) (Int.not_le.mpr hcount)
    rw [decide_eq_decide.mpr hsign]

theorem display_congr (h : s.unitRange.smallest.count t = s.unitRange.smallest.count t') :
    display s t = display s t' := by
  have hget := Parts.natAbs_get_within h
  have hunits : shownUnits s.unitRange s.autoTrim (Parts.within s.unitRange t) =
      shownUnits s.unitRange s.autoTrim (Parts.within s.unitRange t') := by
    refine shownUnits_congr fun u => ?_
    rw [← Int.natAbs_eq_zero, ← Int.natAbs_eq_zero, hget u]
  obtain ⟨u,us,hshown,hdisplay⟩ := display_eq s t
  obtain ⟨u',us',hshown',hdisplay'⟩ := display_eq s t'
  rw [← hunits, hshown] at hshown'
  cases hshown'
  simp only [hdisplay, hdisplay', h, hget]

/-- The texts of units, largest first, say a number of the smallest units of a range: adjacent units down
to the smallest add up to it, and they have a sign exactly if it is negative. -/
structure Reading (r : UnitRange) (n : Int) (shown : List (TimeUnit × String)) : Prop where
  nonempty : shown ≠ []
  units : ∃ first, ∃ h : r.smallest ≤ first, first ≤ r.largest ∧
    shown.map Prod.fst = (⟨r.smallest,first,h⟩ : UnitRange).units
  amount : denoted shown = n * r.smallest.size
  sign : (∃ x ∈ shown, '-' ∈ x.2.toList) ↔ n < 0

theorem counts_unsignedZero (xs : List Segment) :
    (unsignedZero xs).map (fun x => (x.unit,x.value)) = xs.map fun x => (x.unit,x.value) := by
  unfold unsignedZero
  split
  · rfl
  · split <;> rfl

theorem unitSum_display (s : Settings) (t : Int) :
    unitSum ((display s t).map fun x => (x.unit,x.value)) =
      (s.unitRange.smallest.count t).natAbs * s.unitRange.smallest.size := by
  have hsum := unitSum_segments s.unitRange s.autoTrim t
  rw [shown_size, Int.natCast_inj] at hsum
  rw [display, counts_unsignedZero, hsum]

theorem minus_mem_text (x : Segment) : '-' ∈ x.text.toList ↔ x.negative = true := by
  have hdigits : '-' ∉ padded x.width x.value := by
    intro hmem
    exact absurd (isAsciiDigit_of_mem_padded hmem) (by decide)
  rw [toList_text, List.mem_append, or_iff_left hdigits]
  cases x.negative <;> simp

theorem denoted_display (s : Settings) (t : Int) : denoted (texts (display s t)) =
    s.unitRange.smallest.count t * s.unitRange.smallest.size := by
  have hsign : ((texts (display s t)).head?.bind fun x => x.2.toList.head?) = some '-' ↔
      s.unitRange.smallest.count t < 0 := by
    obtain ⟨u,us,-,hdisplay⟩ := display_eq s t
    rw [hdisplay]
    simp [texts, head?_text]
  simp only [denoted, hsign, shownCounts_texts, unitSum_display, Int.natCast_mul]
  split
  · rename_i hneg
    rw [Int.ofNat_natAbs_of_nonpos (Int.le_of_lt hneg), Int.neg_mul, Int.neg_neg]
  · rename_i hneg
    rw [Int.natAbs_of_nonneg (Int.not_lt.mp hneg)]

theorem reading_display (s : Settings) (t : Int) :
    Reading s.unitRange (s.unitRange.smallest.count t) (texts (display s t)) := by
  obtain ⟨u,us,hshown,hdisplay⟩ := display_eq s t
  obtain ⟨hle,hunits,hlast,-⟩ := shownUnits_eq hshown
  refine ⟨?_,⟨u,hle,hlast,?_⟩,denoted_display s t,?_⟩
  · simp [texts, hdisplay]
  · simp [texts, hdisplay, hunits, Function.comp_def]
  · simp [texts, hdisplay, minus_mem_text]

theorem value_le_natAbs {x : Segment} (h : x ∈ display s t) : x.value ≤ t.natAbs := by
  have hle : s.unitRange.smallest ≤ x.unit := by
    obtain ⟨u,us,hshown,hdisplay⟩ := display_eq s t
    obtain ⟨hu,hunits,-,-⟩ := shownUnits_eq hshown
    have hmem : x.unit ∈ u :: us := by
      have hmap := List.mem_map_of_mem (f := Segment.unit) h
      simpa [hdisplay, Function.comp_def] using hmap
    rw [← hunits] at hmem
    exact (mem_units.mp hmem).1
  have hpart := le_unitSum (List.mem_map_of_mem (f := fun x : Segment => (x.unit,x.value)) h)
  rw [unitSum_display] at hpart
  calc x.value
    _ ≤ (s.unitRange.smallest.count t).natAbs := by
      refine Nat.le_of_mul_le_mul_right ?_ s.unitRange.smallest.size_pos
      exact Nat.le_trans (Nat.mul_le_mul_left _ (TimeUnit.size_le hle)) hpart
    _ ≤ t.natAbs := TimeUnit.natAbs_count_le t

theorem short_of_natAbs (h : t.natAbs < Nat.pow 10 Text.maxDigits) :
    ∀ x ∈ display s t, Text.isShort x.value = true :=
  fun _ hx => decide_eq_true (Nat.lt_of_le_of_lt (value_le_natAbs hx) h)

theorem short_display : (∀ x ∈ display s t, Text.isShort x.value = true) ↔
    ∀ x ∈ segments s.unitRange s.autoTrim t, Text.isShort x.value = true := by
  rw [short_counts, short_counts, display, counts_unsignedZero]

theorem displayed_eq_ok : displayed s v = .ok shown ↔
    display s v.remaining = shown ∧ ∀ x ∈ display s v.remaining, Text.isShort x.value = true := by
  rw [short_display]
  unfold displayed
  cases hwritten : written s.unitRange s.autoTrim v.remaining with
  | ok xs =>
    obtain ⟨rfl,hshort⟩ := written_eq_ok.mp hwritten
    simp only [Except.ok.injEq, display, and_iff_left hshort]
  | error e =>
    have hlong : ¬ ∀ x ∈ segments s.unitRange s.autoTrim v.remaining, Text.isShort x.value = true := by
      intro hshort
      rw [written_eq_ok.mpr ⟨rfl,hshort⟩] at hwritten
      contradiction
    simp [hlong]

theorem display_status {now : Except Calendar.OutOfRange Calendar.DateTime} {status : Json}
    (h : Web.status s now v = .ok status) (hshown : displayed s v = .ok shown) :
    status.get? "display" = some (.arr (shown.map Segment.json)) := by
  obtain ⟨xs,hxs,h⟩ := bind_eq_ok.mp h
  obtain ⟨ending,-,h⟩ := bind_eq_ok.mp h
  obtain rfl := Except.ok.inj (hshown.symm.trans hxs)
  obtain rfl := Except.ok.inj h
  simp [statusOf, Json.get?, Json.field?]

/-- The status of a timer shows the time left as a number of the smallest units, rounded up if the time is
not overdue and else cut. It does so unless a number in it has more than 4300 digits, and times that count
the same are shown the same. -/
theorem displayed_reading (s : Settings) (v : View)
    (hshort : ∀ x ∈ display s v.remaining, Text.isShort x.value = true) :
    ∃ shown, displayed s v = .ok shown ∧
      Reading s.unitRange (s.unitRange.smallest.count v.remaining) (texts shown) ∧
      (∀ now status, Web.status s now v = .ok status →
        status.get? "display" = some (.arr (shown.map Segment.json))) ∧
      ∀ w : View, s.unitRange.smallest.count w.remaining = s.unitRange.smallest.count v.remaining →
        displayed s w = .ok shown := by
  have hshown := displayed_eq_ok.mpr ⟨rfl,hshort⟩
  refine ⟨_,hshown,reading_display s v.remaining,fun now status hstatus => display_status hstatus hshown,
    fun w hw => ?_⟩
  have hsame := display_congr hw
  refine displayed_eq_ok.mpr ⟨hsame,?_⟩
  rwa [hsame]

/-- A timer that was paused when it was half a second late: no second is shown, and no sign. -/
theorem displayed_reading_overdue :
    let v : View := ⟨"t1","1s",1,none,.paused,1000,1500,-500,true,true,false,false,true⟩
    (∀ x ∈ display .defaults v.remaining, Text.isShort x.value = true) ∧
      TimeUnit.s.count (-500) = 0 ∧
      displayed .defaults v = .ok [⟨.s,false,0,1⟩] ∧ Reading Settings.defaults.unitRange 0 [(.s,"0")] := by
  intro v
  have hshort : ∀ x ∈ display .defaults v.remaining, Text.isShort x.value = true :=
    short_of_natAbs (by decide +kernel)
  have hcount : TimeUnit.s.count (-500) = 0 := by rw [TimeUnit.count_eq]; rfl
  obtain ⟨shown,hshown,hreading,-⟩ := displayed_reading .defaults v hshort
  have hdisplay : displayed .defaults v = .ok [⟨.s,false,0,1⟩] := by decide +kernel
  obtain rfl := Except.ok.inj (hdisplay.symm.trans hshown)
  change Reading _ (TimeUnit.s.count (-500)) _ at hreading
  rw [hcount] at hreading
  exact ⟨hshort,hcount,hdisplay,hreading⟩

/-- A timer without a duration that is overdue by as many milliseconds as make a number of 4301 digits. -/
theorem displayed_too_long :
    let s : Settings := { Settings.defaults with unitRange := UnitRange.between .ms .ms }
    let t : Int := Nat.pow 10 Text.maxDigits
    let v : View := ⟨"t1","",0,none,.paused,0,t,-t,true,true,false,false,true⟩
    displayed s v = .error .unwritable := by
  decide +kernel

end Web
end Countdown
