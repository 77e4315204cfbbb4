import Countdown.Proofs.Calendar.EndLabel
import Countdown.Proofs.Calendar.Occurrence
set_option autoImplicit false

/-!
The end that is shown for a time of day that was asked for. The milliseconds to it are rounded down, so
that the end that they lead to may be part of a millisecond early. It then shows the minute before if the
time that was asked for is on a full minute.
-/

namespace Countdown

namespace Text

theorem digitValue?_digitChar : ∀ n < 10, digitValue? (Nat.digitChar n) = some n := by decide

def Digit.ofNat (n : Nat) (h : n < 10) : Digit := ⟨Nat.digitChar n,n,digitValue?_digitChar n h⟩

theorem digitsOf_of_lt_ten {n : Nat} (h : n < 10) : digitsOf n = [Nat.digitChar n] := Nat.toDigits_of_lt_base h

theorem digitsOf_of_lt_hundred {n : Nat} (hlow : 10 ≤ n) (hhigh : n < 100) :
    digitsOf n = [Nat.digitChar (n / 10),Nat.digitChar (n % 10)] := by
  rw [digitsOf, Nat.toDigits_of_base_le (by decide) hlow, Nat.toDigits_of_lt_base (by omega)]
  rfl

end Text

namespace Calendar
open TimeOfDay

namespace TimeOfDay

def HourNumber.ofNat (n : Nat) (h : n < 100) : HourNumber where
  tens := if n < 10 then none else some (.ofNat (n / 10) (by omega))
  ones := .ofNat (n % 10) (Nat.mod_lt _ (by decide))

theorem HourNumber.chars_ofNat {n : Nat} (h : n < 100) : (HourNumber.ofNat n h).chars = Text.digitsOf n := by
  by_cases hsmall : n < 10
  · simp [chars, ofNat, hsmall, Text.digitsOf_of_lt_ten, Text.Digit.ofNat, Nat.mod_eq_of_lt]
  · simp [chars, ofNat, hsmall, Text.digitsOf_of_lt_hundred (Nat.le_of_not_lt hsmall) h, Text.Digit.ofNat]

theorem HourNumber.value_ofNat {n : Nat} (h : n < 100) : (HourNumber.ofNat n h).value = n := by
  by_cases hsmall : n < 10
  · simp [value, ofNat, hsmall, Text.Digit.ofNat, Nat.mod_eq_of_lt]
  · simp [value, ofNat, hsmall, Text.Digit.ofNat, Nat.div_add_mod]

def PairNumber.ofNat (n : Nat) (h : n < 100) : PairNumber where
  tens := .ofNat (n / 10) (by omega)
  ones := .ofNat (n % 10) (Nat.mod_lt _ (by decide))

theorem PairNumber.chars_ofNat {n : Nat} (h : n < 100) : (PairNumber.ofNat n h).chars = Text.padded 2 n := by
  by_cases hsmall : n < 10
  · simp [chars, ofNat, Text.padded, Text.digitsOf_of_lt_ten hsmall, Text.Digit.ofNat, Nat.mod_eq_of_lt hsmall,
      Nat.div_eq_of_lt hsmall]
  · simp [chars, ofNat, Text.padded, Text.digitsOf_of_lt_hundred (Nat.le_of_not_lt hsmall) h, Text.Digit.ofNat]

theorem PairNumber.value_ofNat {n : Nat} (h : n < 100) : (PairNumber.ofNat n h).value = n := Nat.div_add_mod n 10

theorem HourNumber.head_chars (n : HourNumber) : ∃ d : Text.Digit, n.chars.head? = some d.char := by
  obtain ⟨tens,ones⟩ := n
  cases tens with
  | none => exact ⟨ones,rfl⟩
  | some tens => exact ⟨tens,rfl⟩

theorem HalfDay.last_not_blank (x : HalfDay) : ∃ c, x.chars.getLast? = some c ∧ Text.isBlank c = false := by
  obtain ⟨letter,-,point,last,hlast,lastPoint⟩ := x
  cases lastPoint with
  | true => exact ⟨'.',by simp [chars, pointChars, List.getLast?_cons],by decide⟩
  | false =>
    refine ⟨last,by simp [chars, pointChars, List.getLast?_cons],?_⟩
    simp only [List.mem_cons, List.not_mem_nil, or_false] at hlast
    obtain rfl | rfl := hlast <;> decide

theorem Spelling.trim_chars (w : Spelling) : Text.trim w.chars = w.chars := by
  obtain ⟨d,hfirst⟩ := w.hour.head_chars
  obtain ⟨e,hlast,he⟩ := w.half.last_not_blank
  refine Text.trim_eq_self (fun c hc => ?_) fun c hc => ?_
  · rw [chars, List.head?_append, hfirst] at hc
    obtain rfl := Option.some.inj hc
    exact d.not_blank
  · simp only [chars, List.getLast?_append, hlast] at hc
    obtain rfl := Option.some.inj hc
    exact he

theorem ofText_ofList (w : Spelling) : ofText (String.ofList w.chars) = .ok w.time :=
  ofText_chars (by rw [String.toList_ofList, w.trim_chars])

theorem dialHour_bounds (h : Nat) : 1 ≤ dialHour h ∧ dialHour h ≤ 12 := by
  unfold dialHour
  split <;> omega

theorem hourOf_dialHour {h : Nat} (hh : h < 24) : hourOf (dialHour h) (decide (12 ≤ h)) = h := by
  have hmod : dialHour h % 12 = h % 12 := by
    unfold dialHour
    split <;> omega
  rw [hourOf, hmod]
  split
  · rename_i hlate
    have hlate := of_decide_eq_true hlate
    omega
  · rename_i hearly
    have hearly := mt decide_eq_true hearly
    omega

def HalfDay.ofHour (h : Nat) : HalfDay where
  letter := if h < 12 then 'a' else 'p'
  isLetter := by split <;> decide
  point := false
  last := 'm'
  isLast := by decide
  lastPoint := false

theorem HalfDay.afternoon_ofHour (h : Nat) : (HalfDay.ofHour h).afternoon = decide (12 ≤ h) := by
  by_cases hearly : h < 12
  · simp [afternoon, ofHour, hearly]
  · simp [afternoon, ofHour, hearly, Nat.le_of_not_lt hearly]

theorem exists_spelling {h m : Nat} (hh : h < 24) (hm : m < 60) :
    ∃ w : Spelling, w.chars = clockTime .hours12 h m ∧ w.time = ⟨h,m,0⟩ := by
  have hdial := dialHour_bounds h
  have hhour : dialHour h < 100 := by omega
  have hminute : m < 100 := by omega
  let w : Spelling := {
    hour := .ofNat (dialHour h) hhour
    behind := .minute (.ofNat m hminute)
    space := [' ']
    half := .ofHour h
    blank := List.forall_mem_singleton.mpr (by decide)
    hour_bounds := by rwa [HourNumber.value_ofNat]
    minute_le := by
      rw [Behind.minuteValue, PairNumber.value_ofNat]
      exact Nat.le_of_lt_succ hm
    second_le := Nat.zero_le 59 }
  refine ⟨w,?_,?_⟩
  · simp only [Spelling.chars, Behind.chars, w, HourNumber.chars_ofNat, PairNumber.chars_ofNat, clockTime]
    by_cases hearly : h < 12 <;> simp [HalfDay.chars, HalfDay.ofHour, HalfDay.pointChars, hearly]
  · simp only [Spelling.time, w, HourNumber.value_ofNat, HalfDay.afternoon_ofHour, ← hourOf_eq hdial,
      hourOf_dialHour hh, Behind.minuteValue, PairNumber.value_ofNat, Behind.secondValue]

theorem ofText_clockTime {h m : Nat} (hh : h < 24) (hm : m < 60) :
    ofText (String.ofList (clockTime .hours12 h m)) = .ok ⟨h,m,0⟩ := by
  obtain ⟨w,hchars,htime⟩ := exists_spelling hh hm
  rw [← hchars, ofText_ofList, htime]

theorem proper_of_ofText {text : String} {x : TimeOfDay} (h : ofText text = .ok x) : x.Proper := by
  unfold ofText at h
  split at h
  · contradiction
  · rename_i y hread
    obtain ⟨w,-,rfl⟩ := exists_of_read? hread
    obtain rfl := Except.ok.inj h
    exact w.proper

def minutes (x : TimeOfDay) : Nat := 60 * x.hour + x.minute

end TimeOfDay

/-- The minute that is shown for a time of day: the one before if that is on a full minute and now is not on
a full millisecond. -/
def shownMinute (x : TimeOfDay) (now : DateTime) : Nat :=
  if x.second = 0 ∧ now.micros % microsPerMs ≠ 0 then (x.minutes + 1439) % 1440 else x.minutes

variable {x : TimeOfDay} {now e e' : DateTime} {h m : Nat}

theorem minute_of_later (hx : x.Proper) (hnext : IsNext x now e)
    (he' : e'.micros = now.micros + (e.micros - now.micros) / microsPerMs * microsPerMs) :
    e'.ofDay / (60 * microsPerSecond) = shownMinute x now := by
  obtain ⟨hhour,hminute,hsecond⟩ := hx
  have hnamed := hnext.named
  have hlater := hnext.later
  -- the difference is a multiple of a millisecond, and the time of day one of a second
  unfold shownMinute
  split
  all_goals
    simp only [DateTime.ofDay, TimeOfDay.micros, TimeOfDay.minutes, microsPerDay, microsPerMs, microsPerSecond] at *
    omega

def minuteText (k : Nat) : String := String.ofList (clockTime .hours12 (k / 60) (k % 60))

theorem timeText_eq (t : DateTime) : t.timeText .hours12 = minuteText (t.ofDay / (60 * microsPerSecond)) := by
  have hhour : t.hour = t.ofDay / (60 * microsPerSecond) / 60 := by rw [Nat.div_div_eq_div_mul]; rfl
  rw [DateTime.timeText, minuteText, hhour]
  rfl

theorem minuteText_minutes (hx : x.Proper) :
    minuteText x.minutes = String.ofList (clockTime .hours12 x.hour x.minute) := by
  have hminute := hx.minute
  have hhour : x.minutes / 60 = x.hour := by
    rw [TimeOfDay.minutes]
    omega
  have hrest : x.minutes % 60 = x.minute := by
    rw [TimeOfDay.minutes]
    omega
  rw [minuteText, hhour, hrest]

theorem daysBetween_le_one (hle : now.micros ≤ e.micros) (hday : e.micros ≤ now.micros + microsPerDay) :
    now.daysBetween e = 0 ∨ now.daysBetween e = 1 := by
  rw [DateTime.daysBetween]
  simp only [DateTime.day, microsPerDay] at hday ⊢
  omega

/-- The label of the end is the minute that is shown, today or tomorrow. -/
theorem label_of_isNext (hx : x.Proper) (hnext : IsNext x now e) :
    ∃ ms : Int, x.msFrom now = .ok ms ∧ ∃ day ∈ ["","tmr. "],
      (endLabel .hours12 now ms).text = day ++ minuteText (shownMinute x now) := by
  obtain ⟨ms,hms,hfloor,-⟩ := msFrom_of_isNext hx hnext
  have hlater := hnext.later
  have hmicros := (isNext_iff hx).mp hnext
  have hle := (microsUntil_spec hx now).2.1
  have hend : now.micros + ms * microsPerMs =
      (now.micros + (e.micros - now.micros) / microsPerMs * microsPerMs : Nat) := by
    rw [hfloor]
    simp only [microsPerMs]
    omega
  have hbound : now.micros + (e.micros - now.micros) / microsPerMs * microsPerMs ≤ e.micros := by
    simp only [microsPerMs]
    omega
  let e' : DateTime := ⟨_,Nat.lt_of_le_of_lt hbound e.representable⟩
  have hsoon : e'.micros ≤ now.micros + microsPerDay := Nat.le_trans hbound (by omega)
  have hlabel := text_endLabel .hours12 (DateTime.later?_eq_some (e := e').mpr hend.symm)
  rw [timeText_eq, minute_of_later hx hnext rfl] at hlabel
  refine ⟨ms,hms,dayText e' (now.daysBetween e'),?_,hlabel⟩
  obtain h | h := daysBetween_le_one (Nat.le_add_right _ _) hsoon <;> rw [h]
  · exact List.mem_cons_self
  · exact List.mem_cons_of_mem _ List.mem_cons_self

theorem minute_of_suffix {t : List Char} {k n : Nat} (hm : m < 100) (hn : n < 100)
    (hsuffix : clockTime .hours12 h m <:+ t ++ clockTime .hours12 k n) : m = n := by
  have htail : ∀ h m : Nat, ∃ half : List Char,
      half.length = 3 ∧ Text.padded 2 m ++ half <:+ clockTime .hours12 h m := by
    intro h m
    refine ⟨if h < 12 then [' ','a','m'] else [' ','p','m'],?_,Text.digitsOf (dialHour h) ++ [':'],?_⟩
    · split <;> rfl
    · simp only [clockTime, List.append_assoc, List.cons_append, List.nil_append]
  obtain ⟨half,hhalf,hasked⟩ := htail h m
  obtain ⟨half',hhalf',hshown⟩ := htail k n
  have hwidth : (Text.padded 2 m).length = (Text.padded 2 n).length := by
    rw [Text.length_padded (by decide) hm, Text.length_padded (by decide) hn]
  have hlength : (Text.padded 2 m ++ half).length = (Text.padded 2 n ++ half').length := by
    rw [List.length_append, List.length_append, hwidth, hhalf, hhalf']
  have hends := List.suffix_of_suffix_length_le (hasked.trans hsuffix) (hshown.trans (List.suffix_append t _))
    (Nat.le_of_eq hlength)
  have hpadded := (List.append_inj (hends.eq_of_length hlength) hwidth).1
  rw [← Text.natOfAscii_padded 2 m, hpadded, Text.natOfAscii_padded]

theorem shownMinute_mod (hx : x.Proper) (h : shownMinute x now % 60 = x.minute) :
    x.second ≠ 0 ∨ now.micros % microsPerMs = 0 := by
  have hminute := hx.minute
  unfold shownMinute at h
  split at h
  · simp only [TimeOfDay.minutes] at h
    omega
  · omega

/-- What is shown of an end some milliseconds away from now, for the time of day that was asked for. -/
structure Shows (x : TimeOfDay) (now : DateTime) (ms : Int) : Prop where
  label : ∃ day ∈ ["","tmr. "], (endLabel .hours12 now ms).text = day ++ minuteText (shownMinute x now)
  asked : clockTime .hours12 x.hour x.minute <:+ (endLabel .hours12 now ms).text.toList ↔
    x.second ≠ 0 ∨ now.micros % microsPerMs = 0

theorem shows_of_label {ms : Int} (hx : x.Proper)
    (h : ∃ day ∈ ["","tmr. "], (endLabel .hours12 now ms).text = day ++ minuteText (shownMinute x now)) :
    Shows x now ms := by
  refine ⟨h,?_⟩
  obtain ⟨day,-,hlabel⟩ := h
  rw [hlabel, String.toList_append]
  constructor
  · intro hsuffix
    rw [minuteText, String.toList_ofList] at hsuffix
    have hminute := minute_of_suffix (by have := hx.minute; omega) (by omega) hsuffix
    exact shownMinute_mod hx hminute.symm
  · intro hasked
    rw [shownMinute, if_neg (by omega), minuteText_minutes hx, String.toList_ofList]
    exact List.suffix_append _ _

/-- The label of the end that is computed for a time of day shows that time, unless it is on a full minute and
now is not on a full millisecond: then it shows the minute before. What it should show is read as the hour and
minute that were asked for. -/
theorem end_of_asked (text : String) (now : DateTime) (x : TimeOfDay) (htomorrow : now.date.next.isValid = true)
    (h : TimeOfDay.ofText text = .ok x) :
    (∃ ms : Int, msUntil text now = .ok ms ∧ Shows x now ms) ∧
      TimeOfDay.ofText (String.ofList (clockTime .hours12 x.hour x.minute)) = .ok ⟨x.hour,x.minute,0⟩ := by
  have hx := proper_of_ofText h
  obtain ⟨e,hnext⟩ := exists_isNext hx htomorrow
  obtain ⟨ms,hms,hlabel⟩ := label_of_isNext hx hnext
  exact ⟨⟨ms,msUntil_eq_ok h hms,shows_of_label hx hlabel⟩,ofText_clockTime hx.hour hx.minute⟩

def pastNoon : DateTime := ⟨63813268800000500,by decide⟩

/-- With half a minute to spare the end is on the minute that was asked for. -/
theorem end_of_asked_half_minute :
    pastNoon.date.next.isValid = true ∧ TimeOfDay.ofText "3:12:30 a.m." = .ok ⟨3,12,30⟩ ∧
      ∃ ms : Int, msUntil "3:12:30 a.m." pastNoon = .ok ms ∧
        clockTime .hours12 3 12 <:+ (endLabel .hours12 pastNoon ms).text.toList := by
  have hvalid : pastNoon.date.next.isValid = true := by decide
  have hread : TimeOfDay.ofText "3:12:30 a.m." = .ok ⟨3,12,30⟩ := by rfl
  obtain ⟨⟨ms,hms,hshows⟩,-⟩ := end_of_asked "3:12:30 a.m." pastNoon ⟨3,12,30⟩ hvalid hread
  exact ⟨hvalid,hread,ms,hms,hshows.asked.mpr (.inl (by decide))⟩

/-- Half a millisecond past noon, three o'clock is shown as the minute before three. -/
theorem end_before_asked :
    pastNoon.date.next.isValid = true ∧ TimeOfDay.ofText "3pm" = .ok ⟨15,0,0⟩ ∧
      msUntil "3pm" pastNoon = .ok 10799999 ∧ (endLabel .hours12 pastNoon 10799999).text = "2:59 pm" ∧
      clockTime .hours12 15 0 = "3:00 pm".toList ∧ ¬"3:00 pm".toList <:+ "2:59 pm".toList :=
  ⟨by decide,by rfl,by rfl,by decide,by decide,by decide⟩

end Calendar
end Countdown
