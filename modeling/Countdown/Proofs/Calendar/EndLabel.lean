import Countdown.Calendar.EndTime
import Countdown.Proofs.Calendar.Date
import Countdown.Proofs.Text.Character
set_option autoImplicit false

namespace Countdown.Calendar
namespace DateTime

variable {now e : DateTime} {ms : Int}

def daysTo (now e : DateTime) : Int := e.day - now.day

theorem daysTo_neg (now e : DateTime) : e.daysTo now = -now.daysTo e := (Int.neg_sub _ _).symm

theorem daysBetween_eq (now e : DateTime) : now.daysBetween e = (now.daysTo e).natAbs := rfl

theorem later?_eq_some :
    now.later? ms = some e ↔ (e.micros : Int) = now.micros + ms * microsPerMs := by
  have hlt := e.representable
  simp only [later?, plus?, ofMicros?]
  split
  · rw [Option.some.injEq, DateTime.mk.injEq]
    omega
  · simp only [reduceCtorEq, false_iff]
    omega

theorem later?_eq_none : now.later? ms = none ↔
    ¬(0 ≤ now.micros + ms * microsPerMs ∧
      now.micros + ms * microsPerMs < (dayCount * microsPerDay : Nat)) := by
  simp only [later?, plus?, ofMicros?]
  split
  · simp only [reduceCtorEq, false_iff]
    omega
  · simp only [true_iff]
    omega

theorem daysTo_nonneg (h : (e.micros : Int) = now.micros + ms * microsPerMs) (hms : 0 ≤ ms) :
    0 ≤ now.daysTo e := by
  have hle : now.micros ≤ e.micros := by
    have := Int.mul_nonneg hms (show (0 : Int) ≤ microsPerMs by decide)
    omega
  have := Nat.div_le_div_right (c := microsPerDay) hle
  simp only [daysTo, day]
  omega

/-- The end's day is at least `a` and less than `b` days after now's. -/
def DaysAhead (a b : Nat) (now e : DateTime) : Prop :=
  ∃ k, a ≤ k ∧ k < b ∧ e.date = Date.next^[k] now.date

theorem date_eq_iterate (now e : DateTime) (k : Nat) : e.date = Date.next^[k] now.date ↔ now.daysTo e = k := by
  rw [date, date, ← Date.ofNumber_add, Date.ofNumber_injective.eq_iff, daysTo]
  omega

theorem daysAhead_iff (now e : DateTime) (a b : Nat) : DaysAhead a b now e ↔ a ≤ now.daysTo e ∧ now.daysTo e < b := by
  simp only [DaysAhead, date_eq_iterate]
  constructor
  · rintro ⟨k,ha,hb,hk⟩
    omega
  · intro ⟨ha,hb⟩
    exact ⟨(now.daysTo e).toNat,by omega,by omega,by omega⟩

end DateTime

def dayText (e : DateTime) : Nat → String
  | 0 => ""
  | 1 => "tmr. "
  | n => if n < 7 then weekdayName e.weekday ++ ". " else e.date.iso ++ " "

theorem text_endLabel (f : TimeFormat) {now e : DateTime} {ms : Int} (h : now.later? ms = some e) :
    (endLabel f now ms).text = dayText e (now.daysBetween e) ++ e.timeText f := by
  simp only [endLabel, h]
  match now.daysBetween e with
  | 0 => exact String.empty_append.symm
  | 1 => rfl
  | n + 2 =>
    simp only [dayText]
    split <;> rfl

theorem colon_mem_timeText (f : TimeFormat) (t : DateTime) : ':' ∈ (t.timeText f).toList := by
  cases f <;> simp [DateTime.timeText, clockTime]

theorem text_eq_farFuture (f : TimeFormat) (now : DateTime) (ms : Int) :
    (endLabel f now ms).text = "far future" ↔ now.later? ms = none := by
  cases h : now.later? ms with
  | none => simp [endLabel, h, EndLabel.text]
  | some e =>
    have hmem : ':' ∈ (endLabel f now ms).text.toList := by
      rw [text_endLabel f h, String.toList_append]
      exact List.mem_append_right _ (colon_mem_timeText f e)
    simp only [reduceCtorEq, iff_false]
    intro heq
    rw [heq] at hmem
    exact absurd hmem (by decide)

section Texts

theorem iso_append_ne (x : Date) {s : String} (h : s.toList.head?.any Text.isAsciiDigit = false) :
    x.iso ++ " " ≠ s := by
  obtain ⟨c,t,heq⟩ := List.exists_cons_of_ne_nil (Text.padded_ne_nil 4 x.year)
  have hdigit := Text.isAsciiDigit_of_mem_padded (heq ▸ List.mem_cons_self : c ∈ Text.padded 4 x.year)
  rintro rfl
  simp [Date.iso, heq, hdigit] at h

theorem weekdayName_text : ∀ d < 7, weekdayName d ++ ". " ≠ "" ∧ weekdayName d ++ ". " ≠ "tmr. " ∧
    (weekdayName d ++ ". ").toList.head?.any Text.isAsciiDigit = false := by
  decide

theorem weekdayName_inj : ∀ c < 7, ∀ d < 7, weekdayName c ++ ". " = weekdayName d ++ ". " → c = d := by
  decide

variable (e : DateTime) (n : Nat)

theorem weekday_lt : e.weekday < 7 := Nat.mod_lt _ (by decide)

theorem dayText_of_week (h : 2 ≤ n) (h' : n < 7) : dayText e n = weekdayName e.weekday ++ ". " := by
  match n, h with
  | n + 2, _ => exact if_pos h'

theorem dayText_of_late (h : 7 ≤ n) : dayText e n = e.date.iso ++ " " := by
  match n, h with
  | n + 2, h => exact if_neg (Nat.not_lt_of_le h)

theorem dayText_cases : n = 0 ∧ dayText e n = "" ∨ n = 1 ∧ dayText e n = "tmr. " ∨
    (2 ≤ n ∧ n < 7) ∧ dayText e n = weekdayName e.weekday ++ ". " ∨
    7 ≤ n ∧ dayText e n = e.date.iso ++ " " := by
  obtain rfl | rfl | hweek | hlate : n = 0 ∨ n = 1 ∨ (2 ≤ n ∧ n < 7) ∨ 7 ≤ n := by omega
  · exact .inl ⟨rfl,rfl⟩
  · exact .inr (.inl ⟨rfl,rfl⟩)
  · exact .inr (.inr (.inl ⟨hweek,dayText_of_week e n hweek.1 hweek.2⟩))
  · exact .inr (.inr (.inr ⟨hlate,dayText_of_late e n hlate⟩))

theorem dayText_eq_today : dayText e n = "" ↔ n = 0 := by
  obtain ⟨rfl,h⟩ | ⟨rfl,h⟩ | ⟨hn,h⟩ | ⟨hn,h⟩ := dayText_cases e n
  · simp [h]
  · simp [h]
  · simp only [h, (weekdayName_text _ (weekday_lt e)).1, false_iff]
    omega
  · simp only [h, iso_append_ne e.date (s := "") rfl, false_iff]
    omega

theorem dayText_eq_tomorrow : dayText e n = "tmr. " ↔ n = 1 := by
  obtain ⟨rfl,h⟩ | ⟨rfl,h⟩ | ⟨hn,h⟩ | ⟨hn,h⟩ := dayText_cases e n
  · simp [h]
  · simp [h]
  · simp only [h, (weekdayName_text _ (weekday_lt e)).2.1, false_iff]
    omega
  · simp only [h, iso_append_ne e.date (s := "tmr. ") rfl, false_iff]
    omega

theorem dayText_eq_weekday {d : Nat} (hd : d < 7) :
    dayText e n = weekdayName d ++ ". " ↔ (2 ≤ n ∧ n < 7) ∧ d = e.weekday := by
  obtain ⟨hempty,htomorrow,hdigit⟩ := weekdayName_text d hd
  obtain ⟨hn,h⟩ | ⟨hn,h⟩ | ⟨hn,h⟩ | ⟨hn,h⟩ := dayText_cases e n
  · simp only [h, hempty.symm, false_iff]
    omega
  · simp only [h, htomorrow.symm, false_iff]
    omega
  · rw [h]
    exact ⟨fun heq => ⟨hn,weekdayName_inj _ hd _ (weekday_lt e) heq.symm⟩,fun heq => by rw [heq.2]⟩
  · simp only [h, iso_append_ne e.date hdigit, false_iff]
    omega

theorem dayText_eq_date : dayText e n = e.date.iso ++ " " ↔ 7 ≤ n := by
  obtain ⟨hn,h⟩ | ⟨hn,h⟩ | ⟨hn,h⟩ | ⟨hn,h⟩ := dayText_cases e n
  · simp only [h, (iso_append_ne e.date (s := "") rfl).symm, false_iff]
    omega
  · simp only [h, (iso_append_ne e.date (s := "tmr. ") rfl).symm, false_iff]
    omega
  · simp only [h, (iso_append_ne e.date (weekdayName_text _ (weekday_lt e)).2.2).symm, false_iff]
    omega
  · simp [h, hn]

end Texts

/-- A label tells the day of an end: the time alone for today, and names for the next six days only. -/
structure NamesDay (now e : DateTime) (time label : String) : Prop where
  today : label = time ↔ e.date = now.date
  tomorrow : label = "tmr. " ++ time ↔ e.date = now.date.next
  weekday (d : Nat) (name : d < 7) :
    label = weekdayName d ++ ". " ++ time ↔ DateTime.DaysAhead 2 7 now e ∧ d = e.weekday
  date : label = e.date.iso ++ " " ++ time ↔ ¬DateTime.DaysAhead 0 7 now e

theorem namesDay_dayText {now e : DateTime} {time : String} {n : Nat} :
    NamesDay now e time (dayText e n ++ time) ↔
      (n = 0 ↔ now.daysTo e = 0) ∧ (n = 1 ↔ now.daysTo e = 1) ∧
      (2 ≤ n ∧ n < 7 ↔ 2 ≤ now.daysTo e ∧ now.daysTo e < 7) ∧
      (7 ≤ n ↔ ¬(0 ≤ now.daysTo e ∧ now.daysTo e < 7)) := by
  have happend : ∀ s : String, dayText e n ++ time = s ++ time ↔ dayText e n = s := by
    intro s
    rw [← String.toList_inj, String.toList_append, String.toList_append, List.append_left_inj,
      String.toList_inj]
  have htoday : dayText e n ++ time = time ↔ n = 0 := by
    rw [← dayText_eq_today e n, ← happend, String.empty_append]
  have hnow := DateTime.date_eq_iterate now e 0
  have hnext := DateTime.date_eq_iterate now e 1
  have hweek := DateTime.daysAhead_iff now e 2 7
  have hsoon := DateTime.daysAhead_iff now e 0 7
  constructor
  · rintro ⟨h0,h1,h2,h3⟩
    have h2 := h2 _ (weekday_lt e)
    rw [happend, dayText_eq_weekday e n (weekday_lt e), hweek] at h2
    rw [happend, dayText_eq_date, hsoon] at h3
    rw [happend, dayText_eq_tomorrow] at h1
    exact ⟨htoday.symm.trans (h0.trans hnow),h1.trans hnext,by simpa using h2,h3⟩
  · rintro ⟨h0,h1,h2,h3⟩
    refine ⟨htoday.trans (h0.trans hnow.symm),?_,fun d hd => ?_,?_⟩
    · rw [happend, dayText_eq_tomorrow, h1]
      exact hnext.symm
    · rw [happend, dayText_eq_weekday e n hd, hweek, h2]
      rfl
    · rw [happend, dayText_eq_date, hsoon, h3]
      rfl

theorem namesDay_iff (now e : DateTime) (time : String) :
    NamesDay now e time (dayText e (now.daysBetween e) ++ time) ↔ ¬e.DaysAhead 1 7 now := by
  rw [namesDay_dayText, DateTime.daysAhead_iff, DateTime.daysBetween_eq, DateTime.daysTo_neg now e]
  omega

/-- The label of an end is right, except that an end on one of the six days before today is named as one
that is as many days ahead. -/
theorem label_names_day (f : TimeFormat) (now : DateTime) (ms : Int) :
    ((endLabel f now ms).text = "far future" ↔
      ¬(0 ≤ now.micros + ms * microsPerMs ∧
        now.micros + ms * microsPerMs < (dayCount * microsPerDay : Nat))) ∧
    ∀ e : DateTime, (e.micros : Int) = now.micros + ms * microsPerMs →
      (NamesDay now e (e.timeText f) (endLabel f now ms).text ↔ ¬e.DaysAhead 1 7 now) ∧
      (0 ≤ ms → ¬e.DaysAhead 1 7 now) ∧
      ∀ k, now.date = Date.next^[k] e.date →
        (endLabel f now ms).text = dayText e k ++ e.timeText f := by
  refine ⟨(text_eq_farFuture f now ms).trans DateTime.later?_eq_none,fun e he => ?_⟩
  have htext := text_endLabel f (DateTime.later?_eq_some.mpr he)
  refine ⟨?_,?_,?_⟩
  · rw [htext]
    exact namesDay_iff now e _
  · intro hms
    have hnonneg := DateTime.daysTo_nonneg he hms
    rw [DateTime.daysAhead_iff, DateTime.daysTo_neg now e]
    omega
  · intro k hk
    rw [DateTime.date_eq_iterate, DateTime.daysTo_neg now e] at hk
    have hdays : now.daysBetween e = k := by
      rw [DateTime.daysBetween_eq]
      omega
    rw [htext, hdays]

def noon : DateTime := ⟨63813268800000000,by decide⟩

/-- The end of a timer that runs from noon on a Wednesday to Saturday. -/
theorem label_names_day_saturday :
    let e : DateTime := ⟨63813530700000000,by decide⟩
    NamesDay noon e "12:45 pm" (endLabel .hours12 noon 261900000).text ∧
      (endLabel .hours12 noon 261900000).text = "Sat. 12:45 pm" ∧ e.date = ⟨2023,3,4⟩ := by
  intro e
  obtain ⟨-,hlabel⟩ := label_names_day .hours12 noon 261900000
  obtain ⟨hnames,hahead,-⟩ := hlabel e (by decide)
  have htime : e.timeText .hours12 = "12:45 pm" := by decide
  rw [htime] at hnames
  exact ⟨hnames.mpr (hahead (by decide)),by decide,by decide⟩

/-- The label of an end on the day before says that it is on the day after. -/
theorem label_of_yesterday :
    let e : DateTime := ⟨63813182400000000,by decide⟩
    (e.micros : Int) = noon.micros + -msPerDay * microsPerMs ∧
      e.date = ⟨2023,2,28⟩ ∧ noon.date = ⟨2023,3,1⟩ ∧
      (endLabel .hours12 noon (-msPerDay)).text = "tmr. 12:00 pm" ∧
      ¬NamesDay noon e (e.timeText .hours12) (endLabel .hours12 noon (-msPerDay)).text := by
  intro e
  refine ⟨by decide,by decide,by decide,by decide,fun hnames => ?_⟩
  have hnext : e.date = noon.date.next := hnames.tomorrow.mp (by decide)
  exact absurd hnext (by decide)

end Countdown.Calendar
