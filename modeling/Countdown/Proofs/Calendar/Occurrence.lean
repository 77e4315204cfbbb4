import Countdown.Proofs.Calendar.Date
import Countdown.Proofs.Calendar.Spelling
import Countdown.Proofs.Number.Quotient
set_option autoImplicit false

namespace Countdown.Calendar

variable {x : TimeOfDay} {now e : DateTime} {n : Nat}

/-- The first moment after now at a time of day. -/
structure IsNext (x : TimeOfDay) (now e : DateTime) : Prop where
  later : now.micros < e.micros
  named : e.ofDay = x.micros
  first : ∀ e' : DateTime, now.micros < e'.micros → e'.ofDay = x.micros → e.micros ≤ e'.micros

theorem TimeOfDay.Proper.micros_lt (h : x.Proper) : x.micros < microsPerDay := by
  obtain ⟨hhour,hminute,hsecond⟩ := h
  simp only [TimeOfDay.micros, microsPerSecond, microsPerDay]
  omega

theorem microsUntil_cases (x : TimeOfDay) (now : DateTime) :
    now.ofDay < x.micros ∧ microsUntil x now = x.micros - now.ofDay ∨
      x.micros ≤ now.ofDay ∧ microsUntil x now = microsPerDay + x.micros - now.ofDay := by
  unfold microsUntil
  split
  · exact .inl ⟨‹_›,rfl⟩
  · exact .inr ⟨Nat.le_of_not_lt ‹_›,rfl⟩

theorem microsUntil_spec (hx : x.Proper) (now : DateTime) :
    0 < microsUntil x now ∧ microsUntil x now ≤ microsPerDay ∧
      (now.micros + microsUntil x now) % microsPerDay = x.micros ∧
      ∀ n, now.micros < n → n % microsPerDay = x.micros → now.micros + microsUntil x now ≤ n := by
  have hlt := hx.micros_lt
  have hcases := microsUntil_cases x now
  simp only [DateTime.ofDay, microsPerDay] at hlt hcases ⊢
  exact ⟨by omega,by omega,by omega,fun n hn hnamed => by omega⟩

theorem isNext_iff (hx : x.Proper) : IsNext x now e ↔ e.micros = now.micros + microsUntil x now := by
  obtain ⟨hpos,-,hnamed,hfirst⟩ := microsUntil_spec hx now
  constructor
  · intro h
    have hlt := e.representable
    have hle := hfirst e.micros h.later h.named
    -- the moment that is computed is no later than the next one, so that it is representable too
    have hge := h.first ⟨now.micros + microsUntil x now,by omega⟩ (Nat.lt_add_of_pos_right hpos) hnamed
    exact Nat.le_antisymm hge hle
  · intro h
    exact ⟨by omega,by rw [DateTime.ofDay, h, hnamed],fun e' hlater hnamed' => h ▸ hfirst e'.micros hlater hnamed'⟩

theorem exists_isNext (hx : x.Proper) (htomorrow : now.date.next.isValid = true) : ∃ e, IsNext x now e := by
  have hday : now.day + 1 < dayCount := by
    rwa [DateTime.date, ← Date.ofNumber_succ, Date.isValid_ofNumber] at htomorrow
  have hlt := hx.micros_lt
  have hcases := microsUntil_cases x now
  have hrepresentable : now.micros + microsUntil x now < dayCount * microsPerDay := by
    have hnext := Nat.mul_le_mul_right microsPerDay (Nat.succ_le_of_lt hday)
    simp only [DateTime.day, DateTime.ofDay, microsPerDay] at hnext hlt hcases ⊢
    omega
  exact ⟨⟨_,hrepresentable⟩,(isNext_iff hx).mpr rfl⟩

theorem plus?_eq_some {n : Nat} : now.plus? n = some e ↔ e.micros = now.micros + n := by
  have hlt := e.representable
  simp only [DateTime.plus?, DateTime.ofMicros?]
  split
  · rw [Option.some.injEq, DateTime.mk.injEq]
    omega
  · simp only [reduceCtorEq, false_iff]
    omega

-- equated as functions: for applied ones the kernel would first evaluate the test that the match is on
theorem msFrom_eq : TimeOfDay.msFrom = fun x now => match now.plus? (microsUntil x now) with
    | none => .error .date
    | some _ => .ok (microsUntil x now / microsPerMs : Nat) := rfl

/-- The milliseconds to the next occurrence, rounded down; computing them in doubles makes no difference. -/
theorem msFrom_of_isNext (hx : x.Proper) (h : IsNext x now e) :
    ∃ ms : Int, x.msFrom now = .ok ms ∧ ms = ((e.micros : Int) - now.micros) / microsPerMs ∧
      Number.quotientPart? (e.micros - now.micros) microsPerMs = some ms ∧ 0 ≤ ms ∧ ms ≤ msPerDay := by
  have hmicros := (isNext_iff hx).mp h
  have hle := (microsUntil_spec hx now).2.1
  have hnat : e.micros - now.micros = microsUntil x now := by omega
  have hint : (e.micros : Int) - now.micros = microsUntil x now := by omega
  have hday : microsUntil x now < Number.hiddenBit := Nat.lt_of_le_of_lt hle (by decide)
  refine ⟨(microsUntil x now / microsPerMs : Nat),?_,?_,?_,Int.natCast_nonneg _,?_⟩
  · rw [msFrom_eq]
    simp only [plus?_eq_some.mpr hmicros]
  · rw [hint, Int.natCast_ediv]
  · rw [hnat, Number.quotientPart?_eq hday (by decide) (by decide)]
  · have hdiv : microsUntil x now / microsPerMs ≤ microsPerDay / microsPerMs := Nat.div_le_div_right hle
    exact Int.ofNat_le.mpr (Nat.le_trans hdiv (by decide))

theorem msUntil_eq : msUntil = fun text now => match TimeOfDay.ofText text with
    | .error e => .error e
    | .ok x => match x.msFrom now with
      | .error e => .error (.outOfRange e)
      | .ok ms => .ok ms := rfl

theorem msUntil_eq_ok {text : String} {ms : Int} (h : TimeOfDay.ofText text = .ok x) (hms : x.msFrom now = .ok ms) :
    msUntil text now = .ok ms := by
  -- with any function in the place of `msFrom`, which the kernel would evaluate to compare the matches
  have hany : ∀ f : TimeOfDay → DateTime → Except OutOfRange Int, f x now = .ok ms →
      (match TimeOfDay.ofText text with
        | .error e => .error e
        | .ok x => match f x now with
          | .error e => .error (.outOfRange e)
          | .ok ms => .ok ms) = Except.ok (ε := EndTimeError) ms := by
    intro f hf
    simp only [h, hf]
  rw [msUntil_eq]
  exact hany TimeOfDay.msFrom hms

theorem ofText_chars {text : String} {w : TimeOfDay.Spelling} (h : w.chars = Text.trim text.toList) :
    TimeOfDay.ofText text = .ok w.time := by
  rw [TimeOfDay.ofText, ← h, TimeOfDay.read?_chars]

/-- The milliseconds until a time of day that is written as a text: those from now to the first moment after
now at that time, rounded down, which is also what their quotient in doubles is when it is cut. A text that is
no spelling of a time is refused. -/
theorem msUntil_next (text : String) (now : DateTime) (htomorrow : now.date.next.isValid = true) :
    (∀ w : TimeOfDay.Spelling, w.chars = Text.trim text.toList → ∃ e, IsNext w.time now e ∧
      ∃ ms : Int, msUntil text now = .ok ms ∧ ms = ((e.micros : Int) - now.micros) / microsPerMs ∧
        Number.quotientPart? (e.micros - now.micros) microsPerMs = some ms ∧ 0 ≤ ms ∧ ms ≤ msPerDay) ∧
    ((¬∃ w : TimeOfDay.Spelling, w.chars = Text.trim text.toList) →
      msUntil text now = .error (.invalid text)) := by
  constructor
  · intro w hw
    obtain ⟨e,hnext⟩ := exists_isNext w.proper htomorrow
    obtain ⟨ms,hms,hrest⟩ := msFrom_of_isNext w.proper hnext
    refine ⟨e,hnext,ms,?_,hrest⟩
    exact msUntil_eq_ok (ofText_chars hw) hms
  · intro hnone
    rw [msUntil, TimeOfDay.ofText, TimeOfDay.read?_eq_none_iff.mpr hnone]

/-- Half a millisecond past three in the afternoon of a leap day the next three o'clock is on the first of March. -/
theorem msUntil_next_leap_day :
    let now : DateTime := ⟨63844815600000500,by decide⟩
    let e : DateTime := ⟨63844902000000000,by decide⟩
    now.date = ⟨2024,2,29⟩ ∧ now.date.next.isValid = true ∧ e.date = ⟨2024,3,1⟩ ∧
      IsNext ⟨15,0,0⟩ now e ∧ msUntil " ٣:00 P.M." now = .ok 86399999 := by
  intro now e
  let noughts : TimeOfDay.PairNumber := ⟨⟨'0',0,by decide⟩,⟨'0',0,by decide⟩⟩
  let w : TimeOfDay.Spelling := {
    hour := ⟨none,⟨'٣',3,by decide⟩⟩
    behind := .minute noughts
    space := [' ']
    half := ⟨'P',by decide,true,'M',by decide,true⟩
    blank := List.forall_mem_singleton.mpr (by decide)
    hour_bounds := by decide
    minute_le := by decide
    second_le := by decide }
  have hvalid : now.date.next.isValid = true := by decide
  obtain ⟨e',hnext,ms,hms,hdiff,-⟩ := (msUntil_next " ٣:00 P.M." now hvalid).1 w (by decide)
  have hmicros : e'.micros = now.micros + microsUntil w.time now := (isNext_iff w.proper).mp hnext
  have hlate : now.micros + microsUntil w.time now = e.micros := by decide
  obtain rfl : e' = e := by rw [DateTime.mk.injEq, hmicros, hlate]
  have hms' : ms = 86399999 := hdiff.trans (by decide)
  rw [hms'] at hms
  exact ⟨by decide,hvalid,by decide,hnext,hms⟩

end Countdown.Calendar
