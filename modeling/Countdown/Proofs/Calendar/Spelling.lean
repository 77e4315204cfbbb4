import Countdown.Calendar.EndTime
import Countdown.Proofs.Text.Character
set_option autoImplicit false

namespace Countdown

namespace Text

structure Digit where
  char : Char
  value : Nat
  reads : digitValue? char = some value

theorem Digit.not_blank (d : Digit) : isBlank d.char = false := by
  cases h : isBlank d.char with
  | false => rfl
  | true =>
    have hnone := digitValue?_of_isBlank h
    rw [d.reads] at hnone
    contradiction

end Text

namespace Calendar.TimeOfDay
open Text

structure HourNumber where
  tens : Option Digit
  ones : Digit

structure PairNumber where
  tens : Digit
  ones : Digit

/-- What stands behind the hour. -/
inductive Behind where
  | none
  | minute (m : PairNumber)
  | second (m s : PairNumber)

structure HalfDay where
  letter : Char
  isLetter : letter ∈ ['a','A','p','P']
  point : Bool
  last : Char
  isLast : last ∈ ['m','M']
  lastPoint : Bool

namespace HourNumber

def chars (n : HourNumber) : List Char := n.tens.toList.map Digit.char ++ [n.ones.char]

def value (n : HourNumber) : Nat := 10 * (n.tens.map Digit.value).getD 0 + n.ones.value

end HourNumber

namespace PairNumber

def chars (n : PairNumber) : List Char := [n.tens.char,n.ones.char]

def value (n : PairNumber) : Nat := 10 * n.tens.value + n.ones.value

end PairNumber

namespace Behind

def chars : Behind → List Char
  | .none => []
  | .minute m => ':' :: m.chars
  | .second m s => ':' :: (m.chars ++ ':' :: s.chars)

def minuteValue : Behind → Nat
  | .none => 0
  | .minute m | .second m _ => m.value

def secondValue : Behind → Nat
  | .none | .minute _ => 0
  | .second _ s => s.value

end Behind

namespace HalfDay

def pointChars (point : Bool) : List Char := if point then ['.'] else []

def chars (x : HalfDay) : List Char :=
  x.letter :: (pointChars x.point ++ x.last :: pointChars x.lastPoint)

def afternoon (x : HalfDay) : Bool := x.letter == 'p' || x.letter == 'P'

end HalfDay

/-- A time of day as it is written: an hour from 1 to 12, minutes and seconds behind colons, which may be
left out, white space, and the half of the day. -/
structure Spelling where
  hour : HourNumber
  behind : Behind
  space : List Char
  half : HalfDay
  blank : ∀ c ∈ space, isBlank c = true
  hour_bounds : 1 ≤ hour.value ∧ hour.value ≤ 12
  minute_le : behind.minuteValue ≤ 59
  second_le : behind.secondValue ≤ 59

namespace Spelling

def chars (w : Spelling) : List Char := w.hour.chars ++ (w.behind.chars ++ (w.space ++ w.half.chars))

def time (w : Spelling) : TimeOfDay where
  hour :=
    if w.half.afternoon then (if w.hour.value = 12 then 12 else w.hour.value + 12)
    else if w.hour.value = 12 then 0 else w.hour.value
  minute := w.behind.minuteValue
  second := w.behind.secondValue

end Spelling

variable {t rest : List Char} {n : Nat}

theorem readHour?_chars (n : HourNumber) (hrest : ∀ c ∈ rest.head?, digitValue? c = none) :
    readHour? (n.chars ++ rest) = some (n.value,rest) := by
  obtain ⟨tens,ones⟩ := n
  cases tens with
  | some tens => simp [HourNumber.chars, HourNumber.value, readHour?, tens.reads, ones.reads]
  | none =>
    cases rest with
    | nil => simp [HourNumber.chars, HourNumber.value, readHour?, ones.reads]
    | cons c rest => simp [HourNumber.chars, HourNumber.value, readHour?, ones.reads, hrest c rfl]

theorem exists_of_readHour? (h : readHour? t = some (n,rest)) :
    ∃ x : HourNumber, x.value = n ∧ x.chars ++ rest = t := by
  unfold readHour? at h
  split at h
  · rename_i c d t
    cases hc : digitValue? c with
    | none => simp [hc] at h
    | some a =>
      cases hd : digitValue? d with
      | none =>
        simp only [hc, hd, Option.some.injEq, Prod.mk.injEq] at h
        exact ⟨⟨none,⟨c,a,hc⟩⟩,by simp [HourNumber.value, h.1],by simp [HourNumber.chars, h.2]⟩
      | some b =>
        simp only [hc, hd, Option.some.injEq, Prod.mk.injEq] at h
        exact ⟨⟨some ⟨c,a,hc⟩,⟨d,b,hd⟩⟩,by simp [HourNumber.value, h.1],by simp [HourNumber.chars, h.2]⟩
  · rename_i c
    cases hc : digitValue? c with
    | none => simp [hc] at h
    | some a =>
      simp only [hc, Option.map_some, Option.some.injEq, Prod.mk.injEq] at h
      exact ⟨⟨none,⟨c,a,hc⟩⟩,by simp [HourNumber.value, h.1],by simp [HourNumber.chars, ← h.2]⟩
  · contradiction

theorem readField_chars (n : PairNumber) (rest : List Char) :
    readField (':' :: (n.chars ++ rest)) = (n.value,rest) := by
  simp [PairNumber.chars, PairNumber.value, readField, n.tens.reads, n.ones.reads]

theorem readField_of_head (h : ':' ∉ rest.head?) : readField rest = (0,rest) := by
  unfold readField
  split
  · exact absurd rfl h
  · rfl

theorem exists_of_readField (h : readField t = (n,rest)) :
    (∃ x : PairNumber, x.value = n ∧ ':' :: (x.chars ++ rest) = t) ∨ n = 0 ∧ rest = t := by
  unfold readField at h
  split at h
  · rename_i c d t
    split at h
    · rename_i a b hc hd
      cases h
      exact .inl ⟨⟨⟨c,a,hc⟩,⟨d,b,hd⟩⟩,rfl,rfl⟩
    · cases h
      exact .inr ⟨rfl,rfl⟩
  · cases h
    exact .inr ⟨rfl,rfl⟩

theorem readField_behind (x : Behind) (hrest : ':' ∉ rest.head?) :
    ∃ after, readField (x.chars ++ rest) = (x.minuteValue,after) ∧
      readField after = (x.secondValue,rest) := by
  have hnone := readField_of_head hrest
  cases x with
  | none => exact ⟨rest,hnone,hnone⟩
  | minute m => exact ⟨rest,readField_chars m rest,hnone⟩
  | second m s =>
    refine ⟨':' :: (s.chars ++ rest),?_,readField_chars s rest⟩
    rw [Behind.chars, List.cons_append, List.append_assoc]
    exact readField_chars m _

theorem exists_behind {m s : Nat} {after : List Char} (hm : readField t = (m,after))
    (hs : readField after = (s,rest)) :
    ∃ x : Behind, x.minuteValue = m ∧ x.secondValue = s ∧ x.chars ++ rest = t := by
  obtain ⟨minute,rfl,rfl⟩ | ⟨rfl,rfl⟩ := exists_of_readField hm
  · obtain ⟨second,rfl,rfl⟩ | ⟨rfl,rfl⟩ := exists_of_readField hs
    · exact ⟨.second minute second,rfl,rfl,by simp [Behind.chars]⟩
    · exact ⟨.minute minute,rfl,rfl,rfl⟩
  · -- what is no field is none when it is read again
    rw [hm] at hs
    cases hs
    exact ⟨.none,rfl,rfl,rfl⟩

theorem afternoon?_chars (x : HalfDay) : afternoon? x.chars = some x.afternoon := by
  obtain ⟨letter,hletter,point,last,hlast,lastPoint⟩ := x
  simp only [List.mem_cons, List.not_mem_nil, or_false] at hletter hlast
  rcases hletter with rfl | rfl | rfl | rfl <;> rcases hlast with rfl | rfl <;> cases point <;>
    cases lastPoint <;> rfl

theorem cases_toLower {c d : Char} (h : c.toLower = d) :
    c = d ∨ 65 ≤ c.toNat ∧ c = Char.ofNat (d.toNat - 32) := by
  unfold Char.toLower at h
  split at h
  · rename_i hupper
    have hlow : 65 ≤ c.toNat := hupper.1
    have hhigh : c.toNat ≤ 90 := hupper.2
    have hsum : d.toNat = (c.val + 32).toNat := by rw [← h]; rfl
    have hplus : (c.val + 32).toNat = (c.toNat + 32) % 4294967296 := UInt32.toNat_add _ _
    refine .inr ⟨hlow,?_⟩
    rw [show d.toNat - 32 = c.toNat by omega, Char.ofNat_toNat]
  · exact .inl h

theorem exists_of_dropPoint (t : List Char) : ∃ point, t = HalfDay.pointChars point ++ dropPoint t := by
  unfold dropPoint
  split
  · exact ⟨true,rfl⟩
  · exact ⟨false,rfl⟩

theorem dropPoint_map (t : List Char) : dropPoint (t.map Char.toLower) = (dropPoint t).map Char.toLower := by
  cases t with
  | nil => rfl
  | cons c t =>
    by_cases hc : c = '.'
    · rw [hc]
      rfl
    · have hlower : c.toLower ≠ '.' := by
        intro h
        obtain h | ⟨h,hcapital⟩ := cases_toLower h
        · exact hc h
        · rw [hcapital] at h
          exact absurd h (by decide)
      rw [List.map_cons, dropPoint, dropPoint, List.map_cons]
      · exact fun _ h => hc (List.cons.inj h).1
      · exact fun _ h => hlower (List.cons.inj h).1

theorem exists_of_afternoon? {afternoon : Bool} (h : afternoon? t = some afternoon) :
    ∃ x : HalfDay, x.afternoon = afternoon ∧ x.chars = t := by
  cases t with
  | nil => contradiction
  | cons letter t =>
    simp only [afternoon?, List.map_cons, dropPoint_map] at h
    split at h
    · rename_i hletter
      split at h
      · rename_i t' hlast
        obtain ⟨last,after,hdrop,hm,rfl⟩ := List.map_eq_cons_iff.mp hlast
        simp only [dropPoint_map, List.map_eq_nil_iff] at h
        split at h
        · rename_i hnil
          obtain ⟨point,hpoint⟩ := exists_of_dropPoint t
          obtain ⟨lastPoint,hlastPoint⟩ := exists_of_dropPoint after
          have hmem : last ∈ ['m','M'] := by
            obtain rfl | ⟨-,rfl⟩ := cases_toLower hm <;> decide
          have hhalf : letter ∈ ['a','A','p','P'] ∧ afternoon = (letter == 'p' || letter == 'P') := by
            have h := Option.some.inj h
            obtain hl | hl := hletter <;> obtain rfl | ⟨-,rfl⟩ := cases_toLower hl <;>
              exact ⟨by decide,h.symm⟩
          refine ⟨⟨letter,hhalf.1,point,last,hmem,lastPoint⟩,hhalf.2.symm,?_⟩
          rw [hdrop, hlastPoint, hnil, List.append_nil] at hpoint
          rw [hpoint]
          rfl
        · contradiction
      · contradiction
    · contradiction

theorem letter_plain {c : Char} (h : c ∈ ['a','A','p','P']) :
    digitValue? c = none ∧ c ≠ ':' ∧ isBlank c = false := by
  simp only [List.mem_cons, List.not_mem_nil, or_false] at h
  rcases h with rfl | rfl | rfl | rfl <;> decide +kernel

theorem head_half {space : List Char} (hspace : ∀ c ∈ space, isBlank c = true) (x : HalfDay) :
    ∀ c ∈ (space ++ x.chars).head?, digitValue? c = none ∧ c ≠ ':' := by
  intro c hc
  cases space with
  | nil =>
    obtain rfl := Option.some.inj hc
    have hletter := letter_plain x.isLetter
    exact ⟨hletter.1,hletter.2.1⟩
  | cons d space =>
    obtain rfl := Option.some.inj hc
    have hblank := hspace d List.mem_cons_self
    refine ⟨digitValue?_of_isBlank hblank,?_⟩
    rintro rfl
    contradiction

theorem dropWhile_half {space : List Char} (hspace : ∀ c ∈ space, isBlank c = true) (x : HalfDay) :
    (space ++ x.chars).dropWhile isBlank = x.chars := by
  have hletter := (letter_plain x.isLetter).2.2
  rw [List.dropWhile_append_of_pos hspace, HalfDay.chars, List.dropWhile_cons_of_neg]
  simp [hletter]

theorem hourOf_eq {dial : Nat} (h : 1 ≤ dial ∧ dial ≤ 12) (afternoon : Bool) : hourOf dial afternoon =
    if afternoon then (if dial = 12 then 12 else dial + 12) else if dial = 12 then 0 else dial := by
  unfold hourOf
  split <;> split <;> omega

theorem read?_chars (w : Spelling) : read? w.chars = some w.time := by
  have hhead := head_half w.blank w.half
  have hhour : ∀ c ∈ (w.behind.chars ++ (w.space ++ w.half.chars)).head?, digitValue? c = none := by
    cases w.behind with
    | none => exact fun c hc => (hhead c hc).1
    | minute | second =>
      rintro c hc
      obtain rfl := Option.some.inj hc
      decide
  obtain ⟨after,hminute,hsecond⟩ := readField_behind w.behind fun hc => (hhead _ hc).2 rfl
  have hbounds := And.intro w.hour_bounds.1 (And.intro w.hour_bounds.2 (And.intro w.minute_le w.second_le))
  simp only [read?, Spelling.chars, readHour?_chars w.hour hhour, hminute, hsecond, dropWhile_half w.blank,
    afternoon?_chars, bind, Option.bind, if_pos hbounds, hourOf_eq w.hour_bounds]
  rfl

theorem exists_of_read? {x : TimeOfDay} (h : read? t = some x) : ∃ w : Spelling, w.chars = t ∧ w.time = x := by
  simp only [read?, Option.bind_eq_bind, Option.bind_eq_some_iff, Prod.exists] at h
  obtain ⟨hour,behindHour,hhour,afternoon,hafternoon,h⟩ := h
  obtain ⟨⟨minute,behindMinute⟩,hminute⟩ : ∃ r, readField behindHour = r := ⟨_,rfl⟩
  obtain ⟨⟨second,behindSecond⟩,hsecond⟩ : ∃ r, readField behindMinute = r := ⟨_,rfl⟩
  simp only [hminute, hsecond] at hafternoon h
  split at h
  · rename_i hbounds
    obtain ⟨n,rfl,rfl⟩ := exists_of_readHour? hhour
    obtain ⟨behind,rfl,rfl,rfl⟩ := exists_behind hminute hsecond
    obtain ⟨half,rfl,hhalf⟩ := exists_of_afternoon? hafternoon
    have hsplit := List.takeWhile_append_dropWhile (p := isBlank) (l := behindSecond)
    rw [← hhalf] at hsplit
    have hdial : 1 ≤ n.value ∧ n.value ≤ 12 := ⟨hbounds.1,hbounds.2.1⟩
    refine ⟨⟨n,behind,behindSecond.takeWhile isBlank,half,List.all_eq_true.mp List.all_takeWhile,hdial,
      hbounds.2.2.1,hbounds.2.2.2⟩,by rw [Spelling.chars, hsplit],?_⟩
    rw [hourOf_eq hdial] at h
    exact Option.some.inj h
  · contradiction

/-- What is read as a time of day are its spellings. -/
theorem read?_eq_some_iff {x : TimeOfDay} : read? t = some x ↔ ∃ w : Spelling, w.chars = t ∧ w.time = x := by
  refine ⟨exists_of_read?,?_⟩
  rintro ⟨w,rfl,rfl⟩
  exact read?_chars w

theorem read?_eq_none_iff : read? t = none ↔ ¬∃ w : Spelling, w.chars = t := by
  rw [Option.eq_none_iff_forall_ne_some]
  constructor
  · rintro h ⟨w,rfl⟩
    exact h _ (read?_chars w)
  · intro h x hx
    obtain ⟨w,hw,-⟩ := exists_of_read? hx
    exact h ⟨w,hw⟩

structure Proper (x : TimeOfDay) : Prop where
  hour : x.hour < 24
  minute : x.minute < 60
  second : x.second < 60

theorem Spelling.proper (w : Spelling) : w.time.Proper := by
  obtain ⟨hlow,hhigh⟩ := w.hour_bounds
  refine ⟨?_,Nat.lt_succ_of_le w.minute_le,Nat.lt_succ_of_le w.second_le⟩
  simp only [time]
  split <;> split <;> omega

end Calendar.TimeOfDay
end Countdown
