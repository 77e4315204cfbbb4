import Countdown.Json.Reader
import Countdown.Json.Value
set_option autoImplicit false

namespace Countdown

namespace Text

def unitsOf (c : Char) : List Nat :=
  if c.toNat < 0x10000 then [c.toNat]
  else [0xD800 + (c.toNat - 0x10000) / 0x400,0xDC00 + (c.toNat - 0x10000) % 0x400]

theorem hexValue?_hexDigit {n : Nat} (h : n < 16) : hexValue? (hexDigit n) = some n := by
  have hall : ∀ k : Fin 16, hexValue? (hexDigit k) = some k.val := by decide
  exact hall ⟨n,h⟩

theorem isSurrogate_char (c : Char) : isSurrogate c.toNat = false := by
  have hvalid : c.toNat < 0xD800 ∨ 0xDFFF < c.toNat ∧ c.toNat < 0x110000 := c.valid
  simp only [isSurrogate, isHighSurrogate, isLowSurrogate, Bool.or_eq_false_iff, Bool.and_eq_false_iff,
    decide_eq_false_iff_not]
  omega

theorem joinPairs_cons {n : Nat} (h : isHighSurrogate n = false) (ns : List Nat) :
    joinPairs (n :: ns) = n :: joinPairs ns := by
  cases ns with
  | nil => rfl
  | cons m ns => simp [joinPairs, h]

theorem joinPairs_unitsOf (c : Char) (ns : List Nat) :
    joinPairs (unitsOf c ++ ns) = c.toNat :: joinPairs ns := by
  have hvalid : c.toNat < 0xD800 ∨ 0xDFFF < c.toNat ∧ c.toNat < 0x110000 := c.valid
  unfold unitsOf
  split
  · have hsurrogate := isSurrogate_char c
    simp only [isSurrogate, Bool.or_eq_false_iff] at hsurrogate
    exact joinPairs_cons hsurrogate.1 ns
  · have hhigh : isHighSurrogate (0xD800 + (c.toNat - 0x10000) / 0x400) = true := by
      simp only [isHighSurrogate, Bool.and_eq_true, decide_eq_true_eq]
      omega
    have hlow : isLowSurrogate (0xDC00 + (c.toNat - 0x10000) % 0x400) = true := by
      simp only [isLowSurrogate, Bool.and_eq_true, decide_eq_true_eq]
      omega
    have hjoined : joinedPair (0xD800 + (c.toNat - 0x10000) / 0x400)
        (0xDC00 + (c.toNat - 0x10000) % 0x400) = c.toNat := by
      unfold joinedPair
      omega
    simp [joinPairs, hhigh, hlow, hjoined]

theorem joinPairs_flatMap (cs : List Char) : joinPairs (cs.flatMap unitsOf) = cs.map Char.toNat := by
  induction cs with
  | nil => rfl
  | cons c cs ih => rw [List.flatMap_cons, joinPairs_unitsOf, ih, List.map_cons]

theorem ofCodePoints_toNat (cs : List Char) : ofCodePoints (cs.map Char.toNat) = cs := by
  simp [ofCodePoints, Function.comp_def, isSurrogate_char]

end Text

namespace Json
open Text

variable {n : Nat} {c l : Char} {t : List Char}

theorem hexUnit?_hexDigits (h : n < 0x10000) :
    ∃ a b c d, hexDigits 4 n = [a,b,c,d] ∧ hexUnit? a b c d = some n := by
  refine ⟨hexDigit (n / 16 / 16 / 16 % 16),hexDigit (n / 16 / 16 % 16),hexDigit (n / 16 % 16),hexDigit (n % 16),
    rfl,?_⟩
  have hdigit : ∀ m, hexValue? (hexDigit (m % 16)) = some (m % 16) :=
    fun m => hexValue?_hexDigit (Nat.mod_lt m (by decide))
  simp only [hexUnit?, hdigit, Option.bind_eq_bind, Option.bind_some, pure, Option.some.injEq]
  omega

theorem readUnits_unitEscape (h : n < 0x10000) (t : List Char) :
    readUnits (unitEscape n ++ t) = (readUnits t).map fun r => (n :: r.1,r.2) := by
  obtain ⟨a,b,c,d,hdigits,hunit⟩ := hexUnit?_hexDigits h
  rw [unitEscape, hdigits]
  simp [readUnits, hunit]

theorem unescape?_of_escapeLetter? (h : escapeLetter? c = some l) :
    unescape? l = some c ∧ l ≠ 'u' ∧ c.toNat < 0x80 := by
  have hof : ∀ k : Nat, c.toNat = k → c = Char.ofNat k := by
    rintro _ rfl
    exact (Char.ofNat_toNat c).symm
  simp only [escapeLetter?] at h
  split at h
  · subst c; cases h; decide
  split at h
  · subst c; cases h; decide
  split at h
  · subst c; cases h; decide
  split at h
  · subst c; cases h; decide
  split at h
  · subst c; cases h; decide
  split at h
  · obtain rfl := hof 8 ‹_›; cases h; decide
  split at h
  · obtain rfl := hof 12 ‹_›; cases h; decide
  · contradiction

theorem readUnits_letter (h : escapeLetter? c = some l) (t : List Char) :
    readUnits ('\\' :: l :: t) = (readUnits t).map fun r => (c.toNat :: r.1,r.2) := by
  obtain ⟨hunescape,hu,-⟩ := unescape?_of_escapeLetter? h
  rw [readUnits]
  · rw [hunescape]
  · intro a b c d t' hl
    exact absurd hl hu

theorem readUnits_plain (hquote : c ≠ '"') (hslash : c ≠ '\\') (hlow : 32 ≤ c.toNat) (t : List Char) :
    readUnits (c :: t) = (readUnits t).map fun r => (c.toNat :: r.1,r.2) := by
  have hnot : ¬ (c.toNat < 32 ∨ c = '\\') := by
    rintro (h | h)
    · omega
    · exact hslash h
  rw [readUnits]
  · rw [if_neg hnot]
  all_goals simp_all

/-- A written character is read as its units. -/
theorem readUnits_writeChar (c : Char) (t : List Char) :
    readUnits (writeChar c ++ t) = (readUnits t).map fun r => (unitsOf c ++ r.1,r.2) := by
  have hvalid : c.toNat < 0xD800 ∨ 0xDFFF < c.toNat ∧ c.toNat < 0x110000 := c.valid
  unfold writeChar
  cases hl : escapeLetter? c with
  | some l =>
    have hsmall := (unescape?_of_escapeLetter? hl).2.2
    have hunits : unitsOf c = [c.toNat] := if_pos (by omega)
    rw [hunits]
    exact readUnits_letter hl t
  | none =>
    have hquote : c ≠ '"' := by
      rintro rfl
      simp [escapeLetter?] at hl
    have hslash : c ≠ '\\' := by
      rintro rfl
      simp [escapeLetter?] at hl
    dsimp only
    split
    · rename_i h
      rw [unitsOf, if_pos (by omega)]
      exact readUnits_plain hquote hslash h.1 t
    · split
      · rename_i h
        rw [unitsOf, if_pos h]
        exact readUnits_unitEscape h t
      · rename_i h
        rw [unitsOf, if_neg h, List.append_assoc, readUnits_unitEscape (by omega), readUnits_unitEscape (by omega)]
        cases readUnits t <;> rfl

theorem readUnits_writeChars (cs t : List Char) :
    readUnits (cs.flatMap writeChar ++ '"' :: t) = .ok (cs.flatMap unitsOf,t) := by
  induction cs with
  | nil => rfl
  | cons c cs ih =>
    rw [List.flatMap_cons, List.append_assoc, readUnits_writeChar, ih]
    rfl

theorem ofUnits_unitsOf (s : String) : ofUnits (s.toList.flatMap unitsOf) = .str s := by
  have hnone : (s.toList.map Char.toNat).any isSurrogate = false := by
    simp [List.any_eq_false, isSurrogate_char]
  simp [ofUnits, joinPairs_flatMap, hnone, ofCodePoints_toNat]

theorem writeString_append (s : String) (t : List Char) :
    writeString s ++ t = '"' :: (s.toList.flatMap writeChar ++ '"' :: t) := by
  simp [writeString]

theorem readScalar_writeString (s : String) (t : List Char) :
    readScalar (writeString s ++ t) = .ok (.str s,t) := by
  rw [writeString_append]
  simp [readScalar, readString, readUnits_writeChars, ofUnits_unitsOf, Except.map]

theorem readKey_writeString (s : String) (t : List Char) :
    readKey (writeString s ++ ':' :: t) = .ok (s,t) := by
  have hcolon : skipSpace (':' :: t) = ':' :: t := rfl
  rw [writeString_append]
  simp [readKey, readUnits_writeChars, hcolon, joinPairs_flatMap, ofCodePoints_toNat]

end Json
end Countdown
