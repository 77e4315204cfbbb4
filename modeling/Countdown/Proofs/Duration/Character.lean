import Countdown.Duration.Reader
import Countdown.Proofs.Number.Numeral
import Countdown.Settings.Basic
set_option autoImplicit false

namespace Countdown

open Text

theorem isAlphanumeric_of_isAsciiDigit {c : Char} (h : isAsciiDigit c = true) :
    isAlphanumeric c = true := by
  have hmem : (48,57) ∈ alphanumericRanges := List.mem_cons_self
  refine List.any_eq_true.mpr ⟨_,hmem,?_⟩
  simpa [isAsciiDigit, Char.le_def, UInt32.le_iff_toNat_le] using h

theorem isAlphanumeric_of_isLetter {c : Char} (h : Duration.isLetter c = true) :
    isAlphanumeric c = true := by
  have hmem : (65,90) ∈ alphanumericRanges ∧ (97,122) ∈ alphanumericRanges :=
    ⟨List.mem_cons_of_mem _ List.mem_cons_self,
      List.mem_cons_of_mem _ (List.mem_cons_of_mem _ List.mem_cons_self)⟩
  simp only [Duration.isLetter, Bool.or_eq_true] at h
  obtain h | h := h
  · refine List.any_eq_true.mpr ⟨_,hmem.2,?_⟩
    simpa [Char.le_def, UInt32.le_iff_toNat_le] using h
  · refine List.any_eq_true.mpr ⟨_,hmem.1,?_⟩
    simpa [Char.le_def, UInt32.le_iff_toNat_le] using h

theorem isAsciiDigit_of_isSeparator {c : Char} (h : isSeparator c = true) : isAsciiDigit c = false := by
  cases hd : isAsciiDigit c with
  | false => rfl
  | true => simp [isSeparator, clashesWithNumbers, isAlphanumeric_of_isAsciiDigit hd] at h

namespace Duration

variable {c d : Char} {t : List Char} {u : TimeUnit}

theorem isNumberChar_of_isSeparator (h : isSeparator c = true) : isNumberChar c = false := by
  have hdigit := isAsciiDigit_of_isSeparator h
  simp_all [isSeparator, clashesWithNumbers, isNumberChar]

theorem isLetter_of_isSeparator (h : isSeparator c = true) : isLetter c = false := by
  cases hl : isLetter c with
  | false => rfl
  | true => simp [isSeparator, clashesWithNumbers, isAlphanumeric_of_isLetter hl] at h

theorem isLetter_of_isNumberChar (h : isNumberChar c = true) : isLetter c = false := by
  simp only [isNumberChar, isAsciiDigit, Bool.or_eq_true, Bool.and_eq_true, decide_eq_true_eq,
    beq_iff_eq, Char.le_def, UInt32.le_iff_toNat_le] at h
  simp only [isLetter, Bool.or_eq_false_iff, Bool.and_eq_false_iff, decide_eq_false_iff_not,
    Char.le_def, UInt32.le_iff_toNat_le]
  rcases h with (⟨hlow,hhigh⟩ | rfl) | rfl
  · change 48 ≤ c.val.toNat at hlow
    change c.val.toNat ≤ 57 at hhigh
    have ha : ('a' : Char).val.toNat = 97 := rfl
    have hA : ('A' : Char).val.toNat = 65 := rfl
    omega
  · decide
  · decide

theorem isBlank_of_isSeparator (h : isSeparator c = true) : isBlank c = false := by
  simp_all [isSeparator, clashesWithNumbers]

theorem isBlank_of_isNumberChar (h : isNumberChar c = true) : isBlank c = false := by
  simp only [isNumberChar, isAsciiDigit, Bool.or_eq_true, Bool.and_eq_true, decide_eq_true_eq,
    beq_iff_eq, Char.le_def, UInt32.le_iff_toNat_le] at h
  rcases h with (⟨hlow,hhigh⟩ | rfl) | rfl
  · change 48 ≤ c.toNat at hlow
    change c.toNat ≤ 57 at hhigh
    simp [isBlank, inRanges, blankRanges]
    omega
  · decide
  · decide

theorem kindOf?_eq_separator_iff : kindOf? (String.ofList [c]) d = some .separator ↔ d = c := by
  unfold kindOf?
  simp only [String.toList_ofList, List.cons.injEq, and_true]
  constructor
  · intro h
    split at h
    · rename_i hc
      exact hc.symm
    · split at h
      · contradiction
      · split at h <;> contradiction
  · rintro rfl
    simp

theorem kindOf?_number (hc : isSeparator c = true) (hd : isNumberChar d = true) :
    kindOf? (String.ofList [c]) d = some .number := by
  have hne : c ≠ d := by
    rintro rfl
    rw [isNumberChar_of_isSeparator hc] at hd
    contradiction
  simp [kindOf?, hne, isLetter_of_isNumberChar hd, hd]

theorem kindOf?_letter (hc : isSeparator c = true) (hd : isLetter d = true) :
    kindOf? (String.ofList [c]) d = some .letter := by
  have hne : c ≠ d := by
    rintro rfl
    rw [isLetter_of_isSeparator hc] at hd
    contradiction
  simp [kindOf?, hne, hd]

theorem isNumberChar_of_mem_chars {n : Number.Numeral} (h : c ∈ n.chars) : isNumberChar c = true := by
  have hdigits := n.digits
  unfold Number.Numeral.chars at h
  obtain h | h := List.mem_append.mp h
  · split at h
    · rw [List.mem_singleton.mp h]
      decide
    · contradiction
  · obtain h | h := List.mem_append.mp h
    · simp [isNumberChar, hdigits c (List.mem_append_left _ h)]
    · cases hf : n.fraction with
      | none => simp [hf, Number.Numeral.fractionChars] at h
      | some f =>
        rw [hf] at h hdigits
        obtain rfl | h := List.mem_cons.mp h
        · decide
        · simp [isNumberChar, hdigits c (List.mem_append_right _ h)]

theorem chars_ne_nil (n : Number.Numeral) : n.chars ≠ [] := by
  have hne := n.nonempty
  unfold Number.Numeral.chars
  cases hf : n.fraction with
  | none => simp_all [Number.Numeral.fractionChars]
  | some f => simp [Number.Numeral.fractionChars]

theorem isLower_of_mem_spellings {word : String} (h : word ∈ u.spellings) :
    word.toList ≠ [] ∧ ∀ c ∈ word.toList, 'a' ≤ c ∧ c ≤ 'z' := by
  have hall : (u.spellings.all fun w => !w.toList.isEmpty && w.toList.all fun c => 'a' ≤ c && c ≤ 'z') = true := by
    cases u <;> decide
  have hword := List.all_eq_true.mp hall word h
  simpa using hword

/-- No word names two units. -/
theorem ofSpelling?_eq_some_iff {word : String} :
    TimeUnit.ofSpelling? word = some u ↔ word ∈ u.spellings := by
  constructor
  · intro h
    simpa using List.find?_some h
  · revert word
    cases u <;> decide

theorem isLetter_of_toLower (h : 'a' ≤ c.toLower ∧ c.toLower ≤ 'z') : isLetter c = true := by
  by_cases hupper : c.val ≥ 'A'.val ∧ c.val ≤ 'Z'.val
  · simp only [isLetter, Bool.or_eq_true, Bool.and_eq_true, decide_eq_true_eq, Char.le_def]
    exact Or.inr hupper
  · have hsame : c.toLower = c := dif_neg hupper
    rw [hsame] at h
    simp [isLetter, h]

theorem isLetter_of_mem_word {word : List Char}
    (h : String.ofList (word.map Char.toLower) ∈ u.spellings) :
    word ≠ [] ∧ ∀ c ∈ word, isLetter c = true := by
  obtain ⟨hne,hlower⟩ := isLower_of_mem_spellings h
  rw [String.toList_ofList] at hne hlower
  refine ⟨by simpa using hne,fun c hc => isLetter_of_toLower (hlower _ (List.mem_map_of_mem hc))⟩

end Duration
end Countdown
