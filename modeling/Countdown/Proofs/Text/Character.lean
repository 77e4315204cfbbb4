import Countdown.Text.Character
set_option autoImplicit false

namespace Countdown.Text

namespace DigitRun

/-- Where the blocks of a run end makes no difference. -/
theorem value_push (r : DigitRun) (digit : Nat) : (r.push digit).value = 10 * r.value + digit := by
  unfold push
  split
  · have hpow : Nat.pow 10 (r.length + 1) = Nat.pow 10 r.length * 10 := rfl
    simp only [value, hpow]
    grind
  · have hpow : Nat.pow 10 1 = 10 := rfl
    simp only [value, hpow]
    omega

theorem value_foldl (t : List Char) (r : DigitRun) :
    (t.foldl (fun r c => r.push (c.toNat - 48)) r).value =
      t.foldl (fun n c => 10 * n + (c.toNat - 48)) r.value := by
  induction t generalizing r with
  | nil => rfl
  | cons c t ih => rw [List.foldl_cons, ih, value_push, List.foldl_cons]

end DigitRun

theorem natOfAscii_eq (t : List Char) : natOfAscii t = t.foldl (fun n c => 10 * n + (c.toNat - 48)) 0 :=
  DigitRun.value_foldl t {}

theorem natOfAscii_append (s t : List Char) :
    natOfAscii (s ++ t) = natOfAscii s * Nat.pow 10 t.length + natOfAscii t := by
  have hfrom : ∀ (n : Nat), t.foldl (fun n c => 10 * n + (c.toNat - 48)) n =
      n * Nat.pow 10 t.length + natOfAscii t := by
    induction t with
    | nil => simp [natOfAscii_eq]
    | cons c t ih =>
      intro n
      have hpow : Nat.pow 10 (t.length + 1) = Nat.pow 10 t.length * 10 := rfl
      simp only [natOfAscii_eq, List.foldl_cons, List.length_cons] at ih ⊢
      rw [ih, ih (10 * 0 + _), hpow]
      grind
  rw [natOfAscii_eq, List.foldl_append, ← natOfAscii_eq s]
  exact hfrom _

@[simp] theorem natOfAscii_digitsOf (n : Nat) : natOfAscii (digitsOf n) = n :=
  (natOfAscii_eq _).trans (Nat.ofDigitChars_toDigits (by decide) (by decide))

theorem isAsciiDigit_of_mem_digitsOf {n : Nat} {c : Char} (h : c ∈ digitsOf n) :
    isAsciiDigit c = true := by
  have hdigit := Nat.isDigit_of_mem_toDigits (by decide) (by decide) h
  simpa [isAsciiDigit, Char.isDigit, Char.le_def] using hdigit

theorem length_digitsOf_le_iff {n k : Nat} (h : 0 < k) :
    (digitsOf n).length ≤ k ↔ n < Nat.pow 10 k :=
  Nat.length_toDigits_le_iff (by decide) h

theorem length_digitsOf_pos (n : Nat) : 0 < (digitsOf n).length := Nat.length_toDigits_pos

theorem digitsOf_ne_nil (n : Nat) : digitsOf n ≠ [] := List.ne_nil_of_length_pos (length_digitsOf_pos n)

theorem length_digitsOf_div {n k : Nat} (h : Nat.pow 10 k ≤ n) :
    k + (digitsOf (n / Nat.pow 10 k)).length = (digitsOf n).length := by
  obtain rfl | hk := Nat.eq_zero_or_pos k
  · simp
  · have hdiv : ∀ j, 0 < j → ((digitsOf (n / Nat.pow 10 k)).length ≤ j ↔ (digitsOf n).length ≤ j + k) := by
      intro j hj
      have hsum : Nat.pow 10 (j + k) = Nat.pow 10 j * Nat.pow 10 k := Nat.pow_add ..
      rw [length_digitsOf_le_iff hj, length_digitsOf_le_iff (Nat.add_pos_left hj k), hsum]
      exact Nat.div_lt_iff_lt_mul (Nat.pow_pos (by decide))
    have hlong : k < (digitsOf n).length :=
      Nat.lt_of_not_le fun hle => absurd ((length_digitsOf_le_iff hk).mp hle) (Nat.not_lt.mpr h)
    have hfront := (hdiv _ (length_digitsOf_pos (n / Nat.pow 10 k))).mp (Nat.le_refl _)
    have hback := (hdiv ((digitsOf n).length - k) (by omega)).mpr (by omega)
    omega

theorem pow_mul_le {a b : Nat} (h : Nat.pow 10 a ≤ Nat.pow 2 b) (k : Nat) :
    Nat.pow 10 (a * k) ≤ Nat.pow 2 (b * k) := by
  calc Nat.pow 10 (a * k)
    _ = Nat.pow (Nat.pow 10 a) k := Nat.pow_mul ..
    _ ≤ Nat.pow (Nat.pow 2 b) k := Nat.pow_le_pow_left h k
    _ = Nat.pow 2 (b * k) := (Nat.pow_mul ..).symm

theorem pow_log2_le {n : Nat} (h : n ≠ 0) : Nat.pow 10 (301 * (n.log2 / 1000)) ≤ n := by
  have hthousand : Nat.pow 10 301 ≤ Nat.pow 2 1000 := by decide +kernel
  calc Nat.pow 10 (301 * (n.log2 / 1000))
    _ ≤ Nat.pow 2 (1000 * (n.log2 / 1000)) := pow_mul_le hthousand _
    _ ≤ Nat.pow 2 n.log2 := Nat.pow_le_pow_right (by decide) (Nat.mul_div_le ..)
    _ ≤ n := Nat.log2_self_le h

theorem digitCount_eq (n : Nat) : digitCount n = (digitsOf n).length := by
  by_cases h : n = 0
  · subst h
    rfl
  · exact length_digitsOf_div (pow_log2_le h)

theorem digitCount_le_iff {n k : Nat} (h : 0 < k) : digitCount n ≤ k ↔ n < Nat.pow 10 k := by
  rw [digitCount_eq, length_digitsOf_le_iff h]

theorem digitCount_pos (n : Nat) : 0 < digitCount n := digitCount_eq n ▸ length_digitsOf_pos n

theorem natOfAscii_nought (t : List Char) : natOfAscii ('0' :: t) = natOfAscii t := by
  rw [natOfAscii_eq, natOfAscii_eq]
  rfl

theorem natOfAscii_replicate (k : Nat) : natOfAscii (List.replicate k '0') = 0 := by
  induction k with
  | zero => rfl
  | succ k ih => rw [List.replicate_succ, natOfAscii_nought, ih]

theorem natOfAscii_lt {t : List Char} (h : ∀ c ∈ t, isAsciiDigit c = true) :
    natOfAscii t < Nat.pow 10 t.length := by
  induction t with
  | nil => decide
  | cons c t ih =>
    have hrest := ih fun d hd => h d (List.mem_cons_of_mem _ hd)
    have hdigit : c.toNat - 48 ≤ 9 := by
      have hc := h c List.mem_cons_self
      simp only [isAsciiDigit, Bool.and_eq_true, decide_eq_true_eq, Char.le_def, UInt32.le_iff_toNat_le] at hc
      have hnine : c.toNat ≤ 57 := hc.2
      omega
    have hsplit := natOfAscii_append [c] t
    have hfirst : natOfAscii [c] = c.toNat - 48 := by simp [natOfAscii_eq]
    have hmul := Nat.mul_le_mul_right (Nat.pow 10 t.length) hdigit
    have hpow : Nat.pow 10 (c :: t).length = Nat.pow 10 t.length * 10 := rfl
    rw [List.singleton_append, hfirst] at hsplit
    omega

theorem natOfAscii_lt_of_length {t : List Char} {k : Nat} (h : ∀ c ∈ t, isAsciiDigit c = true) (hk : t.length ≤ k) :
    natOfAscii t < Nat.pow 10 k :=
  Nat.lt_of_lt_of_le (natOfAscii_lt h) (Nat.pow_le_pow_right (by decide) hk)

@[simp] theorem natOfAscii_padded (width n : Nat) : natOfAscii (padded width n) = n := by
  simp [padded, natOfAscii_append, natOfAscii_replicate]

theorem isAsciiDigit_of_mem_padded {width n : Nat} {c : Char} (h : c ∈ padded width n) :
    isAsciiDigit c = true := by
  obtain h | h := List.mem_append.mp h
  · rw [List.eq_of_mem_replicate h]
    rfl
  · exact isAsciiDigit_of_mem_digitsOf h

theorem padded_ne_nil (width n : Nat) : padded width n ≠ [] := by
  simp [padded, digitsOf_ne_nil]

theorem length_padded {width n : Nat} (hw : 0 < width) (h : n < Nat.pow 10 width) :
    (padded width n).length = width := by
  have hle := (length_digitsOf_le_iff hw).mpr h
  simp only [padded, List.length_append, List.length_replicate]
  omega

variable {t : List Char}

/-- No range of digits meets one of white space. -/
theorem digitRanges_apart : ∀ r ∈ blankRanges, ∀ s ∈ digitRanges, r.2 < s.1 ∨ s.2 < r.1 := by decide +kernel

theorem digitValue?_of_isBlank {c : Char} (h : isBlank c = true) : digitValue? c = none := by
  obtain ⟨r,hr,hblank⟩ := List.any_eq_true.mp h
  have hnone : digitRanges.find? (fun s => s.1 ≤ c.toNat && c.toNat ≤ s.2) = none := by
    refine List.find?_eq_none.mpr fun s hs hdigit => ?_
    have hapart := digitRanges_apart r hr s hs
    simp only [Bool.and_eq_true, decide_eq_true_eq] at hblank hdigit
    omega
  rw [digitValue?, rangeStart?, hnone]
  rfl

theorem trim_eq_self (hfirst : ∀ c ∈ t.head?, isBlank c = false) (hlast : ∀ c ∈ t.getLast?, isBlank c = false) :
    trim t = t := by
  have hdrop : ∀ {s : List Char}, (∀ c ∈ s.head?, isBlank c = false) → s.dropWhile isBlank = s := by
    intro s hs
    cases s with
    | nil => rfl
    | cons c s => rw [List.dropWhile_cons_of_neg (by simp [hs c rfl])]
  rw [trim, hdrop hfirst, hdrop (by rwa [List.head?_reverse]), List.reverse_reverse]

theorem trim_plain (h : ∀ c ∈ t, isBlank c = false) : trim t = t :=
  trim_eq_self (fun c hc => h c (List.mem_of_mem_head? hc)) fun c hc => h c (List.mem_of_getLast? hc)

theorem head?_dropWhile (t : List Char) : ∀ c ∈ (t.dropWhile isBlank).head?, isBlank c = false := by
  intro c hc
  have hfirst := List.head?_dropWhile_not isBlank t
  rwa [Option.mem_def.mp hc] at hfirst

theorem trim_prefix_dropWhile (t : List Char) : trim t <+: t.dropWhile isBlank := by
  rw [trim, ← List.reverse_suffix, List.reverse_reverse]
  exact List.dropWhile_suffix _

theorem mem_of_mem_trim {c : Char} (h : c ∈ trim t) : c ∈ t :=
  (List.dropWhile_suffix _).subset ((trim_prefix_dropWhile t).subset h)

theorem trim_trim (t : List Char) : trim (trim t) = trim t := by
  refine trim_eq_self (fun c hc => ?_) fun c hc => ?_
  · obtain ⟨behind,hsplit⟩ := trim_prefix_dropWhile t
    refine head?_dropWhile t c ?_
    rw [← hsplit, List.head?_append, Option.mem_def.mp hc]
    rfl
  · rw [trim, List.getLast?_reverse] at hc
    exact head?_dropWhile _ c hc

end Countdown.Text
