import Countdown.Proofs.Duration.Exact
set_option autoImplicit false

namespace Countdown

namespace Number

theorem Numeral.abs_value_le (n : Numeral) : |n.value.toRat| ≤ (10 : ℚ) ^ n.chars.length := by
  have hsize : n.value.mantissa.natAbs = n.size := by
    unfold value
    split <;> simp
  have hless : n.size < Nat.pow 10 (n.whole ++ n.fraction.getD []).length := Text.natOfAscii_lt n.digits
  have hlength : (n.whole ++ n.fraction.getD []).length ≤ n.chars.length := by
    unfold chars
    cases n.fraction <;> simp [fractionChars]
    omega
  have hunit : (10 : ℚ) ^ n.value.exponent ≤ 1 := zpow_le_one_of_nonpos₀ (by norm_num) (by simp [value])
  rw [Decimal.abs_toRat, hsize]
  calc (n.size : ℚ) * (10 : ℚ) ^ n.value.exponent
    _ ≤ n.size := mul_le_of_le_one_right (Nat.cast_nonneg _) hunit
    _ ≤ (10 : ℚ) ^ (n.whole ++ n.fraction.getD []).length := by exact_mod_cast le_of_lt hless
    _ ≤ (10 : ℚ) ^ n.chars.length := pow_le_pow_right₀ (by norm_num) hlength

theorem Decimal.bounded_of_abs_le {x : Decimal} {j : Nat} (h : |x.toRat| ≤ (10 : ℚ) ^ j) (hj : j ≤ maxExponent) :
    x.bounded = some x := by
  cases hx : x.bounded with
  | none =>
    have hlarge := bounded_eq_none_iff.mp hx
    rw [zpow_natCast] at hlarge
    have hle := (pow_le_pow_iff_right₀ (by norm_num : (1 : ℚ) < 10)).mp (le_trans hlarge h)
    omega
  | some y => rw [bounded_eq_some hx]

end Number

namespace Duration
open Number Decimal

variable {c : Char} {separator : String} {text : List Char} {ts : List Token} {x : Decimal} {k : Nat}
  {n : Numeral} {u : TimeUnit}

theorem abs_product_le (n : Numeral) (u : TimeUnit) :
    |(n.value.product u.size).toRat| ≤ (10 : ℚ) ^ (n.chars.length + 9) := by
  have hsize : (u.size : ℚ) ≤ 86400000 := by
    cases u <;> norm_num [TimeUnit.size]
  have hmul : |n.value.toRat| * u.size ≤ (10 : ℚ) ^ n.chars.length * 86400000 :=
    mul_le_mul n.abs_value_le hsize (Nat.cast_nonneg _) (by positivity)
  have hproduct := n.value.abs_product_le u.size
  have hpos : (0 : ℚ) < (10 : ℚ) ^ n.chars.length := by positivity
  rw [pow_add]
  linarith

theorem exists_addUnits (hx : |x.toRat| ≤ (10 : ℚ) ^ (k + 9)) (hfit : k + n.chars.length + 10 ≤ maxExponent) :
    ∃ y, addUnits x n.value u = some y ∧ |y.toRat| ≤ (10 : ℚ) ^ (k + n.chars.length + 10) := by
  have hproduct := abs_product_le n u
  have hsum := x.abs_sum_le (n.value.product u.size)
  have hbound : |(x.sum (n.value.product u.size)).toRat| ≤ (10 : ℚ) ^ (k + n.chars.length + 10) := by
    have hk : (1 : ℚ) ≤ (10 : ℚ) ^ k := one_le_pow₀ (by norm_num)
    have hn : (1 : ℚ) ≤ (10 : ℚ) ^ n.chars.length := one_le_pow₀ (by norm_num)
    have hleft := mul_le_mul_of_nonneg_left hn (le_trans zero_le_one hk)
    have hright := mul_le_mul_of_nonneg_right hk (le_trans zero_le_one hn)
    rw [pow_add] at hx hproduct
    rw [pow_add, pow_add]
    linarith
  exact ⟨_,addUnits_eq rfl (bounded_of_abs_le hproduct (by omega)) rfl (bounded_of_abs_le hbound hfit),hbound⟩

/-- After `j` characters the total, and with it the number that waits, are no greater than these allow. -/
def Progress.Within (p : Progress) (j : Nat) : Prop :=
  ∃ k ≤ j, |p.total.toRat| ≤ (10 : ℚ) ^ (k + 9) ∧
    ∀ x, p.pending = some x → ∃ n : Numeral, n.value = x ∧ k + n.chars.length ≤ j

namespace Progress
variable {p : Progress} {i j left : Nat}

theorem Within.mono (h : p.Within i) (hij : i ≤ j) : p.Within j := by
  obtain ⟨k,hk,htotal,hpending⟩ := h
  refine ⟨k,Nat.le_trans hk hij,htotal,fun x hx => ?_⟩
  obtain ⟨n,hn,hlength⟩ := hpending x hx
  exact ⟨n,hn,Nat.le_trans hlength hij⟩

theorem Within.number (h : p.Within j) (n : Numeral) :
    Progress.Within { p with pending := some n.value } (j + n.chars.length) := by
  obtain ⟨k,hk,htotal,-⟩ := h
  refine ⟨k,by omega,htotal,fun x hx => ⟨n,Option.some.inj hx,by omega⟩⟩

theorem Within.close (h : p.Within j) (hfit : j + 10 ≤ maxExponent) (u : TimeUnit) :
    ∃ q, p.close u = .ok q ∧ q.Within (j + 1) := by
  obtain ⟨k,hk,htotal,hpending⟩ := h
  unfold Progress.close
  cases hx : p.pending with
  | none => exact ⟨_,rfl,k,by omega,htotal,by simp⟩
  | some x =>
    obtain ⟨n,rfl,hlength⟩ := hpending x hx
    obtain ⟨y,hy,hle⟩ := exists_addUnits (u := u) htotal (n := n) (by omega)
    refine ⟨⟨y,none,some u⟩,by simp [hy, computed, Except.map],k + n.chars.length + 1,by omega,hle,by simp⟩

theorem Within.finish (h : p.Within j) (hfit : j + 10 ≤ maxExponent) : p.finish ≠ .error .overflow := by
  obtain ⟨k,hk,htotal,hpending⟩ := h
  unfold Progress.finish
  split
  · simp
  · rename_i x hx
    obtain ⟨n,rfl,hlength⟩ := hpending x hx
    split
    · rename_i u hu
      obtain ⟨y,hy,-⟩ := exists_addUnits (u := u) htotal (n := n) (by omega)
      simp [hy, computed]
    · simp

theorem Within.read (h : p.Within j) (hts : ∀ t ∈ ts, t.text ≠ [])
    (hfit : j + (render ts).length + 10 ≤ maxExponent) :
    (p.read left ts).bind Progress.finish ≠ .error .overflow := by
  induction ts generalizing p j left with
  | nil => exact h.finish (by simpa using hfit)
  | cons t ts ih =>
    have hpos := List.length_pos_iff.mpr (hts t List.mem_cons_self)
    rw [render_cons, List.length_append] at hfit
    have hrest : ∀ {q : Progress} {left}, q.Within (j + t.text.length) →
        (q.read left ts).bind Progress.finish ≠ .error .overflow :=
      fun hq => ih hq (fun u hu => hts u (List.mem_cons_of_mem _ hu)) (by omega)
    have hclose : ∀ u left, ((p.close u).bind fun q => q.read left ts).bind Progress.finish ≠ .error .overflow := by
      intro u left
      obtain ⟨q,hq,hwithin⟩ := h.close (by omega) u
      rw [hq]
      exact hrest (hwithin.mono (by omega))
    unfold Progress.read
    split
    · cases hx : readNumber t.text with
      | error e =>
        have hfault := isInputFault_of_readNumber hx
        rintro ⟨⟩
        contradiction
      | ok x =>
        obtain ⟨n,hn,rfl⟩ := Decimal.read?_eq_some_iff.mp (readNumber_eq_ok_iff.mp hx)
        exact hrest (hn ▸ h.number n)
    · split
      · exact hclose _ _
      · simp [Except.bind]
    · split
      · exact hclose _ _
      · simp [Except.bind]

end Progress

theorem bare_ne_overflow {t : List Char} (hfit : t.length + 9 ≤ maxExponent) :
    ((readNumber t).bind fun x => computed (x.scale TimeUnit.m.size)) ≠ .error .overflow := by
  cases hx : readNumber t with
  | error e =>
    have hfault := isInputFault_of_readNumber hx
    rintro ⟨⟩
    contradiction
  | ok x =>
    obtain ⟨n,rfl,rfl⟩ := Decimal.read?_eq_some_iff.mp (readNumber_eq_ok_iff.mp hx)
    have hscale : n.value.scale TimeUnit.m.size = some (n.value.product TimeUnit.m.size) :=
      bounded_of_abs_le (abs_product_le n .m) hfit
    simp [Except.bind, hscale, computed]

theorem total_ne_overflow (h : Lexed separator ts) (hfit : (render ts).length + 10 ≤ maxExponent) :
    Duration.total ts ≠ .error .overflow := by
  cases hform : validate ts with
  | error e =>
    have hfault := isInputFault_of_validate hform
    unfold Duration.total
    rw [hform]
    rintro ⟨⟩
    contradiction
  | ok form =>
    have hempty : Progress.Within {} 0 := ⟨0,Nat.le_refl 0,by simp [toRat_zero],by simp⟩
    have hread : (Progress.read {} (separatorCount ts) ts).bind Progress.finish ≠ .error .overflow :=
      hempty.read h.nonempty (by omega)
    unfold Duration.total
    rw [hform]
    cases form with
    | some k => exact hread
    | none =>
      cases ts with
      | nil => exact hread
      | cons t ts =>
        rw [render_cons, List.length_append] at hfit
        exact bare_ne_overflow (t := t.text) (by omega)

theorem limit_ne_overflow (ms : Int) : limit ms ≠ .error .overflow := by
  unfold limit
  split <;> simp

/-- What is too great to be computed takes about a million characters to write, whatever the separator. -/
theorem length_of_overflow (h : read separator text = .error .overflow) : maxExponent ≤ text.length + 9 := by
  cases htokens : Duration.tokens separator text with
  | error e =>
    have hfault := isInputFault_of_classify (map_eq_error.mp htokens)
    unfold read at h
    rw [htokens] at h
    cases h
    contradiction
  | ok ts =>
    obtain ⟨hlexed,hrender⟩ := tokens_eq_ok_iff.mp htokens
    have hsqueeze : (Text.squeeze text).length ≤ text.length := List.length_filter_le _ _
    by_cases hne : ts = []
    · subst hne
      unfold read at h
      rw [htokens] at h
      cases h
    · rw [read_tokens hlexed hne hrender] at h
      by_contra hshort
      obtain htotal | ⟨x,-,hlimit⟩ := bind_eq_error.mp h
      · exact total_ne_overflow hlexed (by rw [hrender]; omega) htotal
      · exact limit_ne_overflow _ hlimit

theorem isInputFault_eq_false {e : DurationError} : e.isInputFault = false ↔ e = .overflow := by
  cases e <;> simp [DurationError.isInputFault]

/-- A computation fails in the middle of a writing, or of one with a number behind it that has no unit. -/
theorem read_eq_overflow_iff (hc : isSeparator c = true) :
    read (String.ofList [c]) text = .error .overflow ↔ ∃ w : Written, w.total = none ∧
      (w.chars c = Text.squeeze text ∨ ∃ n : Numeral, w.EndsInMs ∧ w.chars c ++ n.chars = Text.squeeze text) := by
  constructor
  · intro h
    obtain ⟨w,htext⟩ | ⟨w,n,hw,htext⟩ | ⟨e,he,hfault⟩ := read_cases c text
    · rw [read_written hc htext] at h
      cases htotal : w.total with
      | none => exact ⟨w,htotal,Or.inl htext⟩
      | some x =>
        rw [htotal] at h
        exact absurd h (limit_ne_overflow _)
    · rw [read_unfinished hc hw htext] at h
      cases htotal : w.total with
      | none => exact ⟨w,htotal,Or.inr ⟨n,hw,htext⟩⟩
      | some x =>
        rw [htotal] at h
        cases h
    · rw [he] at h
      cases h
      cases hfault
  · rintro ⟨w,hw,htext | ⟨n,hms,htext⟩⟩
    · rw [read_written hc htext, hw]
      rfl
    · rw [read_unfinished hc hms htext, hw]
      rfl

/-- A text is read as a duration if and only if it is one of the writings, white space apart, of which the
total can be computed and is not too long. It is what the writing adds up to, rounded to whole milliseconds,
a half to the even one. Any other text is at fault, but for those of about a million characters in which a
product or a sum is too great to be computed. -/
theorem read_iff_written (s : Settings) (text : List Char) :
    (∀ ms, read s.separator text = .ok ms ↔ ∃ (w : Written) (x : Decimal),
      w.chars s.separatorChar = Text.squeeze text ∧ w.total = some x ∧ x.toInt = ms ∧ ms ≤ maxDuration) ∧
    ((¬ ∃ (w : Written) (x : Decimal), w.chars s.separatorChar = Text.squeeze text ∧ w.total = some x ∧
        x.toInt ≤ maxDuration) →
      read s.separator text = .error .overflow ∨
      ∃ e, read s.separator text = .error e ∧ e.isInputFault = true) ∧
    (read s.separator text = .error .overflow ↔ ∃ w : Written, w.total = none ∧
      (w.chars s.separatorChar = Text.squeeze text ∨
        ∃ n : Numeral, w.EndsInMs ∧ w.chars s.separatorChar ++ n.chars = Text.squeeze text)) ∧
    (read s.separator text = .error .overflow → maxExponent ≤ text.length + 9) := by
  have hc := s.separator_valid
  refine ⟨fun _ => read_eq_ok_iff hc,fun hnone => ?_,read_eq_overflow_iff hc,length_of_overflow⟩
  cases hread : read s.separator text with
  | ok ms =>
    obtain ⟨w,x,htext,hx,rfl,hmax⟩ := (read_eq_ok_iff hc).mp hread
    exact absurd ⟨w,x,htext,hx,hmax⟩ hnone
  | error e =>
    cases hfault : e.isInputFault with
    | false =>
      rw [isInputFault_eq_false.mp hfault]
      exact Or.inl rfl
    | true => exact Or.inr ⟨e,rfl,hfault⟩

theorem squeeze_digits {t : List Char} (h : ∀ d ∈ t, Text.isAsciiDigit d = true) : Text.squeeze t = t := by
  refine List.filter_eq_self.mpr fun d hd => ?_
  rw [isBlank_of_isNumberChar (by simp [isNumberChar, h d hd])]
  rfl

theorem natOfAscii_noughts (k : Nat) : Text.natOfAscii ('1' :: List.replicate k '0') = Nat.pow 10 k := by
  have hsplit := Text.natOfAscii_append ['1'] (List.replicate k '0')
  rw [Text.natOfAscii_replicate, List.length_replicate] at hsplit
  have hone : Text.natOfAscii ['1'] = 1 := rfl
  rwa [hone, Nat.one_mul, Nat.add_zero] at hsplit

theorem read_noughts (s : Settings) (hk : maxExponent < k) :
    read s.separator ('1' :: List.replicate k '0') = .error .overflow := by
  have hdigits : ∀ d ∈ '1' :: List.replicate k '0', Text.isAsciiDigit d = true := by
    intro d hd
    obtain rfl | hd := List.mem_cons.mp hd
    · rfl
    · rw [List.eq_of_mem_replicate hd]
      rfl
  let n : Numeral := ⟨false,'1' :: List.replicate k '0',none,by simpa using hdigits,by simp⟩
  have hvalue : n.value.toRat = (10 : ℚ) ^ k := by
    have hsize : n.size = Nat.pow 10 k := by
      rw [Numeral.size, Option.getD_none, List.append_nil, natOfAscii_noughts]
    simp [Numeral.value, toRat, n, hsize]
  have hgreat : (10 : ℚ) ^ ((maxExponent + 1 : Nat) : ℤ) ≤ (n.value.product TimeUnit.m.size).toRat := by
    refine le_toRat_product ⟨1,(maxExponent + 1 : Nat),by decide,by simp⟩ (by positivity) ?_
    rw [hvalue, zpow_natCast]
    calc (10 : ℚ) ^ (maxExponent + 1)
      _ ≤ (10 : ℚ) ^ k := pow_le_pow_right₀ (by norm_num) hk
      _ ≤ (10 : ℚ) ^ k * TimeUnit.m.size := le_mul_of_one_le_right (by positivity) (by norm_num [TimeUnit.size])
  have htotal : (Written.bare n).total = none := bounded_eq_none_iff.mpr (le_trans hgreat (le_abs_self _))
  have hchars : (Written.bare n).chars s.separatorChar = Text.squeeze ('1' :: List.replicate k '0') := by
    rw [squeeze_digits hdigits]
    simp [Written.chars, Numeral.chars, Numeral.fractionChars, n]
  exact (read_eq_overflow_iff s.separator_valid).mpr ⟨.bare n,htotal,Or.inl hchars⟩

/-- A one and a million noughts are no fault of the text, but no number of minutes either. -/
theorem read_million_noughts :
    read Settings.defaults.separator ('1' :: List.replicate 1000000 '0') = .error .overflow ∧
      DurationError.overflow.isInputFault = false :=
  ⟨read_noughts Settings.defaults (by decide),rfl⟩

theorem limit_of_lt {ms : Int} (h : maxDuration < ms) : limit ms = .error .tooLong := if_pos h

theorem limit_round (m : Nat) : limit (Decimal.round ⟨m,0⟩).toInt = limit m := by
  by_cases hm : m < Nat.pow 10 Decimal.precision
  · rw [Decimal.round_of_lt (x := ⟨m,0⟩) hm, Decimal.toInt_of_exponent_zero]
  · have hmax : 2 * maxDuration < (Nat.pow 10 Decimal.precision : Nat) := by decide
    have hhalf := Decimal.le_toInt_round m
    rw [limit_of_lt (by omega), limit_of_lt (by omega)]

theorem read_digitsOf_cases (s : Settings) (n : Nat) :
    read s.separator (Text.digitsOf n) = .error .overflow ∨
      read s.separator (Text.digitsOf n) = limit (n * TimeUnit.m.size : Nat) := by
  have hchars : (Written.bare (.ofParts 0 n none)).chars s.separatorChar = Text.digitsOf n := by
    simp [Written.chars, Numeral.chars, Numeral.ofParts, Numeral.fractionChars, Text.padded]
  have hsqueeze := squeeze_digits fun d => Text.isAsciiDigit_of_mem_digitsOf (n := n) (c := d)
  rw [Settings.separator, read_written s.separator_valid (hchars.trans hsqueeze.symm)]
  cases htotal : (Written.bare (.ofParts 0 n none)).total with
  | none => exact Or.inl rfl
  | some x =>
    have hround : Decimal.round ⟨(n * TimeUnit.m.size : Nat),0⟩ = x := by
      rw [Written.total, Numeral.value_whole] at htotal
      exact bounded_eq_some htotal
    refine Or.inr ?_
    change limit x.toInt = _
    rw [← hround, limit_round]

theorem read_digitsOf (s : Settings) {n : Nat} (hn : n < Nat.pow 10 Text.maxDigits) :
    read s.separator (Text.digitsOf n) = limit (n * TimeUnit.m.size : Nat) := by
  refine (read_digitsOf_cases s n).resolve_left fun h => ?_
  have hlength := (Text.length_digitsOf_le_iff (by decide)).mpr hn
  have hlong := length_of_overflow h
  have hmax : Text.maxDigits + 9 < maxExponent := by decide
  omega

end Duration
end Countdown
