import Countdown.Json.Reader
set_option autoImplicit false

namespace Countdown.Json
open Text

variable {α β : Type} {t u : List Char}

/-- What may come of reading a text: an end of it is left over, or it fails, for the length of a number only if
the text has so many digits in a row, which are more than the limit. -/
inductive Within (t : List Char) : Reading α → Prop where
  | read (a : α) {rest : List Char} (suffix : rest <:+ t) : Within t (.ok (a,rest))
  | malformed : Within t (.error .malformed)
  | tooLong {run : List Char} (inside : run <:+: t) (digits : ∀ c ∈ run, isAsciiDigit c = true)
      (long : Text.maxDigits < run.length) : Within t (.error (.integerTooLong run.length))

namespace Within

theorem mono {r : Reading α} (h : Within t r) (hsuffix : t <:+ u) : Within u r := by
  cases h with
  | read a hrest => exact .read a (hrest.trans hsuffix)
  | malformed => exact .malformed
  | tooLong hinside hdigits hlong => exact .tooLong (hinside.trans hsuffix.isInfix) hdigits hlong

theorem map {r : Reading α} (h : Within t r) (f : α → β) : Within t (r.map fun p => (f p.1,p.2)) := by
  cases h with
  | read a hrest => exact .read (f a) hrest
  | malformed => exact .malformed
  | tooLong hinside hdigits hlong => exact .tooLong hinside hdigits hlong

theorem suffix {r : Reading α} {a : α} {rest : List Char} (h : Within t r) (hr : r = .ok (a,rest)) : rest <:+ t := by
  subst hr
  cases h
  assumption

theorem error {r : Reading α} {e : JsonError} (h : Within t r) (hr : r = .error e) : Within (α := β) t (.error e) := by
  subst hr
  cases h with
  | malformed => exact .malformed
  | tooLong hinside hdigits hlong => exact .tooLong hinside hdigits hlong

end Within

theorem skipSpace_suffix (t : List Char) : skipSpace t <:+ t := List.dropWhile_suffix _

theorem skipSpace_suffix_of_eq {c : Char} {rest : List Char} (h : skipSpace t = c :: rest) : rest <:+ t :=
  (h ▸ List.suffix_cons c rest : rest <:+ skipSpace t).trans (skipSpace_suffix t)

theorem readUnits_within (t : List Char) : Within t (readUnits t) := by
  fun_induction readUnits t with
  | case1 => exact .malformed
  | case2 t => exact .read [] (List.suffix_cons _ t)
  | case3 => exact .malformed
  | case4 a b c d t n hn ih => exact (ih.map (n :: ·)).mono (List.suffix_append ['\\','u',a,b,c,d] t)
  | case5 => exact .malformed
  | case6 l t hu c hc ih => exact (ih.map (c.toNat :: ·)).mono (List.suffix_append ['\\',l] t)
  | case7 => exact .malformed
  | case8 c t hquote hu hslash hplain ih => exact (ih.map (c.toNat :: ·)).mono (List.suffix_cons c t)

theorem strip?_suffix {w rest : List Char} (h : strip? w t = some rest) : rest <:+ t := by
  fun_induction strip? w t with
  | case1 t =>
    cases h
    exact List.suffix_rfl
  | case2 ws c t ih => exact (ih h).trans (List.suffix_cons c t)
  | case3 => contradiction
  | case4 => contradiction

theorem readWord?_suffix {v : Json} {rest : List Char} (h : readWord? t = some (v,rest)) : rest <:+ t := by
  obtain ⟨w,-,hw⟩ := List.exists_of_findSome?_eq_some h
  obtain ⟨rest',hstrip,heq⟩ := Option.map_eq_some_iff.mp hw
  cases heq
  exact strip?_suffix hstrip

theorem wholeRun_eq_some {whole rest : List Char} (h : wholeRun t = some (whole,rest)) :
    whole ++ rest = t ∧ ∀ c ∈ whole, isAsciiDigit c = true := by
  unfold wholeRun at h
  split at h
  · cases h
    exact ⟨rfl,List.forall_mem_singleton.mpr (by decide)⟩
  · split at h
    · contradiction
    · cases h
      exact ⟨List.takeWhile_append_dropWhile,List.all_eq_true.mp List.all_takeWhile⟩

theorem fractionRun_suffix {digits rest : List Char} (h : fractionRun t = some (digits,rest)) : rest <:+ t := by
  unfold fractionRun at h
  split at h
  · split at h
    · contradiction
    · cases h
      exact (List.dropWhile_suffix _).trans (List.suffix_cons '.' _)
  · contradiction

theorem exponentRun_suffix {n : Int} {rest : List Char} (h : exponentRun t = some (n,rest)) : rest <:+ t := by
  have hdigits : ∀ {u : List Char} {m : Int},
      (if (digitRun u).1.isEmpty then none else some (m,(digitRun u).2)) = some (n,rest) → rest <:+ u := by
    intro u m hu
    split at hu
    · contradiction
    · cases hu
      exact List.dropWhile_suffix _
  cases t with
  | nil => contradiction
  | cons e t =>
    refine List.IsSuffix.trans ?_ (List.suffix_cons e t)
    simp only [exponentRun] at h
    split at h
    · split at h
      · exact (hdigits h).trans (List.suffix_cons '-' _)
      · exact (hdigits h).trans (List.suffix_cons '+' _)
      · exact hdigits h
    · contradiction

theorem getD_suffix {o : Option (α × List Char)} (a : α) (h : ∀ b rest, o = some (b,rest) → rest <:+ t) :
    (o.getD (a,t)).2 <:+ t := by
  cases o with
  | none => exact List.suffix_rfl
  | some r => exact h r.1 r.2 rfl

theorem readNumber_within (negative : Bool) (t : List Char) : Within t (readNumber negative t) := by
  unfold readNumber
  split
  · exact .malformed
  · rename_i whole rest hwhole
    obtain ⟨rfl,hdigits⟩ := wholeRun_eq_some hwhole
    have hrest : rest <:+ whole ++ rest := List.suffix_append whole rest
    have hfraction := getD_suffix [] fun _ _ => fractionRun_suffix (t := rest)
    have hexponent := getD_suffix 0 fun _ _ => exponentRun_suffix (t := ((fractionRun rest).getD ([],rest)).2)
    dsimp only
    split
    · exact .read _ (hexponent.trans (hfraction.trans hrest))
    · split
      · rename_i hlong
        exact .tooLong (List.prefix_append whole rest).isInfix hdigits hlong
      · exact .read _ hrest

theorem readScalar_within (t : List Char) : Within t (readScalar t) := by
  unfold readScalar
  split
  · rename_i t
    exact ((readUnits_within t).map ofUnits).mono (List.suffix_cons '"' t)
  · split
    · rename_i r hword
      exact .read r.1 (readWord?_suffix hword)
    · split
      · rename_i t _ _
        exact (readNumber_within true t).mono (List.suffix_cons '-' t)
      · exact readNumber_within false t

theorem readKey_within (t : List Char) : Within t (readKey t) := by
  unfold readKey
  split
  · rename_i t
    refine Within.mono ?_ (List.suffix_cons '"' t)
    split
    · rename_i herror
      exact (readUnits_within t).error herror
    · rename_i hunits
      split
      · rename_i hcolon
        exact .read _ ((skipSpace_suffix_of_eq hcolon).trans ((readUnits_within t).suffix hunits))
      · exact .malformed
  · exact .malformed

mutual

theorem readValue_within (fuel : Nat) (t : List Char) : Within t (readValue fuel t) := by
  cases fuel with
  | zero => exact .malformed
  | succ fuel =>
    rw [readValue.eq_def]
    dsimp only
    split
    · rename_i t
      refine Within.mono ?_ (List.suffix_cons '[' t)
      split
      · rename_i hclose
        exact .read _ (skipSpace_suffix_of_eq hclose)
      · exact ((readItems_within fuel (skipSpace t)).map Json.arr).mono (skipSpace_suffix t)
    · rename_i t
      refine Within.mono ?_ (List.suffix_cons '{' t)
      split
      · rename_i hclose
        exact .read _ (skipSpace_suffix_of_eq hclose)
      · exact ((readFields_within fuel (skipSpace t)).map Json.obj).mono (skipSpace_suffix t)
    · exact readScalar_within t

theorem readItems_within (fuel : Nat) (t : List Char) : Within t (readItems fuel t) := by
  cases fuel with
  | zero => exact .malformed
  | succ fuel =>
    have hvalue := readValue_within fuel t
    rw [readItems]
    split
    · rename_i herror
      exact hvalue.error herror
    · rename_i v rest hok
      have hrest := hvalue.suffix hok
      split
      · rename_i hclose
        exact .read _ ((skipSpace_suffix_of_eq hclose).trans hrest)
      · rename_i u hcomma
        have hu := (skipSpace_suffix_of_eq hcomma).trans hrest
        exact ((readItems_within fuel (skipSpace u)).map (v :: ·)).mono ((skipSpace_suffix u).trans hu)
      · exact .malformed

theorem readFields_within (fuel : Nat) (t : List Char) : Within t (readFields fuel t) := by
  cases fuel with
  | zero => exact .malformed
  | succ fuel =>
    rw [readFields]
    split
    · rename_i herror
      exact (readKey_within t).error herror
    · rename_i k behind hkey
      have hbehind := (skipSpace_suffix behind).trans ((readKey_within t).suffix hkey)
      have hvalue := (readValue_within fuel (skipSpace behind)).mono hbehind
      split
      · rename_i herror
        exact hvalue.error herror
      · rename_i v rest hok
        have hrest := hvalue.suffix hok
        split
        · rename_i hclose
          exact .read _ ((skipSpace_suffix_of_eq hclose).trans hrest)
        · rename_i u hcomma
          have hu := (skipSpace_suffix_of_eq hcomma).trans hrest
          exact ((readFields_within fuel (skipSpace u)).map ((k,v) :: ·)).mono ((skipSpace_suffix u).trans hu)
        · exact .malformed

end

end Countdown.Json
