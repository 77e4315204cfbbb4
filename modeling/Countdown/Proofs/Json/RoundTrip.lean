import Countdown.Proofs.Json.Strings
import Countdown.Proofs.Text.Character
set_option autoImplicit false

namespace Countdown

namespace Text

theorem digitsOf_nought {n : Nat} {t : List Char} (h : digitsOf n = '0' :: t) : t = [] := by
  have hdigits : ∀ c ∈ t, isAsciiDigit c = true := fun c hc =>
    isAsciiDigit_of_mem_digitsOf (n := n) (h ▸ List.mem_cons_of_mem _ hc)
  have hn : n = natOfAscii t := by
    rw [← natOfAscii_digitsOf n, h, natOfAscii_nought]
  refine Decidable.byContradiction fun hne => ?_
  have hlength := (length_digitsOf_le_iff (List.length_pos_iff.mpr hne)).mpr (hn ▸ natOfAscii_lt hdigits)
  rw [h, List.length_cons] at hlength
  omega

end Text

namespace Json
open Text

variable {n : Nat} {t : List Char}

/-- A number does not go on with this text. -/
def Ends (t : List Char) : Prop :=
  ∀ c ∈ t.head?, isAsciiDigit c = false ∧ c ≠ '.' ∧ c ≠ 'e' ∧ c ≠ 'E'

theorem Ends.digitRun {ds : List Char} (h : Ends t) (hds : ∀ c ∈ ds, isAsciiDigit c = true) :
    Json.digitRun (ds ++ t) = (ds,t) := by
  rw [Json.digitRun, List.takeWhile_append_of_pos hds, List.dropWhile_append_of_pos hds]
  cases t with
  | nil => simp
  | cons c t =>
    have hc := (h c rfl).1
    simp [hc]

theorem Ends.fractionRun (h : Ends t) : Json.fractionRun t = none := by
  unfold Json.fractionRun
  split
  · exact absurd rfl (h '.' rfl).2.1
  · rfl

theorem Ends.exponentRun (h : Ends t) : Json.exponentRun t = none := by
  cases t with
  | nil => rfl
  | cons c t =>
    obtain ⟨-,-,hlower,hupper⟩ := h c rfl
    simp [Json.exponentRun, hlower, hupper]

theorem wholeRun_digitsOf (h : Ends t) (n : Nat) : wholeRun (digitsOf n ++ t) = some (digitsOf n,t) := by
  have hdigits : ∀ c ∈ digitsOf n, isAsciiDigit c = true := fun c hc => isAsciiDigit_of_mem_digitsOf hc
  cases hd : digitsOf n with
  | nil => exact absurd hd (digitsOf_ne_nil n)
  | cons c ds =>
    by_cases hc : c = '0'
    · subst c
      rw [digitsOf_nought hd]
      rfl
    · have hrun := h.digitRun hdigits
      rw [hd, List.cons_append] at hrun
      rw [List.cons_append, wholeRun]
      · rw [hrun]
        rfl
      · intro t' heq
        exact hc (List.cons.inj heq).1

theorem readNumber_digitsOf (h : Ends t) (negative : Bool) (hn : n < Nat.pow 10 Text.maxDigits) :
    readNumber negative (digitsOf n ++ t) = .ok (.int (if negative then -(n : Int) else n),t) := by
  have hlength : ¬ Text.maxDigits < (digitsOf n).length :=
    Nat.not_lt.mpr ((length_digitsOf_le_iff (by decide)).mpr hn)
  simp [readNumber, wholeRun_digitsOf h, h.fractionRun, h.exponentRun, hlength]

theorem readWord?_of_head {c : Char} (h : ∀ w ∈ words, w.1.head? ≠ some c) (t : List Char) :
    readWord? (c :: t) = none := by
  refine List.findSome?_eq_none_iff.mpr fun w hw => ?_
  have hhead := h w hw
  cases hword : w.1 with
  | nil =>
    have hnone : ∀ w ∈ words, w.1 ≠ [] := by decide +kernel
    exact absurd hword (hnone w hw)
  | cons d ds =>
    rw [hword] at hhead
    have hne : d ≠ c := by
      rintro rfl
      exact hhead rfl
    simp [strip?, hne]

theorem readWord?_digit {c : Char} (hc : isAsciiDigit c = true) (t : List Char) :
    readWord? (c :: t) = none := by
  refine readWord?_of_head (fun w hw hhead => ?_) t
  have hall : ∀ w ∈ words, w.1.head?.all fun d => !isAsciiDigit d := by decide +kernel
  have hw := hall w hw
  rw [hhead, Option.all_some, hc] at hw
  contradiction

theorem readWord?_minus {c : Char} (hc : isAsciiDigit c = true) (t : List Char) :
    readWord? ('-' :: c :: t) = none := by
  have hletter : 'I' ≠ c := by
    rintro rfl
    contradiction
  simp [readWord?, words, strip?, hletter]

theorem ne_of_isAsciiDigit {c : Char} (hc : isAsciiDigit c = true) : c ≠ '"' ∧ c ≠ '-' := by
  constructor <;> rintro rfl <;> contradiction

theorem readScalar_writeInt (h : Ends t) {n : Int} (hn : Text.isShort n = true) :
    readScalar (writeInt n ++ t) = .ok (.int n,t) := by
  have hshort : n.natAbs < Nat.pow 10 Text.maxDigits := of_decide_eq_true hn
  have hread := fun negative => readNumber_digitsOf h negative hshort
  cases hd : digitsOf n.natAbs with
  | nil => exact absurd hd (digitsOf_ne_nil _)
  | cons c ds =>
    have hc : isAsciiDigit c = true := isAsciiDigit_of_mem_digitsOf (n := n.natAbs) (by simp [hd])
    obtain ⟨hquote,hminus⟩ := ne_of_isAsciiDigit hc
    rw [hd, List.cons_append] at hread
    unfold writeInt
    rw [hd]
    split
    · have hneg : -(n.natAbs : Int) = n := by omega
      have hsign := hread true
      rw [if_pos rfl, hneg] at hsign
      simp [readScalar, readWord?_minus hc, hsign]
    · have hpos : (n.natAbs : Int) = n := by omega
      have hplain := hread false
      rw [if_neg Bool.false_ne_true, hpos] at hplain
      simp [readScalar, readWord?_digit hc, hquote, hminus, hplain]

mutual

def isPlain : Json → Bool
  | .real _ | .unpaired _ => false
  | .arr items => arePlain items
  | .obj fields => havePlain fields
  | _ => true

def arePlain : List Json → Bool
  | [] => true
  | v :: vs => isPlain v && arePlain vs

def havePlain : List (String × Json) → Bool
  | [] => true
  | (_, v) :: fs => isPlain v && havePlain fs

end

theorem ends_comma (t : List Char) : Ends (',' :: t) := by
  rintro c ⟨⟩
  decide

theorem ends_bracket (t : List Char) : Ends (']' :: t) := by
  rintro c ⟨⟩
  decide

theorem ends_brace (t : List Char) : Ends ('}' :: t) := by
  rintro c ⟨⟩
  decide

theorem ends_writeMoreItems (vs : List Json) (t : List Char) : Ends (writeMoreItems vs ++ t) := by
  cases vs with
  | nil => exact ends_bracket t
  | cons v vs => exact ends_comma _

theorem ends_writeMoreFields (fs : List (String × Json)) (t : List Char) :
    Ends (writeMoreFields fs ++ t) := by
  cases fs with
  | nil => exact ends_brace t
  | cons f fs => exact ends_comma _

theorem writeMoreItems_cons (v : Json) (vs : List Json) :
    writeMoreItems (v :: vs) = ',' :: ' ' :: writeItems (v :: vs) := rfl

theorem writeMoreFields_cons (f : String × Json) (fs : List (String × Json)) :
    writeMoreFields (f :: fs) = ',' :: ' ' :: writeFields (f :: fs) := rfl

theorem writeInt_head (n : Int) : ∃ c cs, writeInt n = c :: cs ∧ (c = '-' ∨ isAsciiDigit c = true) := by
  unfold writeInt
  split
  · exact ⟨'-',_,rfl,Or.inl rfl⟩
  · cases hd : digitsOf n.natAbs with
    | nil => exact absurd hd (digitsOf_ne_nil _)
    | cons c cs =>
      exact ⟨c,cs,rfl,Or.inr (isAsciiDigit_of_mem_digitsOf (n := n.natAbs) (by simp [hd]))⟩

theorem write_head {v : Json} (h : isPlain v = true) :
    ∃ c cs, write v = c :: cs ∧ isSpace c = false ∧ c ≠ ']' := by
  cases v with
  | int n =>
    obtain ⟨c,cs,hwrite,hc⟩ := writeInt_head n
    refine ⟨c,cs,hwrite,?_⟩
    obtain rfl | hc := hc
    · decide
    · constructor
      · cases hspace : isSpace c with
        | false => rfl
        | true =>
          simp only [isSpace, Bool.or_eq_true, beq_iff_eq] at hspace
          obtain ((rfl | rfl) | rfl) | rfl := hspace <;> contradiction
      · rintro rfl
        contradiction
  | bool b => cases b <;> exact ⟨_,_,rfl,by decide⟩
  | null | str s | arr vs | obj fs => exact ⟨_,_,rfl,by decide⟩
  | real x | unpaired ps => contradiction

theorem skipSpace_cons {c : Char} (h : isSpace c = false) (t : List Char) : skipSpace (c :: t) = c :: t := by
  simp [skipSpace, h]

theorem skipSpace_write {v : Json} (h : isPlain v = true) (t : List Char) :
    skipSpace (write v ++ t) = write v ++ t := by
  obtain ⟨c,cs,hwrite,hspace,-⟩ := write_head h
  rw [hwrite, List.cons_append, skipSpace_cons hspace]

theorem readValue_scalar {fuel : Nat} {c : Char} (hlist : c ≠ '[') (hobject : c ≠ '{') (t : List Char) :
    readValue (fuel + 1) (c :: t) = readScalar (c :: t) := by
  rw [readValue]
  · intro t' h
    exact hlist (List.cons.inj h).1
  · intro t' h
    exact hobject (List.cons.inj h).1

theorem readValue_writeString (fuel : Nat) (s : String) (t : List Char) :
    readValue (fuel + 1) (writeString s ++ t) = .ok (.str s,t) := by
  have hread := readScalar_writeString s t
  rw [writeString_append] at hread ⊢
  exact (readValue_scalar (by decide) (by decide) _).trans hread

theorem readValue_writeInt (fuel : Nat) (ht : Ends t) {n : Int} (hn : Text.isShort n = true) :
    readValue (fuel + 1) (writeInt n ++ t) = .ok (.int n,t) := by
  have hread := readScalar_writeInt ht hn
  obtain ⟨c,cs,hwrite,hc⟩ := writeInt_head n
  have hopen : c ≠ '[' ∧ c ≠ '{' := by
    constructor <;> rintro rfl <;> simp [isAsciiDigit] at hc
  rw [hwrite, List.cons_append] at hread ⊢
  exact (readValue_scalar hopen.1 hopen.2 _).trans hread

mutual

/-- With fuel for each character, a value is read up to the end of its text. -/
theorem readValue_write {v : Json} {fuel : Nat} {t : List Char} (hp : isPlain v = true) (hw : isWritable v = true)
    (hf : (write v).length ≤ fuel) (ht : Ends t) : readValue fuel (write v ++ t) = .ok (v,t) := by
  cases fuel with
  | zero =>
    obtain ⟨c,cs,hwrite,-⟩ := write_head hp
    rw [hwrite, List.length_cons] at hf
    omega
  | succ fuel =>
    cases v with
    | real x | unpaired ps => exact Bool.noConfusion hp
    | null => rfl
    | bool b => cases b <;> rfl
    | str s => exact readValue_writeString fuel s t
    | int n =>
      have hshort : Text.isShort n = true := by rwa [isWritable] at hw
      exact readValue_writeInt fuel ht hshort
    | arr vs =>
      cases vs with
      | nil => rfl
      | cons v vs =>
        have hv : isPlain v = true := (Bool.and_eq_true_iff.mp hp).1
        have hitems : readItems fuel (writeItems (v :: vs) ++ t) = .ok (v :: vs,t) :=
          readItems_write (by simp) hp hw (Nat.le_of_succ_le_succ hf)
        obtain ⟨c,cs,hwrite,hspace,hbracket⟩ := write_head hv
        rw [write, List.cons_append, readValue]
        rw [writeItems, hwrite, List.cons_append, List.cons_append] at hitems ⊢
        rw [skipSpace_cons hspace]
        split
        · rename_i t' heq
          exact absurd (List.cons.inj heq).1 hbracket
        · rw [hitems]
          rfl
    | obj fs =>
      cases fs with
      | nil => rfl
      | cons f fs =>
        have hfields : readFields fuel (writeFields (f :: fs) ++ t) = .ok (f :: fs,t) :=
          readFields_write (by simp) hp hw (Nat.le_of_succ_le_succ hf)
        rw [write, List.cons_append, readValue]
        rw [writeFields, writeString, List.cons_append, List.cons_append, List.cons_append] at hfields ⊢
        rw [List.cons_append] at hfields ⊢
        rw [skipSpace_cons (by decide)]
        change Except.map _ (readFields fuel _) = _
        rw [hfields]
        rfl

theorem readItems_write {vs : List Json} {fuel : Nat} {t : List Char} (hne : vs ≠ []) (hp : arePlain vs = true)
    (hw : areWritable vs = true) (hf : (writeItems vs).length ≤ fuel) :
    readItems fuel (writeItems vs ++ t) = .ok (vs,t) := by
  match vs with
  | v :: vs =>
    obtain ⟨hpv,hpvs⟩ := Bool.and_eq_true_iff.mp hp
    obtain ⟨hwv,hwvs⟩ := Bool.and_eq_true_iff.mp hw
    rw [writeItems, List.length_append] at hf
    -- one step for each value is enough, and no value is written as nothing
    cases fuel with
    | zero =>
      obtain ⟨c,cs,hwrite,-⟩ := write_head hpv
      rw [hwrite, List.length_cons] at hf
      omega
    | succ fuel =>
      have hmore : 0 < (writeMoreItems vs).length := by cases vs <;> simp [writeMoreItems]
      have hvalue : readValue fuel (write v ++ (writeMoreItems vs ++ t)) = .ok (v,writeMoreItems vs ++ t) :=
        readValue_write hpv hwv (by omega) (ends_writeMoreItems vs t)
      rw [writeItems, List.append_assoc, readItems, hvalue]
      match vs with
      | [] => rfl
      | v' :: vs =>
        have hv' : isPlain v' = true := (Bool.and_eq_true_iff.mp hpvs).1
        rw [writeMoreItems_cons, List.length_cons, List.length_cons] at hf
        have hitems : readItems fuel (writeItems (v' :: vs) ++ t) = .ok (v' :: vs,t) :=
          readItems_write (by simp) hpvs hwvs (by omega)
        have hskip : skipSpace (' ' :: (writeItems (v' :: vs) ++ t)) = writeItems (v' :: vs) ++ t := by
          rw [writeItems, List.append_assoc]
          exact skipSpace_write hv' _
        rw [writeMoreItems_cons, List.cons_append, List.cons_append]
        dsimp only
        rw [skipSpace_cons (by decide)]
        change Except.map _ (readItems fuel (skipSpace (' ' :: (writeItems (v' :: vs) ++ t)))) = _
        rw [hskip, hitems]
        rfl

theorem readFields_write {fs : List (String × Json)} {fuel : Nat} {t : List Char} (hne : fs ≠ [])
    (hp : havePlain fs = true) (hw : haveWritable fs = true) (hf : (writeFields fs).length ≤ fuel) :
    readFields fuel (writeFields fs ++ t) = .ok (fs,t) := by
  match fs with
  | (k,v) :: fs =>
    obtain ⟨hpv,hpfs⟩ := Bool.and_eq_true_iff.mp hp
    obtain ⟨hwv,hwfs⟩ := Bool.and_eq_true_iff.mp hw
    have hsplit : ∀ u, writeFields ((k,v) :: fs) ++ u =
        writeString k ++ ':' :: ' ' :: (write v ++ (writeMoreFields fs ++ u)) := fun u => by simp [writeFields]
    have hlength : (writeFields ((k,v) :: fs)).length =
        (writeString k).length + (2 + ((write v).length + (writeMoreFields fs).length)) := by
      have h := congrArg List.length (hsplit [])
      simp only [List.append_nil, List.length_append, List.length_cons] at h
      omega
    cases fuel with
    | zero => omega
    | succ fuel =>
      have hvalue : readValue fuel (write v ++ (writeMoreFields fs ++ t)) = .ok (v,writeMoreFields fs ++ t) :=
        readValue_write hpv hwv (by omega) (ends_writeMoreFields fs t)
      have hblank : skipSpace (' ' :: (write v ++ (writeMoreFields fs ++ t))) =
          write v ++ (writeMoreFields fs ++ t) := skipSpace_write hpv _
      rw [hsplit, readFields, readKey_writeString]
      dsimp only
      rw [hblank, hvalue]
      match fs with
      | [] => rfl
      | (k',v') :: fs =>
        rw [writeMoreFields_cons, List.length_cons, List.length_cons] at hlength
        have hfields : readFields fuel (writeFields ((k',v') :: fs) ++ t) = .ok ((k',v') :: fs,t) :=
          readFields_write (by simp) hpfs hwfs (by omega)
        have hskip : skipSpace (' ' :: (writeFields ((k',v') :: fs) ++ t)) = writeFields ((k',v') :: fs) ++ t := rfl
        rw [writeMoreFields_cons, List.cons_append, List.cons_append]
        dsimp only
        rw [skipSpace_cons (by decide)]
        change Except.map _ (readFields fuel (skipSpace (' ' :: (writeFields ((k',v') :: fs) ++ t)))) = _
        rw [hskip, hfields]
        rfl

end

theorem ends_nil : Ends [] := by
  rintro c ⟨⟩

/-- A whole text is read back as the value that it was written for. -/
theorem read_text {v : Json} (hp : isPlain v = true) (hw : isWritable v = true) : read v.text = .ok v := by
  have hvalue : readValue (2 * v.write.length + 2) (v.write ++ []) = .ok (v,[]) :=
    readValue_write hp hw (by omega) ends_nil
  have hskip := skipSpace_write hp []
  rw [List.append_nil] at hvalue hskip
  unfold read text
  simp only [String.toList_ofList, hskip, hvalue]
  rfl

end Json
end Countdown
