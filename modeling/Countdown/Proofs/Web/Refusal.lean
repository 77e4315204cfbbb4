import Countdown.Proofs.Result
import Countdown.Proofs.Sequence.Evaluation
import Countdown.Proofs.Sequence.Meaning
import Countdown.Web.Server
set_option autoImplicit false

namespace Countdown

/-- An error that says what is to be corrected. -/
def SequenceError.IsCorrectable (x : SequenceError) : Prop := x.isInputFault = true ∧ x ≠ .tooNested

/-- The error can be corrected, or it is the fault of a count with too many digits or of a duration that is too
great to be computed, which are among some values. -/
def SequenceError.Blames (x : SequenceError) (separator : String) (among : List Char → Prop) : Prop :=
  x.IsCorrectable ∨
    (∃ t, among t ∧ Sequence.isCount t = true ∧ Text.maxDigits < t.length ∧ x = .countTooLong t.length) ∨
    ∃ t, among t ∧ Duration.read separator t = .error .overflow ∧ x = .duration .overflow

theorem SequenceError.IsMalformed.isCorrectable {x : SequenceError} (h : x.IsMalformed) : x.IsCorrectable := by
  refine ⟨h.isInputFault,?_⟩
  rintro rfl
  exact h

theorem SequenceError.Blames.mono {separator : String} {x : SequenceError} {P Q : List Char → Prop}
    (h : x.Blames separator P) (hsub : ∀ t, P t → Q t) : x.Blames separator Q :=
  h.imp_right <| Or.imp (fun ⟨t,ht,hlong⟩ => ⟨t,hsub t ht,hlong⟩) fun ⟨t,ht,hgreat⟩ => ⟨t,hsub t ht,hgreat⟩

namespace Sequence

variable {separator : String} {e : Expr} {x : SequenceError} {t : List Char}

theorem isCorrectable_or_overflow {y : DurationError} (h : Duration.read separator t = .error y) :
    (SequenceError.duration y).IsCorrectable ∨
      Duration.read separator t = .error .overflow ∧ SequenceError.duration y = .duration .overflow := by
  obtain hfault | hgreat := fault_or_overflow y
  · exact Or.inl ⟨hfault,nofun⟩
  · cases hgreat
    exact Or.inr ⟨h,rfl⟩

theorem checked_eq_error (h : checked separator t = .error x) :
    x.IsCorrectable ∨ Duration.read separator t = .error .overflow ∧ x = .duration .overflow := by
  unfold checked at h
  split at h
  · rename_i y hy
    cases h
    exact isCorrectable_or_overflow hy
  · split at h
    · cases h
      exact Or.inl ⟨rfl,nofun⟩
    · contradiction

def Value.Fits (v : Value) : Prop := ∀ n, v = .count n → n < Nat.pow 10 Text.maxDigits

theorem fits_of_eval {v : Value} (h : e.eval separator = .ok v) : v.Fits := by
  rintro n rfl
  cases e with
  | value t =>
    cases hcount : isCount t with
    | true =>
      rw [Expr.eval, if_pos hcount, readCount] at h
      split at h
      · contradiction
      · rename_i hshort
        cases h
        exact Text.natOfAscii_lt_of_length (List.all_eq_true.mp (Bool.and_eq_true_iff.mp hcount).2) (Nat.not_lt.mp hshort)
    | false =>
      rw [Expr.eval, hcount, if_neg Bool.false_ne_true] at h
      obtain ⟨d,-,hd⟩ := map_eq_ok.mp h
      contradiction
  | forever => cases h
  | op o a b =>
    rw [eval_op] at h
    obtain ⟨r,-,hr⟩ := map_eq_ok.mp h
    contradiction

theorem isCorrectable_of_toRun {v : Value} (hv : v.Fits) (h : v.toRun separator = .error x) : x.IsCorrectable := by
  cases v with
  | run r => contradiction
  | forever =>
    cases h
    exact ⟨rfl,nofun⟩
  | count n =>
    refine (checked_eq_error (map_eq_error.mp h)).resolve_right fun ⟨hgreat,_⟩ => ?_
    -- so few digits are no number that is too great
    have hlong := Duration.length_of_overflow hgreat
    have hlength := (Text.length_digitsOf_le_iff (by decide)).mpr (hv n rfl)
    have hmax : Text.maxDigits + 9 < Number.Decimal.maxExponent := by decide
    omega

theorem isCorrectable_of_repeated {r : Run} {v : Value} (h : r.repeated v = .error x) : x.IsCorrectable := by
  unfold Run.repeated at h
  split at h <;> cases h <;> exact ⟨rfl,nofun⟩

theorem isCorrectable_of_apply {o : Op} {u v : Value} (hfu : u.Fits) (hfv : v.Fits)
    (h : o.apply separator u v = .error x) : x.IsCorrectable := by
  unfold Op.apply at h
  split at h
  · obtain hu | ⟨p,-,hrest⟩ := bind_eq_error.mp h
    · exact isCorrectable_of_toRun hfu hu
    · obtain hv | ⟨q,-,hdone⟩ := bind_eq_error.mp hrest
      · exact isCorrectable_of_toRun hfv hv
      · contradiction
  · cases h
    exact ⟨rfl,nofun⟩
  · exact isCorrectable_of_repeated h
  · obtain hu | ⟨p,-,hrest⟩ := bind_eq_error.mp h
    · exact isCorrectable_of_toRun hfu hu
    · exact isCorrectable_of_repeated hrest

theorem blames_of_eval (h : e.eval separator = .error x) : x.Blames separator (· ∈ e.values) := by
  induction e with
  | value t =>
    cases hcount : isCount t with
    | true =>
      simp only [Expr.eval, hcount, if_true, map_eq_error, readCount] at h
      split at h
      · rename_i hlong
        cases h
        exact Or.inr (Or.inl ⟨t,List.mem_singleton_self t,hcount,hlong,rfl⟩)
      · contradiction
    | false =>
      simp only [Expr.eval, hcount, Bool.false_eq_true, if_false, map_eq_error] at h
      obtain hcorrectable | hgreat := checked_eq_error h
      · exact Or.inl hcorrectable
      · exact Or.inr (Or.inr ⟨t,List.mem_singleton_self t,hgreat⟩)
  | forever => contradiction
  | op o a b iha ihb =>
    obtain ha | ⟨u,hu,hrest⟩ := bind_eq_error.mp h
    · exact (iha ha).mono fun t ht => List.mem_append_left _ ht
    · obtain hb | ⟨v,hv,hdone⟩ := bind_eq_error.mp hrest
      · exact (ihb hb).mono fun t ht => List.mem_append_right _ ht
      · exact Or.inl (isCorrectable_of_apply (fits_of_eval hu) (fits_of_eval hv) (map_eq_error.mp hdone))

theorem blames_of_ofTokens {ts : List Token} (h : Run.ofTokens separator ts = .error x) :
    x.Blames separator fun t => Token.value t ∈ ts := by
  obtain hcheck | ⟨_,-,h⟩ := bind_eq_error.mp h
  · obtain ⟨t,hmem,-,ht⟩ := checkValues_error hcheck
    obtain hcorrectable | hgreat := checked_eq_error ht
    · exact Or.inl hcorrectable
    · exact Or.inr (Or.inr ⟨t,hmem,hgreat⟩)
  obtain ⟨d,rfl⟩ | ⟨y,hy,hmalformed⟩ := ofTokens_reads ts
  · rw [d.ofTokens_tokens] at h
    change (d.expr.eval separator >>= Value.toRun separator) = .error x at h
    obtain heval | ⟨v,hv,hrun⟩ := bind_eq_error.mp h
    · exact (blames_of_eval heval).mono fun t ht => d.mem_values.mp ht
    · exact Or.inl (isCorrectable_of_toRun (fits_of_eval hv) hrun)
  · rw [hy] at h
    cases h
    exact Or.inl hmalformed.isCorrectable

theorem blames_of_read {text : List Char} (h : Run.read separator text = .error x) :
    x.Blames separator (fun t => Token.value t ∈ tokens text) ∨
      Duration.read separator text = .error .overflow ∧ x = .duration .overflow := by
  unfold Run.read at h
  split at h
  · exact Or.inl (blames_of_ofTokens h)
  · split at h
    · rename_i y hy
      cases h
      exact (isCorrectable_or_overflow hy).imp_left Or.inl
    · contradiction

end Sequence

namespace Web.Server
open Sequence

variable {separator text : String} {x : SequenceError}

theorem command_create {s : Server} (hblank : (Text.trim text.toList).isEmpty = false)
    (h : Queue.read s.world.separator text = .error x) (fuel : Nat) (reply : Server → Reply → Answer) :
    s.command fuel (.create text none) reply = some (s.refuse (.sequence x)) := by
  have hcreate : s.session.world.create text none = .error (.sequence x) := by
    have hread : s.session.world.readInput text = .error (.sequence x) := by
      have h' : Queue.read s.session.world.separator text = .error x := h
      simp [World.readInput, hblank, h']
    simp [World.create, hread, Except.map, bind, Except.bind]
  have hrun : s.session.run fuel (.create text none) = some (s.session,.error (.sequence x)) := by
    simp [Session.run, Session.perform, hcreate, Session.failed]
  simp [Server.command, hrun]

/-- A text is read, or it is refused for a reason that can be told, which a client then is with a status of
422. Only a count with too many digits, or a duration of about a million characters that is too great to be
computed, is a failure of the server. -/
theorem read_or_refused (separator text : String) :
    (∃ r q, Run.read separator text.toList = .ok r ∧ Queue.read separator text = .ok q) ∨
    ∃ x, Run.read separator text.toList = .error x ∧ Queue.read separator text = .error x ∧
      (x.IsCorrectable ∨
        (∃ t, Token.value t ∈ tokens text.toList ∧ isCount t = true ∧
          Text.maxDigits < t.length ∧ x = .countTooLong t.length) ∨
        ∃ t, (t = text.toList ∨ Token.value t ∈ tokens text.toList) ∧
          Duration.read separator t = .error .overflow ∧ Number.Decimal.maxExponent ≤ t.length + 9 ∧
          x = .duration .overflow) ∧
      ∀ (s : Server) (fuel : Nat) (reply : Server → Reply → Answer), s.world.separator = separator →
        (Text.trim text.toList).isEmpty = false → s.command fuel (.create text none) reply =
          some (s,if x.isInputFault then .ok (.detail 422 x.message) else .error (.failure (.sequence x))) := by
  cases hread : Run.read separator text.toList with
  | ok r => exact Or.inl ⟨r,_,rfl,by rw [Queue.read, hread, Except.map]⟩
  | error x =>
    have hqueue : Queue.read separator text = .error x := by rw [Queue.read, hread, Except.map]
    refine Or.inr ⟨x,rfl,hqueue,?_,fun s fuel reply hs hblank => ?_⟩
    · obtain (hcorrectable | hlong | ⟨t,ht,hgreat,hx⟩) | ⟨hgreat,hx⟩ := blames_of_read hread
      · exact Or.inl hcorrectable
      · exact Or.inr (Or.inl hlong)
      · exact Or.inr (Or.inr ⟨t,Or.inr ht,hgreat,Duration.length_of_overflow hgreat,hx⟩)
      · exact Or.inr (Or.inr ⟨text.toList,Or.inl rfl,hgreat,Duration.length_of_overflow hgreat,hx⟩)
    · rw [command_create hblank (hs ▸ hqueue), refuse]
      split <;> rfl

/-- A minute that is to be repeated a number of times that has 4301 digits. -/
theorem read_too_many_digits :
    let text := String.ofList ('1' :: 'm' :: '*' :: List.replicate 4301 '9')
    Run.read ":" text.toList = .error (.countTooLong 4301) ∧
      Queue.read ":" text = .error (.countTooLong 4301) ∧ ¬ (SequenceError.countTooLong 4301).IsCorrectable := by
  intro text
  have hdigits : ∀ c ∈ List.replicate 4301 '9', Text.isAsciiDigit c = true := by
    intro c hc
    rw [List.eq_of_mem_replicate hc]
    rfl
  have hlong := read_long_count hdigits (by rw [List.length_replicate]; decide)
  rw [List.length_replicate] at hlong
  have hread : Run.read ":" text.toList = .error (.countTooLong 4301) := by
    rw [String.toList_ofList]
    exact hlong
  exact ⟨hread,by rw [Queue.read, hread, Except.map],fun h => Bool.false_ne_true h.1⟩

end Web.Server
end Countdown
