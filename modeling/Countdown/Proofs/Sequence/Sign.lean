import Countdown.Proofs.Duration.Overflow
import Countdown.Proofs.Result
import Countdown.Proofs.Sequence.Durations
import Countdown.Proofs.Sequence.Meaning
set_option autoImplicit false

namespace Countdown.Sequence

variable {s : Settings} {e : Expr} {r : Run} {v : Value} {d : Int} {t : List Char} {us : List (List Char)}

/-- A duration is positive, or it is negative and is written in one of the texts. -/
def Signed (separator : String) (us : List (List Char)) (d : Int) : Prop :=
  0 < d ∨ d < 0 ∧ ∃ t ∈ us, Duration.read separator t = .ok d

def Value.All (P : Int → Prop) : Value → Prop
  | .run r => r.All P
  | _ => True

theorem checked_eq_ok {separator : String} (h : checked separator t = .ok d) :
    Duration.read separator t = .ok d ∧ d ≠ 0 := by
  unfold checked at h
  cases hr : Duration.read separator t with
  | error x =>
    rw [hr] at h
    contradiction
  | ok ms =>
    rw [hr] at h
    dsimp only at h
    split at h
    · contradiction
    · rename_i hms
      cases h
      exact ⟨rfl,hms⟩

theorem checked_signed {separator : String} (ht : t ∈ us)
    (h : checked separator t = .ok d) : Signed separator us d := by
  obtain ⟨hread,hne⟩ := checked_eq_ok h
  obtain hlt | hlt := Int.lt_or_gt_of_ne hne
  · exact Or.inr ⟨hlt,t,ht,hread⟩
  · exact Or.inl hlt

theorem checked_digitsOf {n : Nat} (h : checked s.separator (Text.digitsOf n) = .ok d) : 0 < d := by
  obtain ⟨hread,hne⟩ := checked_eq_ok h
  obtain hfail | hlimit := Duration.read_digitsOf_cases s n
  · rw [hread] at hfail
    contradiction
  · rw [hread] at hlimit
    obtain ⟨rfl,-⟩ := Duration.limit_eq_ok_iff.mp hlimit.symm
    omega

structure Reads (separator : String) (P : Int → Prop) (us : List (List Char)) : Prop where
  count : ∀ n d, checked separator (Text.digitsOf n) = .ok d → P d
  value : ∀ t ∈ us, ∀ d, checked separator t = .ok d → P d

theorem reads_signed (us : List (List Char)) : Reads s.separator (Signed s.separator us) us :=
  ⟨fun _ _ h => Or.inl (checked_digitsOf h),fun _ ht _ h => checked_signed ht h⟩

section
variable {separator : String} {P : Int → Prop}

theorem Value.All.toRun (hread : Reads separator P us) (h : v.All P) (hr : v.toRun separator = .ok r) :
    r.All P := by
  cases v with
  | forever => contradiction
  | run r' =>
    cases hr
    exact h
  | count n =>
    obtain ⟨d,hd,rfl⟩ := map_eq_ok.mp hr
    exact hread.count n d hd

theorem Run.All.repeated {q : Run} (h : r.All P) (hr : r.repeated v = .ok q) : q.All P := by
  cases v with
  | count n =>
    cases n with
    | zero => contradiction
    | succ n =>
      cases hr
      exact h
  | forever =>
    cases hr
    exact h
  | run q => contradiction

theorem Op.apply_all {o : Op} {a b : Value} (hread : Reads separator P us) (ha : a.All P) (hb : b.All P)
    (h : o.apply separator a b = .ok r) : r.All P := by
  cases o with
  | add =>
    obtain ⟨p,hp,h⟩ := bind_eq_ok.mp h
    obtain ⟨q,hq,h⟩ := bind_eq_ok.mp h
    cases h
    exact ⟨ha.toRun hread hp,hb.toRun hread hq⟩
  | mul =>
    unfold Op.apply at h
    split at h
    · contradiction
    · contradiction
    · exact Run.All.repeated hb h
    · obtain ⟨p,hp,h⟩ := bind_eq_ok.mp h
      exact Run.All.repeated (ha.toRun hread hp) h

/-- Whatever an expression is made of, its durations are those of its values and of its counts. -/
theorem eval_all (hread : Reads separator P us) (hus : ∀ t ∈ e.values, isCount t = false → t ∈ us)
    (h : e.eval separator = .ok v) : v.All P := by
  induction e generalizing v with
  | value t =>
    cases hcount : isCount t with
    | true =>
      rw [Expr.eval, if_pos hcount] at h
      obtain ⟨n,-,rfl⟩ := map_eq_ok.mp h
      trivial
    | false =>
      rw [Expr.eval, hcount, if_neg Bool.false_ne_true] at h
      obtain ⟨d,hd,rfl⟩ := map_eq_ok.mp h
      exact hread.value t (hus t List.mem_cons_self hcount) d hd
  | forever =>
    cases h
    trivial
  | op o a b iha ihb =>
    have ha : ∀ t ∈ a.values, isCount t = false → t ∈ us := fun t ht => hus t (List.mem_append_left _ ht)
    have hb : ∀ t ∈ b.values, isCount t = false → t ∈ us := fun t ht => hus t (List.mem_append_right _ ht)
    obtain ⟨x,hx,h⟩ := bind_eq_ok.mp h
    obtain ⟨y,hy,h⟩ := bind_eq_ok.mp h
    obtain ⟨r,hr,rfl⟩ := map_eq_ok.mp h
    exact Op.apply_all hread (iha ha hx) (ihb hb hy) hr

end

def writtenDurations (text : List Char) : List (List Char) :=
  (tokens text).filterMap fun t => match t with
    | .value t => if isCount t then none else some t
    | _ => none

theorem mem_writtenDurations {text : List Char} (h : Token.value t ∈ tokens text) (hcount : isCount t = false) :
    t ∈ writtenDurations text :=
  List.mem_filterMap.mpr ⟨.value t,h,by simp [hcount]⟩

section
variable {separator : String} {P : Int → Prop} {text : List Char}

theorem read_all (hread : Reads separator P (writtenDurations text)) (hseq : isSequence text = true)
    (h : Run.read separator text = .ok r) : r.All P := by
  rw [Run.read, if_pos hseq, Run.ofTokens] at h
  obtain ⟨-,-,h⟩ := bind_eq_ok.mp h
  obtain ⟨e,he,h⟩ := bind_eq_ok.mp h
  obtain ⟨v,hv,h⟩ := bind_eq_ok.mp h
  have hvalues := (openBehind_of_ofTokens he).2
  have hall : v.All P := eval_all hread (fun t ht => mem_writtenDurations ((hvalues t).mp ht)) hv
  exact hall.toRun hread h

theorem nth?_read (hread : Reads separator P (writtenDurations text)) (hseq : isSequence text = true)
    (h : Run.read separator text = .ok r) {i : Nat} (hd : Cursor.nth? [r] i = some d) : P d := by
  have hall : ∀ x ∈ [r], x.All P := by
    intro x hx
    rw [List.mem_singleton.mp hx]
    exact read_all hread hseq h
  exact Cursor.nth?_all hall hd

end

/-- Each duration of a text with operators is positive, or it is a negative one that the text writes. -/
theorem nth?_signed {text : List Char} (hseq : isSequence text = true) (h : Run.read s.separator text = .ok r)
    {i : Nat} (hd : Cursor.nth? [r] i = some d) : Signed s.separator (writtenDurations text) d :=
  nth?_read (reads_signed _) hseq h hd

theorem nth?_ne_zero {separator : String} {text : List Char} (hseq : isSequence text = true)
    (h : Run.read separator text = .ok r) {i : Nat} (hd : Cursor.nth? [r] i = some d) : d ≠ 0 :=
  nth?_read (P := (· ≠ 0)) ⟨fun _ _ h => (checked_eq_ok h).2,fun _ _ _ h => (checked_eq_ok h).2⟩ hseq h hd

end Countdown.Sequence
