import Countdown.Proofs.Sequence.Meaning
set_option autoImplicit false

namespace Countdown.Sequence
open Playlist

variable {separator : String} {a b e : Expr} {t : List Char}

def Rounds.value : Rounds → Value
  | .times n => .count n
  | .forever => .forever

def Expr.CountsFit (e : Expr) : Prop := ∀ t ∈ e.values, isCount t = true → t.length ≤ Text.maxDigits

theorem Expr.CountsFit.left {o : Op} (h : (Expr.op o a b).CountsFit) : a.CountsFit :=
  fun t ht => h t (List.mem_append_left _ ht)

theorem Expr.CountsFit.right {o : Op} (h : (Expr.op o a b).CountsFit) : b.CountsFit :=
  fun t ht => h t (List.mem_append_right _ ht)

theorem rounds?_value : (Expr.value t).rounds? =
    if isCount t then some (.times (Text.natOfAscii t)) else none := rfl

theorem eval_count {n : Rounds} (hfit : e.CountsFit) (h : e.rounds? = some n) :
    e.eval separator = .ok n.value := by
  cases e with
  | value t =>
    by_cases hcount : isCount t = true
    · rw [rounds?_value, if_pos hcount] at h
      cases h
      have hlength := Nat.not_lt.mpr (hfit t List.mem_cons_self hcount)
      simp [Expr.eval, hcount, readCount, hlength, Except.map, Rounds.value]
    · simp [rounds?_value, hcount] at h
  | forever =>
    cases h
    rfl
  | op o a b => contradiction

def Expr.run (separator : String) (e : Expr) : Except SequenceError Run :=
  (e.eval separator).bind (Value.toRun separator)

theorem run_of_eval {x : Except SequenceError Run} (h : e.eval separator = x.map .run) :
    e.run separator = x := by
  rw [Expr.run, h]
  cases x <;> rfl

theorem eval_op (o : Op) (a b : Expr) : (Expr.op o a b).eval separator =
    ((a.eval separator).bind fun x => (b.eval separator).bind fun y => o.apply separator x y).map .run := by
  rw [Expr.eval]
  cases a.eval separator with
  | error x => rfl
  | ok x =>
    cases b.eval separator with
    | error y => rfl
    | ok y => rfl

theorem run_op (o : Op) (a b : Expr) : (Expr.op o a b).run separator =
    (a.eval separator).bind fun x => (b.eval separator).bind fun y => o.apply separator x y :=
  run_of_eval (eval_op o a b)

theorem eval_of_rounds?_eq_none (h : e.rounds? = none) : e.eval separator = (e.run separator).map .run := by
  have hrun : ∃ x : Except SequenceError Run, e.eval separator = x.map .run := by
    cases e with
    | value t =>
      refine ⟨(checked separator t).map .one,?_⟩
      have hcount : ¬ isCount t = true := by
        intro hcount
        simp [rounds?_value, hcount] at h
      rw [Expr.eval, if_neg hcount]
      cases checked separator t <;> rfl
    | forever => contradiction
    | op o a b => exact ⟨_,eval_op o a b⟩
  obtain ⟨x,hx⟩ := hrun
  rw [run_of_eval hx, hx]

/-- What may come of evaluating an expression where durations are wanted. -/
def Expr.Means (separator : String) (e : Expr) : Except SequenceError Run → Prop
  | .ok r => ¬ e.Faulty separator ∧ Agree maxRounds r.playlist (e.durations separator)
  | .error x => e.Faulty separator ∧ (x.isInputFault = true ∨ x = .duration .overflow)

theorem fault_or_overflow (x : DurationError) :
    (SequenceError.duration x).isInputFault = true ∨ SequenceError.duration x = .duration .overflow := by
  cases hx : x.isInputFault with
  | true => exact Or.inl hx
  | false => exact Or.inr (congrArg _ (Duration.isInputFault_eq_false.mp hx))

theorem means_checked {text : List Char} (h : Duration.read separator text = durationOf separator t) :
    (Expr.value t).Means separator ((checked separator text).map .one) := by
  unfold checked
  rw [h]
  cases hd : durationOf separator t with
  | error x => exact ⟨.value fun ms hms => by simp [hd] at hms,fault_or_overflow x⟩
  | ok ms =>
    by_cases hms : ms = 0
    · have hfaulty : (Expr.value t).Faulty separator := by
        refine .value fun ms' hms' => ?_
        rw [hd] at hms'
        cases hms'
        exact hms
      simp only [hms, if_true]
      exact ⟨hfaulty,Or.inl rfl⟩
    · have hsound : ¬ (Expr.value t).Faulty separator := by
        rintro ⟨h⟩
        exact hms (h ms hd)
      have hlist : (Expr.value t).durations separator = .ends [ms] := by simp [Expr.durations, hd, Except.toOption]
      simp only [hms, if_false]
      refine ⟨hsound,?_⟩
      rw [hlist]
      exact Agree.refl _ _

theorem means_value (s : Settings) (hfit : (Expr.value t).CountsFit) :
    (Expr.value t).Means s.separator ((Expr.value t).run s.separator) := by
  by_cases hcount : isCount t = true
  · have hread : Duration.read s.separator (Text.digitsOf (Text.natOfAscii t)) = durationOf s.separator t := by
      have hdigits := List.all_eq_true.mp (Bool.and_eq_true_iff.mp hcount).2
      have hvalue := Text.natOfAscii_lt_of_length hdigits (hfit t List.mem_cons_self hcount)
      rw [Duration.read_digitsOf s hvalue, durationOf, if_pos hcount]
    have heval : (Expr.value t).eval s.separator = .ok (.count (Text.natOfAscii t)) :=
      eval_count (n := .times _) hfit (by rw [rounds?_value, if_pos hcount])
    rw [Expr.run, heval]
    exact means_checked hread
  · have hread : Duration.read s.separator t = durationOf s.separator t := by
      rw [durationOf, if_neg hcount]
    have heval : (Expr.value t).eval s.separator = ((checked s.separator t).map .one).map .run := by
      rw [Expr.eval, if_neg hcount]
      cases checked s.separator t <;> rfl
    rw [run_of_eval heval]
    exact means_checked hread

theorem means_add (ha : a.Means separator (a.run separator)) (hb : b.Means separator (b.run separator)) :
    (Expr.op .add a b).Means separator ((Expr.op .add a b).run separator) := by
  rw [run_op]
  unfold Expr.run at ha hb
  -- the second operand is evaluated before the first one is made a run, but each fails by itself
  cases hx : a.eval separator with
  | error x =>
    rw [hx] at ha
    exact ⟨.first ha.1,ha.2⟩
  | ok x =>
    rw [hx] at ha
    cases hy : b.eval separator with
    | error y =>
      rw [hy] at hb
      exact ⟨.second hb.1,hb.2⟩
    | ok y =>
      rw [hy] at hb
      simp only [Except.bind, Op.apply, bind] at ha hb ⊢
      cases hp : x.toRun separator with
      | error x =>
        rw [hp] at ha
        exact ⟨.first ha.1,ha.2⟩
      | ok p =>
        rw [hp] at ha
        cases hq : y.toRun separator with
        | error y =>
          rw [hq] at hb
          exact ⟨.second hb.1,hb.2⟩
        | ok q =>
          rw [hq] at hb
          refine ⟨?_,ha.2.append hb.2⟩
          intro hfaulty
          cases hfaulty with
          | first h => exact ha.1 h
          | second h => exact hb.1 h

theorem durations_mul {r : Expr} {n : Rounds} (h : Expr.repetition? a b = some (r,n)) :
    (Expr.op .mul a b).durations separator = (r.durations separator).repeated n := by
  unfold Expr.repetition? at h
  rw [Expr.durations]
  cases ha : a.rounds? <;> cases hb : b.rounds? <;> simp_all

theorem run_mul_right {n : Rounds} (hfit : b.CountsFit) (hb : b.rounds? = some n) :
    (Expr.op .mul a b).run separator = (a.run separator).bind fun r => r.repeated n.value := by
  rw [run_op, eval_count hfit hb, Expr.run]
  cases a.eval separator with
  | error x => rfl
  | ok x => cases n <;> cases x <;> rfl

theorem run_mul_left {n : Rounds} (hfit : a.CountsFit) (ha : a.rounds? = some n) (hb : b.rounds? = none) :
    (Expr.op .mul a b).run separator = (b.run separator).bind fun r => r.repeated n.value := by
  rw [run_op, eval_count hfit ha, eval_of_rounds?_eq_none hb]
  cases b.run separator with
  | error x => rfl
  | ok r => cases n <;> rfl

theorem means_repeated {r : Expr} {n : Rounds} (h : Expr.repetition? a b = some (r,n))
    (hr : r.Means separator (r.run separator)) :
    (Expr.op .mul a b).Means separator ((r.run separator).bind fun q => q.repeated n.value) := by
  cases hq : r.run separator with
  | error x =>
    rw [hq] at hr
    exact ⟨.repeated h hr.1,hr.2⟩
  | ok q =>
    rw [hq] at hr
    obtain ⟨hsound,hagree⟩ := hr
    have hfaulty : n ≠ .times 0 → ¬ (Expr.op .mul a b).Faulty separator := by
      intro hn hfaulty
      cases hfaulty with
      | runs h' => simp [h] at h'
      | zero h' => simp_all
      | repeated h' hr => simp_all
    cases n with
    | forever =>
      refine ⟨hfaulty (by simp),?_⟩
      rw [durations_mul h]
      exact hagree.forever q.nonempty_playlist
    | times n =>
      cases n with
      | zero => exact ⟨.zero h,Or.inl rfl⟩
      | succ n =>
        refine ⟨hfaulty (by simp),?_⟩
        have hmin : min (n + 1) maxRounds - 1 + 1 = min (n + 1) maxRounds := by
          have hmax : 0 < maxRounds := by decide
          omega
        rw [durations_mul h, Run.playlist, hmin]
        exact (agree_times_min q.nonempty_playlist maxRounds (n + 1)).trans (hagree.times (n + 1))

/-- A product is faulty in the operand that it repeats, by its count, or for the lack of one. -/
theorem means_mul (hfit : (Expr.op .mul a b).CountsFit)
    (ha : a.Means separator (a.run separator))
    (hb : b = .forever ∨ b.Means separator (b.run separator)) :
    (Expr.op .mul a b).Means separator ((Expr.op .mul a b).run separator) := by
  cases hbr : b.rounds? with
  | some n =>
    have hrep : Expr.repetition? a b = some (a,n) := by simp [Expr.repetition?, hbr]
    rw [run_mul_right hfit.right hbr]
    exact means_repeated hrep ha
  | none =>
    -- an open count would be a number of rounds
    have hb : b.Means separator (b.run separator) := by
      obtain rfl | hb := hb
      · contradiction
      · exact hb
    cases har : a.rounds? with
    | some n =>
      have hrep : Expr.repetition? a b = some (b,n) := by simp [Expr.repetition?, har, hbr]
      rw [run_mul_left hfit.left har hbr]
      exact means_repeated hrep hb
    | none =>
      have hrep : Expr.repetition? a b = none := by simp [Expr.repetition?, har, hbr]
      rw [run_op, eval_of_rounds?_eq_none har, eval_of_rounds?_eq_none hbr]
      cases hx : a.run separator with
      | error x =>
        rw [hx] at ha
        exact ⟨.runs hrep,ha.2⟩
      | ok x =>
        cases hy : b.run separator with
        | error y =>
          rw [hy] at hb
          exact ⟨.runs hrep,hb.2⟩
        | ok y => exact ⟨.runs hrep,Or.inl rfl⟩

theorem means_run (s : Settings) (hopen : e.OpenBehind) (hfit : e.CountsFit) :
    e.Means s.separator (e.run s.separator) := by
  induction e with
  | value t => exact means_value s hfit
  | forever => exact hopen.elim
  | op o a b iha ihb =>
    cases o with
    | add => exact means_add (iha hopen.1 hfit.left) (ihb hopen.2 hfit.right)
    | mul => exact means_mul hfit (iha hopen.1 hfit.left) (hopen.2.imp_right fun h => ihb h hfit.right)

theorem faulty_of_mem_values (ht : t ∈ e.values) (hcount : isCount t = false)
    (hbad : ∀ ms, durationOf separator t = .ok ms → ms = 0) : e.Faulty separator ∧ e.rounds? = none := by
  induction e with
  | value u =>
    obtain rfl := List.mem_singleton.mp ht
    exact ⟨.value hbad,by simp [rounds?_value, hcount]⟩
  | forever => contradiction
  | op o a b iha ihb =>
    refine ⟨?_,rfl⟩
    obtain ht | ht := List.mem_append.mp ht
    · obtain ⟨hfaulty,hrounds⟩ := iha ht
      cases o with
      | add => exact .first hfaulty
      | mul =>
        cases hb : b.rounds? with
        | none => exact .runs (by simp [Expr.repetition?, hrounds, hb])
        | some n => exact .repeated (r := a) (n := n) (by simp [Expr.repetition?, hb]) hfaulty
    · obtain ⟨hfaulty,hrounds⟩ := ihb ht
      cases o with
      | add => exact .second hfaulty
      | mul =>
        cases ha : a.rounds? with
        | none => exact .runs (by simp [Expr.repetition?, hrounds, ha])
        | some n => exact .repeated (r := b) (n := n) (by simp [Expr.repetition?, hrounds, ha]) hfaulty

theorem checked_error {x : SequenceError} (hcount : isCount t = false) (h : checked separator t = .error x) :
    (x.isInputFault = true ∨ x = .duration .overflow) ∧ ∀ ms, durationOf separator t = .ok ms → ms = 0 := by
  have hd : durationOf separator t = Duration.read separator t := by simp [durationOf, hcount]
  rw [hd]
  unfold checked at h
  cases hr : Duration.read separator t with
  | error y =>
    rw [hr] at h
    cases h
    exact ⟨fault_or_overflow y,by simp⟩
  | ok ms =>
    by_cases hms : ms = 0
    · simp only [hr, hms, if_true] at h
      cases h
      exact ⟨Or.inl rfl,by simp [hms]⟩
    · simp [hr, hms] at h

theorem checkValues_error {ts : List Token} {x : SequenceError} (h : checkValues separator ts = .error x) :
    ∃ t, Token.value t ∈ ts ∧ isCount t = false ∧ checked separator t = .error x := by
  induction ts with
  | nil => contradiction
  | cons u ts ih =>
    have hlater : checkValues separator ts = .error x →
        ∃ t, Token.value t ∈ u :: ts ∧ isCount t = false ∧ checked separator t = .error x := by
      intro hts
      obtain ⟨t,hmem,ht⟩ := ih hts
      exact ⟨t,List.mem_cons_of_mem _ hmem,ht⟩
    cases u with
    | value t =>
      cases hcount : isCount t with
      | true => exact hlater (by simpa [checkValues, hcount] using h)
      | false =>
        cases hc : checked separator t with
        | error y =>
          simp only [checkValues, hcount, hc, bind, Except.bind] at h
          exact ⟨t,List.mem_cons_self,hcount,by simpa [hc] using h⟩
        | ok ms => exact hlater (by simpa [checkValues, hcount, hc, bind, Except.bind] using h)
    | forever | plus | times | opening | closing => exact hlater h

/-- Whether the values are checked beforehand or as they are evaluated, what comes of it means the
expression. -/
theorem means_read (s : Settings) {text : List Char} (hseq : isSequence text = true)
    (hparse : Expr.ofTokens (tokens text) = .ok e) (hfit : e.CountsFit) :
    e.Means s.separator (Run.read s.separator text) := by
  obtain ⟨hopen,hvalues⟩ := openBehind_of_ofTokens hparse
  rw [Run.read, if_pos hseq, Run.ofTokens, hparse]
  cases hcheck : checkValues s.separator (tokens text) with
  | error x =>
    obtain ⟨t,hmem,hcount,hchecked⟩ := checkValues_error hcheck
    obtain ⟨hinput,hbad⟩ := checked_error hcount hchecked
    exact ⟨(faulty_of_mem_values ((hvalues t).mpr hmem) hcount hbad).1,hinput⟩
  | ok _ => exact means_run s hopen hfit

/-- A text with operators is refused if its expression is faulty. Otherwise its first durations are
those that the expression stands for. -/
theorem read_means (s : Settings) (text : List Char) {e : Expr} (hseq : isSequence text = true)
    (hparse : Expr.ofTokens (tokens text) = .ok e)
    (hcounts : ∀ t ∈ e.values, isCount t = true → t.length ≤ Text.maxDigits) :
    (e.Faulty s.separator → ∃ x, Run.read s.separator text = .error x ∧
      (x.isInputFault = true ∨ x = .duration .overflow)) ∧
    (¬ e.Faulty s.separator → ∃ r, Run.read s.separator text = .ok r ∧
      ∀ k, k ≤ maxRounds → Cursor.take k [r] = (e.durations s.separator).take k) := by
  have hmeans := means_read s hseq hparse hcounts
  cases hread : Run.read s.separator text with
  | error x =>
    rw [hread] at hmeans
    exact ⟨fun _ => ⟨x,rfl,hmeans.2⟩,fun hsound => absurd hmeans.1 hsound⟩
  | ok r =>
    rw [hread] at hmeans
    refine ⟨fun hfaulty => absurd hfaulty hmeans.1,fun _ => ⟨r,rfl,fun k hk => ?_⟩⟩
    rw [r.take_playlist, hmeans.2 k hk]

/-- Two rounds of half a minute and a minute, and then five minutes without end. -/
theorem read_means_rounds : ∃ r, Run.read Settings.defaults.separator "2(30s+1)+5*".toList = .ok r ∧
    Cursor.take 6 [r] = [30000,60000,30000,60000,300000,300000] := by
  have hparse : Expr.ofTokens (tokens "2(30s+1)+5*".toList) = .ok (.op .add
      (.op .mul (.value ['2']) (.op .add (.value ['3','0','s']) (.value ['1'])))
      (.op .mul (.value ['5']) .forever)) := by rfl
  have hmeans := read_means Settings.defaults _ (by decide +kernel) hparse (by decide +kernel)
  have hread : (Run.read Settings.defaults.separator "2(30s+1)+5*".toList).toOption.isSome = true := by
    decide +kernel
  obtain ⟨r,hr,htake⟩ := hmeans.2 (by
    intro hfaulty
    obtain ⟨x,hx,-⟩ := hmeans.1 hfaulty
    rw [hx] at hread
    contradiction)
  refine ⟨r,hr,?_⟩
  rw [htake 6 (by decide)]
  decide +kernel

end Countdown.Sequence
