import Countdown.Proofs.Result
import Countdown.Proofs.Sequence.Group
import Countdown.Proofs.Sequence.Sign
set_option autoImplicit false

/-!
Sequences of which a duration is read only when it is its turn. They come to the same durations as those
that were read at once, as nothing is drafted before all its durations have been checked.
-/

namespace Countdown

/-- Two readings fail in the same way, or both come to results that are related. -/
inductive Likewise {ε α β : Type} (R : α → β → Prop) : Except ε α → Except ε β → Prop
  | error (e : ε) : Likewise R (.error e) (.error e)
  | ok {a : α} {b : β} (h : R a b) : Likewise R (.ok a) (.ok b)

namespace Likewise

variable {ε α β γ δ : Type} {R : α → β → Prop} {S : γ → δ → Prop} {x : Except ε α} {y : Except ε β}

theorem bind {f : α → Except ε γ} {g : β → Except ε δ} (h : Likewise R x y)
    (hstep : ∀ a b, R a b → Likewise S (f a) (g b)) : Likewise S (x >>= f) (y >>= g) := by
  cases h with
  | error e => exact error e
  | ok h => exact hstep _ _ h

theorem map {f : α → γ} {g : β → δ} (h : Likewise R x y) (hstep : ∀ a b, R a b → S (f a) (g b)) :
    Likewise S (x.map f) (y.map g) := by
  cases h with
  | error e => exact error e
  | ok h => exact ok (hstep _ _ h)

theorem of_ok {b : β} (h : Likewise R x (.ok b)) : ∃ a, x = .ok a ∧ R a b := by
  cases h with
  | ok h => exact ⟨_,rfl,h⟩

theorem of_error {e : ε} (h : Likewise R x (.error e)) : x = .error e := by
  cases h with
  | error e => rfl

end Likewise

namespace Sequence

/-- A sequence whose durations are still texts, unless there is but one. -/
inductive Draft where
  | known (ms : Int)
  | text (t : List Char)
  | append (first second : Draft)
  | repeated (d : Draft) (n : Rounds)
  deriving DecidableEq, Repr

inductive Operand where
  | count (n : Nat)
  | forever
  | draft (d : Draft)
  deriving DecidableEq, Repr

def Operand.toDraft (separator : String) : Operand → Except SequenceError Draft
  | .draft d => .ok d
  | .forever => .error (.unexpected Token.times.label)
  | .count n => (checked separator (Text.digitsOf n)).map fun _ => .text (Text.digitsOf n)

def Draft.times (d : Draft) : Operand → Except SequenceError Draft
  | .count 0 => .error .zeroTimes
  | .count n => .ok (.repeated d (.times (min n maxRounds)))
  | .forever => .ok (.repeated d .forever)
  | .draft _ => .error .twoDurations

def Op.draft (separator : String) : Op → Operand → Operand → Except SequenceError Draft
  | .add, a, b => do
    let a ← a.toDraft separator
    let b ← b.toDraft separator
    return .append a b
  | .mul, .draft _, .draft _ => .error .twoDurations
  | .mul, a, .draft d => d.times a
  | .mul, a, b => do (← a.toDraft separator).times b

def Expr.draft (separator : String) : Expr → Except SequenceError Operand
  | .value t => if isCount t then (readCount t).map .count else .ok (.draft (.text t))
  | .forever => .ok .forever
  | .op o a b => do
    let a ← a.draft separator
    let b ← b.draft separator
    (o.draft separator a b).map .draft

def Draft.ofTokens (separator : String) (ts : List Token) : Except SequenceError Draft := do
  checkValues separator ts
  (← (← Expr.ofTokens ts).draft separator).toDraft separator

def Draft.read (separator : String) (text : List Char) : Except SequenceError Draft :=
  if isSequence text then Draft.ofTokens separator (tokens text)
  else match Duration.read separator text with
    | .error e => .error (.duration e)
    | .ok ms => .ok (.known ms)

variable {separator : String} {text t : List Char} {ts : List Token} {d : Draft} {r : Run} {e : Expr}

inductive Drafted (separator : String) : Draft → Run → Prop
  | known (ms : Int) : Drafted separator (.known ms) (.one ms)
  | text {t : List Char} {ms : Int} (h : Duration.read separator t = .ok ms) :
      Drafted separator (.text t) (.one ms)
  | append {a b : Draft} {p q : Run} (ha : Drafted separator a p) (hb : Drafted separator b q) :
      Drafted separator (.append a b) (.append p q)
  | times {d : Draft} {r : Run} (n : Nat) (h : Drafted separator d r) :
      Drafted separator (.repeated d (.times (n + 1))) (.again r (some n))
  | forever {d : Draft} {r : Run} (h : Drafted separator d r) :
      Drafted separator (.repeated d .forever) (.again r none)

inductive Operand.Drafts (separator : String) : Operand → Value → Prop
  | count (n : Nat) : Drafts separator (.count n) (.count n)
  | forever : Drafts separator .forever .forever
  | run {d : Draft} {r : Run} (h : Drafted separator d r) : Drafts separator (.draft d) (.run r)

theorem Operand.Drafts.toDraft {o : Operand} {v : Value} (h : o.Drafts separator v) :
    Likewise (Drafted separator) (o.toDraft separator) (v.toRun separator) := by
  cases h with
  | run h => exact .ok h
  | forever => exact .error _
  | count n =>
    cases hn : checked separator (Text.digitsOf n) with
    | error x =>
      simp only [Operand.toDraft, Value.toRun, hn]
      exact .error x
    | ok ms =>
      simp only [Operand.toDraft, Value.toRun, hn]
      exact .ok (.text (checked_eq_ok hn).1)

theorem Drafted.repeated {o : Operand} {v : Value} (hd : Drafted separator d r) (h : o.Drafts separator v) :
    Likewise (Drafted separator) (d.times o) (r.repeated v) := by
  cases h with
  | run h => exact .error _
  | forever => exact .ok hd.forever
  | count n =>
    cases n with
    | zero => exact .error _
    | succ n =>
      have hmin : min (n + 1) maxRounds = min (n + 1) maxRounds - 1 + 1 := by
        have hmax : 0 < maxRounds := by decide
        omega
      rw [Draft.times, hmin]
      · exact .ok (hd.times _)
      · simp

theorem Op.draft_apply (o : Op) {a b : Operand} {v w : Value} (ha : a.Drafts separator v)
    (hb : b.Drafts separator w) :
    Likewise (Drafted separator) (o.draft separator a b) (o.apply separator v w) := by
  cases o with
  | add =>
    exact ha.toDraft.bind fun _ _ hp => hb.toDraft.bind fun _ _ hq => .ok (hp.append hq)
  | mul =>
    cases hb with
    | run hr =>
      cases ha with
      | run hd => exact .error _
      | count n => exact hr.repeated (.count n)
      | forever => exact hr.repeated .forever
    | count n =>
      have hproduct := ha.toDraft.bind fun _ _ hp => hp.repeated (.count n)
      cases ha <;> exact hproduct
    | forever =>
      have hproduct := ha.toDraft.bind fun _ _ hp => hp.repeated .forever
      cases ha <;> exact hproduct

/-- An expression is drafted as it is evaluated, once its values are known to be durations. -/
theorem Expr.draft_eval (h : ∀ t ∈ e.values, isCount t = false → ∃ ms, checked separator t = .ok ms) :
    Likewise (Operand.Drafts separator) (e.draft separator) (e.eval separator) := by
  induction e with
  | value t =>
    cases hcount : isCount t with
    | true =>
      rw [Expr.draft, Expr.eval, if_pos hcount, if_pos hcount]
      cases readCount t with
      | error x => exact .error x
      | ok n => exact .ok (.count n)
    | false =>
      obtain ⟨ms,hms⟩ := h t List.mem_cons_self hcount
      rw [Expr.draft, Expr.eval, hcount, hms]
      exact .ok (.run (.text (checked_eq_ok hms).1))
  | forever => exact .ok .forever
  | op o a b iha ihb =>
    have ha := iha fun t ht => h t (List.mem_append_left _ ht)
    have hb := ihb fun t ht => h t (List.mem_append_right _ ht)
    exact ha.bind fun _ _ hp => hb.bind fun _ _ hq => (o.draft_apply hp hq).map fun _ _ => .run

theorem Draft.ofTokens_ofTokens (text : List Char) :
    Likewise (Drafted separator) (Draft.ofTokens separator (tokens text)) (Run.ofTokens separator (tokens text)) := by
  rw [Draft.ofTokens, Run.ofTokens]
  cases hcheck : checkValues separator (tokens text) with
  | error x => exact .error x
  | ok u =>
    have hvalues := checkValues_eq_ok.mp hcheck
    cases hparse : Expr.ofTokens (tokens text) with
    | error x => exact .error x
    | ok e =>
      have hmem := (openBehind_of_ofTokens hparse).2
      have hdraft := Expr.draft_eval fun t ht => hvalues t ((hmem t).mp ht)
      exact hdraft.bind fun _ _ hp => hp.toDraft

theorem Draft.read_read (separator : String) (text : List Char) :
    Likewise (Drafted separator) (Draft.read separator text) (Run.read separator text) := by
  rw [Draft.read, Run.read]
  split
  · exact Draft.ofTokens_ofTokens text
  · cases Duration.read separator text with
    | error e => exact .error _
    | ok ms => exact .ok (.known ms)

namespace Draft

inductive Step where
  | ended
  | reads (d : Except DurationError Int) (rest : List Draft)
  | moves (rest : List Draft)

inductive Late where
  | unfinished
  | invalid (e : DurationError)
  deriving DecidableEq, Repr

def step (separator : String) : List Draft → Step
  | [] => .ended
  | .known ms :: ds => .reads (.ok ms) ds
  | .text t :: ds => .reads (Duration.read separator t) ds
  | .append a b :: ds => .moves (a :: b :: ds)
  | .repeated _ (.times 0) :: ds => .moves ds
  | .repeated d (.times (n + 1)) :: ds => .moves (d :: .repeated d (.times n) :: ds)
  | .repeated d .forever :: ds => .moves (d :: .repeated d .forever :: ds)

def next (separator : String) : (steps : Nat) → List Draft → Except Late (Option (Int × List Draft))
  | 0, _ => .error .unfinished
  | n + 1, ds => match step separator ds with
    | .ended => .ok none
    | .reads (.ok ms) ds => .ok (some (ms,ds))
    | .reads (.error e) _ => .error (.invalid e)
    | .moves ds => next separator n ds

def take (separator : String) (steps : Nat) : (count : Nat) → List Draft → Except Late (List Int)
  | 0, _ => .ok []
  | k + 1, ds => do
    match ← next separator steps ds with
    | none => return []
    | some (ms,ds) => return ms :: (← take separator steps k ds)

def height : Draft → Nat
  | .known _ | .text _ => 1
  | .append a b => max a.height b.height + 1
  | .repeated d _ => d.height + 1

/-- As many steps as each duration takes. -/
def pace (d : Draft) : Nat := 2 * d.height + 1

variable {m n : Nat} {ds : List Draft}

theorem next_mono {x : Option (Int × List Draft)} (h : next separator n ds = .ok x) (hn : n ≤ m) :
    next separator m ds = .ok x := by
  induction n generalizing m ds with
  | zero => contradiction
  | succ n ih =>
    obtain ⟨k,rfl⟩ : ∃ k, m = k + 1 := ⟨m - 1,by omega⟩
    unfold next at h ⊢
    cases hstep : step separator ds with
    | ended => simpa [hstep] using h
    | reads d ds =>
      cases d with
      | error e => simp [hstep] at h
      | ok ms => simpa [hstep] using h
    | moves ds =>
      rw [hstep] at h
      exact ih h (Nat.le_of_succ_le_succ hn)

/-- Drafts of the runs of a cursor, among which there may be repetitions that have no more rounds. Each of
them has a level above `low`, which grows from one to the next, and is no higher than its level. -/
inductive Tracks (separator : String) (top : Nat) : (low : Nat) → List Draft → Cursor → Prop
  | nil {low : Nat} (h : low ≤ top) : Tracks separator top low [] []
  | played {low level : Nat} {d : Draft} {ds : List Draft} {c : Cursor} (h : low < level)
      (hds : Tracks separator top level ds c) : Tracks separator top low (.repeated d (.times 0) :: ds) c
  | cons {low level : Nat} {d : Draft} {r : Run} {ds : List Draft} {c : Cursor} (h : low < level)
      (hd : Drafted separator d r) (hheight : d.height ≤ level) (hds : Tracks separator top level ds c) :
      Tracks separator top low (d :: ds) (r :: c)

variable {top low level : Nat} {c : Cursor}

theorem Tracks.le_top (h : Tracks separator top low ds c) : low ≤ top := by
  induction h with
  | nil h => exact h
  | played h _ ih => omega
  | cons h _ _ _ ih => omega

theorem Tracks.mono (h : Tracks separator top level ds c) (hlow : low ≤ level) :
    Tracks separator top low ds c := by
  cases h with
  | nil h => exact .nil (Nat.le_trans hlow h)
  | played h hds => exact .played (Nat.lt_of_le_of_lt hlow h) hds
  | cons h hd hheight hds => exact .cons (Nat.lt_of_le_of_lt hlow h) hd hheight hds

/-- The first duration of a draft comes after at most as many steps as it is high, and it is not too late to
read it. -/
theorem Tracks.next_cons (hd : Drafted separator d r) (hheight : d.height ≤ level)
    (hds : Tracks separator top level ds c) :
    ∃ n ds', n ≤ d.height ∧ next separator n (d :: ds) = .ok (some ((r.uncons c).1,ds')) ∧
      Tracks separator top 0 ds' (r.uncons c).2 := by
  induction hd generalizing level ds c with
  | known ms => exact ⟨1,ds,Nat.le_refl _,rfl,hds.mono (Nat.zero_le _)⟩
  | text h => exact ⟨1,ds,Nat.le_refl _,by simp [next, step, h, Run.uncons],hds.mono (Nat.zero_le _)⟩
  | @append a b p q ha hb iha _ =>
    rw [height] at hheight
    have hlevel : level - 1 < level := by omega
    have hfirst : a.height ≤ level - 1 := by omega
    obtain ⟨n,ds',hn,hnext,htracks⟩ := iha hfirst (.cons hlevel hb (by omega) hds)
    exact ⟨n + 1,ds',by rw [height]; omega,hnext,htracks⟩
  | @times d r more h ih =>
    rw [height] at hheight
    have hlevel : level - 1 < level := by omega
    have hrest : Tracks separator top (level - 1) (.repeated d (.times more) :: ds) (r.rest (some more) ++ c) := by
      cases more with
      | zero => exact .played hlevel hds
      | succ m => exact .cons hlevel (h.times m) hheight hds
    obtain ⟨n,ds',hn,hnext,htracks⟩ := ih (by omega) hrest
    exact ⟨n + 1,ds',by rw [height]; omega,hnext,htracks⟩
  | @forever d r h ih =>
    rw [height] at hheight
    have hlevel : level - 1 < level := by omega
    have hrest : Tracks separator top (level - 1) (.repeated d .forever :: ds) (r.rest none ++ c) :=
      .cons hlevel h.forever hheight hds
    obtain ⟨n,ds',hn,hnext,htracks⟩ := ih (by omega) hrest
    exact ⟨n + 1,ds',by rw [height]; omega,hnext,htracks⟩

inductive Follows (separator : String) (top : Nat) : Option (Int × List Draft) → Option (Int × Cursor) → Prop
  | ended : Follows separator top none none
  | next {ms : Int} {ds : List Draft} {c : Cursor} (h : Tracks separator top 0 ds c) :
      Follows separator top (some (ms,ds)) (some (ms,c))

/-- Repetitions that have no more rounds are passed over. As their levels grow, there are no more of them than
levels. -/
theorem Tracks.exists_next (h : Tracks separator top low ds c) :
    ∃ n x, n ≤ top - low + top + 1 ∧ next separator n ds = .ok x ∧
      Follows separator top x (Cursor.next? c) := by
  induction h with
  | nil h => exact ⟨1,none,by omega,rfl,.ended⟩
  | played h hds ih =>
    obtain ⟨n,x,hn,hnext,hx⟩ := ih
    have htop := hds.le_top
    exact ⟨n + 1,x,by omega,hnext,hx⟩
  | cons h hd hheight hds ih =>
    obtain ⟨n,ds',hn,hnext,htracks⟩ := Tracks.next_cons hd hheight hds
    have htop := hds.le_top
    exact ⟨n,_,by omega,hnext,.next htracks⟩

theorem Tracks.next (h : Tracks separator top 0 ds c) :
    ∃ x, next separator (2 * top + 1) ds = .ok x ∧ Follows separator top x (Cursor.next? c) := by
  obtain ⟨n,x,hn,hnext,hx⟩ := h.exists_next
  exact ⟨x,next_mono hnext (by omega),hx⟩

theorem Tracks.take (h : Tracks separator top 0 ds c) (k : Nat) :
    take separator (2 * top + 1) k ds = .ok (Cursor.take k c) := by
  induction k generalizing ds c with
  | zero => rfl
  | succ k ih =>
    obtain ⟨x,hnext,hx⟩ := h.next
    rw [Draft.take, hnext, Cursor.take]
    generalize Cursor.next? c = y at hx
    cases hx with
    | ended => rfl
    | next hrest =>
      simp only [bind, Except.bind, ih hrest]
      rfl

theorem Tracks.start (h : Drafted separator d r) : Tracks separator d.height 0 [d] [r] := by
  have hpos : 0 < d.height := by cases d <;> simp [height]
  exact .cons hpos h (Nat.le_refl _) (.nil (Nat.le_refl _))

end Draft
end Sequence
end Countdown
