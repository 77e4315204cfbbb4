import Countdown.Proofs.Duration.Character
import Countdown.Proofs.Duration.Overflow
import Countdown.Proofs.Sequence.Grammar
import Countdown.Proofs.Sequence.Playlist
import Countdown.Proofs.Sequence.Token
import Countdown.Sequence.Run
set_option autoImplicit false

namespace Countdown

/-- What the reader fails with where the text is not at fault: a number on the way is too great to be computed,
or a count has too many digits. -/
def SequenceError.TooGreat (e : SequenceError) : Prop := e = .duration .overflow ∨ ∃ n, e = .countTooLong n

theorem SequenceError.isInputFault_eq_false {e : SequenceError} : e.isInputFault = false ↔ e.TooGreat := by
  cases e <;> simp [isInputFault, TooGreat, Duration.isInputFault_eq_false]

end Countdown

namespace Countdown.Sequence

inductive Rounds where
  | times (n : Nat)
  | forever
  deriving DecidableEq, Repr

def Playlist.repeated (p : Playlist) : Rounds → Playlist
  | .times n => p.times n
  | .forever => p.forever

def Expr.rounds? : Expr → Option Rounds
  | .value t => if isCount t then some (.times (Text.natOfAscii t)) else none
  | .forever => some .forever
  | .op _ _ _ => none

/-- What a product repeats, and how often: of two counts the first one is repeated. -/
def Expr.repetition? (a b : Expr) : Option (Expr × Rounds) :=
  match a.rounds?, b.rounds? with
  | _, some n => some (a,n)
  | some n, none => some (b,n)
  | none, none => none

/-- The duration of a value; a count is one of minutes. -/
def durationOf (separator : String) (t : List Char) : Except DurationError Int :=
  if isCount t then Duration.limit (Text.natOfAscii t * TimeUnit.m.size : Nat)
  else Duration.read separator t

def Expr.durations (separator : String) : Expr → Playlist
  | .value t => .ends (durationOf separator t).toOption.toList
  | .forever => .ends []
  | .op .add a b => (a.durations separator).append (b.durations separator)
  | .op .mul a b => match a.rounds?, b.rounds? with
    | _, some n => (a.durations separator).repeated n
    | some n, none => (b.durations separator).repeated n
    | none, none => .ends []

/-- An invalid duration or one of zero, a product of two runs, or a repetition of zero rounds, in a
place where durations are wanted. -/
inductive Expr.Faulty (separator : String) : Expr → Prop
  | value {t : List Char} (h : ∀ ms, durationOf separator t = .ok ms → ms = 0) :
      Faulty separator (.value t)
  | first {a b : Expr} (h : Faulty separator a) : Faulty separator (.op .add a b)
  | second {a b : Expr} (h : Faulty separator b) : Faulty separator (.op .add a b)
  | runs {a b : Expr} (h : repetition? a b = none) : Faulty separator (.op .mul a b)
  | zero {a b r : Expr} (h : repetition? a b = some (r,.times 0)) : Faulty separator (.op .mul a b)
  | repeated {a b r : Expr} {n : Rounds} (h : repetition? a b = some (r,n))
      (hr : Faulty separator r) : Faulty separator (.op .mul a b)

def Expr.values : Expr → List (List Char)
  | .value t => [t]
  | .forever => []
  | .op _ a b => a.values ++ b.values

/-- An open count stands only behind a `*`. -/
def Expr.OpenBehind : Expr → Prop
  | .value _ => True
  | .forever => False
  | .op .add a b => a.OpenBehind ∧ b.OpenBehind
  | .op .mul a b => a.OpenBehind ∧ (b = .forever ∨ b.OpenBehind)

theorem Derivation.mem_values {l : Level} (d : Derivation l) {t : List Char} :
    t ∈ d.expr.values ↔ Token.value t ∈ d.tokens := by
  induction d <;> simp_all [expr, tokens, Expr.values]

def AfterTimes (ts : List Token) : Prop :=
  ∀ before after, ts = before ++ .forever :: after → before.getLast? = some .times

theorem AfterTimes.of_append {ts us : List Token} (h : AfterTimes (ts ++ us)) : AfterTimes ts := by
  rintro before after rfl
  exact h before (after ++ us) (by simp)

theorem Derivation.openBehind {l : Level} (d : Derivation l) {before : List Token}
    (h : AfterTimes (before ++ d.tokens)) (hopen : l.Opens before) :
    d.expr.OpenBehind ∨ d.expr = .forever ∧ before.getLast? = some .times := by
  induction d generalizing before with
  | add a b iha ihb =>
    have hsplit : before ++ (add a b).tokens = before ++ a.tokens ++ [.plus] ++ b.tokens := by simp [tokens]
    rw [hsplit] at h
    have ha := iha h.of_append.of_append hopen
    have hb := ihb h (by simp [Level.Opens])
    refine Or.inl ⟨?_,?_⟩
    · simpa [hopen.2] using ha
    · simpa using hb
  | product a iha => exact iha h hopen.2
  | mul a b iha ihb =>
    have hsplit : before ++ (mul a b).tokens = before ++ a.tokens ++ [.times] ++ b.tokens := by simp [tokens]
    rw [hsplit] at h
    have ha := iha h.of_append.of_append hopen
    have hb := ihb h trivial
    refine Or.inl ⟨?_,?_⟩
    · simpa [show before.getLast? ≠ some .times from hopen] using ha
    · exact hb.symm.imp_left And.left
  | operand a iha => exact iha h trivial
  | value t => exact Or.inl trivial
  | forever => exact Or.inr ⟨rfl,h before [] rfl⟩
  | group a iha =>
    have hsplit : before ++ (group a).tokens = before ++ [.opening] ++ a.tokens ++ [.closing] := by simp [tokens]
    rw [hsplit] at h
    have ha := iha h.of_append (by simp [Level.Opens])
    exact Or.inl (by simpa [expr] using ha)

theorem Normal.afterTimes {ts : List Token} (h : Normal ts) : AfterTimes ts := by
  rintro before after rfl
  obtain ⟨j,hj,htimes⟩ := h.openCount before.length (by simp)
  rw [List.getElem?_append_left (by omega)] at htimes
  rwa [List.getLast?_eq_getElem?, hj]

/-- In the expression of a text, open counts stand only behind a `*`. -/
theorem openBehind_of_ofTokens {text : List Char} {e : Expr} (h : Expr.ofTokens (tokens text) = .ok e) :
    e.OpenBehind ∧ ∀ t, t ∈ e.values ↔ Token.value t ∈ tokens text := by
  obtain ⟨d,hd⟩ | ⟨x,hx,-⟩ := ofTokens_reads (tokens text)
  · rw [← hd, d.ofTokens_tokens] at h
    cases h
    have hafter : AfterTimes ([] ++ d.tokens) := by
      rw [List.nil_append, hd]
      exact (normal_tokens text).afterTimes
    refine ⟨?_,fun t => by rw [d.mem_values, hd]⟩
    simpa using d.openBehind hafter (by simp [Level.Opens])
  · rw [hx] at h
    contradiction

variable {ds : List Char}

theorem operator?_of_isAsciiDigit {c : Char} (h : Text.isAsciiDigit c = true) : Token.operator? c = none := by
  unfold Token.operator?
  split <;> first
    | contradiction
    | rfl

theorem tokens_times (hdigits : ∀ c ∈ ds, Text.isAsciiDigit c = true) (hne : ds ≠ []) :
    tokens ('1' :: 'm' :: '*' :: ds) = [.value ['1','m'],.times,.value ds] := by
  have hblank : ∀ c ∈ ds, Text.isBlank c = false := fun c hc =>
    Duration.isBlank_of_isNumberChar (by simp [Duration.isNumberChar, hdigits c hc])
  have hsplit : split [] ('1' :: 'm' :: '*' :: ds) = [.value ['1','m'],.times,.value ds] := by
    change [Token.value ['1','m'],.times] ++ split [] ds = _
    rw [split_plain fun c hc => operator?_of_isAsciiDigit (hdigits c hc), valueOf]
    simp [Text.trim_plain hblank, hne]
  rw [tokens, hsplit]
  rfl

theorem read_long_count (hdigits : ∀ c ∈ ds, Text.isAsciiDigit c = true) (hlong : Text.maxDigits < ds.length) :
    Run.read ":" ('1' :: 'm' :: '*' :: ds) = .error (.countTooLong ds.length) := by
  have hne : ds ≠ [] := by
    rintro rfl
    exact Nat.not_lt_zero _ hlong
  have hcount : isCount ds = true := by
    have hall : ds.all Text.isAsciiDigit = true := List.all_eq_true.mpr hdigits
    simp [isCount, hne, hall]
  have hvalue : isCount ['1','m'] = false := rfl
  have hminute : checked ":" ['1','m'] = .ok 60000 := rfl
  have hvalues : checkValues ":" [.value ['1','m'],.times,.value ds] = .ok () := by
    simp [checkValues, hcount, hvalue, hminute, bind, Except.bind]
  have hparse : Expr.ofTokens [.value ['1','m'],.times,.value ds] =
      .ok (.op .mul (.value ['1','m']) (.value ds)) := rfl
  have hread : readCount ds = .error (.countTooLong ds.length) := by simp [readCount, hlong]
  have hsequence : isSequence ('1' :: 'm' :: '*' :: ds) = true := rfl
  rw [Run.read, hsequence, if_pos rfl, tokens_times hdigits hne, Run.ofTokens, hvalues, hparse]
  simp [Expr.eval, hcount, hvalue, hminute, hread, bind, Except.bind, Except.map]

end Countdown.Sequence
