import Countdown.Proofs.Duration.Character
import Countdown.Proofs.Duration.Token
set_option autoImplicit false

namespace Countdown.Duration
open Number

/-- A number and a word for its unit, in any mix of cases. -/
structure Measure where
  number : Numeral
  word : List Char
  unit : TimeUnit
  spelled : String.ofList (word.map Char.toLower) ∈ unit.spellings

/-- A duration as it is written, white space apart. -/
inductive Written where
  | bare (n : Numeral)
  /-- Two to four numbers with separators between them, of which each may be left out. -/
  | clock (ns : List (Option Numeral)) (several : 2 ≤ ns.length) (few : ns.length ≤ maxSeparators + 1)
  /-- Numbers with units, and perhaps one more number behind them if the last unit has a smaller
  one. -/
  | measures (before : List Measure) (last : Measure) (more : Option Numeral)
      (smaller : more ≠ none → last.unit ≠ .ms)

def clockUnit : (behind : Nat) → TimeUnit
  | 0 => .s
  | 1 => .m
  | 2 => .h
  | _ => .d

def clockTerms : List (Option Numeral) → List (Numeral × TimeUnit)
  | [] => []
  | n :: ns => n.toList.map (fun n => (n,clockUnit ns.length)) ++ clockTerms ns

def Measure.chars (m : Measure) : List Char := m.number.chars ++ m.word

def Measure.term (m : Measure) : Numeral × TimeUnit := (m.number,m.unit)

def charsOf (n : Option Numeral) : List Char := (n.map Numeral.chars).getD []

/-- The total of numbers of units, added from left to right, unless it becomes too great on the way. -/
def addTerms (x : Decimal) : List (Numeral × TimeUnit) → Option Decimal
  | [] => some x
  | t :: ts => (addUnits x t.1.value t.2).bind fun y => addTerms y ts

namespace Written

def chars (c : Char) : Written → List Char
  | bare n => n.chars
  | clock ns _ _ => [c].intercalate (ns.map charsOf)
  | measures before last more _ => (before ++ [last]).flatMap Measure.chars ++ charsOf more

/-- What a duration adds up to, in milliseconds: a bare number is of minutes, and one behind the
last unit is of the next smaller one. -/
def total : Written → Option Decimal
  | bare n => n.value.scale TimeUnit.m.size
  | clock ns _ _ => addTerms .zero (clockTerms ns)
  | measures before last more _ => addTerms .zero ((before ++ [last]).map Measure.term ++
      more.toList.map fun n => (n,last.unit.smaller.getD .ms))

end Written

variable {c : Char} {n : Numeral} {ns : List (Option Numeral)} {ts : List Token} {x : Decimal}

def numberToken (n : Numeral) : Token := ⟨.number,n.chars⟩

def separatorToken (c : Char) : Token := ⟨.separator,[c]⟩

def Measure.tokens (m : Measure) : List Token := [numberToken m.number,⟨.letter,m.word⟩]

def clockTokens (c : Char) : List (Option Numeral) → List Token
  | [] => []
  | [n] => n.toList.map numberToken
  | n :: ns => n.toList.map numberToken ++ separatorToken c :: clockTokens c ns

def Written.tokens (c : Char) : Written → List Token
  | bare n => [numberToken n]
  | clock ns _ _ => clockTokens c ns
  | measures before last more _ =>
    (before ++ [last]).flatMap Measure.tokens ++ more.toList.map numberToken

theorem clockTokens_cons (n : Option Numeral) (hns : ns ≠ []) : clockTokens c (n :: ns) =
    n.toList.map numberToken ++ separatorToken c :: clockTokens c ns := by
  cases ns with
  | nil => contradiction
  | cons n' ns => rfl

theorem render_number (n : Option Numeral) : render (n.toList.map numberToken) = charsOf n := by
  cases n <;> simp [charsOf, numberToken]

theorem render_clockTokens (c : Char) (ns : List (Option Numeral)) :
    render (clockTokens c ns) = [c].intercalate (ns.map charsOf) := by
  induction ns with
  | nil => rfl
  | cons n ns ih =>
    cases ns with
    | nil => simp [clockTokens, render_number]
    | cons n' ns => simp [clockTokens_cons, render_number, ih, separatorToken]

theorem Written.render_tokens (w : Written) (c : Char) : render (w.tokens c) = w.chars c := by
  cases w with
  | bare n => simp [tokens, chars, numberToken]
  | clock ns _ _ => exact render_clockTokens c ns
  | measures before last more _ =>
    have hmeasures : ∀ ms : List Measure, render (ms.flatMap Measure.tokens) = ms.flatMap Measure.chars := by
      intro ms
      induction ms with
      | nil => rfl
      | cons m ms ih => simp [Measure.tokens, Measure.chars, numberToken, ih]
    simp only [tokens, chars, render_append, hmeasures, render_number]

theorem isMade_number (hc : isSeparator c = true) (n : Numeral) :
    (numberToken n).IsMade (String.ofList [c]) :=
  ⟨chars_ne_nil n,fun _ hd => kindOf?_number hc (isNumberChar_of_mem_chars hd),by simp [numberToken]⟩

theorem isMade_separator (c : Char) : (separatorToken c).IsMade (String.ofList [c]) := by
  refine ⟨by simp [separatorToken],?_,fun _ => rfl⟩
  intro d hd
  exact kindOf?_eq_separator_iff.mpr (List.mem_singleton.mp hd)

theorem isMade_word (hc : isSeparator c = true) (m : Measure) :
    Token.IsMade (String.ofList [c]) ⟨.letter,m.word⟩ := by
  obtain ⟨hne,hletters⟩ := isLetter_of_mem_word m.spelled
  exact ⟨hne,fun d hd => kindOf?_letter hc (hletters d hd),by simp⟩

theorem lexed_number (hc : isSeparator c = true) (n : Option Numeral)
    (hts : Lexed (String.ofList [c]) ts) (hfirst : ∀ u, ts.head? = some u → u.kind ≠ .number) :
    Lexed (String.ofList [c]) (n.toList.map numberToken ++ ts) := by
  cases n with
  | none => exact hts
  | some n => exact .cons (isMade_number hc n) (fun u hu hk => absurd hk.symm (hfirst u hu)) hts

theorem lexed_clockTokens (hc : isSeparator c = true) (ns : List (Option Numeral)) :
    Lexed (String.ofList [c]) (clockTokens c ns) := by
  induction ns with
  | nil => exact .nil
  | cons n ns ih =>
    cases ns with
    | nil =>
      have hlast := lexed_number hc n .nil (by simp)
      rwa [List.append_nil] at hlast
    | cons n' ns =>
      rw [clockTokens_cons n (by simp)]
      exact lexed_number hc n (.cons (isMade_separator c) (fun _ _ _ => rfl) ih)
        (by simp [separatorToken])

theorem lexed_measures (hc : isSeparator c = true) (ms : List Measure)
    (hts : Lexed (String.ofList [c]) ts) (hfirst : ∀ u, ts.head? = some u → u.kind = .number) :
    Lexed (String.ofList [c]) (ms.flatMap Measure.tokens ++ ts) := by
  induction ms with
  | nil => exact hts
  | cons m ms ih =>
    have hnext : ∀ u, (ms.flatMap Measure.tokens ++ ts).head? = some u → u.kind = .number := by
      cases ms with
      | nil => exact hfirst
      | cons m ms =>
        intro u hu
        cases hu
        rfl
    refine .cons (isMade_number hc m.number) (by simp [numberToken]) (.cons (isMade_word hc m) ?_ ih)
    intro u hu hk
    rw [hnext u hu] at hk
    contradiction

theorem Written.lexed (hc : isSeparator c = true) (w : Written) :
    Lexed (String.ofList [c]) (w.tokens c) := by
  cases w with
  | bare n => exact .cons (isMade_number hc n) (by simp) .nil
  | clock ns _ _ => exact lexed_clockTokens hc ns
  | measures before last more _ =>
    refine lexed_measures hc _ ?_ ?_
    · have hlast := lexed_number hc more .nil (by simp)
      rwa [List.append_nil] at hlast
    · cases more with
      | none => simp
      | some n => simp [numberToken]

end Countdown.Duration
