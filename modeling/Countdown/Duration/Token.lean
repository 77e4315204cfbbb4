import Countdown.Text.Character
set_option autoImplicit false

namespace Countdown

inductive DurationError where
  | empty
  | invalidCharacter (c : Char)
  | invalidNumber (text : String)
  | invalidUnit (text : String)
  | mixedNotations
  | tooManySeparators (count : Nat)
  | notOneNumber
  | unitWithoutNumber (text : String)
  | belowMilliseconds
  | tooLong
  | overflow
  deriving DecidableEq, Repr

def maxSeparators : Nat := 3

def maxDays : Nat := 10000

def DurationError.message : DurationError → String
  | .empty => "Input is empty"
  | .invalidCharacter c => s!"Invalid character '{c}'"
  | .invalidNumber t => s!"Invalid number '{t}'"
  | .invalidUnit t => s!"Invalid unit '{t}'"
  | .mixedNotations => "Cannot mix separators and units"
  | .tooManySeparators n => s!"Too many separators (max {maxSeparators}, got {n})"
  | .notOneNumber => "Expected a single number"
  | .unitWithoutNumber t => s!"Unit '{t}' has no number"
  | .belowMilliseconds => "No units smaller than ms accepted"
  | .tooLong => s!"Duration is too long (max {maxDays} days)"
  | .overflow => "[<class 'decimal.Overflow'>]"

/-- Whether the text is at fault in the eyes of a caller that offers it to be corrected. -/
def DurationError.isInputFault : DurationError → Bool
  | .overflow => false
  | _ => true

end Countdown

namespace Countdown.Duration

inductive Kind where
  | number
  | letter
  | separator
  deriving DecidableEq, Repr

structure Token where
  kind : Kind
  text : List Char
  deriving DecidableEq, Repr

def isNumberChar (c : Char) : Bool := Text.isAsciiDigit c || c == '.' || c == '-'

def isLetter (c : Char) : Bool := ('a' ≤ c && c ≤ 'z') || ('A' ≤ c && c ≤ 'Z')

/-- The kind of a character. The separator is a text that is compared with single characters, so
that an empty or longer one never occurs. -/
def kindOf? (separator : String) (c : Char) : Option Kind :=
  if separator.toList = [c] then some .separator
  else if isLetter c then some .letter
  else if isNumberChar c then some .number
  else none

def classify (separator : String) : List Char → Except DurationError (List (Kind × Char))
  | [] => .ok []
  | c :: rest => match kindOf? separator c with
    | none => .error (.invalidCharacter c)
    | some k => (classify separator rest).map ((k, c) :: ·)

/-- Puts a character before tokens; it joins the first of them if both are of one kind and no
separators. -/
def Token.cons (k : Kind) (c : Char) : List Token → List Token
  | t :: ts => if k = t.kind ∧ k ≠ .separator then ⟨k, c :: t.text⟩ :: ts else ⟨k, [c]⟩ :: t :: ts
  | [] => [⟨k, [c]⟩]

def tokens (separator : String) (text : List Char) : Except DurationError (List Token) :=
  (classify separator (Text.squeeze text)).map (List.foldr (fun p ts => Token.cons p.1 p.2 ts) [])

end Countdown.Duration
