import Countdown.Duration.Token
import Countdown.Sequence.Token
set_option autoImplicit false

namespace Countdown

inductive SequenceError where
  | duration (e : DurationError)
  | missingOperand
  | unexpected (text : String)
  | unbalanced
  | zeroDuration (text : String)
  | twoDurations
  | zeroTimes
  | countTooLong (digits : Nat)
  | tooNested
  deriving DecidableEq, Repr

def SequenceError.message : SequenceError → String
  | .duration e => e.message
  | .missingOperand => "Input is empty"
  | .unexpected t => s!"Unexpected '{t}'"
  | .unbalanced => "Unbalanced parentheses"
  | .zeroDuration t => s!"Durations in a sequence must be longer than 0 ('{t}')"
  | .twoDurations => "Cannot multiply two durations"
  | .zeroTimes => "Cannot repeat 0 times"
  | .countTooLong n =>
    s!"Exceeds the limit ({Text.maxDigits} digits) for integer string conversion: value has {n} " ++
      "digits; use sys.set_int_max_str_digits() to increase the limit"
  | .tooNested => "Expression is nested too deeply"

def SequenceError.isInputFault : SequenceError → Bool
  | .duration e => e.isInputFault
  | .countTooLong _ => false
  | _ => true

end Countdown

namespace Countdown.Sequence

inductive Op where
  | add
  | mul
  deriving DecidableEq, Repr

inductive Expr where
  | value (text : List Char)
  | forever
  | op (o : Op) (left right : Expr)
  deriving DecidableEq, Repr

/-- How tightly an operator binds what stands on its left and on its right. -/
def Op.leftPower : Op → Nat
  | .add => 1
  | .mul => 3

def Op.rightPower : Op → Nat
  | .add => 2
  | .mul => 4

def Op.token : Op → Token
  | .add => .plus
  | .mul => .times

def Token.op? : Token → Option Op
  | .plus => some .add
  | .times => some .mul
  | _ => none

def Token.label : Token → String
  | .forever => "None"
  | t => String.ofList t.chars

/-- An operand that is missing after an operator is blamed on the operator. -/
def blame (o : Op) : SequenceError → SequenceError
  | .missingOperand => .unexpected o.token.label
  | e => e

abbrev Parsed := Except SequenceError (Expr × List Token)

/-- With no left operand, reads an operand and goes on with it; with one, reads the operators that
bind it at least as tightly as `power`, each with its right operand. The fuel bounds the nesting of
calls, and twice the number of tokens is always enough. -/
def Expr.parse : (fuel power : Nat) → Option Expr → List Token → Parsed
  | 0, _, _, _ => .error .tooNested
  | fuel + 1, power, none, ts => match ts with
    | [] => .error .missingOperand
    | .value t :: rest => Expr.parse fuel power (some (.value t)) rest
    | .forever :: rest => Expr.parse fuel power (some .forever) rest
    | .opening :: rest => match Expr.parse fuel 0 none rest with
      | .error e => .error e
      | .ok (e, .closing :: rest) => Expr.parse fuel power (some e) rest
      | .ok _ => .error .unbalanced
    | t :: _ => .error (.unexpected t.label)
  | fuel + 1, power, some left, ts => match ts with
    | [] => .ok (left, [])
    | t :: rest =>
      if t.isValue then .error (.unexpected t.label) else
      match t.op? with
      | none => .ok (left, ts)
      | some o =>
        if o.leftPower < power then .ok (left, ts) else
        match Expr.parse fuel o.rightPower none rest with
        | .error e => .error (blame o e)
        | .ok (right, rest) => Expr.parse fuel power (some (.op o left right)) rest

def Expr.ofTokens (ts : List Token) : Except SequenceError Expr :=
  match Expr.parse (2 * ts.length + 1) 0 none ts with
  | .error e => .error e
  | .ok (e, []) => .ok e
  | .ok _ => .error .unbalanced

end Countdown.Sequence
