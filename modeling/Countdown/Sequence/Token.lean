import Countdown.Text.Character
set_option autoImplicit false

/-!
The tokens of a sequence: operators and the values between them. A value next to a group gets the
`*` that it implies, and a `*` without a count gets an open one.
-/

namespace Countdown.Sequence

inductive Token where
  | value (text : List Char)
  | forever
  | plus
  | times
  | opening
  | closing
  deriving DecidableEq, Repr

namespace Token

def isValue : Token → Bool
  | .value _ | .forever => true
  | _ => false

def operator? : Char → Option Token
  | '+' => some .plus
  | '*' => some .times
  | '(' => some .opening
  | ')' => some .closing
  | _ => none

def chars : Token → List Char
  | .value t => t
  | .forever => []
  | .plus => ['+']
  | .times => ['*']
  | .opening => ['(']
  | .closing => [')']

def render (ts : List Token) : List Char := ts.flatMap chars

end Token

def isSequence (text : List Char) : Bool := text.any fun c => (Token.operator? c).isSome

/-- The value in the characters since the last operator, if they are not all white space. -/
def valueOf (current : List Char) : List Token :=
  let t := Text.trim current
  if t.isEmpty then [] else [.value t]

/-- The operators and values of a text; `current` holds what stands before it in reverse. -/
def split (current : List Char) : List Char → List Token
  | [] => valueOf current.reverse
  | c :: rest => match Token.operator? c with
    | some op => valueOf current.reverse ++ op :: split [] rest
    | none => split (c :: current) rest

/-- What a token implies before the token that follows it. -/
def implied (t : Token) (next : Option Token) : List Token :=
  match t with
  | .closing => if next.any Token.isValue then [.times] else []
  | .value _ => if next = some .opening then [.times] else []
  | .times => if next = some .opening ∨ next.any Token.isValue then [] else [.forever]
  | _ => []

def complete : List Token → List Token
  | [] => []
  | t :: ts => t :: implied t ts.head? ++ complete ts

def tokens (text : List Char) : List Token := complete (split [] text)

/-- A value of ASCII digits alone, which is read as a count. -/
def isCount (t : List Char) : Bool := !t.isEmpty && t.all Text.isAsciiDigit

end Countdown.Sequence
