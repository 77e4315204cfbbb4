import Countdown.Settings.Basic
import Countdown.Text.Character
set_option autoImplicit false

namespace Countdown.Terminal

inductive Switch where
  | help
  | until
  | settings
  | debug
  | serve
  | tcpPort
  deriving DecidableEq, Repr

def Switch.takesValue : Switch → Bool
  | .settings | .tcpPort => true
  | _ => false

def names : List (String × Switch) :=
  [("-h", .help), ("--help", .help), ("--until", .until), ("-u", .until),
   ("--settings", .settings), ("-s", .settings), ("--debug", .debug), ("--serve", .serve),
   ("--port", .tcpPort), ("-p", .tcpPort)]

def named? (name : List Char) : Option Switch :=
  (names.find? fun p => p.1.toList == name).map (·.2)

structure Options where
  duration : Option String := none
  untilTime : Bool := false
  settings : Option String := none
  debug : Bool := false
  serve : Bool := false
  tcpPort : Option Int := none
  deriving DecidableEq, Repr

inductive UsageError where
  | ambiguous (word : String)
  | unknown (words : List String)
  | missingValue (s : Switch)
  | unwantedValue (s : Switch)
  | invalidPort (text : String)
  | noDuration
  deriving DecidableEq, Repr

inductive Halt where
  | help
  | usage (e : UsageError)
  deriving DecidableEq, Repr

def Switch.name (s : Switch) : String :=
  match s with
  | .help => "--help"
  | .until => "--until"
  | .settings => "--settings"
  | .debug => "--debug"
  | .serve => "--serve"
  | .tcpPort => "--port"

def UsageError.message : UsageError → String
  | .ambiguous w => s!"ambiguous option: {w}"
  | .unknown ws => "unrecognized arguments: " ++ " ".intercalate ws
  | .missingValue s => s!"argument {s.name}: expected one argument"
  | .unwantedValue s => s!"argument {s.name}: takes no value"
  | .invalidPort t => s!"argument {Switch.tcpPort.name}: invalid number: '{t}'"
  | .noDuration => "a duration is required unless --serve is given"

def usage : String :=
  "usage: timerdeck [-h] [--until] [--settings FILE] [--debug] [--serve] [--port PORT] [duration]"

def help : String :=
  String.intercalate "\n"
    [usage, "",
     "A countdown timer in the terminal, or as a local web API.", "",
     "  duration        like 90, 1:30 or 1h 30m (a bare number is minutes)",
     "  -u, --until     the duration is a time of day, like 5:30pm",
     "  -s, --settings  the file of the settings",
     "  --debug         write a detailed log",
     "  --serve         run the web API instead of a countdown",
     "  -p, --port      the TCP port of the web API", ""]

inductive Attached where
  | nothing
  /-- The text after an equals sign, which is nothing but a value. -/
  | value (text : List Char)
  /-- The text after the letter of a short switch: a value, or the letters of more switches. -/
  | letters (text : List Char)
  deriving DecidableEq, Repr

inductive Word where
  | plain (text : String)
  | switch (s : Switch) (attached : Attached)
  | unknown (text : String)
  deriving DecidableEq, Repr

def splitValue (w : List Char) : List Char × Option (List Char) :=
  (w.takeWhile (· != '='), (w.dropWhile (· != '=')).tail?)

def isLong : List Char → Bool
  | '-' :: '-' :: _ => true
  | _ => false

def Attached.ofValue : Option (List Char) → Attached
  | none => .nothing
  | some text => .value text

def Attached.ofLetters (text : List Char) : Attached :=
  if text.isEmpty then .nothing else .letters text

def abbreviated (w : List Char) : List Word :=
  let (name, value) := splitValue w
  (names.filter fun p => name.isPrefixOf p.1.toList).map fun p => .switch p.2 (.ofValue value)

/-- A switch that is named in full. The equals sign after the letter of a short switch only parts it
from what follows. -/
def named (w : List Char) (s : Switch) : Option (List Char) → Word
  | some (c :: t) => .switch s (if isLong w then .value (c :: t) else .letters (c :: t))
  | v => .switch s (.ofValue v)

def short? : List Char → Option Word
  | d :: c :: text => (named? [d, c]).map fun s => .switch s (.ofLetters text)
  | _ => none

/-- A whole number or a number with a point after a dash; a line break may follow. -/
def isNegativeNumber (w : List Char) : Bool :=
  match w with
  | '-' :: t =>
    let t := if t.getLast? = some '\n' then t.dropLast else t
    match t.dropWhile Text.isDigit with
    | [] => !t.isEmpty
    | '.' :: fraction => !fraction.isEmpty && fraction.all Text.isDigit
    | _ => false
  | _ => false

def unnamed (w : List Char) : Word :=
  if isNegativeNumber w || w.contains ' ' then .plain (String.ofList w)
  else .unknown (String.ofList w)

def classifyPartial (w : List Char) : Except Halt Word :=
  if isLong w then match abbreviated w with
    | [] => .ok (unnamed w)
    | [word] => .ok word
    | _ => .error (.usage (.ambiguous (String.ofList w)))
  else .ok ((short? w).getD (unnamed w))

def classify (word : String) : Except Halt Word :=
  let w := word.toList
  match w with
  | '-' :: _ :: _ => match named? (splitValue w).1 with
    | some s => .ok (named w s (splitValue w).2)
    | none => classifyPartial w
  | _ => .ok (.plain word)

def classifyAll : List String → Except Halt (List Word × Option (List String))
  | [] => .ok ([], none)
  | w :: ws =>
    if w = "--" then .ok ([], some ws)
    else do
      let word ← classify w
      let (words, rest) ← classifyAll ws
      return (word :: words, rest)

def groups? : List Char → Option (List Char)
  | [] => none
  | [c] => if Text.isDigit c then some [c] else none
  | c :: '_' :: t => if Text.isDigit c then (groups? t).map (c :: ·) else none
  | c :: t => if Text.isDigit c then (groups? t).map (c :: ·) else none

def maxPortDigits : Nat := 4300

def unsignedPort? (t : List Char) : Option Nat := do
  let digits ← groups? t
  if maxPortDigits < digits.length then none else Text.natOfDigits digits

def tcpPort? (t : List Char) : Option Int :=
  match Text.trimNumber t with
  | '-' :: t => (unsignedPort? t).map fun n => -(n : Int)
  | '+' :: t => (unsignedPort? t).map fun n => (n : Int)
  | t => (unsignedPort? t).map fun n => (n : Int)

structure Reading where
  options : Options := {}
  surplus : List String := []
  fresh : Bool := true

namespace Reading

def plain (r : Reading) (w : String) : Reading :=
  match r.options.duration with
  | none => { r with options := { r.options with duration := some w }, fresh := true }
  | some _ => { r with surplus := r.surplus ++ [w] }

def turn (r : Reading) : Switch → Except Halt Reading
  | .help => .error .help
  | .until => .ok { r with options := { r.options with untilTime := true } }
  | .debug => .ok { r with options := { r.options with debug := true } }
  | .serve => .ok { r with options := { r.options with serve := true } }
  | s => .error (.usage (.missingValue s))

def set (r : Reading) (value : String) : Switch → Except Halt Reading
  | .settings => .ok { r with options := { r.options with settings := some value } }
  | .tcpPort => match tcpPort? value.toList with
    | some n => .ok { r with options := { r.options with tcpPort := some n } }
    | none => .error (.usage (.invalidPort value))
  | s => .error (.usage (.unwantedValue s))

def turnAll (r : Reading) : List Switch → Except Halt Reading
  | [] => .ok r
  | s :: ss => do turnAll (← r.turn s) ss

end Reading

/-- What one word with a switch holds: switches without a value, then possibly one that takes a value
and the value in the word. -/
structure Joined where
  turned : List Switch := []
  last : Option (Switch × Option (List Char)) := none

def Joined.ofSwitch (s : Switch) : Joined :=
  if s.takesValue then { last := some (s, none) } else { turned := [s] }

def Joined.ofValue (s : Switch) (value : List Char) : Except Halt Joined :=
  if s.takesValue then .ok { last := some (s, some value) } else .error (.usage (.unwantedValue s))

def Joined.ofLetters (s : Switch) : List Char → Except Halt Joined
  | [] => .ok (.ofSwitch s)
  | c :: t =>
    if s.takesValue then .ok { last := some (s, some (c :: t)) }
    else match named? ['-', c] with
      | none => .error (.usage (.unwantedValue s))
      | some next => (ofLetters next t).map fun j => { j with turned := s :: j.turned }

def Joined.ofAttached (s : Switch) : Attached → Except Halt Joined
  | .nothing => .ok (.ofSwitch s)
  | .value text => Joined.ofValue s text
  | .letters text => Joined.ofLetters s text

def Reading.join (r : Reading) (j : Joined) (next : List Char) : Except Halt Reading := do
  let r ← { r with fresh := false }.turnAll j.turned
  match j.last with
  | none => return r
  | some (s, value) => r.set (String.ofList (value.getD next)) s

/-- Reads the words up to a word of two dashes. The value of a switch is in its word or is the
plain word after it. -/
def readWords (r : Reading) : List Word → Except Halt Reading
  | [] => .ok r
  | .plain w :: ws => readWords (r.plain w) ws
  | .unknown w :: ws => readWords { r with surplus := r.surplus ++ [w], fresh := false } ws
  | .switch s attached :: ws => match Joined.ofAttached s attached with
    | .error e => .error e
    | .ok j => match j.last, ws with
      | some (_, none), .plain next :: ws => do readWords (← r.join j next.toList) ws
      | some (s, none), _ => .error (.usage (.missingValue s))
      | _, ws => do readWords (← r.join j []) ws

/-- Reads the words after a word of two dashes. That word itself is surplus if a switch stands
between it and the duration. -/
def readRest (r : Reading) : Option (List String) → Reading
  | none => r
  | some ws =>
    let inPlace := r.options.duration.isNone || r.fresh
    ws.foldl Reading.plain (if inPlace then r else { r with surplus := r.surplus ++ ["--"] })

def Options.ofWords (words : List String) : Except Halt Options := do
  let (front, rest) ← classifyAll words
  let r := readRest (← readWords {} front) rest
  if r.surplus.isEmpty then return r.options
  else throw (.usage (.unknown r.surplus))

def defaultPort : Int := 8425

inductive Plan where
  | serve (tcpPort : Int)
  | countDown (text : String) (untilTime : Bool)
  deriving DecidableEq, Repr

def Options.servedPort (o : Options) : Int :=
  match o.tcpPort with
  | none => defaultPort
  | some n => if n = 0 then defaultPort else n

/-- What options ask for; an empty duration is none. -/
def Options.plan (o : Options) : Except UsageError Plan :=
  if o.serve then .ok (.serve o.servedPort)
  else match o.duration with
    | none => .error .noDuration
    | some text => if text.isEmpty then .error .noDuration else .ok (.countDown text o.untilTime)

inductive Ending where
  | finished
  | refused
  | interrupted
  deriving DecidableEq, Repr

def Ending.code : Ending → Nat
  | .finished => 0
  | .refused => 2
  | .interrupted => 130

def Halt.ending : Halt → Ending
  | .help => .finished
  | .usage _ => .refused

end Countdown.Terminal
