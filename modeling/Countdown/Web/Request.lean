import Countdown.Json.Encoding
import Countdown.Json.Reader
import Countdown.Session.Command
import Countdown.Settings.Basic
import Countdown.Text.CodePoint
set_option autoImplicit false

namespace Countdown.Web

def escapedByte? (a b : Char) : Option UInt8 := do
  return UInt8.ofNat (16 * (← Text.hexValue? a) + (← Text.hexValue? b))

def unescapedBytes : List Char → List UInt8
  | '%' :: a :: b :: t => match escapedByte? a b with
    | some x => x :: unescapedBytes t
    | none => '%'.toString.toUTF8.toList ++ unescapedBytes (a :: b :: t)
  | c :: t => c.toString.toUTF8.toList ++ unescapedBytes t
  | [] => []

def unescape (t : List Char) : List Char := Text.decodeUtf8 (unescapedBytes t)

def splitOn (mark : Char) : List Char → List (List Char)
  | [] => [[]]
  | c :: t => match splitOn mark t with
    | [] => [[c]]
    | part :: parts => if c = mark then [] :: part :: parts else (c :: part) :: parts

def cutAt (mark : Char) (t : List Char) : List Char × Option (List Char) :=
  (t.takeWhile (· != mark), (t.dropWhile (· != mark)).tail?)

/-- Resolves the segments `.` and `..` after the segments of `done`, of which the last comes first;
the empty segment before the first slash stays. -/
def resolveDots (done : List (List Char)) : List (List Char) → List (List Char)
  | [] => done.reverse
  | part :: parts =>
    if part = ['.'] then resolveDots done parts
    else if part = ['.', '.'] then resolveDots (if done = [[]] then done else done.tail) parts
    else resolveDots (part :: done) parts

/-- The path of a target without the name of a host, which two slashes would start. -/
def withoutHost : List Char → List Char
  | '/' :: '/' :: t => t.dropWhile (· != '/')
  | t => t

def absolutePath (t : List Char) : List Char :=
  ['/'].intercalate (resolveDots [] (splitOn '/' ('/' :: (withoutHost t).dropWhile (· == '/'))))

def readQuery (t : List Char) : List (String × String) :=
  ((splitOn '&' t).filter fun part => !part.isEmpty).map fun part =>
    let (name, value) := cutAt '=' part
    (text name, text (value.getD []))
where
  text (t : List Char) : String :=
    String.ofList (unescape (t.map fun c => if c = '+' then ' ' else c))

structure Target where
  path : List Char
  query : Option (List (String × String))

def Target.read (text : String) : Target :=
  let (path, query) := cutAt '?' (cutAt '#' text.toList).1
  ⟨absolutePath path, query.map readQuery⟩

open Validation

abbrev Content := Option (List UInt8)

structure Request where
  method : String
  path : List Char
  query : List (String × String) := []
  content : Content := none
  origin : Option String := none

inductive Resource where
  | timers
  | exporting
  | importing
  | timer (id : String)
  | input (id : String)
  | drift (id : String)
  | next (id : String)
  | control (id : String) (action : String)
  | parse
  | format
  | ending
  | until
  | manual
  deriving DecidableEq, Repr

def isNamed (part name : String) : Bool := part == name || part == name ++ "\n"

def offer (part name method : String) (r : Resource) : List (String × Resource) :=
  if isNamed part name then [(method, r)] else []

def manual (part name : String) : List (String × Resource) :=
  offer part name "GET" .manual ++ offer part name "HEAD" .manual

/-- The resources that a path may name, each with the method that it answers to; of those with the
method of a request the first is taken. -/
def resources (path : List String) : List (String × Resource) :=
  match path with
  | ["", page] => manual page "openapi.json" ++ manual page "docs" ++ manual page "redoc"
  | ["", "docs", page] => manual page "oauth2-redirect"
  | ["", "api", part] => offer part "timers" "GET" .timers ++ offer part "timers" "POST" .timers
  | ["", "api", "timers", id] =>
    if id = "" then [] else
    offer id "export" "GET" .exporting ++ offer id "import" "POST" .importing ++
      [("GET", .timer id), ("DELETE", .timer id)]
  | ["", "api", "timers", id, part] =>
    if id = "" ∨ part = "" then [] else
    offer part "input" "PUT" (.input id) ++ offer part "drift" "POST" (.drift id) ++
      offer part "next" "POST" (.next id) ++ [("POST", .control id part)]
  | ["", "api", "time", part] =>
    offer part "parse" "POST" .parse ++ offer part "format" "GET" .format ++
      offer part "end" "GET" .ending ++ offer part "until" "POST" .until
  | _ => []

inductive Route where
  | found (r : Resource)
  | wrongMethod
  | moved
  | unknown
  deriving DecidableEq, Repr

def resourcesAt (path : List Char) : List (String × Resource) :=
  resources ((splitOn '/' path).map String.ofList)

def route (method : String) (path : List Char) : Route :=
  let path := unescape path
  match resourcesAt path with
  | [] =>
    if (resourcesAt (path.reverse.dropWhile (· == '/')).reverse).isEmpty then .unknown else .moved
  | rs => match rs.find? fun r => r.1 == method with
    | some (_, r) => .found r
    | none => .wrongMethod

/-- Why a request is turned down before it is acted on: the places that are at fault, or a content
that cannot be read at all. -/
inductive Rejected where
  | invalid (places : List (List String))
  | unreadable
  deriving DecidableEq, Repr

def Content.fields (c : Content) : Except Rejected (List (String × Json)) :=
  match c with
  | none | some [] => .error (.invalid [["body"]])
  | some bytes => match Json.decode? bytes with
    | none => .error .unreadable
    | some text => match Json.read text with
      | .ok (.obj fields) => .ok fields
      | .error (.integerTooLong _) => .error .unreadable
      | _ => .error (.invalid [["body"]])

def Content.read {α : Type} (c : Content) (name : String) (fallback : Option α)
    (read : Json → Option α) : Except Rejected α := do
  let fields ← c.fields
  let field := match fallback with
    | some a => optional fields name a read
    | none => required fields name read
  match field with
  | .ok a => .ok a
  | .error _ => .error (.invalid [["body", name]])

def queryField {α : Type} (query : List (String × String)) (name : String) (fallback : Option α)
    (read : Json → Option α) : FieldReading α :=
  let fields := query.map fun f => (f.1, Json.str f.2)
  match fallback with
  | some a => optional fields name a read
  | none => required fields name read

structure FormatQuery where
  ms : Int
  range : UnitRange
  trim : Bool

def FormatQuery.read (query : List (String × String)) : Except Rejected FormatQuery :=
  let ms := queryField query "ms" none int?
  let smallest := queryField query "smallest" (some TimeUnit.ms) Settings.unit?
  let largest := queryField query "largest" (some TimeUnit.d) Settings.unit?
  let trim := queryField query "auto" (some false) bool?
  match ms, smallest, largest, trim with
  | .ok ms, .ok a, .ok b, .ok t => .ok ⟨ms, UnitRange.between a b, t⟩
  | _, _, _, _ =>
    .error (.invalid ((sorted (ms.rejected ++ smallest.rejected ++ largest.rejected ++
      trim.rejected)).map fun name => ["query", name]))

def readQueryMs (query : List (String × String)) : Except Rejected Int :=
  match queryField query "ms" none int? with
  | .ok ms => .ok ms
  | .error _ => .error (.invalid [["query", "ms"]])

def action? : String → Option Action
  | "start" => some .start
  | "pause" => some .pause
  | "resume" => some .resume
  | "stop" => some .stop
  | "reset" => some (.reset none)
  | _ => none

def isLocal (origin : String) : Bool :=
  ["http://localhost", "http://127.0.0.1"].any fun host =>
    match Json.strip? host.toList origin.toList with
    | some [] => true
    | some (':' :: digits) => !digits.isEmpty && digits.all Text.isDigit
    | _ => false

end Countdown.Web
