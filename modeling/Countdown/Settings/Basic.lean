import Countdown.Calendar.EndTime
import Countdown.Json.Reader
import Countdown.Text.Alphanumeric
import Countdown.Text.Character
import Countdown.TimeUnit
import Countdown.Validation
set_option autoImplicit false

namespace Countdown

inductive SeparatorError where
  | notOneCharacter
  | clashesWithNumbers (c : Char)
  | clashesWithOperators (c : Char)
  deriving DecidableEq, Repr

def SeparatorError.message : SeparatorError → String
  | .notOneCharacter => "separator must be a single character"
  | .clashesWithNumbers c => s!"separator '{c}' clashes with numbers or units"
  | .clashesWithOperators c => s!"separator '{c}' clashes with sequence operators"

/-- A character that belongs to a number, a unit or white space. -/
def clashesWithNumbers (c : Char) : Bool :=
  Text.isAlphanumeric c || c == '.' || c == '-' || Text.isBlank c

def clashesWithOperators (c : Char) : Bool := c == '+' || c == '*' || c == '(' || c == ')'

def isSeparator (c : Char) : Bool := !clashesWithNumbers c && !clashesWithOperators c

def readSeparator (text : String) : Except SeparatorError { c : Char // isSeparator c = true } :=
  match text.toList with
  | [c] =>
    if h : isSeparator c = true then .ok ⟨c, h⟩
    else if clashesWithNumbers c then .error (.clashesWithNumbers c)
    else .error (.clashesWithOperators c)
  | _ => .error .notOneCharacter

structure Settings where
  unitRange : UnitRange := ⟨.s, .d, by decide⟩
  autoTrim : Bool := true
  updateInterval : Int := 100
  timeFormat : Calendar.TimeFormat := .hours12
  separatorChar : Char := ':'
  interval_bounds : 10 ≤ updateInterval ∧ updateInterval ≤ 5000 := by decide
  separator_valid : isSeparator separatorChar = true := by decide +kernel

namespace Settings
open Validation

def separator (s : Settings) : String := String.ofList [s.separatorChar]

def defaults : Settings := {}

instance : Inhabited Settings := ⟨defaults⟩

def unit? : Json → Option TimeUnit
  | .str s => TimeUnit.ofName? s
  | _ => none

def unitRange? : Json → Option UnitRange
  | .arr [a, b] => do return UnitRange.between (← unit? a) (← unit? b)
  | _ => none

def timeFormat? : Json → Option Calendar.TimeFormat
  | .str s => Calendar.TimeFormat.ofName? s
  | _ => none

abbrev Interval := { n : Int // 10 ≤ n ∧ n ≤ 5000 }

abbrev SeparatorChar := { c : Char // isSeparator c = true }

def interval? (v : Json) : Option Interval :=
  (int? v).bind fun n => if h : 10 ≤ n ∧ n ≤ 5000 then some ⟨n, h⟩ else none

def separator? (v : Json) : Option SeparatorChar :=
  (str? v).bind fun s => (readSeparator s).toOption

def separatorMessages (fields : List (String × Json)) : List String :=
  match (Json.field? fields "separator").bind str? with
  | none => []
  | some s => match readSeparator s with
    | .ok _ => []
    | .error e => [e.message]

/-- Reads settings from an object; a field that is missing has its default, and keys of no field
are ignored. -/
def ofJson : Json → Except Invalid Settings
  | .obj fields =>
    let range := optional fields "unit_range" defaults.unitRange unitRange?
    let trim := optional fields "auto_trim" defaults.autoTrim bool?
    let interval : FieldReading Interval :=
      optional fields "update_interval_ms" ⟨_, defaults.interval_bounds⟩ interval?
    let format := optional fields "time_format" defaults.timeFormat timeFormat?
    let separator : FieldReading SeparatorChar :=
      optional fields "separator" ⟨_, defaults.separator_valid⟩ separator?
    match range, trim, interval, format, separator with
    | .ok r, .ok t, .ok i, .ok f, .ok s => .ok ⟨r, t, i.1, f, s.1, i.2, s.2⟩
    | _, _, _, _, _ =>
      .error ⟨sorted (range.rejected ++ trim.rejected ++ interval.rejected ++ format.rejected ++
        separator.rejected), separatorMessages fields⟩
  | _ => .error ⟨[""], []⟩

end Settings

inductive SettingsError where
  | unreadable
  | notAnObject
  | invalid (e : Invalid)
  | undecodable
  | integerTooLong (digits : Nat)
  deriving DecidableEq, Repr

/-- Whether a file with this fault is replaced by the defaults. -/
def SettingsError.isCovered : SettingsError → Bool
  | .unreadable | .notAnObject | .invalid _ => true
  | .undecodable | .integerTooLong _ => false

inductive FileContent where
  | missing
  | unreadable
  | bytes (b : ByteArray)

namespace Settings

def ofText (text : String) : Except SettingsError Settings :=
  match Json.read text with
  | .error .malformed => .error .unreadable
  | .error (.integerTooLong n) => .error (.integerTooLong n)
  | .ok (.obj fields) => match ofJson (.obj fields) with
    | .ok s => .ok s
    | .error e => .error (.invalid e)
  | .ok _ => .error .notAnObject

def ofFile : FileContent → Except SettingsError Settings
  | .missing | .unreadable => .error .unreadable
  | .bytes b => match String.fromUTF8? b with
    | none => .error .undecodable
    | some text => ofText text

structure Loaded where
  settings : Settings
  warned : Bool

def load : FileContent → Except SettingsError Loaded
  | .missing => .ok ⟨defaults, false⟩
  | content => match ofFile content with
    | .ok s => .ok ⟨s, false⟩
    | .error e => if e.isCovered then .ok ⟨defaults, true⟩ else .error e

end Settings

/-- A settings file and the settings in use, which are loaded from it when first asked for. -/
structure SettingsStore where
  file : FileContent := .missing
  active : Option Settings := none

def SettingsStore.get (s : SettingsStore) : Except SettingsError (Settings.Loaded × SettingsStore) :=
  match s.active with
  | some a => .ok (⟨a, false⟩, s)
  | none => match Settings.load s.file with
    | .ok l => .ok (l, { s with active := some l.settings })
    | .error e => .error e

end Countdown
