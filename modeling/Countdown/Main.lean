import Countdown.Terminal.Screen
import Countdown.Web.Server
import Std.Time
set_option autoImplicit false

namespace Countdown
open Calendar Terminal

/-- More tasks than a step of any countdown leads to. -/
def taskLimit : Nat := 1000000000000

def wallTime : IO DateTime := do
  let t ← Std.Time.PlainDateTime.now
  let day := Date.number ⟨t.date.year.toInt.toNat, t.date.month.toNat, t.date.day.toNat⟩
  let second := 3600 * t.time.hour.toNat + 60 * t.time.minute.toNat + t.time.second.toNat
  let micros := day * microsPerDay + second * microsPerSecond + t.time.nanosecond.toNat / 1000
  return (DateTime.ofMicros? micros).getD ⟨0, by decide⟩

def settingsFile (o : Options) : IO FileContent := do
  let path ← match o.settings with
    | some path => pure path
    | none => pure ((← IO.getEnv "HOME").getD "" ++ "/.timerdeck/settings.json")
  try
    return .bytes (← IO.FS.readBinFile path)
  catch
    | .noFileOrDirectory .. => return .missing
    | _ => return .unreadable

def write (text : String) : IO Unit := do
  let out ← IO.getStdout
  out.putStr text
  out.flush

def present (x : Screen) (ending : String) : IO Unit :=
  match x.frame ending with
  | .ok text => write text
  | .error e => throw (IO.userError e.message)

partial def follow (x : Screen) (last : Nat) : IO Ending := do
  if x.isDone then
    present x "\x07\n"
    return .finished
  IO.sleep x.settings.updateInterval.toNat.toUInt32
  let now ← IO.monoMsNow
  match x.perform taskLimit (.advance (now - last : Nat)) with
  | none => return .refused
  | some x =>
    unless x.isDone do present x ""
    follow x now

def countDown (s : Settings) (text : String) (untilTime : Bool) : IO Ending := do
  let wall ← wallTime
  match readEntry s wall untilTime text with
  | .error (.duration .overflow) => throw (IO.userError DurationError.overflow.message)
  | .error e =>
    IO.eprintln s!"timerdeck: {e.message}"
    return .refused
  | .ok ms => match Screen.begin taskLimit s wall 0 ms with
    | none => return .refused
    | some x => follow x (← IO.monoMsNow)

partial def answer (s : Web.Server) (last : Nat) : IO Unit := do
  let text ← (← IO.getStdin).getLine
  if text.isEmpty then return
  let now ← IO.monoMsNow
  let r := Web.Request.ofJson ((Json.read text).toOption.getD .null)
  let handled := do
    let s ← s.runAll taskLimit [.advance (now - last : Nat)]
    s.handle taskLimit r
  match handled with
  | none => return
  | some (s, .ok x) =>
    write ((x.json r).text ++ "\n")
    answer s now
  | some (s, .error _) =>
    write (((Web.Response.detail 500 "Internal Server Error").json r).text ++ "\n")
    answer s now

def serve (s : Settings) (tcpPort : Int) : IO Unit := do
  let wall ← wallTime
  write ((Json.obj [("port", .int tcpPort)]).text ++ "\n")
  let world : World := { line := { now := 0 }, separator := s.separator, callbacks := [.observer] }
  answer { session := { world := world }, settings := s, wall := wall, start := 0 } (← IO.monoMsNow)

end Countdown

open Countdown Terminal in
def main (words : List String) : IO UInt32 := do
  let refuse (e : UsageError) : IO UInt32 := do
    IO.eprintln usage
    IO.eprintln s!"timerdeck: error: {e.message}"
    return Ending.refused.code.toUInt32
  match Options.ofWords words with
  | .error .help =>
    write help
    return Ending.finished.code.toUInt32
  | .error (.usage e) => refuse e
  | .ok o => match Settings.load (← settingsFile o) with
    | .error _ =>
      IO.eprintln "timerdeck: the settings file cannot be read"
      return 1
    | .ok l =>
      if l.warned then IO.eprintln Log.settingsNotLoaded.text
      match o.plan with
      | .error e => refuse e
      | .ok (.serve tcpPort) =>
        serve l.settings tcpPort
        return Ending.finished.code.toUInt32
      | .ok (.countDown text untilTime) => return (← countDown l.settings text untilTime).code.toUInt32
