set_option autoImplicit false

namespace Countdown

inductive Log where
  | settingsNotLoaded
  | timersNotJson
  | timersNotAList (kind : String)
  | timerSkipped (index : Nat)
  | inputNotQueued (input : String)
  | inputTooShort (input : String) (used : Int)
  | alarmFailed
  | listenerFailed
  | callbackFailed
  | notAnObject
  | unknownTimer
  | unknownAction
  | unknownMessage
  | clientDropped
  | broadcastFailed
  | clientNotReached
  | connectionFailed
  deriving DecidableEq, Repr

def Log.text : Log → String
  | .settingsNotLoaded => "WARNING Failed to load settings"
  | .timersNotJson => "ERROR Failed to parse timers JSON"
  | .timersNotAList kind => s!"ERROR Timers JSON must be a list, got {kind}"
  | .timerSkipped i => s!"WARNING Skipping invalid timer {i}"
  | .inputNotQueued input => s!"WARNING Timer input '{input}' not queued"
  | .inputTooShort input used => s!"WARNING Timer input '{input}' has fewer than {used} durations"
  | .alarmFailed => "ERROR Deadline callback error"
  | .listenerFailed => "ERROR Timer on_finish error"
  | .callbackFailed => "ERROR Timer event callback error"
  | .notAnObject => "WARNING WebSocket: Ignoring non-object message"
  | .unknownTimer => "WARNING WebSocket: Unknown timer"
  | .unknownAction => "WARNING WebSocket: Unknown timer action"
  | .unknownMessage => "WARNING WebSocket: Unknown message type"
  | .clientDropped => "WARNING Dropping WebSocket client"
  | .broadcastFailed => "WARNING WebSocket broadcast failed"
  | .clientNotReached => "WARNING Failed to send to WebSocket client"
  | .connectionFailed => "ERROR WebSocket error"

end Countdown
