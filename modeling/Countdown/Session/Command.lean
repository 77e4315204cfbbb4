import Countdown.Session.World
set_option autoImplicit false

namespace Countdown

inductive Action where
  | start
  | pause
  | resume
  | stop
  | reset (duration : Option Number.Amount)
  | add (ms : Number.Amount)
  | close
  | setFields (f : Timer.GivenFields)

/-- Which timer is meant: the one in focus, the one that an event is about, or that of an id. -/
inductive Ref where
  | focus
  | subject
  | id (name : String)
  deriving DecidableEq, Repr

inductive Command where
  | advance (ms : Int)
  | tick (ms : Int)
  | fire (index : Int)
  | act (target : Ref) (a : Action)
  | listen (name : String) (steps : List Command) (fails : Bool)
  | unlisten (name : String)
  | describe
  | save (input : String) (consumed : Int)
  | restore (saved : Json)
  | copy
  | create (input : String) (duration : Option Number.Amount)
  | get (target : Ref)
  | remove (target : Ref)
  | setInput (target : Ref) (text : String)
  | next (target : Ref)
  | notify (target : Ref)
  | stopAll
  | exportAll
  | importAll (text : Option String)
  | configure (separator : String)
  | register (name : String) (trigger : Option String) (steps : List Command) (fails : Bool)
  | unregister (name : String)
  | observe
  deriving Inhabited

/-- What a listener or a callback does when it is called; a callback with a trigger only does it for
that event. In the end it may fail. -/
structure Script where
  trigger : Option String := none
  steps : List Command := []
  fails : Bool := false

inductive Reply where
  | done
  | missing
  | truth (b : Bool)
  | entry (number : Nat)
  | entries (numbers : List Nat)
  | text (s : String)
  | saved (s : Snapshot)

/-- Where a failure ends. -/
inductive Site where
  | listener
  | callback
  deriving DecidableEq, Repr

def Site.log : Site → Log
  | .listener => .listenerFailed
  | .callback => .callbackFailed

inductive Task where
  | command (subject : Option String) (c : Command)
  | call (c : Call)
  | tell (c : Callback) (e : Event) (id : String)
  | notify (e : Event) (id : String)
  | proceed (entry : Nat)
  | advanceTo (target : Int)
  | fail
  /-- The end of a call: a failure within it has no effect beyond this. -/
  | caught (s : Site)

end Countdown
