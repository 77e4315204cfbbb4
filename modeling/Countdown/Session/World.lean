import Countdown.Log
import Countdown.Sequence.Run
import Countdown.Timer.Basic
set_option autoImplicit false

/-!
A deck of timers under one clock. Each entry of the deck has an id, the text that its duration was
entered as, the queue of the durations in that text, and its timer. Timers and entries are numbered
in the order of their creation and are never forgotten; an entry that was removed is only no longer
listed.
-/

namespace Countdown

inductive Event where
  | state
  | finished
  | removed
  deriving DecidableEq, Repr

def Event.name : Event → String
  | .state => "state"
  | .finished => "finished"
  | .removed => "removed"

def Event.ofName? (n : String) : Option Event :=
  [Event.state, .finished, .removed].find? fun e => e.name == n

/-- Who is told of the events of the deck: a callback with a name, or an observer that takes down
the state of the timer. -/
inductive Callback where
  | named (name : String)
  | observer
  deriving DecidableEq, Repr

structure Entry where
  timer : Nat
  input : String := ""
  queue : Option Queue := none
  listed : Bool := true
  deriving DecidableEq, Repr

namespace Entry

def consumed (e : Entry) : Nat := (e.queue.map Queue.consumed).getD 0

def upcoming (e : Entry) : Option Int := e.queue.bind Queue.peek

def idOf (number : Nat) : String := "t" ++ toString (number + 1)

end Entry

structure View where
  id : String
  input : String
  consumed : Nat
  upcoming : Option Int
  phase : Phase
  duration : Int
  elapsed : Int
  remaining : Int
  started : Bool
  paused : Bool
  running : Bool
  stopped : Bool
  finished : Bool
  deriving DecidableEq, Repr

/-- A listener that is to be called, or was called, for an announcement. Announcements have the
numbers of their notes in the journal. -/
structure Call where
  announcement : Nat
  listener : Listener
  deriving DecidableEq, Repr

inductive Note where
  | cleared (timer : Nat)
  /-- The end of a timer's run was announced, to the listeners that the timer had then. -/
  | announced (timer : Nat) (state : Timer) (now : Int)
  | called (c : Call) (now : Int)
  | heard (name : String) (remaining : Int) (phase : Phase)
  | told (name : String) (event : Event) (id : String)
  | observed (event : Event) (id : String) (now : Int) (view : Option View)
  | logged (l : Log)
  deriving DecidableEq, Repr

inductive Failure where
  | sequence (e : SequenceError)
  | noInteger (e : Number.NoInteger)
  | integerTooLong (digits : Nat)
  | unwritable
  | invalid (e : Invalid)
  | badSnapshot (e : Invalid)
  | unregistered (name : String)
  | asked
  deriving DecidableEq, Repr

structure World where
  line : Timeline
  timers : List Timer := []
  entries : List Entry := []
  separator : String := ":"
  callbacks : List Callback := []
  journal : List Note := []
  deriving DecidableEq, Repr

namespace World

def now (w : World) : Int := w.line.now

def note (w : World) (n : Note) : World := { w with journal := w.journal ++ [n] }

def log (w : World) (l : Log) : World := w.note (.logged l)

def find? (w : World) (id : String) : Option Nat :=
  (List.range w.entries.length).find? fun k =>
    Entry.idOf k == id && (w.entries[k]?.any fun e => e.listed)

def listed (w : World) : List Nat :=
  (List.range w.entries.length).filter fun k => w.entries[k]?.any fun e => e.listed

def timerOf? (w : World) (entry : Nat) : Option (Nat × Timer) := do
  let e ← w.entries[entry]?
  return (e.timer, ← w.timers[e.timer]?)

def view? (w : World) (entry : Nat) : Option View := do
  let e ← w.entries[entry]?
  let t ← w.timers[e.timer]?
  return {
    id := Entry.idOf entry, input := e.input, consumed := e.consumed, upcoming := e.upcoming
    phase := t.phase, duration := t.duration, elapsed := t.elapsed w.now
    remaining := t.remaining w.now, started := t.isStarted, paused := t.isPaused
    running := t.isRunning, stopped := t.isStopped, finished := t.isFinished w.now }

def setTimer (w : World) (n : Nat) (t : Timer) : World := { w with timers := w.timers.set n t }

def setEntry (w : World) (k : Nat) (e : Entry) : World := { w with entries := w.entries.set k e }

/-- The world after an operation on timer number `n`, and the calls to be made. -/
def take (w : World) (n : Nat) (e : Timer.Effect) : World × List Call :=
  let w := { w.setTimer n e.timer with line := e.line }
  let w := if e.cleared then w.note (.cleared n) else w
  match e.announced with
  | none => (w, [])
  | some ls => (w.note (.announced n e.timer w.now), ls.map fun l => ⟨w.journal.length, l⟩)

def put (w : World) (n : Nat) (p : Timer × Timeline) : World :=
  { w.setTimer n p.1 with line := p.2 }

def addEntry (w : World) (n : Nat) (input : String) (queue : Option Queue) : World × Nat :=
  let k := w.entries.length
  ({ w with
      timers := w.timers.modify n fun t => t.listen (.entry k)
      entries := w.entries ++ [⟨n, input, queue, true⟩] }, k)

def readInput (w : World) (input : String) : Except Failure (Option Queue × Int) :=
  if (Text.trim input.toList).isEmpty then .ok (none, 0)
  else match Queue.read w.separator input with
    | .error e => .error (.sequence e)
    | .ok q => .ok (some q.pop.2, q.pop.1.getD 0)

def create (w : World) (input : String) (d : Option Number.Amount) : Except Failure (World × Nat) := do
  let (queue, duration) ← match d with
    | some d => pure (none, d)
    | none => (w.readInput input).map fun r => (r.1, .int r.2)
  match Timer.ofDuration duration with
  | .error e => .error (.noInteger e)
  | .ok t => return addEntry { w with timers := w.timers ++ [t] } w.timers.length input queue

def unlist (w : World) (k : Nat) : World :=
  match w.entries[k]?, w.timerOf? k with
  | some e, some (n, t) => (w.setEntry k { e with listed := false }).put n (t.close w.line)
  | _, _ => w

def unlistAll (w : World) : World := w.listed.foldl unlist w

def setInput (w : World) (k : Nat) (text : String) : Except Failure World :=
  match Queue.read w.separator text, w.entries[k]?, w.timerOf? k with
  | .error e, _, _ => .error (.sequence e)
  | .ok q, some e, some (n, t) =>
    let w := w.setEntry k { e with input := text, queue := some q.pop.2 }
    .ok (w.take n (t.reset (q.pop.1.map .int) w.line).1).1
  | .ok _, _, _ => .ok w

/-- Starts the timer of an entry on the next duration of its input; none if there is no further
one. -/
def next? (w : World) (k : Nat) : Option (World × List Call) :=
  match w.entries[k]?, w.timerOf? k with
  | some e, some (n, t) => match e.queue.map Queue.pop with
    | some (some d, q) =>
      let w := w.setEntry k { e with queue := some q }
      let r := (t.reset (some (.int d)) w.line).1
      let w := (w.take n r).1
      some (w.take n (r.timer.start n r.line))
    | _ => none
  | _, _ => none

def snapshots (w : World) : List Nat → Except Failure (List Snapshot)
  | [] => .ok []
  | k :: ks => match w.entries[k]?, w.timerOf? k with
    | some e, some (_, t) => match t.snapshot e.input e.consumed with
      | .error e => .error (.invalid e)
      | .ok s => (snapshots w ks).map (s :: ·)
    | _, _ => snapshots w ks

def exported (w : World) : Except Failure String := do
  let ss ← w.snapshots w.listed
  if ss.all fun s => s.toJson.isWritable then return Snapshot.writeAll ss else throw .unwritable

/-- How many durations of its input a saved timer has used, at least the current one. -/
def usedBy (s : Snapshot) : Int := max s.consumed 1

/-- The queue of a saved timer, past the durations that were used, and what is to be logged. -/
def restoreQueue (separator : String) (s : Snapshot) :
    Except SequenceError (Option Queue × List Log) :=
  if (Text.trim s.input.toList).isEmpty then .ok (none, [])
  else match Queue.read separator s.input with
    | .error e => if e.isInputFault then .ok (none, [.inputNotQueued s.input]) else .error e
    | .ok q =>
      let (taken, q) := q.skip (usedBy s).toNat
      .ok (some q, if (taken : Int) < usedBy s then [.inputTooShort s.input (usedBy s)] else [])

def addRestored (w : World) (f : TimerFields) : World × List Call :=
  { w with timers := w.timers ++ [({} : Timer)] }.take w.timers.length
    (Timer.restore f w.timers.length w.line)

/-- Uses up the id of the entry that timer number `n` would have had. -/
def spendId (w : World) (n : Nat) (input : String) : World :=
  { w with entries := w.entries ++ [⟨n, input, none, false⟩] }

/-- Adds saved timers one by one and returns the numbers of their entries. One whose input fails has
its timer and its id by then, but no entry is listed for it. -/
def restoreAll (w : World) : List Snapshot → World × Except Failure (List Nat)
  | [] => (w, .ok [])
  | s :: ss =>
    let n := w.timers.length
    let w := (w.addRestored s.fields).1
    match restoreQueue w.separator s with
    | .error e => (w.spendId n s.input, .error (.sequence e))
    | .ok (queue, logs) =>
      let (w, k) := (logs.foldl log w).addEntry n s.input queue
      let (w, r) := w.restoreAll ss
      (w, r.map (k :: ·))

def importText (w : World) (text : String) : World × Except Failure (List Nat) :=
  match Snapshot.readAll text with
  | .error (.integerTooLong n) => (w, .error (.integerTooLong n))
  | .error .malformed => (w, .ok [])
  | .ok (ss, logs) => (logs.foldl log w).restoreAll ss

end World
end Countdown
