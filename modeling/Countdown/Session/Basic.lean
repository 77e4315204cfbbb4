import Countdown.Session.Command
set_option autoImplicit false

/-!
The course of a session. A command changes the world and leaves tasks behind, such as the calls of
the listeners of a timer that has finished; the tasks are done one at a time, and what a task leaves
behind comes before the tasks that were there before it.
-/

namespace Countdown

/-- A world together with its scripts. -/
structure Session where
  world : World
  listeners : List (String × Script) := []
  callbacks : List (String × Script) := []
  registered : List (String × Nat) := []
  focus : Nat := 0
  exported : String := ""

/-- A session after a command or a task, and either the tasks that are left behind and an answer or
a failure. -/
structure Turn where
  session : Session
  outcome : Except Failure (List Task × Reply)

namespace Session

def now (s : Session) : Int := s.world.now

def ok (s : Session) (tasks : List Task) (r : Reply) : Turn := ⟨s, .ok (tasks, r)⟩

def failed (s : Session) (f : Failure) : Turn := ⟨s, .error f⟩

def withWorld (s : Session) (w : World) : Session := { s with world := w }

def script? (scripts : List (String × Script)) (name : String) : Option Script :=
  (scripts.find? fun p => p.1 == name).map (·.2)

def addScript (scripts : List (String × Script)) (name : String) (s : Script) :
    List (String × Script) :=
  if (script? scripts name).isSome then scripts else scripts ++ [(name, s)]

def entry? (s : Session) (subject : Option String) : Ref → Option Nat
  | .focus => none
  | .subject => subject.bind s.world.find?
  | .id name => s.world.find? name

def timer? (s : Session) (subject : Option String) : Ref → Option Nat
  | .focus => some s.focus
  | r => do return (← s.world.entries[← s.entry? subject r]?).timer

def calls (cs : List Call) : List Task := cs.map .call

def applyAction (t : Timer) (n : Nat) (a : Action) (line : Timeline) :
    Timer.Effect × Option Number.NoInteger :=
  match a with
  | .start => (t.start n line, none)
  | .resume => (t.resume n line, none)
  | .pause => (.silent (t.pause line).1 (t.pause line).2, none)
  | .stop => (.silent (t.stop line).1 (t.stop line).2, none)
  | .close => (.silent (t.close line).1 (t.close line).2, none)
  | .reset d => t.reset d line
  | .add ms => t.add n ms line
  | .setFields f => t.setFields n f line

def act (s : Session) (n : Nat) (a : Action) : Turn :=
  match s.world.timers[n]? with
  | none => s.ok [] .missing
  | some t =>
    let (e, fault) := applyAction t n a s.world.line
    let (w, cs) := s.world.take n e
    match fault with
    | some f => (s.withWorld w).failed (.noInteger f)
    | none => (s.withWorld w).ok (calls cs) .done

def fire (s : Session) (i : Nat) : Session × List Task :=
  match s.world.line.wakes[i]? with
  | none => (s, [])
  | some wake =>
    let line := s.world.line.markFired i
    match s.world.timers[wake.owner]? with
    | none => (s.withWorld { s.world with line := line }, [])
    | some t =>
      let (w, cs) := s.world.take wake.owner (t.wake wake.owner wake.generation line)
      (s.withWorld w, calls cs)

def setClock (s : Session) (now : Int) : Session :=
  s.withWorld { s.world with line := { s.world.line with now := now } }

/-- Fires the wake that is due first, if one is due by `target`, and goes on; else the clock goes to
`target`. A wake that is late fires without the clock going back. -/
def advanceTo (s : Session) (target : Int) : Session × List Task :=
  match s.world.line.next? target with
  | none => (s.setClock target, [])
  | some (i, wake) =>
    let (s, tasks) := (s.setClock (max s.now wake.due)).fire i
    (s, tasks ++ [.advanceTo target])

def refocus (s : Session) (f : TimerFields) : Session × List Task :=
  let (w, cs) := s.world.addRestored f
  ({ s.withWorld w with focus := s.world.timers.length }, calls cs)

def focused (s : Session) : Timer := s.world.timers.getD s.focus ({} : Timer)

def next (s : Session) (k : Nat) : Session × List Task :=
  match s.world.next? k with
  | none => (s, [])
  | some (w, cs) => (s.withWorld w, calls cs ++ [.notify .state (Entry.idOf k)])

def onFocus (s : Session) (c : Command) : Turn :=
  match c with
  | .listen name steps fails =>
    ({ s with
        world := s.world.setTimer s.focus (s.focused.listen (.named name))
        listeners := addScript s.listeners name ⟨none, steps, fails⟩
        registered := (name, s.focus) :: s.registered }).ok [] .done
  | .unlisten name => match s.registered.find? fun p => p.1 == name with
    | none => s.failed (.unregistered name)
    | some (_, n) => match s.world.timers[n]? with
      | none => s.ok [] .done
      | some t => (s.withWorld (s.world.setTimer n (t.unlisten (.named name)))).ok [] .done
  | .describe => s.ok [] (.text (s.focused.describe s.now))
  | .save input consumed => match s.focused.snapshot input consumed with
    | .error e => s.failed (.invalid e)
    | .ok r => s.ok [] (.saved r)
  | .restore saved => match Snapshot.ofJson saved with
    | .error e => s.failed (.badSnapshot e)
    | .ok r => let (s, tasks) := s.refocus r.fields; s.ok tasks .done
  | .copy => match s.focused.snapshot "" 0 with
    | .error e => s.failed (.invalid e)
    | .ok r =>
      let w := s.world.put s.focus (s.focused.close s.world.line)
      let (s, tasks) := (s.withWorld w).refocus r.fields
      s.ok tasks .done
  | _ => s.ok [] .done

def onEntry (s : Session) (k : Nat) (c : Command) : Turn :=
  match c with
  | .remove _ =>
    (s.withWorld (s.world.unlist k)).ok [.notify .removed (Entry.idOf k)] (.truth true)
  | .setInput _ text => match s.world.setInput k text with
    | .error f => s.failed f
    | .ok w => (s.withWorld w).ok [.notify .state (Entry.idOf k)] (.entry k)
  | .next _ => let (s, tasks) := s.next k; s.ok tasks (.entry k)
  | _ => s.ok [] (.entry k)

def idOf (subject : Option String) : Ref → String
  | .focus => ""
  | .subject => subject.getD ""
  | .id name => name

def perform (s : Session) (subject : Option String) (c : Command) : Turn :=
  match c with
  | .advance ms => s.ok [.advanceTo (s.now + ms)] .done
  | .tick ms => (s.setClock (s.now + ms)).ok [] .done
  | .fire i =>
    if i < 0 then s.ok [] .done else let (s, tasks) := s.fire i.toNat; s.ok tasks .done
  | .act r a => match s.timer? subject r with
    | none => s.ok [] .missing
    | some n => s.act n a
  | .create input d => match s.world.create input d with
    | .error f => s.failed f
    | .ok (w, k) => (s.withWorld w).ok [] (.entry k)
  | .get r | .setInput r _ | .next r => match s.entry? subject r with
    | none => s.ok [] .done
    | some k => s.onEntry k c
  | .remove r => match s.entry? subject r with
    | none => s.ok [] (.truth false)
    | some k => s.onEntry k c
  | .notify r => s.ok [.notify .state (idOf subject r)] .done
  | .stopAll => (s.withWorld s.world.unlistAll).ok [] .done
  | .exportAll => match s.world.exported with
    | .error f => s.failed f
    | .ok text => { s with exported := text }.ok [] (.text text)
  | .importAll text =>
    let (w, r) := s.world.importText (text.getD s.exported)
    match r with
    | .error f => (s.withWorld w).failed f
    | .ok ks => (s.withWorld w).ok [] (.entries ks)
  | .configure separator => (s.withWorld { s.world with separator := separator }).ok [] .done
  | .register name trigger steps fails =>
    ({ s with
        world := { s.world with callbacks := s.world.callbacks ++ [Callback.named name] }
        callbacks := addScript s.callbacks name ⟨trigger, steps, fails⟩ }).ok [] .done
  | .unregister name =>
    (s.withWorld { s.world with callbacks := s.world.callbacks.erase (Callback.named name) }).ok [] .done
  | .observe =>
    (s.withWorld { s.world with callbacks := s.world.callbacks ++ [Callback.observer] }).ok [] .done
  | c => s.onFocus c

def scripted (s : Script) (subject : Option String) (site : Site) : List Task :=
  s.steps.map (.command subject) ++ (if s.fails then [.fail] else []) ++ [.caught site]

def call (s : Session) (c : Call) : Session × List Task :=
  let s := s.withWorld (s.world.note (.called c s.now))
  match c.listener with
  | .named name =>
    let n := Note.heard name (s.focused.remaining s.now) s.focused.phase
    (s.withWorld (s.world.note n),
      scripted ((script? s.listeners name).getD {}) none .listener)
  | .entry k =>
    (s, [.notify .finished (Entry.idOf k), .proceed k, .caught .listener])

def Script.actsOn (p : Script) (e : Event) : Bool := p.trigger == some e.name

def tell (s : Session) (c : Callback) (e : Event) (id : String) : Session × List Task :=
  match c with
  | .named name =>
    let p := (script? s.callbacks name).getD {}
    let p := if Script.actsOn p e then p else { p with steps := [] }
    (s.withWorld (s.world.note (.told name e id)), scripted p (some id) .callback)
  | .observer =>
    let view := (s.world.find? id).bind s.world.view?
    (s.withWorld (s.world.note (.observed e id s.now view)), [])

def proceed (s : Session) (k : Nat) : Session × List Task :=
  match s.world.entries[k]? with
  | some e => if e.upcoming.isSome ∧ e.listed then s.next k else (s, [])
  | none => (s, [])

def task (s : Session) : Task → Turn
  | .command subject c => s.perform subject c
  | .call c => let (s, tasks) := s.call c; s.ok tasks .done
  | .tell c e id => let (s, tasks) := s.tell c e id; s.ok tasks .done
  | .notify e id => s.ok (s.world.callbacks.map fun c => .tell c e id) .done
  | .proceed k => let (s, tasks) := s.proceed k; s.ok tasks .done
  | .advanceTo target => let (s, tasks) := s.advanceTo target; s.ok tasks .done
  | .fail => s.failed .asked
  | .caught _ => s.ok [] .done

/-- The tasks after the call in which something failed, and where it failed. -/
def unwind : List Task → Option (Site × List Task)
  | [] => none
  | .caught site :: rest => some (site, rest)
  | _ :: rest => unwind rest

/-- Does the first task. A failure ends the call that it happens in and is logged. -/
def step (s : Session) (t : Task) (rest : List Task) : Session × List Task :=
  match s.task t with
  | ⟨s, .ok (tasks, _)⟩ => (s, tasks ++ rest)
  | ⟨s, .error _⟩ => match unwind rest with
    | none => (s, [])
    | some (site, rest) => (s.withWorld (s.world.log site.log), rest)

/-- Does all tasks, in at most `fuel` steps; none if they are not done by then, which happens only
when listeners keep restarting timers that finish at once. -/
def settle : Nat → Session → List Task → Option Session
  | _, s, [] => some s
  | 0, _, _ :: _ => none
  | fuel + 1, s, t :: rest =>
    let (s, tasks) := s.step t rest
    settle fuel s tasks

def run (fuel : Nat) (s : Session) (c : Command) : Option (Session × Except Failure Reply) :=
  match s.perform none c with
  | ⟨s, .error f⟩ => some (s, .error f)
  | ⟨s, .ok (tasks, r)⟩ => (settle fuel s tasks).map fun s => (s, .ok r)

end Session
end Countdown
