set_option autoImplicit false

namespace Countdown

inductive WakeStatus where
  | pending
  | cancelled
  | fired
  deriving DecidableEq, Repr

structure Wake where
  due : Int
  wait : Int
  /-- The number of the alarm that asked for it, and the alarm's generation at that time. -/
  owner : Nat
  generation : Nat
  status : WakeStatus
  deriving DecidableEq, Repr

structure Timeline where
  now : Int
  wakes : List Wake := []
  deriving DecidableEq, Repr

namespace Timeline

def tick (t : Timeline) (ms : Int) : Timeline := { t with now := t.now + ms }

def schedule (t : Timeline) (owner generation : Nat) (wait : Int) : Timeline :=
  { t with wakes := t.wakes ++ [⟨t.now + wait, wait, owner, generation, .pending⟩] }

def cancel (t : Timeline) (i : Nat) : Timeline :=
  { t with wakes := t.wakes.modify i fun w =>
      if w.status = .pending then { w with status := .cancelled } else w }

def markFired (t : Timeline) (i : Nat) : Timeline :=
  { t with wakes := t.wakes.modify i fun w =>
      if w.status = .pending then { w with status := .fired } else w }

def pending (t : Timeline) : List Wake := t.wakes.filter fun w => w.status = .pending

def earliest (target : Int) (best : Option (Nat × Wake)) (i : Nat) : List Wake → Option (Nat × Wake)
  | [] => best
  | w :: ws =>
    let better := w.status = .pending ∧ w.due ≤ target ∧ best.all fun b => w.due < b.2.due
    earliest target (if better then some (i, w) else best) (i + 1) ws

/-- The pending wake that is due first, if that is by `target`; of several the oldest. -/
def next? (t : Timeline) (target : Int) : Option (Nat × Wake) := earliest target none 0 t.wakes

end Timeline

/-- The longest single wait, a day. -/
def maxWait : Int := 86400000

structure Alarm where
  pending : Option Nat := none
  generation : Nat := 0
  closed : Bool := false
  deriving DecidableEq, Repr

/-- What a check of the deadline comes to. -/
inductive Verdict where
  | stale
  | waiting
  | due
  deriving DecidableEq, Repr

namespace Alarm

def isArmed (a : Alarm) : Bool := a.pending.isSome

def cancelled (a : Alarm) (t : Timeline) : Timeline :=
  match a.pending with
  | some i => t.cancel i
  | none => t

def renewed (a : Alarm) : Alarm := { a with pending := none, generation := a.generation + 1 }

def disarm (a : Alarm) (t : Timeline) : Alarm × Timeline := (a.renewed, a.cancelled t)

def close (a : Alarm) (t : Timeline) : Alarm × Timeline :=
  ({ a.renewed with closed := true }, a.cancelled t)

/-- Whether a check that belongs to a generation comes too late; one that belongs to none never
does. -/
def isStale (a : Alarm) (generation : Option Nat) : Bool :=
  a.closed || generation.any (· != a.generation)

/-- Acts on a sample of the time left. `owner` is the alarm's own number. -/
def settle (a : Alarm) (owner : Nat) (generation : Option Nat) (left : Int) (t : Timeline) :
    Verdict × Alarm × Timeline :=
  if a.isStale generation then (.stale, a, t)
  else if 0 < left then
    (.waiting, { a.renewed with pending := some t.wakes.length },
      (a.cancelled t).schedule owner a.renewed.generation (min left maxWait))
  else (.due, a.renewed, a.cancelled t)

def roused? (a : Alarm) (generation : Nat) : Option Alarm :=
  if a.isStale (some generation) then none else some { a with pending := none }

end Alarm
end Countdown
