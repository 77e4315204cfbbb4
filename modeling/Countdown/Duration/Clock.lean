import Countdown.Text.Character
import Countdown.TimeUnit
set_option autoImplicit false

namespace Countdown.Duration

structure Parts where
  d : Int
  h : Int
  m : Int
  s : Int
  ms : Int
  deriving DecidableEq, Repr

namespace Parts

def get (p : Parts) : TimeUnit → Int
  | .d => p.d
  | .h => p.h
  | .m => p.m
  | .s => p.s
  | .ms => p.ms

def set (p : Parts) (u : TimeUnit) (n : Int) : Parts :=
  match u with
  | .d => { p with d := n }
  | .h => { p with h := n }
  | .m => { p with m := n }
  | .s => { p with s := n }
  | .ms => { p with ms := n }

theorem get_set (p : Parts) (u v : TimeUnit) (n : Int) :
    (p.set u n).get v = if v = u then n else p.get v := by
  cases u <;> cases v <;> simp [get, set]

def ofMs (t : Int) : Parts where
  d := t.tdiv 86400000
  h := (t.tdiv 3600000).tmod 24
  m := (t.tdiv 60000).tmod 60
  s := (t.tdiv 1000).tmod 60
  ms := t.tmod 1000

def total (p : Parts) : Int :=
  p.d * 86400000 + p.h * 3600000 + p.m * 60000 + p.s * 1000 + p.ms

def breakDown (p : Parts) (u : TimeUnit) : Parts :=
  match u.smaller with
  | none => p
  | some v => (p.set v (p.get v + p.get u * (v.ratio.getD 1 : Nat))).set u 0

/-- Drops a unit; a part of it that is not zero counts as one of the next larger unit when the time
is not negative. -/
def dropUp (up : Bool) (p : Parts) (u : TimeUnit) : Parts :=
  match u.larger with
  | none => p
  | some v => (if up ∧ p.get u ≠ 0 then p.set v (p.get v + 1) else p).set u 0

/-- Carries what a unit has too much of into the next larger one, until nothing is carried. -/
def carry (p : Parts) : List TimeUnit → Parts
  | [] => p
  | u :: us => match u.larger with
    | none => p
    | some v =>
      let r : Int := (u.ratio.getD 1 : Nat)
      let excess := (p.get u).fdiv r
      let p := p.set u ((p.get u).fmod r)
      if excess ≤ 0 then p else carry (p.set v (p.get v + excess)) us

/-- The parts of a time within a range of units. What is larger is counted in the largest unit; what
is smaller is dropped, and a time that is not negative is then rounded up. -/
def within (r : UnitRange) (t : Int) : Parts :=
  let folded := ([.d, .h, .m, .s].filter fun u => r.largest < u).foldl breakDown (ofMs t)
  let dropped := ([.ms, .s, .m, .h].filter fun u => u < r.smallest).foldl (dropUp (0 ≤ t)) folded
  if 0 ≤ t then dropped.carry (TimeUnit.all.filter fun u => r.smallest ≤ u ∧ u < r.largest)
  else dropped

end Parts

/-- One displayed unit: its count, written with at least `width` digits after an optional sign. -/
structure Segment where
  unit : TimeUnit
  negative : Bool
  value : Nat
  width : Nat
  deriving DecidableEq, Repr

def Segment.chars (s : Segment) : List Char :=
  (if s.negative then ['-'] else []) ++ Text.padded s.width s.value

def Segment.text (s : Segment) : String := String.ofList s.chars

def segmentWidth : TimeUnit → Nat
  | .ms => 3
  | _ => 2

/-- Whether a unit is left out at the front: it is zero, it is not seconds, and it is not the last. -/
def isTrimmed (r : UnitRange) (p : Parts) (u : TimeUnit) : Bool :=
  p.get u = 0 ∧ u ≠ .s ∧ u ≠ r.smallest

def shownUnits (r : UnitRange) (trim : Bool) (p : Parts) : List TimeUnit :=
  if trim then r.units.dropWhile (isTrimmed r p) else r.units

/-- The segments of a time, largest first; the first one carries the sign and is not padded. -/
def segments (r : UnitRange) (trim : Bool) (t : Int) : List Segment :=
  let p := Parts.within r t
  match shownUnits r trim p with
  | [] => []
  | u :: us => ⟨u, t < 0, (p.get u).natAbs, 1⟩ ::
      us.map fun v => ⟨v, false, (p.get v).natAbs, segmentWidth v⟩

def joint (separator : String) (s : Segment) : String :=
  match s.unit with
  | .ms => "."
  | _ => separator

def clockText (separator : String) : List Segment → String
  | [] => ""
  | s :: ss => s.text ++ String.join (ss.map fun v => joint separator v ++ v.text)

/-- The segments of a time, if all their numbers can be written. -/
def written (r : UnitRange) (trim : Bool) (t : Int) : Except Text.TooLong (List Segment) :=
  let shown := segments r trim t
  if shown.all fun x => Text.isShort x.value then .ok shown else .error ⟨⟩

def clock (r : UnitRange) (trim : Bool) (separator : String) (t : Int) : Except Text.TooLong String :=
  (written r trim t).map (clockText separator)

def clockStrings (r : UnitRange) (trim : Bool) (t : Int) :
    Except Text.TooLong (List (TimeUnit × String)) :=
  (written r trim t).map fun shown => shown.reverse.map fun x => (x.unit, x.text)

end Countdown.Duration
