import Countdown.Text.Quoted
set_option autoImplicit false

namespace Countdown

inductive TimeUnit where
  | ms
  | s
  | m
  | h
  | d
  deriving DecidableEq, Repr

namespace TimeUnit

def all : List TimeUnit := [.ms, .s, .m, .h, .d]

def position : TimeUnit → Nat
  | .ms => 0
  | .s => 1
  | .m => 2
  | .h => 3
  | .d => 4

def size : TimeUnit → Nat
  | .ms => 1
  | .s => 1000
  | .m => 60000
  | .h => 3600000
  | .d => 86400000

def larger : TimeUnit → Option TimeUnit
  | .ms => some .s
  | .s => some .m
  | .m => some .h
  | .h => some .d
  | .d => none

def smaller : TimeUnit → Option TimeUnit
  | .ms => none
  | .s => some .ms
  | .m => some .s
  | .h => some .m
  | .d => some .h

/-- How many of the unit make one of the next larger unit. -/
def ratio (u : TimeUnit) : Option Nat := u.larger.map fun v => v.size / u.size

instance : LT TimeUnit := ⟨fun u v => u.position < v.position⟩
instance : LE TimeUnit := ⟨fun u v => u.position ≤ v.position⟩
instance (u v : TimeUnit) : Decidable (u < v) := inferInstanceAs (Decidable (u.position < v.position))
instance (u v : TimeUnit) : Decidable (u ≤ v) := inferInstanceAs (Decidable (u.position ≤ v.position))

theorem lt_iff {u v : TimeUnit} : u < v ↔ u.position < v.position := Iff.rfl
theorem le_iff {u v : TimeUnit} : u ≤ v ↔ u.position ≤ v.position := Iff.rfl

theorem size_pos (u : TimeUnit) : 0 < u.size := by cases u <;> decide

/-- The short name, which is also how a unit is written in settings. -/
def name : TimeUnit → String
  | .ms => "ms"
  | .s => "s"
  | .m => "m"
  | .h => "h"
  | .d => "d"

def ofName? (n : String) : Option TimeUnit := all.find? fun u => u.name == n

theorem ofName?_name (u : TimeUnit) : ofName? u.name = some u := by cases u <;> decide

def spellings : TimeUnit → List String
  | .ms => ["ms", "milli", "millis", "millisec", "millisecs", "millisecond", "milliseconds"]
  | .s => ["s", "sec", "secs", "second", "seconds"]
  | .m => ["m", "min", "mins", "minute", "minutes"]
  | .h => ["h", "hr", "hrs", "hour", "hours"]
  | .d => ["d", "day", "days"]

def ofSpelling? (word : String) : Option TimeUnit := all.find? fun u => u.spellings.contains word

end TimeUnit

structure UnknownUnit where
  name : String
  deriving DecidableEq, Repr

def UnknownUnit.message (e : UnknownUnit) : String := Text.quoted e.name ++ " is not a valid Unit"

def TimeUnit.read (name : String) : Except UnknownUnit TimeUnit :=
  match TimeUnit.ofName? name with
  | some u => .ok u
  | none => .error ⟨name⟩

structure UnitRange where
  smallest : TimeUnit
  largest : TimeUnit
  ordered : smallest ≤ largest := by decide
  deriving DecidableEq, Repr

namespace UnitRange

def between (a b : TimeUnit) : UnitRange :=
  if h : a ≤ b then ⟨a, b, h⟩ else ⟨b, a, Nat.le_of_lt (Nat.lt_of_not_le h)⟩

def read (a b : String) : Except UnknownUnit UnitRange := do
  let u ← TimeUnit.read a
  let v ← TimeUnit.read b
  return between u v

def full : UnitRange := ⟨.ms, .d, by decide⟩

def units (r : UnitRange) : List TimeUnit :=
  TimeUnit.all.reverse.filter fun u => r.smallest ≤ u ∧ u ≤ r.largest

end UnitRange
end Countdown
