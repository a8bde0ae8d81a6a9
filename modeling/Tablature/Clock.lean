import Tablature.Meter.Label
import Tablature.Text.Fields

/-!
# Clocks

A clock counts the steps of the measures of a staff.
-/

namespace Tablature

/-- A meter, the step of the measure that comes next, and the number of steps counted. -/
structure Clock where
  meter : Meter := .common
  position : Nat := 0
  counted : Nat := 0
deriving DecidableEq, Repr

/-- A change of a clock. -/
inductive Clock.Command where
  | setSignature (beats dominant : Int)
  | setFidelity (fidelity : Int)
  | tick
deriving DecidableEq, Repr

namespace Clock

/-- A clock with the given signature and fidelity at the start of a measure. -/
def ofNumbers (beats dominant fidelity : Int) : Clock :=
  { meter := Meter.common.setSignature beats dominant |>.setFidelity fidelity }

def setSignature (beats dominant : Int) (k : Clock) : Clock :=
  { k with meter := k.meter.setSignature beats dominant }

def setFidelity (fidelity : Int) (k : Clock) : Clock :=
  { k with meter := k.meter.setFidelity fidelity }

/-- Counts a step, and goes on to the next one of the measure. -/
def tick (k : Clock) : Clock :=
  { k with position := (k.position + 1) % k.meter.length, counted := k.counted + 1 }

def apply : Command → Clock → Clock
  | .setSignature beats dominant, k => k.setSignature beats dominant
  | .setFidelity fidelity, k => k.setFidelity fidelity
  | .tick, k => k.tick

/-- The label of the step that comes next. -/
def label (k : Clock) : Except Meter.LabelFault String := k.meter.label k.position

/-- A step's part of the count line. A first step has a space more, for the bar line above it. -/
def countField (label : String) : String :=
  (if label = Meter.downbeat then " " else "") ++ " " ++ Text.padded 2 label

/-- The width of the column of the note names, in front of every line. -/
def noteColumn : String := "   "

/-- The count line with the labels of the steps from `step` on, behind the text before them. -/
def countLineFrom (m : Meter) (line : String) (step : Nat) : Nat → Except Meter.LabelFault String
  | 0 => .ok line
  | n + 1 =>
    match m.label (step % m.length) with
    | .ok label => countLineFrom m (line ++ countField label) (step + 1) n
    | .error e => .error e

/-- The line with the labels of all steps counted, in the meter of now. -/
def text (k : Clock) : Except Meter.LabelFault String :=
  countLineFrom k.meter noteColumn 0 k.counted

end Clock

end Tablature
