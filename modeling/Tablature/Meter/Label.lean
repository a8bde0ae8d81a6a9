import Tablature.Binary64
import Tablature.Meter.Basic
import Tablature.Text.Numeral

/-!
# Labels of the steps of a measure

A step on a beat is labelled with the number of the beat, the quarters of a beat with `e`, `&` and
`a`, and any other step with a point. The fraction of a beat is computed with doubles: the
resolution of a meter, fidelity by dominant beat, is rounded, and so is the fraction.
-/

namespace Tablature

/-- Why a step has no label. -/
inductive Meter.LabelFault where
  /-- The resolution is too large for a double. -/
  | resolutionOverflow
  /-- The part of a beat is too large for a double. -/
  | partOverflow
  /-- The resolution is zero as a double. -/
  | zeroResolution
  /-- The number of the beat has too many digits. -/
  | tooManyDigits
deriving DecidableEq, Repr

def Meter.LabelFault.message : Meter.LabelFault → String
  | resolutionOverflow => "integer division result too large for a float"
  | partOverflow => "int too large to convert to float"
  | zeroResolution => "float division by zero"
  | tooManyDigits =>
    "Exceeds the limit (4300 digits) for integer string conversion; " ++
      "use sys.set_int_max_str_digits() to increase the limit"

namespace Meter

/-- The label of a step that lies the fraction `x` of a beat behind the beat. -/
def fractionLabel (x : Rat) : String :=
  if x = 1 / 4 then "e"
  else if x = 1 / 2 then "&"
  else if x = 3 / 4 then "a"
  else "."

/-- The label of the first step of a measure. -/
def downbeat : String := "1"

/-- The label of a beat, given its number. -/
def beatLabel (number : Int) : Except LabelFault String :=
  match Numeral.write number with
  | some numeral => .ok numeral
  | none => .error .tooManyDigits

/-- The label of the step that comes `part` steps behind a beat. -/
def partLabel (part : Int) (resolution : Rat) : Except LabelFault String :=
  match Binary64.ofRat? (part : Rat) with
  | none => .error .partOverflow
  | some part =>
    if resolution = 0 then .error .zeroResolution
    else .ok (fractionLabel (Binary64.nearest (part / resolution)))

/-- The steps of one beat as a double: fidelity by dominant beat. -/
def resolution? (m : Meter) : Option Rat :=
  Binary64.ofRat? ((m.fidelity : Rat) / (m.dominant : Rat))

/-- The whole steps of one beat, of which there is at least one. -/
def wholeSteps (resolution : Rat) : Nat := max 1 resolution.floor.toNat

/-- The label of the step at a position, counted from the first step of a measure; positions
before it count downwards. -/
def label (m : Meter) (position : Int) : Except LabelFault String :=
  match m.resolution? with
  | none => .error .resolutionOverflow
  | some resolution =>
    let steps : Int := wholeSteps resolution
    let part := position % steps
    if part = 0 then beatLabel (position / steps + 1) else partLabel part resolution

end Meter

end Tablature
