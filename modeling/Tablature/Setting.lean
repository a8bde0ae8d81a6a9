import Tablature.Meter.Basic
import Tablature.Outcome
import Tablature.Text.Fields
import Tablature.Text.Numeral

/-!
# Settings in an options block

An options block is a list of segments between semicolons, such as `time=3/4; fidelity=8`. Each
segment is one setting, or has a fault of its own, whatever stands in the others. The settings of
a block change a meter one after the other; faulty segments change nothing.

* `state_configure`: the meter after a block is a fold over its segments;
* `fault_configure_eq_none_iff`: a block is accepted when every one of its segments is a setting.
-/

namespace Tablature

open Text

/-- A change of a meter. -/
inductive Setting where
  | signature (beats dominant : Nat)
  | fidelity (fidelity : Nat)
deriving DecidableEq, Repr

/-- Why a segment is not a setting. -/
inductive Setting.Fault where
  /-- The segment has no equals sign. -/
  | unset (segment : String)
  | unknown (name : String)
  /-- A time signature without a slash. -/
  | noSlash (value : String)
  | badSignature (numerator denominator : String) (first second : Numeral.Fault)
  | badBeats (numerator : String) (cause : Numeral.Fault)
  | badDominant (denominator : String) (cause : Numeral.Fault)
  | badFidelity (value : String) (cause : Numeral.Fault)
deriving DecidableEq, Repr

def Setting.Fault.message : Setting.Fault → String
  | unset segment => "Option \"" ++ segment ++ "\" has not been set to a value."
  | unknown name => "Option \"" ++ name ++ "\" does not exist."
  | noSlash value =>
    "Time signature option \"" ++ value ++ "\" is improperly formatted. " ++
      "Format should equal \"n/n\" where 'n' is a whole integer."
  | badSignature numerator denominator first second =>
    "Could not parse time signature \"" ++ numerator ++ "/" ++ denominator ++ "\" into numbers: " ++
      first.message ++ "; " ++ second.message
  | badBeats numerator cause =>
    "Could not parse beats per measure (numerator) \"" ++ numerator ++ "\" into a number: " ++
      cause.message
  | badDominant denominator cause =>
    "Could not parse dominant beat (denominator) \"" ++ denominator ++ "\" into a number: " ++
      cause.message
  | badFidelity value cause =>
    "Could not parse beat fidelity \"" ++ value ++ "\" into a number: " ++ cause.message

namespace Setting

/-- The time signature that two texts write, numerator and denominator. -/
def ofSignature (numerator denominator : List Char) : Except Fault Setting :=
  let n := String.ofList (trim numerator)
  let d := String.ofList (trim denominator)
  match Numeral.parse numerator, Numeral.parse denominator with
  | .ok beats, .ok dominant => .ok (.signature beats dominant)
  | .error first, .error second => .error (.badSignature n d first second)
  | .error cause, .ok _ => .error (.badBeats n cause)
  | .ok _, .error cause => .error (.badDominant d cause)

/-- The time signature that a value writes: the first two of its parts between slashes. -/
def ofTime (value : List Char) : Except Fault Setting :=
  match fields '/' (trim value) with
  | numerator :: denominator :: _ => ofSignature numerator denominator
  | _ => .error (.noSlash (String.ofList (trim value)))

def ofFidelity (value : List Char) : Except Fault Setting :=
  match Numeral.parse value with
  | .ok n => .ok (.fidelity n)
  | .error cause => .error (.badFidelity (String.ofList (trim value)) cause)

/-- The setting that a segment of an options block writes. -/
def ofSegment (segment : List Char) : Except Fault Setting :=
  match cutAt '=' (trim segment) with
  | none => .error (.unset (String.ofList (trim segment)))
  | some (name, value) =>
    let name := String.ofList (trim name)
    if name = "time" then ofTime value
    else if name = "fidelity" then ofFidelity value
    else .error (.unknown name)

/-- A meter after a setting. -/
def apply : Setting → Meter → Meter
  | signature beats dominant, m => m.setSignature beats dominant
  | fidelity f, m => m.setFidelity f

/-- A meter after a segment, which changes nothing if it is faulty. -/
def applySegment (m : Meter) (segment : List Char) : Meter :=
  match ofSegment segment with
  | .ok setting => setting.apply m
  | .error _ => m

/-- The fault of a segment, if it has one. -/
def fault? (segment : List Char) : Option Fault :=
  match ofSegment segment with
  | .ok _ => none
  | .error e => some e

/-- The segments of an options block. -/
def segments (block : String) : List (List Char) := fields ';' block.toList

/-- The faults of an options block, one for each faulty segment. -/
def faults (block : String) : List Fault := (segments block).filterMap fault?

/-- Messages on indented lines of their own. -/
def indented (messages : List String) : String :=
  String.join (messages.map fun message => "\t" ++ message ++ "\n")

/-- The faults of an options block as text. -/
def report (faults : List Fault) : String := indented (faults.map Fault.message)

end Setting

theorem Setting.faults_eq_nil_iff {block : String} :
    Setting.faults block = [] ↔ ∀ segment ∈ Setting.segments block,
      ∃ setting, Setting.ofSegment segment = .ok setting := by
  simp only [faults, List.filterMap_eq_nil_iff, fault?]
  refine forall_congr' fun segment => imp_congr_right fun _ => ?_
  cases ofSegment segment <;> simp

namespace Meter

/-- A meter after an options block, stopped by the faults of the block if it has any. -/
def configure (block : String) (m : Meter) : Outcome (List Setting.Fault) Meter :=
  let m' := (Setting.segments block).foldl Setting.applySegment m
  match Setting.faults block with
  | [] => .done m'
  | f :: fs => .stopped m' (f :: fs)

theorem state_configure (block : String) (m : Meter) :
    (m.configure block).state = (Setting.segments block).foldl Setting.applySegment m := by
  simp only [configure]
  split <;> rfl

theorem fault_configure (block : String) (m : Meter) :
    (m.configure block).fault =
      if Setting.faults block = [] then none else some (Setting.faults block) := by
  simp only [configure]
  split <;> simp [*, Outcome.done, Outcome.stopped]

theorem fault_configure_eq_none_iff {block : String} {m : Meter} :
    (m.configure block).fault = none ↔
      ∀ segment ∈ Setting.segments block, ∃ setting, Setting.ofSegment segment = .ok setting := by
  rw [← Setting.faults_eq_nil_iff, fault_configure]
  split
  · exact iff_of_true rfl ‹_›
  · exact iff_of_false (Option.some_ne_none _) ‹_›

end Meter

end Tablature
