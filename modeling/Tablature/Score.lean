import Tablature.Setting
import Tablature.Staff

/-!
# Scores

A score is a list of staffs, of which only the last is written on. A note after the first cell of
a staff starts a new one, which takes the meter that options blocks have set so far.

* `staffs_addNote_of_opens`: the staff that a note starts comes behind all others.
-/

namespace Tablature

/-- The staffs, and the meter that the next one starts with. -/
structure Score where
  newestFirst : List Staff := []
  defaults : Meter := .common
deriving DecidableEq, Repr

/-- An operation on a score. -/
inductive Score.Command where
  | note (name : String)
  | stroke (stroke : Staff.Stroke)
  | options (block : String)
deriving DecidableEq, Repr

/-- Why an operation on a score fails. -/
inductive Score.Fault where
  /-- The faults of an options block. -/
  | rejected (faults : List Setting.Fault)
  | staff (cause : Staff.Fault)
deriving DecidableEq, Repr

namespace Score

/-- The staffs, in the order in which they were started. -/
def staffs (s : Score) : List Staff := s.newestFirst.reverse

/-- The staff that is written on. -/
def current? (s : Score) : Option Staff := s.newestFirst.head?

/-- Whether the next note starts a staff. -/
def opensStaff (s : Score) : Bool :=
  match s.newestFirst with
  | [] => true
  | staff :: _ => staff.hasCells

/-- The score with one more staff, in the meter of now. -/
def openStaff (s : Score) : Score :=
  { s with newestFirst := { clock := { meter := s.defaults } } :: s.newestFirst }

/-- An operation on the last staff; nothing if there is none. -/
def onCurrent (f : Staff → Outcome Staff.Fault Staff) : Score → Outcome Staff.Fault Score
  | ⟨[], defaults⟩ => .done ⟨[], defaults⟩
  | ⟨staff :: earlier, defaults⟩ => (f staff).map (fun staff => ⟨staff :: earlier, defaults⟩) id

/-- Declares a string, on the last staff or on a new one. -/
def addNote (name : String) (s : Score) : Outcome Staff.Fault Score :=
  (if s.opensStaff then s.openStaff else s).onCurrent (Staff.addNote name)

def stroke (k : Staff.Stroke) : Score → Outcome Staff.Fault Score := onCurrent (Staff.stroke k)

/-- Sets the meter of the staffs to come. -/
def setOptions (block : String) (s : Score) : Outcome (List Setting.Fault) Score :=
  (s.defaults.configure block).map (fun defaults => { s with defaults }) id

def apply : Command → Score → Outcome Fault Score
  | .note name, s => (s.addNote name).map id .staff
  | .stroke k, s => (s.stroke k).map id .staff
  | .options block, s => (s.setOptions block).map id .rejected

/-- The texts of staffs, each with an empty line behind it, after the text before them. -/
def textOnto (before : String) : List Staff → Except Staff.Fault String
  | [] => .ok before
  | staff :: later =>
    match staff.text with
    | .ok text => textOnto (before ++ (text ++ "\n")) later
    | .error e => .error e

def text (s : Score) : Except Staff.Fault String := textOnto "" s.staffs

theorem staffs_addNote_of_opens {s : Score} (h : s.opensStaff = true) (name : String) :
    (s.addNote name).state.staffs =
      s.staffs ++
        [{ notes := [name], rows := [""], clock := { meter := s.defaults } }] := by
  simp [addNote, h, openStaff, onCurrent, Staff.addNote, Staff.setup, Outcome.map, Outcome.done,
    staffs]

end Score

end Tablature
