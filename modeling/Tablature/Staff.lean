import Tablature.Clock
import Tablature.Outcome

/-!
# Staffs

A staff has a row of cells for each of its strings. The strings are declared first; then cells are
written, one string after the other, from the last declared one to the first. When every string
has its cell, the clock counts a step.

* `iterate_writeCell_of_notes_eq_nil`: without strings nothing is ever written.
-/

namespace Tablature

/-- What stands in one cell: a fret, or nothing. -/
inductive Cell where
  | fret (text : String)
  | empty
deriving DecidableEq, Repr

/-- A cell is three characters wide; a fret of more than two characters makes it wider. -/
def Cell.text : Cell → String
  | fret f => if f.length = 1 then "-" ++ f ++ "-" else "-" ++ f
  | empty => "---"

/-- What can no longer be changed once a cell has been written. -/
inductive Staff.Setup where
  | notes
  | signature
  | fidelity
deriving DecidableEq, Repr

/-- Why an operation on a staff is refused. -/
inductive Staff.Fault where
  /-- The staff has cells, so that its setup is fixed. -/
  | locked (change : Staff.Setup)
  /-- The step that comes next has no label. -/
  | label (cause : Meter.LabelFault)
deriving DecidableEq, Repr

def Staff.Fault.message : Staff.Fault → String
  | locked .notes => "Cannot add note after tabs have been added."
  | locked .signature => "Cannot set time signature after tabs have been added."
  | locked .fidelity => "Cannot set fidelity after tabs have been added."
  | label cause => cause.message

/-- The strings of a staff, in the order of their declaration, and their rows so far. -/
structure Staff where
  /-- The names of the strings. -/
  notes : List String := []
  /-- The row of each string. -/
  rows : List String := []
  clock : Clock := {}
  /-- Whether a cell has been written. -/
  hasCells : Bool := false
  /-- The string whose row the next cell goes to. -/
  cursor : Nat := 0
deriving DecidableEq, Repr

/-- What one sign of the notation writes on a staff. -/
inductive Staff.Stroke where
  | fret (text : String)
  | empty
  /-- Empty cells up to the end of the step. -/
  | next
  /-- A number of empty cells. -/
  | spreadEmpty (count : Int)
  /-- `next`, a number of times. -/
  | spreadNext (count : Int)
deriving DecidableEq, Repr

/-- An operation on a staff. -/
inductive Staff.Command where
  | addNote (note : String)
  | setSignature (beats dominant : Int)
  | setFidelity (fidelity : Int)
  | stroke (stroke : Staff.Stroke)
deriving DecidableEq, Repr

namespace Staff

/-- Does `change`, unless the staff has cells. -/
def setup (what : Setup) (change : Staff → Staff) (s : Staff) : Outcome Fault Staff :=
  if s.hasCells then .stopped s (.locked what) else .done (change s)

/-- Declares one more string, which the cursor goes to. -/
def addNote (note : String) : Staff → Outcome Fault Staff :=
  setup .notes fun s =>
    { s with notes := s.notes ++ [note], rows := s.rows ++ [""], cursor := s.notes.length }

def setSignature (beats dominant : Int) : Staff → Outcome Fault Staff :=
  setup .signature fun s => { s with clock := s.clock.setSignature beats dominant }

def setFidelity (fidelity : Int) : Staff → Outcome Fault Staff :=
  setup .fidelity fun s => { s with clock := s.clock.setFidelity fidelity }

/-- Moves the cursor to the next string; behind the last one, a step is counted. -/
def advance (s : Staff) : Staff :=
  if s.cursor = 0 then { s with clock := s.clock.tick, cursor := s.notes.length - 1 }
  else { s with cursor := s.cursor - 1 }

/-- The bar line in front of the first step of a measure, given the label of a step. -/
def barLine (label : String) : String := if label = Meter.downbeat then "|" else ""

/-- Writes a cell on the string of the cursor, on a staff that has strings. -/
def writeCell (cell : Cell) (s : Staff) : Outcome Fault Staff :=
  if s.notes = [] then .done s
  else match s.clock.label with
    | .error e => .stopped s (.label e)
    | .ok label =>
      .done (advance { s with
        rows := s.rows.modify s.cursor (· ++ (barLine label ++ cell.text))
        hasCells := true })

/-- Empty cells for the strings that are left of the step. -/
def finishStep (s : Staff) : Outcome Fault Staff :=
  if s.notes = [] then .done s else Outcome.iterate (writeCell .empty) (s.cursor + 1) s

def stroke : Stroke → Staff → Outcome Fault Staff
  | .fret f, s => writeCell (.fret f) s
  | .empty, s => writeCell .empty s
  | .next, s => finishStep s
  | .spreadEmpty count, s => if s.notes = [] then .done s else
      Outcome.iterate (writeCell .empty) count.toNat s
  | .spreadNext count, s => if s.notes = [] then .done s else
      Outcome.iterate finishStep count.toNat s

def apply : Command → Staff → Outcome Fault Staff
  | .addNote note, s => s.addNote note
  | .setSignature beats dominant, s => s.setSignature beats dominant
  | .setFidelity fidelity, s => s.setFidelity fidelity
  | .stroke k, s => s.stroke k

/-- The line of a string: its name and its row. -/
def line (note row : String) : String := Text.padded 2 note ++ " " ++ row ++ "\n"

/-- The staff as text: the rows, named from the last declared string to the first, an empty line,
and the count line. -/
def text (s : Staff) : Except Fault String :=
  match s.clock.text with
  | .ok count =>
    .ok (String.join (List.zipWith line s.notes.reverse s.rows) ++ "\n" ++ count ++ "\n")
  | .error e => .error (.label e)

theorem writeCell_of_notes_eq_nil {s : Staff} (h : s.notes = []) (cell : Cell) :
    writeCell cell s = .done s := by
  simp [writeCell, h]

/-- Without strings, a spread has the same outcome as all its cells, one after the other. -/
theorem iterate_writeCell_of_notes_eq_nil {s : Staff} (h : s.notes = []) (n : Nat) :
    Outcome.iterate (writeCell .empty) n s = .done s := by
  induction n with
  | zero => rfl
  | succ n ih => rw [Outcome.iterate_succ, writeCell_of_notes_eq_nil h]; exact ih

end Staff

end Tablature
