/-!
# Diagnostics

What a stage finds wrong with its input, line by line, while it goes on.
-/

namespace Tablature

/-- One finding, at a line of the source. -/
structure Diagnostic where
  line : Int
  message : String
deriving DecidableEq, Repr

def Diagnostic.text (d : Diagnostic) : String :=
  "[" ++ toString d.line ++ "] Error: " ++ d.message

/-- The findings of one stage, in the order in which they were recorded. -/
structure Diagnostics where
  entries : Array Diagnostic := #[]
deriving DecidableEq, Repr

namespace Diagnostics

def record (ds : Diagnostics) (line : Int) (message : String) : Diagnostics :=
  ⟨ds.entries.push ⟨line, message⟩⟩

def isEmpty (ds : Diagnostics) : Bool := ds.entries.isEmpty

/-- The text of each finding. -/
def messages (ds : Diagnostics) : List String := ds.entries.toList.map Diagnostic.text

/-- The whole report, a finding after the other on lines of their own. -/
def text (ds : Diagnostics) : String := "\n".intercalate ds.messages

@[simp]
theorem entries_record (ds : Diagnostics) (line : Int) (message : String) :
    (ds.record line message).entries.toList = ds.entries.toList ++ [⟨line, message⟩] := by
  simp [record]

theorem eq_empty_of_isEmpty {ds : Diagnostics} (h : ds.isEmpty = true) : ds = {} := by
  obtain ⟨entries⟩ := ds
  exact congrArg mk (Array.isEmpty_iff.1 h)

end Diagnostics

end Tablature
