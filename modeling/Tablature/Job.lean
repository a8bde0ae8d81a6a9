import Tablature.Path
import Tablature.Text.Quoted

/-!
# Jobs

A job is a file to interpret and a file to write. The file to write always has the suffix `.txt`;
if none is named, it lies in the current directory and is named after the file to interpret.
-/

namespace Tablature

structure Job where
  input : Path
  output : Path
deriving DecidableEq, Repr

/-- Why there is no job: the file to write would have no name. -/
structure Job.Nameless where
  path : Path
deriving DecidableEq, Repr

def Job.Nameless.message (e : Job.Nameless) : String :=
  "PosixPath(" ++ Text.quoted e.path.text ++ ") has an empty name"

namespace Job

def outputSuffix : String := ".txt"

/-- The path, but for its suffix, that is written if none is named. -/
def defaultOutput (input : Path) : Path :=
  Path.ofText (if input.stem = "" then "output" else input.stem ++ "-output")

def ofPaths (input : Path) (output : Option Path) : Except Nameless Job :=
  let target := output.getD (defaultOutput input)
  match target.withSuffix? outputSuffix with
  | some output => .ok { input, output }
  | none => .error ⟨target⟩

end Job

end Tablature
