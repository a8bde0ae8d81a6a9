import Tablature.Path
import Tablature.Text.Quoted

/-!
# File systems

What a run needs of a file system, as a record of operations in any monad. `makeDirectories` makes
a directory and those above it.
-/

namespace Tablature

/-- Why the system refuses an operation on a file. -/
inductive SystemFault.Cause where
  | noEntry
  | alreadyExists
  | notDirectory
  | isDirectory
  | nameTooLong
  | other (number : Nat) (description : String)
deriving DecidableEq, Repr

namespace SystemFault.Cause

def number : Cause → Nat
  | noEntry => 2
  | alreadyExists => 17
  | notDirectory => 20
  | isDirectory => 21
  | nameTooLong => 36
  | other n _ => n

def description : Cause → String
  | noEntry => "No such file or directory"
  | alreadyExists => "File exists"
  | notDirectory => "Not a directory"
  | isDirectory => "Is a directory"
  | nameTooLong => "File name too long"
  | other _ description => description

end SystemFault.Cause

/-- An operation that the system refused, and the path it was asked for. -/
structure SystemFault where
  cause : SystemFault.Cause
  path : Path
deriving DecidableEq, Repr

def SystemFault.message (e : SystemFault) : String :=
  "[Errno " ++ toString e.cause.number ++ "] " ++ e.cause.description ++ ": " ++
    Text.quoted e.path.text

/-- Why an operation on a file fails. -/
inductive FileFault where
  /-- The path holds the null character, and cannot be handed to the system. -/
  | embeddedNull
  | system (fault : SystemFault)
deriving DecidableEq, Repr

def FileFault.message : FileFault → String
  | embeddedNull => "embedded null byte"
  | system fault => fault.message

/-- The operations on files that a run uses. -/
structure Host (m : Type → Type) where
  read : Path → m (Except FileFault ByteArray)
  /-- Writes a file, in place of what it held if it is there. -/
  write : Path → ByteArray → m (Except FileFault Unit)
  makeDirectory : Path → m (Except FileFault Unit)
  isDirectory : Path → m Bool

namespace Host

variable {m : Type → Type} [Monad m]

/-- A fault of making a directory is none if the directory is there. -/
def unlessDirectory (host : Host m) (path : Path) (fault : FileFault) :
    m (Except FileFault Unit) := do
  if ← host.isDirectory path then return .ok () else return .error fault

/-- Makes a directory whose own directory is there; it may be there itself. -/
def makeOneDirectory (host : Host m) (path : Path) : m (Except FileFault Unit) := do
  match ← host.makeDirectory path with
  | .error (.system ⟨.noEntry, at'⟩) => return .error (.system ⟨.noEntry, at'⟩)
  | .error (.system fault) => host.unlessDirectory path (.system fault)
  | result => return result

/-- Makes the directory with the given names, the last one first, and all those above it. -/
def makeDirectoriesOf (host : Host m) (root : Path.Root) : List String → m (Except FileFault Unit)
  | [] => host.makeOneDirectory ⟨root, []⟩
  | name :: above => do
    let path : Path := ⟨root, (name :: above).reverse⟩
    match ← host.makeDirectory path with
    | .error (.system ⟨.noEntry, _⟩) =>
      match ← makeDirectoriesOf host root above with
      | .ok () => host.makeOneDirectory path
      | .error e => return .error e
    | .error (.system fault) => host.unlessDirectory path (.system fault)
    | result => return result

/-- Makes a directory and all those above it; it may be there. -/
def makeDirectories (host : Host m) (path : Path) : m (Except FileFault Unit) :=
  host.makeDirectoriesOf path.root path.names.reverse

end Host

end Tablature
