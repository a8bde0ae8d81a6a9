import Tablature.Text.Fields

/-!
# Paths

A path is a root and the names below it. Names are never empty and never a single point, so that
`a//b/./c` and `a/b/c/` are one path. Two slashes in front are a root of their own; more are one.
-/

namespace Tablature

open Text

/-- Where a path starts. -/
inductive Path.Root where
  | relative
  | slash
  | doubleSlash
deriving DecidableEq, Repr

def Path.Root.text : Path.Root → String
  | relative => ""
  | slash => "/"
  | doubleSlash => "//"

structure Path where
  root : Path.Root
  names : List String
deriving DecidableEq, Repr

namespace Path

/-- The root of a path, by the number of slashes in front of it. -/
def rootOf (slashes : Nat) : Root :=
  if slashes = 0 then .relative else if slashes = 2 then .doubleSlash else .slash

/-- The path that a text writes. -/
def ofText (text : String) : Path where
  root := rootOf (text.toList.takeWhile (· == '/')).length
  names := ((fields '/' text.toList).filter fun f => f ≠ [] && f ≠ ['.']).map String.ofList

def text (p : Path) : String :=
  if p.root = .relative ∧ p.names = [] then "."
  else p.root.text ++ "/".intercalate p.names

/-- The last name, or the empty text if there is none. -/
def name (p : Path) : String := p.names.getLastD ""

/-- The part of a name in front of its last point, if there is something on both sides of it. -/
def stemOf (name : List Char) : List Char :=
  let after := (name.reverse.takeWhile (· != '.')).length
  if 0 < after ∧ after + 1 < name.length then name.take (name.length - after - 1) else name

def stem (p : Path) : String := String.ofList (stemOf p.name.toList)

/-- The path with another suffix to its name, if it has a name. -/
def withSuffix? (p : Path) (suffix : String) : Option Path :=
  if p.names = [] then none
  else some { p with names := p.names.dropLast ++ [p.stem ++ suffix] }

/-- The directory of a path. -/
def parent (p : Path) : Path := { p with names := p.names.dropLast }

end Path

end Tablature
