import Tablature.Files.Host

/-!
# Trees of files

A file system as a value: which directories and files there are, each by the names that lead to it
from the root, and the directory that relative paths start from. A path is followed name by name;
every name but the last has to be a directory, and `..` leads back to the directory above. There
are no links, and nothing is forbidden to anyone.

* `node?_insert_self`, `node?_insert_of_ne`: what is found after a change, there and elsewhere.
-/

namespace Tablature

/-- What a path leads to. -/
inductive FileTree.Node where
  | directory
  | file (content : ByteArray)

/-- Directories and files by their names from the root on, and the current directory. -/
structure FileTree where
  current : List String := []
  nodes : List (List String × FileTree.Node) := []

namespace FileTree

/-- What is at a place, given by its names from the root on. -/
def node? (t : FileTree) (place : List String) : Option Node :=
  if place = [] then some .directory else t.nodes.lookup place

/-- The tree with something put at a place. -/
def insert (place : List String) (node : Node) (t : FileTree) : FileTree :=
  { t with nodes := (place, node) :: t.nodes.filter (·.1 ≠ place) }

/-- Where a path leads: to something, or to a place in a directory where nothing is yet. -/
inductive Target where
  | present (place : List String) (node : Node)
  | vacant (place : List String)

/-- The most bytes of a name. -/
def nameLimit : Nat := 255

/-- The number of bytes that a path has to stay below. -/
def pathLimit : Nat := 4096

/-- Follows names from a directory on. -/
def follow (t : FileTree) (place : List String) : List String → Except SystemFault.Cause Target
  | [] => .ok (.present place .directory)
  | name :: names =>
    if nameLimit < name.utf8ByteSize then .error .nameTooLong
    else if name = ".." then follow t place.dropLast names
    else
      let next := place ++ [name]
      match t.node? next with
      | some .directory => follow t next names
      | some (.file content) =>
        if names = [] then .ok (.present next (.file content)) else .error .notDirectory
      | none => if names = [] then .ok (.vacant next) else .error .noEntry

/-- Where a path leads. -/
def find (t : FileTree) (path : Path) : Except SystemFault.Cause Target :=
  if pathLimit ≤ path.text.utf8ByteSize then .error .nameTooLong
  else t.follow (if path.root = .relative then t.current else []) path.names

/-- Does `f` with the place that a path leads to. -/
def atPath {α : Type} (t : FileTree) (path : Path)
    (f : Target → Except SystemFault.Cause (α × FileTree)) : Except FileFault α × FileTree :=
  if path.text.contains '\x00' then (.error .embeddedNull, t)
  else match t.find path >>= f with
    | .ok (a, t') => (.ok a, t')
    | .error cause => (.error (.system ⟨cause, path⟩), t)

def read (path : Path) (t : FileTree) : Except FileFault ByteArray × FileTree :=
  t.atPath path fun
    | .present _ (.file content) => .ok (content, t)
    | .present _ .directory => .error .isDirectory
    | .vacant _ => .error .noEntry

def write (path : Path) (content : ByteArray) (t : FileTree) : Except FileFault Unit × FileTree :=
  t.atPath path fun
    | .present place (.file _) | .vacant place => .ok ((), t.insert place (.file content))
    | .present _ .directory => .error .isDirectory

def makeDirectory (path : Path) (t : FileTree) : Except FileFault Unit × FileTree :=
  t.atPath path fun
    | .present _ _ => .error .alreadyExists
    | .vacant place => .ok ((), t.insert place .directory)

def isDirectory (path : Path) (t : FileTree) : Bool :=
  match t.find path with
  | .ok (.present _ .directory) => true
  | _ => false

/-- A tree of files as a file system. -/
def host : Host (StateM FileTree) where
  read path := read path
  write path content := write path content
  makeDirectory path := makeDirectory path
  isDirectory path t := (t.isDirectory path, t)

theorem node?_insert_self {place : List String} (h : place ≠ []) (node : Node) (t : FileTree) :
    (t.insert place node).node? place = some node := by
  simp [node?, insert, h]

theorem lookup_filter_of_ne {place other : List String} (h : other ≠ place)
    (nodes : List (List String × Node)) :
    (nodes.filter (·.1 ≠ place)).lookup other = nodes.lookup other := by
  induction nodes with
  | nil => rfl
  | cons n nodes ih =>
    obtain ⟨p, node⟩ := n
    by_cases hp : p = place
    · subst hp
      have ho : (other == p) = false := beq_false_of_ne h
      simp only [List.lookup_cons, ho]
      simpa using ih
    · by_cases ho : other == p <;> simp_all [List.lookup_cons]

theorem node?_insert_of_ne {place other : List String} (h : other ≠ place) (node : Node)
    (t : FileTree) : (t.insert place node).node? other = t.node? other := by
  have hb : (other == place) = false := beq_false_of_ne h
  simp only [node?, insert, List.lookup_cons, hb, lookup_filter_of_ne h]

end FileTree

end Tablature
