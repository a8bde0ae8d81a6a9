import Mathlib.Logic.Basic
import Tablature.Files.Tree
import Tablature.Proofs.Job

/-!
# Where a path leads

A path that leads somewhere leads through directories, up to its last name. `Reached` says what is
at its end; everything about reading and writing follows from it.

* `follow_eq_ok_iff`: where names lead;
* `Path.IsAcceptable.above`: a path that the system accepts lies below one that it accepts;
* `write_cases`: when a file is written;
* `LeadsToFile.read_insert`: what is written is read again.
-/

namespace Tablature

/-- A path that can be handed to the system: it does not hold the null character and is not too
long. -/
def Path.IsAcceptable (p : Path) : Prop :=
  '\x00' ∉ p.text.toList ∧ p.text.utf8ByteSize < FileTree.pathLimit

namespace Path

theorem text_append_singleton {root : Root} {names : List String} (h : names ≠ [])
    (name : String) : (⟨root, names ++ [name]⟩ : Path).text =
      (⟨root, names⟩ : Path).text ++ "/" ++ name := by
  have hne : ∀ ns : List String, ns ≠ [] → (⟨root, ns⟩ : Path).text =
      root.text ++ "/".intercalate ns := fun ns hns => if_neg fun h => hns h.2
  rw [hne _ (by simp), hne _ h, String.intercalate_append_of_ne_nil h (List.cons_ne_nil _ _),
    String.intercalate_singleton]
  simp only [String.append_assoc]

theorem isAcceptable_root (root : Root) : IsAcceptable ⟨root, []⟩ := by
  cases root <;> exact ⟨by decide +kernel, by decide +kernel⟩

/-- A path that the system accepts lies below one that it accepts. -/
theorem IsAcceptable.above {root : Root} {names : List String} {name : String}
    (h : IsAcceptable ⟨root, names ++ [name]⟩) : IsAcceptable ⟨root, names⟩ := by
  by_cases hn : names = []
  · exact hn ▸ isAcceptable_root root
  · obtain ⟨hnull, hsize⟩ := h
    rw [text_append_singleton hn] at hnull hsize
    simp only [String.toList_append, List.mem_append, not_or] at hnull
    simp only [String.utf8ByteSize_append] at hsize
    exact ⟨hnull.1.1, by omega⟩

end Path

namespace FileTree

/-- The place that a name leads to from another one, whatever is there. -/
def step (place : List String) (name : String) : List String :=
  if name = ".." then place.dropLast else place ++ [name]

/-- The place that names lead to. -/
def walk (place : List String) (names : List String) : List String := names.foldl step place

/-- The places that names lead down into, one after the other. -/
def entered (place : List String) : List String → List (List String)
  | [] => []
  | name :: names =>
    if name = ".." then entered place.dropLast names
    else (place ++ [name]) :: entered (place ++ [name]) names

def IsDirectory (t : FileTree) (place : List String) : Prop := t.node? place = some .directory

def IsFile (t : FileTree) (place : List String) : Prop :=
  ∃ content, t.node? place = some (.file content)

/-- Names that are not too long, and lead down only into places of a kind. -/
structure Through (P : List String → Prop) (place names : List String) : Prop where
  size_le : ∀ name ∈ names, name.utf8ByteSize ≤ nameLimit
  holds : ∀ p ∈ entered place names, P p

/-- Names that lead through directories. -/
def Leads (t : FileTree) : List String → List String → Prop := Through t.IsDirectory

/-- Names that lead through no file. -/
def Clear (t : FileTree) : List String → List String → Prop := Through fun p => ¬ t.IsFile p

section Names

variable {P : List String → Prop} {place names more : List String} {name : String}

theorem walk_cons : walk place (name :: names) = walk (step place name) names := rfl

theorem walk_append : walk place (names ++ more) = walk (walk place names) more :=
  List.foldl_append

theorem step_of_ne (h : name ≠ "..") : step place name = place ++ [name] := if_neg h

theorem entered_cons : entered place (name :: names) =
    (if name = ".." then [] else [place ++ [name]]) ++ entered (step place name) names := by
  rw [entered, step]
  split <;> rfl

theorem entered_append :
    entered place (names ++ more) = entered place names ++ entered (walk place names) more := by
  induction names generalizing place with
  | nil => rfl
  | cons name names ih =>
    rw [List.cons_append, entered_cons, entered_cons, ih, List.append_assoc, walk_cons]

theorem through_nil : Through P place [] := ⟨List.forall_mem_nil _, List.forall_mem_nil _⟩

theorem through_append_iff :
    Through P place (names ++ more) ↔
      Through P place names ∧ Through P (walk place names) more := by
  have hsize : (∀ n ∈ names ++ more, n.utf8ByteSize ≤ nameLimit) ↔
      (∀ n ∈ names, n.utf8ByteSize ≤ nameLimit) ∧ ∀ n ∈ more, n.utf8ByteSize ≤ nameLimit :=
    List.forall_mem_append
  have hplaces : (∀ p ∈ entered place (names ++ more), P p) ↔
      (∀ p ∈ entered place names, P p) ∧ ∀ p ∈ entered (walk place names) more, P p := by
    rw [entered_append, List.forall_mem_append]
  constructor
  · rintro ⟨h₁, h₂⟩
    exact ⟨⟨(hsize.1 h₁).1, (hplaces.1 h₂).1⟩, ⟨(hsize.1 h₁).2, (hplaces.1 h₂).2⟩⟩
  · rintro ⟨⟨h₁, h₂⟩, ⟨h₃, h₄⟩⟩
    exact ⟨hsize.2 ⟨h₁, h₃⟩, hplaces.2 ⟨h₂, h₄⟩⟩

theorem through_singleton_iff :
    Through P place [name] ↔
      name.utf8ByteSize ≤ nameLimit ∧ (name ≠ ".." → P (place ++ [name])) := by
  have hplaces : entered place [name] = if name = ".." then [] else [place ++ [name]] := by
    rw [entered_cons, entered, List.append_nil]
  constructor
  · rintro ⟨h₁, h₂⟩
    refine ⟨h₁ name List.mem_cons_self, fun h => h₂ _ ?_⟩
    rw [hplaces, if_neg h]
    exact List.mem_cons_self
  · rintro ⟨h₁, h₂⟩
    refine ⟨fun n hn => List.mem_singleton.1 hn ▸ h₁, fun p hp => ?_⟩
    rw [hplaces] at hp
    split at hp
    · cases hp
    · rw [List.mem_singleton.1 hp]
      exact h₂ ‹_›

theorem through_cons_iff : Through P place (name :: names) ↔
    (name.utf8ByteSize ≤ nameLimit ∧ (name ≠ ".." → P (place ++ [name]))) ∧
      Through P (step place name) names := by
  rw [← List.singleton_append, through_append_iff, through_singleton_iff]
  rfl

end Names

/-! ## Where names lead -/

variable {t : FileTree} {place names more : List String} {name : String}

/-- What names lead to: a directory, or a file or nothing in a directory. -/
inductive Reached (t : FileTree) (place : List String) : List String → Target → Prop
  | directory {names : List String} (leads : t.Leads place names) :
    Reached t place names (.present (walk place names) .directory)
  | file {names : List String} {name : String} {content : ByteArray} (leads : t.Leads place names)
      (size_le : name.utf8ByteSize ≤ nameLimit) (down : name ≠ "..")
      (node : t.node? (walk place names ++ [name]) = some (.file content)) :
    Reached t place (names ++ [name]) (.present (walk place names ++ [name]) (.file content))
  | vacant {names : List String} {name : String} (leads : t.Leads place names)
      (size_le : name.utf8ByteSize ≤ nameLimit) (down : name ≠ "..")
      (node : t.node? (walk place names ++ [name]) = none) :
    Reached t place (names ++ [name]) (.vacant (walk place names ++ [name]))

theorem follow_cons_of_directory (hsize : name.utf8ByteSize ≤ nameLimit)
    (hdir : name ≠ ".." → t.IsDirectory (place ++ [name])) :
    t.follow place (name :: names) = t.follow (step place name) names := by
  rw [follow, if_neg (by omega), step]
  split
  · rfl
  · rename_i hdown
    simp only [show t.node? (place ++ [name]) = some .directory from hdir hdown]

theorem follow_cons_of_file {content : ByteArray} (hsize : name.utf8ByteSize ≤ nameLimit)
    (hdown : name ≠ "..") (hnode : t.node? (place ++ [name]) = some (.file content)) :
    t.follow place (name :: names) =
      if names = [] then .ok (.present (place ++ [name]) (.file content))
      else .error .notDirectory := by
  rw [follow, if_neg (by omega), if_neg hdown]
  simp only [hnode]

theorem follow_cons_of_none (hsize : name.utf8ByteSize ≤ nameLimit) (hdown : name ≠ "..")
    (hnode : t.node? (place ++ [name]) = none) :
    t.follow place (name :: names) =
      if names = [] then .ok (.vacant (place ++ [name])) else .error .noEntry := by
  rw [follow, if_neg (by omega), if_neg hdown]
  simp only [hnode]

theorem follow_append (h : t.Leads place names) (more : List String) :
    t.follow place (names ++ more) = t.follow (walk place names) more := by
  induction names generalizing place with
  | nil => rfl
  | cons name names ih =>
    obtain ⟨⟨hsize, hdir⟩, hrest⟩ := through_cons_iff.1 h
    rw [List.cons_append, follow_cons_of_directory hsize hdir, ih hrest, walk_cons]

/-- What may be at a place. -/
theorem node?_cases (t : FileTree) (place : List String) :
    t.IsDirectory place ∨ (∃ content, t.node? place = some (.file content)) ∨
      t.node? place = none := by
  unfold IsDirectory
  rcases t.node? place with _ | _ | content
  · exact .inr (.inr rfl)
  · exact .inl rfl
  · exact .inr (.inl ⟨content, rfl⟩)

theorem Reached.cons {target : Target} (hsize : name.utf8ByteSize ≤ nameLimit)
    (hdir : name ≠ ".." → t.IsDirectory (place ++ [name]))
    (h : Reached t (step place name) names target) : Reached t place (name :: names) target := by
  have hcons {ns : List String} (hns : t.Leads (step place name) ns) : t.Leads place (name :: ns) :=
    through_cons_iff.2 ⟨⟨hsize, hdir⟩, hns⟩
  cases h with
  | directory leads => exact .directory (hcons leads)
  | file leads size_le down node =>
    change Reached t place ((name :: _) ++ [_]) _
    exact .file (hcons leads) size_le down node
  | vacant leads size_le down node =>
    change Reached t place ((name :: _) ++ [_]) _
    exact .vacant (hcons leads) size_le down node

/-- Where names lead, if they lead anywhere. -/
theorem follow_eq_ok_iff {target : Target} :
    t.follow place names = .ok target ↔ Reached t place names target := by
  constructor
  · intro h
    induction names generalizing place with
    | nil => exact Except.ok.inj h ▸ .directory through_nil
    | cons name names ih =>
      have hsize : name.utf8ByteSize ≤ nameLimit := Nat.le_of_not_lt fun hlong => by
        rw [follow, if_pos hlong] at h
        cases h
      by_cases hdir : name ≠ ".." → t.IsDirectory (place ++ [name])
      · rw [follow_cons_of_directory hsize hdir] at h
        exact (ih h).cons hsize hdir
      · -- the last name
        obtain ⟨hdown, hne⟩ := Classical.not_imp.1 hdir
        rcases t.node?_cases (place ++ [name]) with hnode | ⟨content, hnode⟩ | hnode
        · exact absurd hnode hne
        · rw [follow_cons_of_file hsize hdown hnode] at h
          split at h
          · subst_vars
            exact Except.ok.inj h ▸ @Reached.file t place [] _ _ through_nil hsize hdown hnode
          · cases h
        · rw [follow_cons_of_none hsize hdown hnode] at h
          split at h
          · subst_vars
            exact Except.ok.inj h ▸ @Reached.vacant t place [] _ through_nil hsize hdown hnode
          · cases h
  · intro h
    cases h with
    | directory leads =>
      have hfollow := follow_append leads []
      rw [List.append_nil] at hfollow
      rw [hfollow]
      rfl
    | file leads size_le down node =>
      rw [follow_append leads, follow_cons_of_file size_le down node, if_pos rfl]
    | vacant leads size_le down node =>
      rw [follow_append leads, follow_cons_of_none size_le down node, if_pos rfl]

/-- Names that lead through no file, but not through directories only, lead nowhere if more of them
follow. -/
theorem follow_of_clear (h : t.Clear place names) (hleads : ¬ t.Leads place names)
    (hmore : more ≠ []) : t.follow place (names ++ more) = .error .noEntry := by
  induction names generalizing place with
  | nil => exact absurd through_nil hleads
  | cons name names ih =>
    obtain ⟨⟨hsize, hfile⟩, hrest⟩ := through_cons_iff.1 h
    by_cases hdir : name ≠ ".." → t.IsDirectory (place ++ [name])
    · rw [List.cons_append, follow_cons_of_directory hsize hdir]
      exact ih hrest fun hl => hleads (through_cons_iff.2 ⟨⟨hsize, hdir⟩, hl⟩)
    · obtain ⟨hdown, hne⟩ := Classical.not_imp.1 hdir
      rcases t.node?_cases (place ++ [name]) with hnode | hnode | hnode
      · exact absurd hnode hne
      · exact absurd hnode (hfile hdown)
      · rw [List.cons_append, follow_cons_of_none hsize hdown hnode, if_neg (by simp [hmore])]

/-! ## Where a path leads -/

/-- The place that paths with a root start from. -/
def start (t : FileTree) (root : Path.Root) : List String :=
  if root = .relative then t.current else []

/-- The place that a path leads to. -/
def placeOf (t : FileTree) (path : Path) : List String := walk (t.start path.root) path.names

theorem start_of_current {t' : FileTree} (h : t'.current = t.current) (root : Path.Root) :
    t'.start root = t.start root := by
  rw [start, start, h]

theorem placeOf_of_current {t' : FileTree} (h : t'.current = t.current) (path : Path) :
    t'.placeOf path = t.placeOf path := by
  rw [placeOf, placeOf, start_of_current h]

theorem contains_null_iff {path : Path} :
    path.text.contains '\x00' = true ↔ '\x00' ∈ path.text.toList := by
  rw [String.contains_char_eq, decide_eq_true_eq]

variable {path : Path} {α : Type} {f : Target → Except SystemFault.Cause (α × FileTree)}

theorem find_of_lt (h : path.text.utf8ByteSize < pathLimit) :
    t.find path = t.follow (t.start path.root) path.names := if_neg (by omega)

theorem atPath_of_null (h : '\x00' ∈ path.text.toList) :
    t.atPath path f = (.error .embeddedNull, t) := if_pos (contains_null_iff.2 h)

theorem atPath_of_acceptable (h : path.IsAcceptable) :
    t.atPath path f = match t.follow (t.start path.root) path.names >>= f with
      | .ok (a, t') => (.ok a, t')
      | .error cause => (.error (.system ⟨cause, path⟩), t) := by
  rw [← find_of_lt h.2]
  exact if_neg (contains_null_iff.not.2 h.1)

theorem find_of_le (h : pathLimit ≤ path.text.utf8ByteSize) : t.find path = .error .nameTooLong :=
  if_pos h

/-- A path that the system does not accept leads nowhere. -/
theorem atPath_of_not_acceptable (h : ¬ path.IsAcceptable) :
    t.atPath path f = (.error .embeddedNull, t) ∨
      t.find path = .error .nameTooLong ∧
        t.atPath path f = (.error (.system ⟨.nameTooLong, path⟩), t) := by
  by_cases hnull : '\x00' ∈ path.text.toList
  · exact .inl (atPath_of_null hnull)
  · have hfind : t.find path = .error .nameTooLong :=
      find_of_le (Nat.le_of_not_lt fun hlt => h ⟨hnull, hlt⟩)
    refine .inr ⟨hfind, ?_⟩
    rw [atPath, if_neg (contains_null_iff.not.2 hnull), hfind]
    rfl

/-- What fails leaves the tree alone. -/
theorem atPath_of_error {e : FileFault} (h : (t.atPath path f).1 = .error e) :
    t.atPath path f = (.error e, t) := by
  unfold atPath at h ⊢
  split
  · rename_i hnull
    rw [if_pos hnull] at h
    exact congrArg (·, t) h
  · rename_i hnull
    rw [if_neg hnull] at h
    rcases hfound : t.find path >>= f with cause | ⟨a, t'⟩ <;> rw [hfound] at h
    · exact congrArg (·, t) h
    · cases h

theorem isDirectory_iff (h : path.IsAcceptable) :
    t.isDirectory path = true ↔ t.Leads (t.start path.root) path.names := by
  rw [isDirectory, find_of_lt h.2]
  constructor
  · intro hdir
    split at hdir
    · rename_i place hfollow
      generalize path.names = names at *
      cases follow_eq_ok_iff.1 hfollow
      assumption
    · cases hdir
  · intro hleads
    rw [follow_eq_ok_iff.2 (.directory hleads)]

/-! ## Reading and writing -/

/-- A path whose last name may be that of a file: directories lead to it, and it is no directory
itself. -/
structure LeadsToFile (t : FileTree) (path : Path) : Prop where
  named : path.names ≠ []
  leads : t.Leads (t.start path.root) path.parent.names
  size_le : path.name.utf8ByteSize ≤ nameLimit
  down : path.name ≠ ".."
  not_isDirectory : ¬ t.IsDirectory (t.placeOf path)

variable {content : ByteArray}

theorem placeOf_eq (hnamed : path.names ≠ []) (hdown : path.name ≠ "..") :
    t.placeOf path = walk (t.start path.root) path.parent.names ++ [path.name] := by
  rw [placeOf, ← Path.names_eq hnamed, walk_append, walk_cons, step_of_ne hdown]
  rfl

theorem LeadsToFile.placeOf_eq (h : t.LeadsToFile path) :
    t.placeOf path = walk (t.start path.root) path.parent.names ++ [path.name] :=
  FileTree.placeOf_eq h.named h.down

theorem LeadsToFile.of_names {above : List String} (hnames : path.names = above ++ [name])
    (leads : t.Leads (t.start path.root) above) (size_le : name.utf8ByteSize ≤ nameLimit)
    (down : name ≠ "..") (h : ¬ t.IsDirectory (walk (t.start path.root) above ++ [name])) :
    t.LeadsToFile path := by
  obtain ⟨root, names⟩ := path
  obtain rfl : names = above ++ [name] := hnames
  have hparent : (⟨root, above ++ [name]⟩ : Path).parent.names = above := List.dropLast_concat
  have hname : (⟨root, above ++ [name]⟩ : Path).name = name := List.getLastD_concat
  have hnamed : above ++ [name] ≠ [] := by simp
  refine ⟨hnamed, hparent.symm ▸ leads, hname.symm ▸ size_le, hname.symm ▸ down, ?_⟩
  rw [FileTree.placeOf_eq hnamed (hname.symm ▸ down), hparent, hname]
  exact h

theorem read_snd (path : Path) (t : FileTree) : (t.read path).2 = t := by
  unfold read atPath
  split
  · rfl
  · rcases t.find path with cause | ⟨place, _ | content⟩ | place <;> rfl

/-- A file that is at the end of a path is read. -/
theorem LeadsToFile.read (h : t.LeadsToFile path) (hacc : path.IsAcceptable)
    (hnode : t.node? (t.placeOf path) = some (.file content)) : t.read path = (.ok content, t) := by
  rw [h.placeOf_eq] at hnode
  rw [FileTree.read, atPath_of_acceptable hacc, ← Path.names_eq h.named,
    follow_eq_ok_iff.2 (.file h.leads h.size_le h.down hnode)]
  rfl

theorem LeadsToFile.write (h : t.LeadsToFile path) (hacc : path.IsAcceptable)
    (content : ByteArray) :
    t.write path content = (.ok (), t.insert (t.placeOf path) (.file content)) := by
  have hplace := h.placeOf_eq
  rw [FileTree.write, atPath_of_acceptable hacc, ← Path.names_eq h.named]
  rcases t.node?_cases (t.placeOf path) with hnode | ⟨old, hnode⟩ | hnode
  · exact absurd hnode h.not_isDirectory
  · rw [hplace] at hnode ⊢
    rw [follow_eq_ok_iff.2 (.file h.leads h.size_le h.down hnode)]
    rfl
  · rw [hplace] at hnode ⊢
    rw [follow_eq_ok_iff.2 (.vacant h.leads h.size_le h.down hnode)]
    rfl

/-- A file is written at a path that leads to one, and nowhere else. -/
theorem write_cases (path : Path) (content : ByteArray) (t : FileTree) :
    (∃ e, t.write path content = (.error e, t)) ∨ path.IsAcceptable ∧ t.LeadsToFile path := by
  by_cases hacc : path.IsAcceptable
  · rw [FileTree.write, atPath_of_acceptable hacc]
    rcases hfollow : t.follow (t.start path.root) path.names with cause | target
    · exact .inl ⟨_, rfl⟩
    · have hreached := follow_eq_ok_iff.1 hfollow
      generalize hnames : path.names = names at hreached
      cases hreached with
      | directory leads => exact .inl ⟨_, rfl⟩
      | file leads size_le down node =>
        refine .inr ⟨hacc, .of_names hnames leads size_le down ?_⟩
        rw [IsDirectory, node]
        nofun
      | vacant leads size_le down node =>
        refine .inr ⟨hacc, .of_names hnames leads size_le down ?_⟩
        rw [IsDirectory, node]
        nofun
  · rcases atPath_of_not_acceptable (t := t) hacc with h | ⟨-, h⟩ <;> exact .inl ⟨_, h⟩

/-! ## Changes -/

theorem placeOf_insert (p : List String) (node : Node) :
    (t.insert p node).placeOf path = t.placeOf path := rfl

/-- A directory stays one if something is put where no directory is. -/
theorem IsDirectory.insert {p q : List String} {node : Node} (h : t.IsDirectory q)
    (hp : ¬ t.IsDirectory p) : (t.insert p node).IsDirectory q := by
  have hne : q ≠ p := fun e => hp (e ▸ h)
  rw [IsDirectory, node?_insert_of_ne hne]
  exact h

theorem Leads.insert {p : List String} {node : Node} (h : t.Leads place names)
    (hp : ¬ t.IsDirectory p) : (t.insert p node).Leads place names :=
  ⟨h.size_le, fun q hq => (h.holds q hq).insert hp⟩

/-- What is written is read again. -/
theorem LeadsToFile.read_insert (h : t.LeadsToFile path) (hacc : path.IsAcceptable)
    (content : ByteArray) :
    (t.insert (t.placeOf path) (.file content)).read path =
      (.ok content, t.insert (t.placeOf path) (.file content)) := by
  have hne : t.placeOf path ≠ [] := by rw [h.placeOf_eq]; simp
  have hnode := node?_insert_self hne (.file content) t
  refine LeadsToFile.read ⟨h.named, h.leads.insert h.not_isDirectory, h.size_le, h.down, ?_⟩
    hacc hnode
  rw [placeOf_insert, IsDirectory, hnode]
  nofun

/-! ## One file -/

/-- A tree with one file, in the current directory. -/
def oneFile (name : String) (content : ByteArray) : FileTree where
  nodes := [([name], .file content)]

theorem read_oneFile (hacc : Path.IsAcceptable ⟨.relative, [name]⟩)
    (hsize : name.utf8ByteSize ≤ nameLimit) (hdown : name ≠ "..") :
    (oneFile name content).read ⟨.relative, [name]⟩ = (.ok content, oneFile name content) := by
  have hnode : (oneFile name content).node? [name] = some (.file content) := by
    simp [node?, oneFile]
  have hplace : (oneFile name content).placeOf ⟨.relative, [name]⟩ = [name] := step_of_ne hdown
  refine LeadsToFile.read ⟨List.cons_ne_nil _ _, through_nil, hsize, hdown, ?_⟩ hacc ?_
  · rw [hplace, IsDirectory, hnode]
    exact fun h => by cases h
  · rw [hplace, hnode]

end FileTree

end Tablature
