import Tablature.CommandLine.Run
import Tablature.Proofs.Files.Directories

/-!
# Storing a text

A text is stored at a path: the directories of the path are made, and then the file is written.

* `store_stored`: when this goes well, and what is there then; nothing but new directories if it
  does not;
* `read_stored`: what is stored is read again.
-/

namespace Tablature

/-- A path whose directory the system does not accept is not accepted itself. -/
theorem Path.IsAcceptable.parent {p : Path} (h : p.IsAcceptable) : p.parent.IsAcceptable := by
  by_cases hnamed : p.names = []
  · obtain ⟨root, names⟩ := p
    obtain rfl : names = [] := hnamed
    exact h
  · have hp : (⟨p.root, p.parent.names ++ [p.name]⟩ : Path) = p := by rw [names_eq hnamed]
    exact above (hp.symm ▸ h)

namespace FileTree

variable {t t' : FileTree} {path : Path} {content : ByteArray}

/-- The places that the directories of a path are at. -/
def placesAbove (t : FileTree) (path : Path) : List (List String) :=
  entered (t.start path.root) path.parent.names

/-- A path that a file can be stored at: it has a name, no file is in the way of its directories,
and no directory is at its place, also when its directories are made. -/
structure Storable (t : FileTree) (path : Path) : Prop where
  acceptable : path.IsAcceptable
  named : path.names ≠ []
  clear : t.Clear (t.start path.root) path.parent.names
  size_le : path.name.utf8ByteSize ≤ nameLimit
  down : path.name ≠ ".."
  not_isDirectory : ¬ t.IsDirectory (t.placeOf path)
  not_above : t.placeOf path ∉ t.placesAbove path

/-- The tree with a file at a path, and with the directories of the path. -/
def stored (t : FileTree) (path : Path) (content : ByteArray) : FileTree :=
  (t.addDirectories (t.placesAbove path)).insert (t.placeOf path) (.file content)

/-- What storing a file gives. -/
inductive Stored (t : FileTree) (path : Path) (content : ByteArray) :
    Except FileFault Unit × FileTree → Prop
  | stored (storable : t.Storable path) : Stored t path content (.ok (), t.stored path content)
  | refused {e : FileFault} {t' : FileTree} (not_storable : ¬ t.Storable path)
      (grown : GrownBy (t.placesAbove path) t t') : Stored t path content (.error e, t')

theorem placeOf_addDirectories {places : List (List String)} :
    (t.addDirectories places).placeOf path = t.placeOf path :=
  placeOf_of_current current_addDirectories path

theorem Storable.leadsToFile (h : t.Storable path) :
    (t.addDirectories (t.placesAbove path)).LeadsToFile path := by
  refine ⟨h.named, ?_, h.size_le, h.down, ?_⟩
  · rw [start_addDirectories]
    exact h.clear.leads
  · rw [placeOf_addDirectories, isDirectory_addDirectories_iff]
    rintro (hdir | ⟨habove, -⟩)
    · exact h.not_isDirectory hdir
    · exact h.not_above habove

/-- A file can be stored at a path that leads to one when its directories are made. -/
theorem LeadsToFile.storable (h : (t.addDirectories (t.placesAbove path)).LeadsToFile path)
    (hacc : path.IsAcceptable) (hclear : t.Clear (t.start path.root) path.parent.names) :
    t.Storable path := by
  have hnot := h.not_isDirectory
  rw [placeOf_addDirectories, isDirectory_addDirectories_iff, not_or] at hnot
  refine ⟨hacc, h.named, hclear, h.size_le, h.down, hnot.1, fun habove => ?_⟩
  rcases t.node?_cases (t.placeOf path) with hnode | hnode | hnode
  · exact hnot.1 hnode
  · exact hclear.holds _ habove hnode
  · exact hnot.2 ⟨habove, hnode⟩

theorem store_eq (t : FileTree) (path : Path) (text : String) :
    CommandLine.store host path text t = match host.makeDirectories path.parent t with
      | (.ok (), t') => t'.write path text.toUTF8
      | (.error e, t') => (.error e, t') := by
  simp only [CommandLine.store, bind, StateT.bind]
  rcases host.makeDirectories path.parent t with ⟨_ | _, t'⟩ <;> rfl

/-- When a text is stored at a path, and what is there then. -/
theorem store_stored (t : FileTree) (path : Path) (text : String) :
    Stored t path text.toUTF8 (CommandLine.store host path text t) := by
  rw [store_eq]
  by_cases hparent : path.parent.IsAcceptable
  · have hmade := makeDirectories_made t hparent
    generalize host.makeDirectories path.parent t = result at hmade
    cases hmade with
    | made clear =>
      change Stored t path text.toUTF8
        ((t.addDirectories (t.placesAbove path)).write path text.toUTF8)
      rcases write_cases path text.toUTF8 (t.addDirectories (t.placesAbove path)) with
        ⟨e, hrefused⟩ | ⟨hacc, hleads⟩
      · rw [hrefused]
        refine .refused (fun h => ?_) (grownBy_addDirectories t _)
        rw [h.leadsToFile.write h.acceptable] at hrefused
        cases hrefused
      · rw [hleads.write hacc, placeOf_addDirectories]
        exact .stored (hleads.storable hacc clear)
    | refused not_clear grown => exact .refused (fun h => not_clear h.clear) grown
  · obtain ⟨e, he⟩ := makeDirectories_of_not_acceptable t hparent
    rw [he]
    exact .refused (fun h => hparent h.acceptable.parent) (.refl _ t)

theorem Storable.store (h : t.Storable path) (text : String) :
    CommandLine.store host path text t = (.ok (), t.stored path text.toUTF8) := by
  have hstored := store_stored t path text
  generalize CommandLine.store host path text t = result at hstored
  cases hstored with
  | stored => rfl
  | refused not_storable => exact absurd h not_storable

/-- What is stored is read again. -/
theorem Storable.read_stored (h : t.Storable path) (content : ByteArray) :
    (t.stored path content).read path = (.ok content, t.stored path content) := by
  have hread := h.leadsToFile.read_insert h.acceptable content
  rwa [placeOf_addDirectories] at hread

/-- Beside the only file another one can be stored. -/
theorem storable_oneFile {name other : String} (hne : other ≠ name)
    (hacc : Path.IsAcceptable ⟨.relative, [other]⟩) (hsize : other.utf8ByteSize ≤ nameLimit)
    (hdown : other ≠ "..") : (oneFile name content).Storable ⟨.relative, [other]⟩ := by
  have hplace : (oneFile name content).placeOf ⟨.relative, [other]⟩ = [other] := step_of_ne hdown
  refine ⟨hacc, List.cons_ne_nil _ _, through_nil, hsize, hdown, ?_, List.not_mem_nil⟩
  have hbeq : ([other] == [name]) = false := beq_false_of_ne (by simpa using hne)
  rw [hplace, IsDirectory]
  simp [node?, oneFile, List.lookup_cons, hbeq]

end FileTree

end Tablature
