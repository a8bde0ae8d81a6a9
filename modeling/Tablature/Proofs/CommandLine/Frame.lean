import Tablature.Proofs.CommandLine.Store
import Tablature.Proofs.CommandLine.Transcript

/-!
# What a run leaves alone

A run changes no file but the one it writes, and it changes nothing before it has the whole
tablature.

* `Framed`: what a run may do to a tree of files;
* `framed_afterRuns`: every run of a sequence does no more than this;
* `node?_afterRuns`: what a whole sequence of runs may change.
-/

namespace Tablature

namespace FileTree

variable {t t' : FileTree} {path : Path} {content : ByteArray} {place names q : List String}

/-- A tree is another one with a file at a path. All other files and directories are as before, but
for directories that were missing above the path. -/
structure WroteOnly (t : FileTree) (path : Path) (content : ByteArray) (t' : FileTree) : Prop where
  current_eq : t'.current = t.current
  written : t'.node? (t.placeOf path) = some (.file content)
  elsewhere : ∀ q, q ≠ t.placeOf path → t'.node? q = t.node? q ∨
    t.node? q = none ∧ t'.IsDirectory q ∧
      ∃ above, above <+: path.parent.names ∧ q = t.placeOf ⟨path.root, above⟩

/-- A place that names lead down into is where a beginning of them leads. -/
theorem exists_prefix_of_mem_entered (h : q ∈ entered place names) :
    ∃ above, above <+: names ∧ q = walk place above := by
  induction names generalizing place with
  | nil => cases h
  | cons name names ih =>
    rw [entered_cons, List.mem_append] at h
    rcases h with h | h
    · split at h
      · cases h
      · obtain rfl := List.mem_singleton.1 h
        exact ⟨[name], ⟨names, rfl⟩, (step_of_ne ‹_›).symm⟩
    · obtain ⟨above, ⟨rest, hrest⟩, hq⟩ := ih h
      exact ⟨name :: above, ⟨rest, congrArg (name :: ·) hrest⟩, hq⟩

theorem exists_ancestor_of_mem_placesAbove (h : q ∈ t.placesAbove path) :
    ∃ above, above <+: path.parent.names ∧ q = t.placeOf ⟨path.root, above⟩ :=
  exists_prefix_of_mem_entered h

/-- Storing a file writes it, and changes nothing else but for missing directories. -/
theorem Storable.wroteOnly (h : t.Storable path) (content : ByteArray) :
    WroteOnly t path content (t.stored path content) := by
  have hne : t.placeOf path ≠ [] := by rw [placeOf_eq h.named h.down]; simp
  refine ⟨current_addDirectories, node?_insert_self hne _ _, fun q hq => ?_⟩
  rw [IsDirectory, FileTree.stored, node?_insert_of_ne hq]
  rcases (grownBy_addDirectories t (t.placesAbove path)).node q with hsame | ⟨hmem, hnone, hdir⟩
  · exact .inl hsame
  · exact .inr ⟨hnone, hdir, exists_ancestor_of_mem_placesAbove hmem⟩

/-- Whether a file is stored or not, nothing changes but what the path, or a beginning of it,
leads to. -/
theorem Stored.changes {result : Except FileFault Unit × FileTree}
    (h : Stored t path content result) :
    result.2.current = t.current ∧ ∀ q, result.2.node? q = t.node? q ∨
      ∃ names, names <+: path.names ∧ q = t.placeOf ⟨path.root, names⟩ := by
  have hparent : path.parent.names <+: path.names := List.dropLast_prefix _
  cases h with
  | stored storable =>
    have hwrote := storable.wroteOnly content
    refine ⟨hwrote.current_eq, fun q => ?_⟩
    by_cases hq : q = t.placeOf path
    · exact .inr ⟨path.names, List.prefix_rfl, hq⟩
    · exact (hwrote.elsewhere q hq).imp_right fun ⟨_, _, above, habove, hq⟩ =>
        ⟨above, habove.trans hparent, hq⟩
  | refused not_storable grown =>
    refine ⟨grown.current_eq, fun q => (grown.node q).imp_right fun ⟨hmem, _, _⟩ => ?_⟩
    obtain ⟨above, habove, hq⟩ := exists_ancestor_of_mem_placesAbove hmem
    exact ⟨above, habove.trans hparent, hq⟩

end FileTree

namespace CommandLine

open Text

/-- The file at a path can be read, and the text in it has this tablature. -/
def HasTablature (t : FileTree) (path : Path) (text : String) : Prop :=
  ∃ raw : String, (t.read path).1 = .ok raw.toUTF8 ∧ interpret (unified raw) = .ok text

/-- What a run may do to a tree of files. -/
structure Framed (t : FileTree) (arguments : List String) (report : Report) (t' : FileTree) :
    Prop where
  /-- It changes nothing unless it is asked for a tablature that is not to be printed. -/
  unasked : (∀ r input, Asks arguments r input → r.stdout = true) → t' = t
  /-- It changes nothing unless the file that it is asked about has a tablature. -/
  failed : ∀ r input, Asks arguments r input → (∀ text, ¬ HasTablature t input text) → t' = t
  /-- If it goes well, it has written the tablature, and nothing else. -/
  succeeded : ∀ r input, Asks arguments r input → r.stdout = false → report.ending = .ok 0 →
    ∃ job text, r.job? input = .ok job ∧ HasTablature t input text ∧
      t.WroteOnly job.output text.toUTF8 t'

theorem hasTablature_iff {t : FileTree} {origin : Event.Origin} {path : Path} {text : String} :
    HasTablature t path text ↔
      (Transcript.ofContent origin path (t.read path).1).result = .ok text :=
  result_ofContent_eq_ok_iff.symm

theorem Asks.unique {arguments : List String} {r r' : Request} {input input' : Path}
    (h : Asks arguments r input) (h' : Asks arguments r' input') : r' = r ∧ input' = input := by
  obtain rfl : r' = r := by
    have hr := h'.1.symm.trans h.1
    injection hr with hr
    injection hr
  exact ⟨rfl, Option.some.inj (h'.2.symm.trans h.2)⟩

theorem Framed.of_asks {t t' : FileTree} {arguments : List String} {report : Report} {r : Request}
    {input : Path} (h : Asks arguments r input) (unasked : r.stdout = true → t' = t)
    (failed : (∀ text, ¬ HasTablature t input text) → t' = t)
    (succeeded : r.stdout = false → report.ending = .ok 0 →
      ∃ job text, r.job? input = .ok job ∧ HasTablature t input text ∧
        t.WroteOnly job.output text.toUTF8 t') : Framed t arguments report t' := by
  refine ⟨fun hasks => unasked (hasks r input h), fun r' input' h' => ?_,
    fun r' input' h' => ?_⟩ <;>
    obtain ⟨rfl, rfl⟩ := h.unique h'
  · exact failed
  · exact succeeded

/-- What one run may do. -/
theorem framed_run (t : FileTree) (arguments : List String) :
    Framed t arguments (run FileTree.host arguments t).1 (run FileTree.host arguments t).2 := by
  by_cases hasks : ∃ r input, Asks arguments r input
  · obtain ⟨r, input, h⟩ := hasks
    rw [run_of_asks h]
    have hdone := transcribe_transcribed FileTree.host t r input
    generalize transcribe FileTree.host r input t = done at hdone
    have hread : (FileTree.host.read input t).2 = t := FileTree.read_snd input t
    cases hdone with
    | printed stdout =>
      exact .of_asks h (fun _ => hread) (fun _ => hread) fun hnot => absurd stdout (by simp [hnot])
    | nameless stdout derived =>
      exact .of_asks h (fun _ => rfl) (fun _ => rfl) fun _ hok =>
        absurd hok (ending_ofTranscript_ne rfl)
    | failed stdout derived result =>
      exact .of_asks h (fun _ => hread) (fun _ => hread) fun _ hok =>
        absurd hok (ending_ofTranscript_ne result)
    | unwritten stdout derived result store =>
      refine .of_asks h (fun hstdout => absurd hstdout (by simp [stdout])) (fun hnot => ?_)
        fun _ hok => absurd hok (ending_ofTranscript_ne rfl)
      exact absurd (hasTablature_iff.2 result) (hnot _)
    | @written job text t' stdout derived result store =>
      have htablature := hasTablature_iff.2 result
      refine .of_asks h (fun hstdout => absurd hstdout (by simp [stdout]))
        (fun hnot => absurd htablature (hnot _)) fun _ _ => ⟨_, _, derived, htablature, ?_⟩
      rw [hread] at store
      have hstored := FileTree.store_stored t job.output text
      rw [store] at hstored
      cases hstored with
      | stored storable => exact storable.wroteOnly _
  · have hnot : ∀ r input, ¬ Asks arguments r input := fun r input h => hasks ⟨r, input, h⟩
    rw [run_of_not_asks hnot]
    exact ⟨fun _ => rfl, fun _ _ _ _ => rfl, fun r input h => absurd h (hnot r input)⟩

/-! ## Sequences of runs -/

/-- The tree that a sequence of runs leaves behind. -/
def afterRuns (t : FileTree) (runs : List (List String)) : FileTree :=
  runs.foldl (fun t arguments => (run FileTree.host arguments t).2) t

/-- Whatever runs there were before, a run does no more than it may. -/
theorem framed_afterRuns (t : FileTree) (before : List (List String)) (arguments : List String) :
    Framed (afterRuns t before) arguments (run FileTree.host arguments (afterRuns t before)).1
      (afterRuns t (before ++ [arguments])) := by
  rw [afterRuns, afterRuns, List.foldl_append]
  exact framed_run _ arguments

/-- A place that a run may change: one that its output path, or a beginning of it, leads to. -/
def Touches (t : FileTree) (arguments : List String) (q : List String) : Prop :=
  ∃ r input job names, Asks arguments r input ∧ r.stdout = false ∧ r.job? input = .ok job ∧
    names <+: job.output.names ∧ q = t.placeOf ⟨job.output.root, names⟩

theorem run_touches (t : FileTree) (arguments : List String) :
    (run FileTree.host arguments t).2.current = t.current ∧
      ∀ q, (run FileTree.host arguments t).2.node? q = t.node? q ∨ Touches t arguments q := by
  by_cases hasks : ∃ r input, Asks arguments r input
  · obtain ⟨r, input, h⟩ := hasks
    rw [run_of_asks h]
    have hdone := transcribe_transcribed FileTree.host t r input
    generalize transcribe FileTree.host r input t = done at hdone
    have hread : (FileTree.host.read input t).2 = t := FileTree.read_snd input t
    have hstore {job : Job} {text : String} {t' : FileTree} {result : Except FileFault Unit}
        (stdout : r.stdout = false) (derived : r.job? input = .ok job)
        (store :
          store FileTree.host job.output text (FileTree.host.read input t).2 = (result, t')) :
        t'.current = t.current ∧ ∀ q, t'.node? q = t.node? q ∨ Touches t arguments q := by
      have hstored := FileTree.store_stored t job.output text
      rw [hread] at store
      rw [store] at hstored
      exact hstored.changes.imp_right fun hnode q => (hnode q).imp_right fun ⟨names, hnames, hq⟩ =>
        ⟨r, input, job, names, h, stdout, derived, hnames, hq⟩
    cases hdone with
    | printed | failed =>
      exact ⟨congrArg FileTree.current hread, fun q => .inl (congrArg (FileTree.node? · q) hread)⟩
    | nameless => exact ⟨rfl, fun _ => .inl rfl⟩
    | unwritten stdout derived _ store => exact hstore stdout derived store
    | written stdout derived _ store => exact hstore stdout derived store
  · rw [run_of_not_asks fun r input h => hasks ⟨r, input, h⟩]
    exact ⟨rfl, fun _ => .inl rfl⟩

/-- A sequence of runs changes nothing but what the output paths of its runs, or beginnings of them,
lead to. -/
theorem node?_afterRuns (t : FileTree) (runs : List (List String)) :
    (afterRuns t runs).current = t.current ∧
      ∀ q, (afterRuns t runs).node? q = t.node? q ∨ ∃ arguments ∈ runs, Touches t arguments q := by
  induction runs generalizing t with
  | nil => exact ⟨rfl, fun _ => .inl rfl⟩
  | cons arguments runs ih =>
    obtain ⟨hcurrent, hnode⟩ := run_touches t arguments
    obtain ⟨hcurrent', hnode'⟩ := ih (run FileTree.host arguments t).2
    refine ⟨hcurrent'.trans hcurrent, fun q => ?_⟩
    rcases hnode' q with hq | ⟨later, hlater, r, input, job, names, h, stdout, derived, hnames, hq⟩
    · rcases hnode q with hq' | htouches
      · exact .inl (hq.trans hq')
      · exact .inr ⟨arguments, List.mem_cons_self, htouches⟩
    · rw [FileTree.placeOf_of_current hcurrent] at hq
      exact .inr ⟨later, List.mem_cons_of_mem _ hlater, r, input, job, names, h, stdout, derived,
        hnames, hq⟩

end CommandLine

end Tablature
