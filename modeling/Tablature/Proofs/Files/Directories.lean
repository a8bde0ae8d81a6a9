import Tablature.Proofs.Files.Tree

/-!
# Making directories

The directories of a path are made from the first missing one on. This goes well if no file is in
the way, and whatever happens, nothing changes but that there are new directories.

* `node?_addDirectories`: what is found when directories have been put where nothing was;
* `makeDirectories_made`: when the directories of a path can be made, and what is there then.
-/

namespace Tablature.FileTree

variable {t t' t'' : FileTree} {place names above : List String} {name : String}
  {places more : List (List String)}

/-! ## More directories -/

/-- Puts a directory at a place where nothing is. -/
def addDirectory (t : FileTree) (place : List String) : FileTree :=
  if (t.node? place).isNone then t.insert place .directory else t

def addDirectories (t : FileTree) (places : List (List String)) : FileTree :=
  places.foldl addDirectory t

theorem addDirectory_of_none (h : t.node? place = none) :
    t.addDirectory place = t.insert place .directory := by
  simp [addDirectory, h]

theorem addDirectory_of_ne_none (h : t.node? place ≠ none) : t.addDirectory place = t :=
  if_neg (mt Option.isNone_iff_eq_none.1 h)

theorem node?_addDirectory (t : FileTree) (place q : List String) :
    (t.addDirectory place).node? q =
      if q = place then some ((t.node? q).getD .directory) else t.node? q := by
  rcases hnode : t.node? place with _ | node
  · have hne : place ≠ [] := by
      rintro rfl
      cases hnode
    rw [addDirectory_of_none hnode]
    split
    · subst q
      rw [node?_insert_self hne, hnode]
      rfl
    · exact node?_insert_of_ne ‹_› _ _
  · rw [addDirectory_of_ne_none (by simp [hnode])]
    split
    · subst q
      rw [hnode]
      rfl
    · rfl

/-- What is found after directories have been put where nothing was. -/
theorem node?_addDirectories (t : FileTree) (places : List (List String)) (q : List String) :
    (t.addDirectories places).node? q =
      if q ∈ places then some ((t.node? q).getD .directory) else t.node? q := by
  induction places generalizing t with
  | nil => rfl
  | cons place places ih =>
    rw [addDirectories, List.foldl_cons, ← addDirectories, ih, node?_addDirectory]
    by_cases h : q = place <;> by_cases hq : q ∈ places <;> simp [h, hq]

theorem addDirectories_append :
    t.addDirectories (places ++ more) = (t.addDirectories places).addDirectories more :=
  List.foldl_append

theorem addDirectories_of_forall (h : ∀ p ∈ places, t.node? p ≠ none) :
    t.addDirectories places = t := by
  induction places with
  | nil => rfl
  | cons place places ih =>
    obtain ⟨hplace, hplaces⟩ := List.forall_mem_cons.1 h
    rw [addDirectories, List.foldl_cons, addDirectory_of_ne_none hplace]
    exact ih hplaces

theorem current_addDirectories : (t.addDirectories places).current = t.current := by
  induction places generalizing t with
  | nil => rfl
  | cons place places ih =>
    rw [addDirectories, List.foldl_cons, ← addDirectories, ih, addDirectory]
    split <;> rfl

theorem isFile_addDirectories_iff {q : List String} :
    (t.addDirectories places).IsFile q ↔ t.IsFile q := by
  unfold IsFile
  rw [node?_addDirectories]
  split
  · rcases t.node? q with _ | _ | content <;> simp
  · rfl

theorem isDirectory_addDirectories_iff {q : List String} :
    (t.addDirectories places).IsDirectory q ↔ t.IsDirectory q ∨ q ∈ places ∧ t.node? q = none := by
  unfold IsDirectory
  rw [node?_addDirectories]
  split <;> rcases t.node? q with _ | node <;> simp [*]

theorem clear_addDirectories_iff :
    (t.addDirectories places).Clear place names ↔ t.Clear place names := by
  constructor <;> rintro ⟨hsize, hfile⟩
  · exact ⟨hsize, fun q hq => mt isFile_addDirectories_iff.2 (hfile q hq)⟩
  · exact ⟨hsize, fun q hq => mt isFile_addDirectories_iff.1 (hfile q hq)⟩

theorem Leads.clear (h : t.Leads place names) : t.Clear place names := by
  refine ⟨h.size_le, fun q hq ⟨content, hnode⟩ => ?_⟩
  have hdir : t.node? q = some .directory := h.holds q hq
  rw [hnode] at hdir
  cases hdir

/-- Names that lead through no file lead through directories once those are there. -/
theorem Clear.leads (h : t.Clear place names) :
    (t.addDirectories (entered place names)).Leads place names := by
  refine ⟨h.size_le, fun q hq => ?_⟩
  rw [IsDirectory, node?_addDirectories, if_pos hq]
  rcases t.node?_cases q with hnode | hnode | hnode
  · rw [show t.node? q = some .directory from hnode]
    rfl
  · exact absurd hnode (h.holds q hq)
  · rw [hnode]
    rfl

/-! ## Growing trees -/

/-- A tree is another one but for directories that are new, at some of the given places. -/
structure GrownBy (places : List (List String)) (t t' : FileTree) : Prop where
  current_eq : t'.current = t.current
  node : ∀ q, t'.node? q = t.node? q ∨ q ∈ places ∧ t.node? q = none ∧ t'.IsDirectory q

theorem GrownBy.refl (places : List (List String)) (t : FileTree) : GrownBy places t t :=
  ⟨rfl, fun _ => .inl rfl⟩

theorem GrownBy.mono (h : GrownBy places t t') (hsub : places ⊆ more) : GrownBy more t t' :=
  ⟨h.current_eq, fun q => (h.node q).imp_right fun ⟨hq, h⟩ => ⟨hsub hq, h⟩⟩

theorem GrownBy.trans (h : GrownBy places t t') (h' : GrownBy places t' t'') :
    GrownBy places t t'' := by
  refine ⟨h'.current_eq.trans h.current_eq, fun q => ?_⟩
  rcases h'.node q with hq' | ⟨hq, hnone, hdir⟩
  · rcases h.node q with hq | ⟨hq, hnone, hdir⟩
    · exact .inl (hq'.trans hq)
    · exact .inr ⟨hq, hnone, hq'.trans hdir⟩
  · rcases h.node q with hq' | ⟨-, -, hdir'⟩
    · exact .inr ⟨hq, hq'.symm.trans hnone, hdir⟩
    · cases hnone.symm.trans hdir'

theorem grownBy_addDirectories (t : FileTree) (places : List (List String)) :
    GrownBy places t (t.addDirectories places) := by
  refine ⟨current_addDirectories, fun q => ?_⟩
  rw [IsDirectory, node?_addDirectories]
  split
  · rcases t.node? q with _ | node
    · exact .inr ⟨‹_›, rfl, rfl⟩
    · exact .inl rfl
  · exact .inl rfl

/-! ## Making directories -/

/-- What making a directory that is below others gives. -/
inductive DirectoryMade (t : FileTree) (path : Path) (above : List String) (name : String) :
    Except FileFault Unit × FileTree → Prop
  /-- It is there. -/
  | there (leads : t.Leads (t.start path.root) path.names) :
      DirectoryMade t path above name (.error (.system ⟨.alreadyExists, path⟩), t)
  | new (leads : t.Leads (t.start path.root) above) (size_le : name.utf8ByteSize ≤ nameLimit)
      (down : name ≠ "..") (node : t.node? (walk (t.start path.root) above ++ [name]) = none) :
      DirectoryMade t path above name
        (.ok (), t.insert (walk (t.start path.root) above ++ [name]) .directory)
  /-- A file or a long name is in the way. -/
  | blocked {cause : SystemFault.Cause} (not_clear : ¬ t.Clear (t.start path.root) path.names)
      (ne : cause ≠ .noEntry) : DirectoryMade t path above name (.error (.system ⟨cause, path⟩), t)
  /-- A directory above it is missing. -/
  | missing (not_leads : ¬ t.Leads (t.start path.root) above) :
      DirectoryMade t path above name (.error (.system ⟨.noEntry, path⟩), t)

theorem Reached.leads_above {target : Target} (h : Reached t place (above ++ [name]) target) :
    t.Leads place above := by
  generalize hnames : above ++ [name] = names at h
  cases h with
  | directory leads =>
    subst hnames
    exact (through_append_iff.1 leads).1
  | file leads => exact List.append_inj_left' hnames rfl ▸ leads
  | vacant leads => exact List.append_inj_left' hnames rfl ▸ leads

theorem makeDirectory_made {path : Path} (hacc : path.IsAcceptable)
    (hnames : path.names = above ++ [name]) :
    DirectoryMade t path above name (t.makeDirectory path) := by
  rw [makeDirectory, atPath_of_acceptable hacc, hnames]
  by_cases hleads : t.Leads (t.start path.root) above
  · have happend {P : List String → Prop} : Through P (t.start path.root) path.names ↔ _ :=
      hnames ▸ through_append_iff.trans (and_congr_right fun _ => through_singleton_iff)
    rw [follow_append hleads]
    by_cases hsize : name.utf8ByteSize ≤ nameLimit
    · by_cases hdir : name ≠ ".." → t.IsDirectory (walk (t.start path.root) above ++ [name])
      · rw [follow_cons_of_directory hsize hdir]
        exact .there (happend.2 ⟨hleads, hsize, hdir⟩)
      · obtain ⟨hdown, hne⟩ := Classical.not_imp.1 hdir
        rcases t.node?_cases (walk (t.start path.root) above ++ [name]) with hnode | hnode | hnode
        · exact absurd hnode hne
        · obtain ⟨content, hcontent⟩ := hnode
          rw [follow_cons_of_file hsize hdown hcontent, if_pos rfl]
          exact .blocked (fun h => (happend.1 h).2.2 hdown ⟨content, hcontent⟩) (by decide)
        · rw [follow_cons_of_none hsize hdown hnode, if_pos rfl]
          exact .new hleads hsize hdown hnode
    · rw [follow, if_pos (Nat.lt_of_not_le hsize)]
      exact .blocked (fun h => hsize (happend.1 h).2.1) (by decide)
  · rcases hfollow : t.follow (t.start path.root) (above ++ [name]) with cause | target
    · by_cases hcause : cause = .noEntry
      · subst hcause
        exact .missing hleads
      · refine .blocked (fun hclear => hcause ?_) hcause
        rw [hnames] at hclear
        rw [follow_of_clear (through_append_iff.1 hclear).1 hleads (List.cons_ne_nil _ _)]
          at hfollow
        exact (Except.error.inj hfollow).symm
    · exact absurd (follow_eq_ok_iff.1 hfollow).leads_above hleads

/-- What making the directories of a path gives. -/
inductive DirectoriesMade (t : FileTree) (place names : List String) :
    Except FileFault Unit × FileTree → Prop
  | made (clear : t.Clear place names) :
      DirectoriesMade t place names (.ok (), t.addDirectories (entered place names))
  | refused {e : FileFault} {t' : FileTree} (not_clear : ¬ t.Clear place names)
      (grown : GrownBy (entered place names) t t') : DirectoriesMade t place names (.error e, t')

theorem directoriesMade_of_leads (h : t.Leads place names) :
    DirectoriesMade t place names (.ok (), t) := by
  have hsame : t.addDirectories (entered place names) = t :=
    addDirectories_of_forall fun p hp => by
      rw [show t.node? p = some .directory from h.holds p hp]
      nofun
  have hmade := DirectoriesMade.made h.clear
  rwa [hsame] at hmade

theorem directoriesMade_of_insert (hleads : t.Leads place above)
    (hsize : name.utf8ByteSize ≤ nameLimit) (hdown : name ≠ "..")
    (hnode : t.node? (walk place above ++ [name]) = none) :
    DirectoriesMade t place (above ++ [name])
      (.ok (), t.insert (walk place above ++ [name]) .directory) := by
  have hclear : t.Clear place (above ++ [name]) :=
    through_append_iff.2 ⟨hleads.clear, through_singleton_iff.2 ⟨hsize, fun _ ⟨_, hfile⟩ => by
      rw [hnode] at hfile
      cases hfile⟩⟩
  have hsame : t.addDirectories (entered place above) = t :=
    addDirectories_of_forall fun p hp => by
      rw [show t.node? p = some .directory from hleads.holds p hp]
      nofun
  have hmade := DirectoriesMade.made hclear
  have hlast : entered (walk place above) [name] = [walk place above ++ [name]] := if_neg hdown
  rw [entered_append, addDirectories_append, hsame, hlast, addDirectories, List.foldl_cons,
    addDirectory_of_none hnode] at hmade
  exact hmade

theorem isDirectory_eq_false {path : Path} (hacc : path.IsAcceptable)
    (h : ¬ t.Clear (t.start path.root) path.names) : t.isDirectory path = false :=
  Bool.eq_false_iff.2 fun hdir => h ((isDirectory_iff hacc).1 hdir).clear

section Steps

variable {path at' : Path} {cause : SystemFault.Cause} {fault : FileFault} {root : Path.Root}

theorem unlessDirectory_eq (path : Path) (fault : FileFault) (t : FileTree) :
    host.unlessDirectory path fault t =
      (if t.isDirectory path then .ok () else .error fault, t) := by
  change (if t.isDirectory path then pure (.ok ()) else pure (.error fault) :
    StateM FileTree (Except FileFault Unit)) t = _
  split <;> rfl

theorem makeOneDirectory_of_ok (h : t.makeDirectory path = (.ok (), t')) :
    host.makeOneDirectory path t = (.ok (), t') := by
  simp only [Host.makeOneDirectory, bind, StateT.bind,
    show host.makeDirectory path t = (.ok (), t') from h]
  rfl

theorem makeOneDirectory_of_embeddedNull (h : t.makeDirectory path = (.error .embeddedNull, t')) :
    host.makeOneDirectory path t = (.error .embeddedNull, t') := by
  simp only [Host.makeOneDirectory, bind, StateT.bind,
    show host.makeDirectory path t = (.error .embeddedNull, t') from h]
  rfl

theorem makeOneDirectory_of_error (h : t.makeDirectory path = (.error (.system ⟨cause, at'⟩), t'))
    (hcause : cause ≠ .noEntry) : host.makeOneDirectory path t =
      (if t'.isDirectory path then .ok () else .error (.system ⟨cause, at'⟩), t') := by
  simp only [Host.makeOneDirectory, bind, StateT.bind,
    show host.makeDirectory path t = (.error (.system ⟨cause, at'⟩), t') from h]
  cases cause <;> first | exact absurd rfl hcause | exact unlessDirectory_eq _ _ _

/-- If nothing above a directory is missing, it is made as a single one is. -/
theorem makeDirectoriesOf_of_ne_noEntry
    (h : ∀ at',
      (t.makeDirectory ⟨root, (name :: names).reverse⟩).1 ≠ .error (.system ⟨.noEntry, at'⟩)) :
    host.makeDirectoriesOf root (name :: names) t =
      host.makeOneDirectory ⟨root, (name :: names).reverse⟩ t := by
  generalize hresult : t.makeDirectory ⟨root, (name :: names).reverse⟩ = result at h
  simp only [Host.makeDirectoriesOf, Host.makeOneDirectory, bind, StateT.bind,
    show host.makeDirectory ⟨root, (name :: names).reverse⟩ t = result from hresult]
  rcases result with ⟨(_ | ⟨cause, at'⟩) | _, t'⟩
  · rfl
  · cases cause <;> first | rfl | exact absurd rfl (h _)
  · rfl

theorem makeDirectoriesOf_of_noEntry
    (h : t.makeDirectory ⟨root, (name :: names).reverse⟩ = (.error (.system ⟨.noEntry, at'⟩), t')) :
    host.makeDirectoriesOf root (name :: names) t =
      match host.makeDirectoriesOf root names t' with
      | (.ok (), t'') => host.makeOneDirectory ⟨root, (name :: names).reverse⟩ t''
      | (.error e, t'') => (.error e, t'') := by
  conv => lhs; unfold Host.makeDirectoriesOf
  simp only [bind, StateT.bind,
    show host.makeDirectory ⟨root, (name :: names).reverse⟩ t =
      (.error (.system ⟨.noEntry, at'⟩), t') from h]
  rcases host.makeDirectoriesOf root names t' with ⟨_ | _, t''⟩ <;> rfl

/-- One directory is made, or it is there, if none above it is missing. -/
theorem makeOneDirectory_made (hacc : path.IsAcceptable) (hnames : path.names = above ++ [name])
    (h : ∀ at', (t.makeDirectory path).1 ≠ .error (.system ⟨.noEntry, at'⟩)) :
    DirectoriesMade t (t.start path.root) path.names (host.makeOneDirectory path t) := by
  have hmade := makeDirectory_made (t := t) hacc hnames
  generalize hresult : t.makeDirectory path = result at h hmade
  cases hmade with
  | there leads =>
    rw [makeOneDirectory_of_error hresult nofun, if_pos ((isDirectory_iff hacc).2 leads)]
    exact directoriesMade_of_leads leads
  | new leads size_le down node =>
    rw [makeOneDirectory_of_ok hresult, hnames]
    exact directoriesMade_of_insert leads size_le down node
  | blocked not_clear ne =>
    rw [makeOneDirectory_of_error hresult ne, isDirectory_eq_false hacc not_clear]
    exact .refused not_clear (.refl _ t)
  | missing => exact absurd rfl (h path)

/-- No directory is missing above one that directories lead to. -/
theorem makeDirectory_ne_noEntry (hacc : path.IsAcceptable) (hnames : path.names = above ++ [name])
    (hleads : t.Leads (t.start path.root) above) (at' : Path) :
    (t.makeDirectory path).1 ≠ .error (.system ⟨.noEntry, at'⟩) := by
  have hmade := makeDirectory_made (t := t) hacc hnames
  generalize t.makeDirectory path = result at hmade
  cases hmade with
  | there => nofun
  | new => nofun
  | blocked _ ne => exact fun h => ne (by injection h with h; injection h with h; injection h)
  | missing not_leads => exact absurd hleads not_leads

end Steps

/-- Directories that are there do no harm. -/
theorem DirectoriesMade.of_addDirectories {result : Except FileFault Unit × FileTree}
    (h : DirectoriesMade (t.addDirectories (entered place above)) place (above ++ [name]) result) :
    DirectoriesMade t place (above ++ [name]) result := by
  have hsub : entered place above ⊆ entered place (above ++ [name]) := by
    rw [entered_append]
    exact List.subset_append_left _ _
  cases h with
  | made clear =>
    have hsame : (t.addDirectories (entered place above)).addDirectories
        (entered place (above ++ [name])) = t.addDirectories (entered place (above ++ [name])) := by
      have hagain : (t.addDirectories (entered place above)).addDirectories (entered place above) =
          t.addDirectories (entered place above) := addDirectories_of_forall fun p hp => by
        rw [node?_addDirectories, if_pos hp]
        nofun
      rw [entered_append, addDirectories_append, hagain, addDirectories_append]
    rw [hsame]
    exact .made (clear_addDirectories_iff.1 clear)
  | refused not_clear grown =>
    exact .refused (mt clear_addDirectories_iff.2 not_clear)
      (((grownBy_addDirectories t _).mono hsub).trans grown)

theorem start_addDirectories (root : Path.Root) :
    (t.addDirectories places).start root = t.start root :=
  start_of_current current_addDirectories root

theorem makeDirectoriesOf_made (root : Path.Root) (below : List String) (t : FileTree)
    (hacc : Path.IsAcceptable ⟨root, below.reverse⟩) :
    DirectoriesMade t (t.start root) below.reverse (host.makeDirectoriesOf root below t) := by
  induction below generalizing t with
  | nil =>
    have hmade : t.makeDirectory ⟨root, []⟩ = (.error (.system ⟨.alreadyExists, ⟨root, []⟩⟩), t) :=
      atPath_of_acceptable (f := fun _ => _) hacc
    rw [Host.makeDirectoriesOf, makeOneDirectory_of_error hmade nofun,
      show t.isDirectory ⟨root, []⟩ = true from (isDirectory_iff hacc).2 through_nil]
    exact directoriesMade_of_leads through_nil
  | cons name below ih =>
    let path : Path := ⟨root, (name :: below).reverse⟩
    have hnames : path.names = below.reverse ++ [name] := List.reverse_cons
    have habove : Path.IsAcceptable ⟨root, below.reverse⟩ := by
      rw [List.reverse_cons] at hacc
      exact hacc.above
    by_cases hmissing : ∃ at', (t.makeDirectory path).1 = .error (.system ⟨.noEntry, at'⟩)
    · obtain ⟨at', hat⟩ := hmissing
      rw [makeDirectoriesOf_of_noEntry (atPath_of_error hat)]
      have hbelow := ih t habove
      generalize host.makeDirectoriesOf root below t = result at hbelow
      change DirectoriesMade t (t.start root) path.names _
      rw [hnames]
      cases hbelow with
      | made clear =>
        have hmade := makeOneDirectory_made
          (t := t.addDirectories (entered (t.start root) below.reverse)) hacc hnames
          (makeDirectory_ne_noEntry hacc hnames (by rw [start_addDirectories]; exact clear.leads))
        rw [start_addDirectories, hnames] at hmade
        exact hmade.of_addDirectories
      | refused not_clear grown =>
        refine .refused (fun hclear => not_clear (through_append_iff.1 hclear).1) (grown.mono ?_)
        rw [entered_append]
        exact List.subset_append_left _ _
    · have hne := not_exists.1 hmissing
      rw [makeDirectoriesOf_of_ne_noEntry hne]
      exact makeOneDirectory_made hacc hnames hne

/-- When the directories of a path can be made, and what is there then. -/
theorem makeDirectories_made {path : Path} (t : FileTree) (hacc : path.IsAcceptable) :
    DirectoriesMade t (t.start path.root) path.names (host.makeDirectories path t) := by
  have hmade := makeDirectoriesOf_made path.root path.names.reverse t
    (by rwa [List.reverse_reverse])
  rwa [List.reverse_reverse] at hmade

/-- Nothing is made at a path that the system does not accept. -/
theorem makeDirectories_of_not_acceptable {path : Path} (t : FileTree) (h : ¬ path.IsAcceptable) :
    ∃ e, host.makeDirectories path t = (.error e, t) := by
  obtain ⟨root, names⟩ := path
  obtain ⟨below, rfl⟩ : ∃ below : List String, names = below.reverse :=
    ⟨names.reverse, names.reverse_reverse.symm⟩
  rw [Host.makeDirectories, List.reverse_reverse]
  cases below with
  | nil => exact absurd (Path.isAcceptable_root root) h
  | cons name below =>
    rcases atPath_of_not_acceptable (t := t) h with hmade | ⟨hfind, hmade⟩
    · rw [makeDirectoriesOf_of_ne_noEntry (by rw [makeDirectory, hmade]; nofun)]
      exact ⟨_, makeOneDirectory_of_embeddedNull hmade⟩
    · rw [makeDirectoriesOf_of_ne_noEntry (by rw [makeDirectory, hmade]; nofun),
        makeOneDirectory_of_error hmade nofun, isDirectory, hfind]
      exact ⟨_, rfl⟩

end Tablature.FileTree
