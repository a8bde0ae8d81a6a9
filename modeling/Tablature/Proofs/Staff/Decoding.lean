import Tablature.Proofs.Staff.Written

/-!
# Reading rows back

The cells of a row have no separators, and those with long frets are wider than the others. Still no
two lists of cells look the same: a cell begins with a dash, and the digits behind the dash are all
of its fret. So the rows of a staff, even without their bar lines, tell which cells were written,
and in which order.

* `eq_of_flatMap_text_eq`: the cells of a row can be told from its text;
* `eq_of_cellsOf_eq`: the cells of a staff can be told from those of its strings;
* `unbarred_rows_eq_iff`: two staffs whose rows differ in bar lines only have the same cells.
-/

namespace Tablature

/-- The digits in a cell. -/
def Cell.digits : Cell → List Char
  | fret f => f.toList
  | empty => []

namespace Staff

/-- A fret as it is written: digits, of which there is one at least. -/
def IsNumbered (f : String) : Prop := f ≠ "" ∧ ∀ c ∈ f.toList, c.isDigit = true

/-- A row without its bar lines. -/
def unbarred (row : String) : String := String.ofList (row.toList.filter (· ≠ '|'))

/-- The cells of the row with index `i`, on `n` strings. -/
def cellsOf (n : Nat) (cells : List Cell) (i : Nat) : List Cell :=
  (List.range cells.length).filterMap fun step => cells[step * n + (n - 1 - i)]?

variable {cell cell' : Cell} {cells cells' : List Cell} {n i : Nat}

/-! ## One row -/

/-- A cell is a dash, its digits, and dashes that fill it up. -/
theorem exists_text_eq (cell : Cell) :
    ∃ filler, cell.text.toList = '-' :: (cell.digits ++ filler) ∧ ∀ c ∈ filler, c = '-' := by
  cases cell with
  | empty => exact ⟨['-', '-'], rfl, by simp⟩
  | fret f =>
    rw [Cell.text]
    split
    · exact ⟨['-'], by simp [Cell.digits], by simp⟩
    · exact ⟨[], by simp [Cell.digits], by simp⟩

theorem head?_flatMap_text (cells : List Cell) :
    ∀ c ∈ (cells.flatMap (·.text.toList)).head?, c = '-' := by
  cases cells with
  | nil => simp
  | cons cell cells =>
    obtain ⟨filler, htext, -⟩ := exists_text_eq cell
    simp [htext]

/-- The digits behind the first dash are those of the first cell. -/
theorem takeWhile_isDigit_text (h : ∀ f, cell = .fret f → IsNumbered f) (cells : List Cell) :
    ((cell :: cells).flatMap (·.text.toList)).tail.takeWhile Char.isDigit = cell.digits := by
  obtain ⟨filler, htext, hfiller⟩ := exists_text_eq cell
  have hdigits : ∀ c ∈ cell.digits, c.isDigit = true := by
    cases cell with
    | empty => exact List.forall_mem_nil _
    | fret f => exact (h f rfl).2
  have hdash : ∀ c ∈ (filler ++ cells.flatMap (·.text.toList)).head?, c = '-' := by
    cases filler with
    | nil => exact head?_flatMap_text cells
    | cons d filler => simpa using hfiller d List.mem_cons_self
  rw [List.flatMap_cons, htext, List.cons_append, List.tail_cons, List.append_assoc,
    List.takeWhile_append_of_pos hdigits]
  cases hrest : filler ++ cells.flatMap (·.text.toList) with
  | nil => simp
  | cons d rest =>
    obtain rfl : d = '-' := hdash d (by simp [hrest])
    rw [List.takeWhile_cons_of_neg (by decide), List.append_nil]

theorem eq_of_digits_eq (h : ∀ f, cell = .fret f → IsNumbered f)
    (h' : ∀ f, cell' = .fret f → IsNumbered f) (hdigits : cell.digits = cell'.digits) :
    cell = cell' := by
  cases cell with
  | empty =>
    cases cell' with
    | empty => rfl
    | fret f => exact absurd (String.toList_eq_nil_iff.1 hdigits.symm) (h' f rfl).1
  | fret f =>
    cases cell' with
    | empty => exact absurd (String.toList_eq_nil_iff.1 hdigits) (h f rfl).1
    | fret f' => rw [String.toList_inj.1 hdigits]

/-- No two lists of cells look the same. -/
theorem eq_of_flatMap_text_eq (h : ∀ f, .fret f ∈ cells → IsNumbered f)
    (h' : ∀ f, .fret f ∈ cells' → IsNumbered f)
    (htext : cells.flatMap (·.text.toList) = cells'.flatMap (·.text.toList)) : cells = cells' := by
  have hne (cell : Cell) (cells : List Cell) :
      (cell :: cells).flatMap (·.text.toList) ≠ [] := by
    obtain ⟨filler, htext, -⟩ := exists_text_eq cell
    simp [htext]
  induction cells generalizing cells' with
  | nil =>
    cases cells' with
    | nil => rfl
    | cons cell' cells' => exact absurd htext.symm (hne cell' cells')
  | cons cell cells ih =>
    cases cells' with
    | nil => exact absurd htext (hne cell cells)
    | cons cell' cells' =>
      have hcell : ∀ f, cell = .fret f → IsNumbered f := fun f e => h f (e ▸ List.mem_cons_self)
      have hcell' : ∀ f, cell' = .fret f → IsNumbered f := fun f e => h' f (e ▸ List.mem_cons_self)
      have hdigits := congrArg (fun cs => cs.tail.takeWhile Char.isDigit) htext
      rw [takeWhile_isDigit_text hcell, takeWhile_isDigit_text hcell'] at hdigits
      obtain rfl := eq_of_digits_eq hcell hcell' hdigits
      rw [List.flatMap_cons, List.flatMap_cons] at htext
      rw [ih (fun f hf => h f (List.mem_cons_of_mem _ hf))
        (fun f hf => h' f (List.mem_cons_of_mem _ hf)) (List.append_cancel_left htext)]

/-! ## All rows -/

/-- Of a row, only the bar lines depend on the meter. -/
theorem toList_unbarred_rowOf (h : ∀ f, .fret f ∈ cells → IsNumbered f) (length : Nat) :
    (unbarred (rowOf length n cells i)).toList = (cellsOf n cells i).flatMap (·.text.toList) := by
  have hbar (step : Nat) : (barAt length step).toList.filter (· ≠ '|') = [] := by
    rw [barAt]
    split <;> rfl
  have htext {cell : Cell} (hc : cell ∈ cells) :
      cell.text.toList.filter (· ≠ '|') = cell.text.toList := by
    have hbar : '|' ∉ cell.text.toList :=
      bar_not_mem_text fun f hf hm => absurd ((h f (hf ▸ hc)).2 _ hm) (by decide)
    refine List.filter_eq_self.2 fun c hc => decide_eq_true ?_
    rintro rfl
    exact hbar hc
  rw [unbarred, String.toList_ofList, rowOf, String.toList_join, List.filter_flatMap, cellsOf,
    List.filterMap_eq_flatMap_toList, List.filterMap_eq_flatMap_toList, List.flatMap_assoc,
    List.flatMap_assoc]
  refine List.flatMap_congr fun step _ => ?_
  rw [cellAt?]
  cases hc : cells[step * n + (n - 1 - i)]? with
  | none => rfl
  | some cell =>
    rw [Option.map_some, Option.toList_some, List.flatMap_singleton, Option.toList_some,
      List.flatMap_singleton, String.toList_append, List.filter_append, hbar, List.nil_append,
      htext (List.mem_of_getElem? hc)]

/-- What is found step by step, up to the first step without, is found with the same index. -/
theorem getElem?_filterMap_range {α : Type} {f : Nat → Option α} {k : Nat}
    (hnext : ∀ t, f t = none → f (t + 1) = none) (hk : f k = none) (t : Nat) :
    ((List.range k).filterMap f)[t]? = f t := by
  have hlater {f : Nat → Option α} (hnext : ∀ t, f t = none → f (t + 1) = none)
      (h : f 0 = none) (t : Nat) : f t = none := by
    induction t with
    | zero => exact h
    | succ t ih => exact hnext t ih
  induction k generalizing f t with
  | zero => exact (hlater hnext hk t).symm
  | succ k ih =>
    rw [List.range_succ_eq_map, List.filterMap_cons, List.filterMap_map]
    cases h : f 0 with
    | none =>
      have hnone := hlater hnext h
      have hnil : (List.range k).filterMap (f ∘ Nat.succ) = [] :=
        List.filterMap_eq_nil_iff.2 fun t _ => hnone (t + 1)
      rw [hnil, hnone t]
      rfl
    | some a =>
      cases t with
      | zero => exact h.symm
      | succ t => exact ih (f := f ∘ Nat.succ) (fun t => hnext (t + 1)) hk t

theorem getElem?_cellsOf (hn : 0 < n) (step : Nat) :
    (cellsOf n cells i)[step]? = cells[step * n + (n - 1 - i)]? := by
  refine getElem?_filterMap_range (f := fun step => cells[step * n + (n - 1 - i)]?)
    (fun t h => ?_) ?_ step
  · rw [List.getElem?_eq_none_iff] at h ⊢
    rw [Nat.succ_mul]
    omega
  · have := Nat.le_mul_of_pos_right cells.length hn
    exact List.getElem?_eq_none (by omega)

/-- The cells of a staff are known when those of all its strings are. -/
theorem eq_of_cellsOf_eq (hn : 0 < n) (h : ∀ i < n, cellsOf n cells i = cellsOf n cells' i) :
    cells = cells' := by
  refine List.ext_getElem? fun k => ?_
  have hk : k / n * n + (n - 1 - (n - 1 - k % n)) = k := by
    have hr := Nat.mod_lt k hn
    have hdiv := Nat.div_add_mod' k n
    omega
  have hrow := congrArg (·[k / n]?) (h (n - 1 - k % n) (by omega))
  rwa [getElem?_cellsOf hn, getElem?_cellsOf hn, hk] at hrow

theorem map_unbarred_rows_drawn {notes : List String} (m : Meter) :
    (drawn notes m cells).rows.map unbarred =
      (List.range notes.length).map fun i => unbarred (rowOf m.length notes.length cells i) :=
  List.map_map

/-- Two staffs with equally many strings, whatever their meters, have been given the same cells in
the same order, if their rows are the same without their bar lines, and only then. -/
theorem unbarred_rows_eq_iff {m m' : Meter} {commands commands' : List Command} {s s' : Staff}
    (h : Outcome.runAll apply commands { clock := { meter := m } } = .done s)
    (h' : Outcome.runAll apply commands' { clock := { meter := m' } } = .done s')
    (hnotes : s.notes.length = s'.notes.length) (hpos : 0 < s.notes.length)
    (hfrets : ∀ f, .stroke (.fret f) ∈ commands → IsNumbered f)
    (hfrets' : ∀ f, .stroke (.fret f) ∈ commands' → IsNumbered f) :
    s.rows.map unbarred = s'.rows.map unbarred ↔ written 0 0 commands = written 0 0 commands' := by
  obtain ⟨hs, -⟩ := eq_drawn_of_runAll h
  obtain ⟨hs', -⟩ := eq_drawn_of_runAll h'
  have hcells : ∀ f, .fret f ∈ written 0 0 commands → IsNumbered f :=
    fun f hf => hfrets f (mem_of_mem_written hf)
  have hcells' : ∀ f, .fret f ∈ written 0 0 commands' → IsNumbered f :=
    fun f hf => hfrets' f (mem_of_mem_written hf)
  have hrow (i : Nat) := toList_unbarred_rowOf (n := s.notes.length) (i := i) hcells
    s.clock.meter.length
  have hrow' (i : Nat) := toList_unbarred_rowOf (n := s.notes.length) (i := i) hcells'
    s'.clock.meter.length
  rw [hs, hs', map_unbarred_rows_drawn, map_unbarred_rows_drawn, ← hnotes, List.map_inj_left]
  constructor
  · intro hrows
    refine eq_of_cellsOf_eq hpos fun i hi => ?_
    have htext := congrArg String.toList (hrows i (List.mem_range.2 hi))
    rw [hrow, hrow'] at htext
    refine eq_of_flatMap_text_eq (fun f hf => ?_) (fun f hf => ?_) htext
    · obtain ⟨step, -, hstep⟩ := List.mem_filterMap.1 hf
      exact hcells f (List.mem_of_getElem? hstep)
    · obtain ⟨step, -, hstep⟩ := List.mem_filterMap.1 hf
      exact hcells' f (List.mem_of_getElem? hstep)
  · intro hsame i _
    rw [← String.toList_inj, hrow, hrow', hsame]

/-- The same cells in measures of sixteen steps and of one: the rows differ in a bar line only. -/
theorem unbarred_rows_of_two_meters :
    let commands : List Command :=
      [.addNote "E", .addNote "A", .stroke (.fret "5"), .stroke (.fret "12"),
        .stroke (.fret "007"), .stroke .empty]
    let commands' : List Command :=
      [.setSignature 1 4, .setFidelity 4, .addNote "D", .addNote "G", .stroke (.fret "5"),
        .stroke (.fret "12"), .stroke (.fret "007"), .stroke .next]
    ∃ s s', Outcome.runAll apply commands { clock := { meter := .common } } = .done s ∧
      Outcome.runAll apply commands' { clock := { meter := .common } } = .done s' ∧
      s.rows = ["|-12---", "|-5--007"] ∧ s'.rows = ["|-12|---", "|-5-|-007"] ∧
      s.rows.map unbarred = s'.rows.map unbarred ∧
      written 0 0 commands = written 0 0 commands' := by
  intro commands commands'
  let s : Staff := ⟨["E", "A"], ["|-12---", "|-5--007"], ⟨.common, 2, 2⟩, true, 1⟩
  let s' : Staff := ⟨["D", "G"], ["|-12|---", "|-5-|-007"],
    ⟨⟨1, 4, 4, by decide, by decide, by decide⟩, 0, 2⟩, true, 1⟩
  have hrun : Outcome.runAll apply commands { clock := { meter := .common } } = .done s := by
    decide +kernel
  have hrun' : Outcome.runAll apply commands' { clock := { meter := .common } } = .done s' := by
    decide +kernel
  have hfret : ∀ f ∈ ["5", "12", "007"], IsNumbered f := by
    intro f hf
    simp only [List.mem_cons, List.not_mem_nil, or_false] at hf
    rcases hf with rfl | rfl | rfl <;> exact ⟨by decide, List.all_eq_true.1 (by decide)⟩
  have hfrets : ∀ f, .stroke (.fret f) ∈ commands → IsNumbered f := fun f hf => hfret f (by
    simpa [commands] using hf)
  have hfrets' : ∀ f, .stroke (.fret f) ∈ commands' → IsNumbered f := fun f hf => hfret f (by
    simpa [commands'] using hf)
  have hrows : s.rows.map unbarred = s'.rows.map unbarred := by decide +kernel
  have hsame := (unbarred_rows_eq_iff hrun hrun' rfl (by decide) hfrets hfrets').1 hrows
  exact ⟨s, s', hrun, hrun', rfl, rfl, hrows, hsame⟩

end Staff

end Tablature
