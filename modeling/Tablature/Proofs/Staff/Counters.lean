import Tablature.Proofs.Staff.Written

/-!
# The counters of a staff

The cursor of a staff, the two counters of its clock and its lock are changed one by one, but all
of them follow from the number of cells written. To count the cells, a staff is given a record, to
which every cell that is written goes, with the staff as it was before it.

* `Recorded.apply_staff`: the record makes no difference to the staff;
* `Recorded.Sound.apply`: what every operation keeps, refused and stopped ones included;
* `counters_after`: the counters after any operations.
-/

namespace Tablature.Staff

/-- A cell that was written, and the staff before it. -/
structure Entry where
  before : Staff
  cell : Cell

/-- A staff, and the cells that were written on it. -/
structure Recorded where
  staff : Staff
  record : List Entry

/-- The staff after operations on a new one in the meter `m`, each performed whatever became of
those before it. -/
def after (m : Meter) (commands : List Command) : Staff :=
  commands.foldl (fun s c => (apply c s).state) { clock := { meter := m } }

namespace Recorded

/-! ## Operations with a record -/

/-- Writes a cell, which goes to the record if there is a string for it. -/
def writeCell (cell : Cell) (r : Recorded) : Outcome Fault Recorded :=
  match Staff.writeCell cell r.staff with
  | ⟨s, none⟩ =>
    .done ⟨s, if r.staff.notes = [] then r.record else r.record ++ [⟨r.staff, cell⟩]⟩
  | ⟨s, some e⟩ => .stopped ⟨s, r.record⟩ e

/-- Everything else writes its cells with `writeCell`, as it does on a staff alone. -/
def finishStep (r : Recorded) : Outcome Fault Recorded :=
  if r.staff.notes = [] then .done r
  else Outcome.iterate (writeCell .empty) (r.staff.cursor + 1) r

def stroke : Stroke → Recorded → Outcome Fault Recorded
  | .fret f, r => writeCell (.fret f) r
  | .empty, r => writeCell .empty r
  | .next, r => finishStep r
  | .spreadEmpty count, r => Outcome.iterate (writeCell .empty) count.toNat r
  | .spreadNext count, r => Outcome.iterate finishStep count.toNat r

def apply : Command → Recorded → Outcome Fault Recorded
  | .stroke k, r => r.stroke k
  | c, r => (Staff.apply c r.staff).map ({ r with staff := · }) id

/-- The staff and its record after operations, each performed whatever became of those before
it. -/
def after (m : Meter) (commands : List Command) : Recorded :=
  commands.foldl (fun r c => (r.apply c).state) ⟨{ clock := { meter := m } }, []⟩

/-! ## The staff of a record -/

theorem writeCell_staff (cell : Cell) (r : Recorded) :
    Staff.writeCell cell r.staff = (r.writeCell cell).map staff id := by
  unfold writeCell
  rcases Staff.writeCell cell r.staff with ⟨s, _ | e⟩ <;> rfl

theorem finishStep_staff (r : Recorded) :
    Staff.finishStep r.staff = r.finishStep.map staff id := by
  unfold finishStep Staff.finishStep
  split
  · rfl
  · exact Outcome.iterate_map (writeCell_staff .empty) _ r

theorem stroke_staff (k : Stroke) (r : Recorded) :
    Staff.stroke k r.staff = (r.stroke k).map staff id := by
  cases k with
  | fret f => exact writeCell_staff _ r
  | empty => exact writeCell_staff _ r
  | next => exact finishStep_staff r
  | spreadEmpty count =>
    rw [stroke, ← Outcome.iterate_map (writeCell_staff .empty), Staff.stroke]
    split <;> rename_i h
    · exact (iterate_writeCell_of_notes_eq_nil h _).symm
    · rfl
  | spreadNext count =>
    rw [stroke, ← Outcome.iterate_map finishStep_staff, Staff.stroke]
    split <;> rename_i h
    · exact (Outcome.iterate_eq_done (show Staff.finishStep r.staff = _ from if_pos h) _).symm
    · rfl

theorem map_staff (o : Outcome Fault Staff) (r : Recorded) :
    (o.map ({ r with staff := · }) id).map staff id = o := by
  rcases o with ⟨s, _ | e⟩ <;> rfl

/-- The record makes no difference to the staff. -/
theorem apply_staff (c : Command) (r : Recorded) :
    Staff.apply c r.staff = (r.apply c).map staff id := by
  cases c with
  | addNote note => exact (map_staff _ r).symm
  | setSignature beats dominant => exact (map_staff _ r).symm
  | setFidelity fidelity => exact (map_staff _ r).symm
  | stroke k => exact stroke_staff k r

theorem after_staff (m : Meter) (commands : List Command) :
    (after m commands).staff = Staff.after m commands :=
  (List.foldl_hom staff fun r c => congrArg Outcome.state (apply_staff c r)).symm

/-! ## What operations keep -/

/-- A staff that shows the cells of its record. Without strings there are none, and every one went
to a row of the staff. -/
inductive Sound : Recorded → Prop
  | drawn {notes : List String} {m : Meter} {record : List Entry}
      (silent : notes = [] → record = [])
      (rows : ∀ entry ∈ record, entry.before.cursor < entry.before.rows.length) :
      Sound ⟨Staff.drawn notes m (record.map Entry.cell), record⟩

variable {r : Recorded}

theorem cursor_drawn_lt {notes : List String} (hn : notes ≠ []) (m : Meter) (cells : List Cell) :
    (Staff.drawn notes m cells).cursor < (Staff.drawn notes m cells).rows.length := by
  have hpos := List.length_pos_of_ne_nil hn
  show notes.length - 1 - cells.length % notes.length < ((List.range notes.length).map _).length
  rw [List.length_map, List.length_range]
  omega

theorem Sound.writeCell (h : r.Sound) (cell : Cell) : (r.writeCell cell).state.Sound := by
  obtain @⟨notes, m, record, silent, rows⟩ := h
  by_cases hn : notes = []
  · rw [Recorded.writeCell, writeCell_of_notes_eq_nil hn]
    show Sound ⟨_, if notes = [] then record else _⟩
    rw [if_pos hn]
    exact .drawn silent rows
  · cases hl : m.label ((record.map Entry.cell).length / notes.length % m.length : Nat) with
    | error e =>
      rw [Recorded.writeCell, writeCell_drawn_of_error hn hl]
      exact .drawn silent rows
    | ok l =>
      rw [Recorded.writeCell, writeCell_drawn hn ⟨l, hl⟩]
      show Sound ⟨_, if notes = [] then record else _⟩
      rw [if_neg hn, ← List.map_singleton (f := Entry.cell) (a := ⟨_, cell⟩), ← List.map_append]
      refine .drawn (fun h => absurd h hn) ?_
      rw [List.forall_mem_append, List.forall_mem_singleton]
      exact ⟨rows, cursor_drawn_lt hn m _⟩

theorem Sound.finishStep (h : r.Sound) : r.finishStep.state.Sound := by
  unfold Recorded.finishStep
  split
  · exact h
  · exact Outcome.iterate_invariant (fun _ h => h.writeCell .empty) _ h

theorem Sound.stroke (h : r.Sound) (k : Stroke) : (r.stroke k).state.Sound := by
  cases k with
  | fret f => exact h.writeCell _
  | empty => exact h.writeCell _
  | next => exact h.finishStep
  | spreadEmpty count => exact Outcome.iterate_invariant (fun _ h => h.writeCell .empty) _ h
  | spreadNext count => exact Outcome.iterate_invariant (fun _ h => h.finishStep) _ h

/-- Before the first cell a setup is done, and later it is refused. -/
theorem Sound.setup (h : r.Sound) {what : Setup} {change : Staff → Staff}
    (hchange : ∀ notes m, ∃ notes' m', Staff.setup what change (Staff.drawn notes m []) =
      .done (Staff.drawn notes' m' [])) :
    ((Staff.setup what change r.staff).map ({ r with staff := · }) id).state.Sound := by
  obtain @⟨notes, m, record, silent, rows⟩ := h
  by_cases hr : record = []
  · subst hr
    obtain ⟨notes', m', hdone⟩ := hchange notes m
    rw [List.map_nil, hdone]
    exact @Sound.drawn notes' m' [] (fun _ => rfl) rows
  · rw [setup_drawn_of_ne_nil (by simpa using hr)]
    exact .drawn silent rows

theorem Sound.apply (h : r.Sound) (c : Command) : (r.apply c).state.Sound := by
  cases c with
  | addNote note => exact h.setup fun notes m => ⟨_, _, addNote_drawn_nil note⟩
  | setSignature beats dominant =>
    exact h.setup fun notes m => ⟨_, _, setSignature_drawn_nil beats dominant⟩
  | setFidelity fidelity => exact h.setup fun notes m => ⟨_, _, setFidelity_drawn_nil fidelity⟩
  | stroke k => exact h.stroke k

theorem sound_after (m : Meter) (commands : List Command) : (after m commands).Sound := by
  induction commands using List.reverseRecOn with
  | nil =>
    rw [after, List.foldl_nil, ← drawn_nil_nil]
    exact @Sound.drawn [] m [] (fun _ => rfl) (List.forall_mem_nil _)
  | append_singleton commands c ih =>
    rw [after, List.foldl_append]
    exact ih.apply c

/-- The counters of a staff with `n` strings and `k` cells, and its lock. -/
theorem Sound.counters (h : r.Sound) :
    let s := r.staff
    let n := s.notes.length
    let k := r.record.length
    s.rows.length = n ∧ (s.hasCells = true ↔ 0 < k) ∧
      (0 < n ∧ s.cursor = n - 1 - k % n ∧ s.clock.counted = k / n ∧
          s.clock.position = k / n % s.clock.meter.length ∨
        n = 0 ∧ k = 0 ∧ s.cursor = 0 ∧ s.clock.counted = 0 ∧ s.clock.position = 0) ∧
      ∀ entry ∈ r.record, entry.before.cursor < entry.before.rows.length := by
  obtain @⟨notes, m, record, silent, rows⟩ := h
  refine ⟨by simp [Staff.drawn], by simp [Staff.drawn, List.length_pos_iff], ?_, rows⟩
  rcases Nat.eq_zero_or_pos notes.length with hn | hn
  · obtain rfl := List.length_eq_zero_iff.1 hn
    obtain rfl := silent rfl
    simp [Staff.drawn]
  · exact .inl ⟨hn, by simp [Staff.drawn]⟩

end Recorded

/-- After any operations on a new staff, refused and stopped ones included: with `n` strings and
`k` cells written on them, the cursor stands `k % n` strings before the last one, the clock has
counted `k / n` steps and stands at this step of the measure, and the setup is locked as soon as
there is a cell. Without strings there are no cells. Every cell was written on a row that was
there. -/
theorem counters_after (m : Meter) (commands : List Command) :
    let s := after m commands
    let record := (Recorded.after m commands).record
    let n := s.notes.length
    let k := record.length
    (Recorded.after m commands).staff = s ∧ s.rows.length = n ∧ (s.hasCells = true ↔ 0 < k) ∧
      (0 < n ∧ s.cursor = n - 1 - k % n ∧ s.clock.counted = k / n ∧
          s.clock.position = k / n % s.clock.meter.length ∨
        n = 0 ∧ k = 0 ∧ s.cursor = 0 ∧ s.clock.counted = 0 ∧ s.clock.position = 0) ∧
      ∀ entry ∈ record, entry.before.cursor < entry.before.rows.length := by
  intro s record n k
  have hs : (Recorded.after m commands).staff = s := Recorded.after_staff m commands
  have h := (Recorded.sound_after m commands).counters
  rw [hs] at h
  exact ⟨hs, h⟩

end Tablature.Staff
