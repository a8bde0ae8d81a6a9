import Tablature.Proofs.Meter.Label
import Tablature.Proofs.Outcome
import Tablature.Proofs.Staff.Row

/-!
# Staffs as they are drawn

The state of a staff is a function of its strings, its meter and the cells written so far
(`drawn`). Writing fails only where a step has no label, and then leaves the staff as it was.

* `writeCell_drawn`, `writeCell_drawn_of_error`: one more cell, or none;
* `runAll_writeCell_cases`: a run of cells is written up to the first one whose step has no label;
* `runAll_writeCell_eq_done_iff`: the runs that are written to their end.
-/

namespace Tablature

/-- Every step that the first `k` cells on `n` strings begin has a label. -/
def Meter.Playable (m : Meter) (n k : Nat) : Prop := ∀ step, step * n < k → m.Labels step

theorem Meter.Playable.mono {m : Meter} {n j k : Nat} (h : m.Playable n k) (hjk : j ≤ k) :
    m.Playable n j := fun step hs => h step (hs.trans_le hjk)

theorem Meter.playable_zero (m : Meter) (n : Nat) : m.Playable n 0 :=
  fun _ h => absurd h (Nat.not_lt_zero _)

/-- The cell with index `k` belongs to step `k / n`. -/
theorem Meter.playable_succ_iff {m : Meter} {n k : Nat} (hn : 0 < n) :
    m.Playable n (k + 1) ↔ m.Playable n k ∧ m.Labels (k / n) := by
  have hk := Nat.div_mul_le_self k n
  refine ⟨fun h => ⟨h.mono (Nat.le_succ k), h _ (by omega)⟩, fun ⟨h, hl⟩ step hs => ?_⟩
  rcases Nat.lt_or_ge (step * n) k with hlt | hge
  · exact h step hlt
  · have : step = k / n := by
      rw [show k = step * n by omega, Nat.mul_div_cancel _ hn]
    exact this ▸ hl

theorem Meter.playable_add_iff {m : Meter} {n k a : Nat} (hn : 0 < n) :
    m.Playable n (k + a) ↔ m.Playable n k ∧ ∀ i < a, m.Labels ((k + i) / n) := by
  induction a with
  | zero => simp
  | succ a ih => rw [← Nat.add_assoc, playable_succ_iff hn, ih, Nat.forall_lt_succ_right, and_assoc]

namespace Staff

/-- The staff on whose strings, in the given meter, the given cells have been written. -/
def drawn (notes : List String) (m : Meter) (cells : List Cell) : Staff where
  notes := notes
  rows := (List.range notes.length).map (rowOf m.length notes.length cells)
  clock := ⟨m, cells.length / notes.length % m.length, cells.length / notes.length⟩
  hasCells := !cells.isEmpty
  cursor := notes.length - 1 - cells.length % notes.length

variable {notes : List String} {m : Meter} {cells : List Cell}

@[simp]
theorem notes_drawn : (drawn notes m cells).notes = notes := rfl

theorem drawn_nil_nil (m : Meter) : drawn [] m [] = { clock := { meter := m } } := by
  simp [drawn, Nat.zero_mod]

theorem addNote_drawn_nil (note : String) :
    addNote note (drawn notes m []) = .done (drawn (notes ++ [note]) m []) := by
  simp [addNote, setup, drawn, List.range_succ]

theorem setSignature_drawn_nil (beats dominant : Int) :
    setSignature beats dominant (drawn notes m []) =
      .done (drawn notes (m.setSignature beats dominant) []) := by
  simp [setSignature, setup, drawn, Clock.setSignature]

theorem setFidelity_drawn_nil (fidelity : Int) :
    setFidelity fidelity (drawn notes m []) = .done (drawn notes (m.setFidelity fidelity) []) := by
  simp [setFidelity, setup, drawn, Clock.setFidelity]

theorem modify_map_range {f g : Nat → String} {n k : Nat} {h : String → String}
    (hk : g k = h (f k)) (hne : ∀ i < n, i ≠ k → g i = f i) :
    ((List.range n).map f).modify k h = (List.range n).map g := by
  refine List.ext_getElem (by simp) fun i h₁ h₂ => ?_
  have hi : i < n := by simpa using h₂
  rw [List.getElem_modify, List.getElem_map, List.getElem_map, List.getElem_range]
  split
  · rename_i e
    rw [← e, hk]
  · rename_i e
    exact (hne i hi (Ne.symm e)).symm

theorem succ_div_mod_of_eq {n k : Nat} (h : k % n + 1 = n) :
    (k + 1) / n = k / n + 1 ∧ (k + 1) % n = 0 := by
  have hk := Nat.mod_add_div k n
  rw [Nat.div_mod_unique (by omega), Nat.mul_add]
  omega

theorem succ_div_mod_of_lt {n k : Nat} (h : k % n + 1 < n) :
    (k + 1) / n = k / n ∧ (k + 1) % n = k % n + 1 := by
  have hk := Nat.mod_add_div k n
  rw [Nat.div_mod_unique (by omega)]
  omega

/-- Behind a cell the cursor goes on to the place of the next one. -/
theorem advance_drawn (hn : notes ≠ []) (cell : Cell) :
    advance { drawn notes m cells with
      rows := (drawn notes m (cells ++ [cell])).rows
      hasCells := true } = drawn notes m (cells ++ [cell]) := by
  have hr := Nat.mod_lt cells.length (List.length_pos_of_ne_nil hn)
  have hl : (cells ++ [cell]).length = cells.length + 1 := by simp
  by_cases hc : cells.length % notes.length + 1 = notes.length
  · obtain ⟨hdiv, hmod⟩ := succ_div_mod_of_eq hc
    have hcursor : notes.length - 1 - cells.length % notes.length = 0 := by omega
    simp [advance, drawn, Clock.tick, hl, hdiv, hmod, hcursor, Nat.mod_add_mod]
  · obtain ⟨hdiv, hmod⟩ := succ_div_mod_of_lt (n := notes.length) (k := cells.length) (by omega)
    have hcursor : (drawn notes m cells).cursor ≠ 0 := by
      show notes.length - 1 - cells.length % notes.length ≠ 0
      omega
    rw [advance, if_neg hcursor]
    simp [drawn, hl, hdiv, hmod, Nat.sub_sub, Nat.add_assoc]

/-- The rows with one more cell, which goes behind the row of the cursor. -/
theorem modify_rows_drawn (hn : notes ≠ []) (cell : Cell) :
    (drawn notes m cells).rows.modify (drawn notes m cells).cursor
        (· ++ (barAt m.length (cells.length / notes.length) ++ cell.text)) =
      (drawn notes m (cells ++ [cell])).rows := by
  have hpos := List.length_pos_of_ne_nil hn
  exact modify_map_range (rowOf_append_of_eq hpos rfl)
    fun i hi hne => rowOf_append_of_ne hpos hi hne

theorem label_drawn : (drawn notes m cells).clock.label =
    m.label (cells.length / notes.length % m.length : Nat) := rfl

/-- A bar line stands in front of the first step of every measure. -/
theorem barLine_eq_barAt {step : Nat} {l : String}
    (h : m.label (step % m.length : Nat) = .ok l) : barLine l = barAt m.length step := by
  simp only [barLine, barAt, Meter.eq_downbeat_iff h]

/-- One more cell, if its step has a label. -/
theorem writeCell_drawn (hn : notes ≠ []) (h : m.Labels (cells.length / notes.length))
    (cell : Cell) :
    writeCell cell (drawn notes m cells) = .done (drawn notes m (cells ++ [cell])) := by
  obtain ⟨l, hl⟩ := h
  rw [writeCell, notes_drawn, if_neg hn, label_drawn, hl]
  show Outcome.done (advance _) = _
  rw [barLine_eq_barAt hl, modify_rows_drawn hn]
  exact congrArg _ (advance_drawn hn cell)

/-- No cell is written if its step has no label. -/
theorem writeCell_drawn_of_error (hn : notes ≠ []) {e : Meter.LabelFault}
    (h : m.label (cells.length / notes.length % m.length : Nat) = .error e) (cell : Cell) :
    writeCell cell (drawn notes m cells) = .stopped (drawn notes m cells) (.label e) := by
  rw [writeCell, notes_drawn, if_neg hn, label_drawn, h]

/-- A run of cells is written up to the first one whose step has no label. -/
theorem runAll_writeCell_cases (hn : notes ≠ []) (added : List Cell) :
    ((∀ i < added.length, m.Labels ((cells.length + i) / notes.length)) ∧
        Outcome.runAll writeCell added (drawn notes m cells) =
          .done (drawn notes m (cells ++ added))) ∨
      ∃ k < added.length, ∃ e,
        m.label ((cells.length + k) / notes.length % m.length : Nat) = .error e ∧
        Outcome.runAll writeCell added (drawn notes m cells) =
          .stopped (drawn notes m (cells ++ added.take k)) (.label e) := by
  induction added generalizing cells with
  | nil => exact .inl ⟨fun i hi => absurd hi (Nat.not_lt_zero i), by rw [List.append_nil]; rfl⟩
  | cons cell added ih =>
    rw [Outcome.runAll_cons]
    cases hl : m.label (cells.length / notes.length % m.length : Nat) with
    | error e =>
      refine .inr ⟨0, Nat.succ_pos _, e, hl, ?_⟩
      rw [writeCell_drawn_of_error hn hl, Outcome.stopped_andThen, List.take_zero, List.append_nil]
    | ok l =>
      have hlen (i : Nat) : (cells ++ [cell]).length + i = cells.length + (i + 1) := by
        rw [List.length_append, List.length_singleton]
        omega
      rw [writeCell_drawn hn ⟨l, hl⟩, Outcome.done_andThen, List.append_cons cells cell added]
      rcases @ih (cells ++ [cell]) with ⟨hall, hrun⟩ | ⟨k, hk, e, he, hrun⟩
      · refine .inl ⟨fun i hi => ?_, hrun⟩
        cases i with
        | zero => exact ⟨l, hl⟩
        | succ i => exact hlen i ▸ hall i (Nat.lt_of_succ_lt_succ hi)
      · refine .inr ⟨k + 1, Nat.succ_lt_succ hk, e, hlen k ▸ he, ?_⟩
        rw [hrun, List.take_succ_cons, ← List.append_cons]

/-- A run of cells, if every step that it begins has a label. -/
theorem runAll_writeCell (hn : notes ≠ []) {added : List Cell}
    (h : m.Playable notes.length (cells.length + added.length)) :
    Outcome.runAll writeCell added (drawn notes m cells) =
      .done (drawn notes m (cells ++ added)) := by
  rcases runAll_writeCell_cases hn added with ⟨-, hrun⟩ | ⟨k, hk, e, he, -⟩
  · exact hrun
  · have hl := ((Meter.playable_add_iff (List.length_pos_of_ne_nil hn)).1 h).2 k hk
    obtain ⟨l, hl⟩ := hl
    rw [hl] at he
    cases he

/-- A run of cells that is not playable stops. -/
theorem runAll_writeCell_of_not (hn : notes ≠ []) {added : List Cell}
    (h₀ : m.Playable notes.length cells.length)
    (h : ¬ m.Playable notes.length (cells.length + added.length)) :
    ∃ k < added.length, ∃ e,
      m.label ((cells.length + k) / notes.length % m.length : Nat) = .error e ∧
      Outcome.runAll writeCell added (drawn notes m cells) =
        .stopped (drawn notes m (cells ++ added.take k)) (.label e) := by
  rcases runAll_writeCell_cases hn added with ⟨hall, -⟩ | hstop
  · exact absurd ((Meter.playable_add_iff (List.length_pos_of_ne_nil hn)).2 ⟨h₀, hall⟩) h
  · exact hstop

theorem runAll_writeCell_eq_done_iff (hn : notes ≠ []) {added : List Cell} {s : Staff}
    (h₀ : m.Playable notes.length cells.length) :
    Outcome.runAll writeCell added (drawn notes m cells) = .done s ↔
      m.Playable notes.length (cells.length + added.length) ∧
        s = drawn notes m (cells ++ added) := by
  by_cases h : m.Playable notes.length (cells.length + added.length)
  · rw [runAll_writeCell hn h, Outcome.done_inj, eq_comm]
    exact (and_iff_right h).symm
  · obtain ⟨k, -, e, -, hstop⟩ := runAll_writeCell_of_not hn h₀ h
    rw [hstop]
    exact iff_of_false (Outcome.done_ne_stopped _ _ _).symm fun hs => h hs.1

end Staff

end Tablature
