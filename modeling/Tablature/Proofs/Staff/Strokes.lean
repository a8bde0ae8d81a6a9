import Tablature.Proofs.Staff.Drawn

/-!
# The closed form of a staff

What a staff shows is a function of the strings declared, the meter set and the cells that its
strokes write, one after the other.

* `runAll_stroke`: strokes write their cells;
* `runAll_setup`: before the first cell, a staff takes strings, signatures and fidelities;
* `rows_and_text_of_runAll`: the rows and the text of a staff after a run that nothing stopped.
-/

namespace Tablature.Staff

/-! ## Cells of strokes -/

/-- The cells that finish the step, `count` times over, on `n` strings after `k` cells. -/
def stepCells (n : Nat) : (k count : Nat) → List Cell
  | _, 0 => []
  | k, count + 1 => List.replicate (n - k % n) .empty ++ stepCells n (k + (n - k % n)) count

/-- The cells of a stroke, on `n` strings after `k` cells. -/
def Stroke.cells (n k : Nat) : Stroke → List Cell
  | .fret f => [.fret f]
  | .empty => [.empty]
  | .next => List.replicate (n - k % n) .empty
  | .spreadEmpty count => List.replicate count.toNat .empty
  | .spreadNext count => stepCells n k count.toNat

/-- The cells of strokes, on `n` strings after `k` cells. -/
def cellsFrom (n : Nat) : Nat → List Stroke → List Cell
  | _, [] => []
  | k, stroke :: strokes =>
    stroke.cells n k ++ cellsFrom n (k + (stroke.cells n k).length) strokes

variable {notes : List String} {m : Meter} {cells : List Cell}

/-- What comes behind cells starts on the staff with these cells, or does not come at all. -/
theorem andThen_congr (hn : notes ≠ []) {added : List Cell} {f g : Staff → Outcome Fault Staff}
    (h : f (drawn notes m (cells ++ added)) = g (drawn notes m (cells ++ added))) :
    (Outcome.runAll writeCell added (drawn notes m cells)).andThen f =
      (Outcome.runAll writeCell added (drawn notes m cells)).andThen g := by
  rcases runAll_writeCell_cases hn added with ⟨-, hrun⟩ | ⟨k, -, e, -, hrun⟩
  · rw [hrun, Outcome.done_andThen, Outcome.done_andThen, h]
  · rw [hrun, Outcome.stopped_andThen, Outcome.stopped_andThen]

theorem finishStep_drawn (hn : notes ≠ []) :
    finishStep (drawn notes m cells) =
      Outcome.runAll writeCell (List.replicate (notes.length - cells.length % notes.length) .empty)
        (drawn notes m cells) := by
  have hr := Nat.mod_lt cells.length (List.length_pos_of_ne_nil hn)
  have hcursor : (drawn notes m cells).cursor + 1 =
      notes.length - cells.length % notes.length := by
    show notes.length - 1 - cells.length % notes.length + 1 = _
    omega
  rw [finishStep, notes_drawn, if_neg hn, hcursor, Outcome.iterate_eq_runAll]

theorem iterate_finishStep_drawn (hn : notes ≠ []) (count : Nat) :
    Outcome.iterate finishStep count (drawn notes m cells) =
      Outcome.runAll writeCell (stepCells notes.length cells.length count)
        (drawn notes m cells) := by
  induction count generalizing cells with
  | zero => rfl
  | succ count ih =>
    rw [Outcome.iterate_succ, finishStep_drawn hn, stepCells, Outcome.runAll_append]
    refine andThen_congr hn ?_
    rw [ih, List.length_append, List.length_replicate]

/-- A stroke writes its cells, one after the other. -/
theorem stroke_drawn (hn : notes ≠ []) (k : Stroke) :
    stroke k (drawn notes m cells) =
      Outcome.runAll writeCell (k.cells notes.length cells.length) (drawn notes m cells) := by
  have hone (cell : Cell) : Outcome.runAll writeCell [cell] (drawn notes m cells) =
      writeCell cell (drawn notes m cells) := by
    rw [Outcome.runAll_cons]
    rcases writeCell cell (drawn notes m cells) with ⟨s, _ | e⟩ <;> rfl
  cases k with
  | fret f => exact (hone _).symm
  | empty => exact (hone _).symm
  | next => exact finishStep_drawn hn
  | spreadEmpty count =>
    rw [stroke, notes_drawn, if_neg hn, Outcome.iterate_eq_runAll]
    rfl
  | spreadNext count =>
    rw [stroke, notes_drawn, if_neg hn, iterate_finishStep_drawn hn]
    rfl

/-- A run of strokes is a run of their cells. -/
theorem runAll_stroke (hn : notes ≠ []) (strokes : List Stroke) :
    Outcome.runAll stroke strokes (drawn notes m cells) =
      Outcome.runAll writeCell (cellsFrom notes.length cells.length strokes)
        (drawn notes m cells) := by
  induction strokes generalizing cells with
  | nil => rfl
  | cons k strokes ih =>
    rw [Outcome.runAll_cons, stroke_drawn hn, cellsFrom, Outcome.runAll_append]
    refine andThen_congr hn ?_
    rw [ih, List.length_append]

/-! ## Runs -/

/-- The name of the string that an operation declares. -/
def Command.note? : Command → Option String
  | .addNote note => some note
  | _ => none

/-- A meter after an operation, on a staff without cells. -/
def Command.onMeter (m : Meter) : Command → Meter
  | .setSignature beats dominant => m.setSignature beats dominant
  | .setFidelity fidelity => m.setFidelity fidelity
  | _ => m

/-- Before the first cell, a staff takes all strings, signatures and fidelities. -/
theorem runAll_setup {setup : List Command} (hs : ∀ c ∈ setup, ∀ k, c ≠ .stroke k) :
    Outcome.runAll apply setup (drawn notes m []) =
      .done
        (drawn (notes ++ setup.filterMap Command.note?) (setup.foldl Command.onMeter m) []) := by
  induction setup generalizing notes m with
  | nil => rw [List.filterMap_nil, List.append_nil]; rfl
  | cons c setup ih =>
    have hs' : ∀ c ∈ setup, ∀ k, c ≠ .stroke k := fun c hc => hs c (List.mem_cons_of_mem _ hc)
    rw [Outcome.runAll_cons]
    cases c with
    | addNote note =>
      rw [apply, addNote_drawn_nil, Outcome.done_andThen, ih hs', ← List.append_cons]
      rfl
    | setSignature beats dominant =>
      rw [apply, setSignature_drawn_nil, Outcome.done_andThen, ih hs']
      rfl
    | setFidelity fidelity =>
      rw [apply, setFidelity_drawn_nil, Outcome.done_andThen, ih hs']
      rfl
    | stroke k => exact absurd rfl (hs _ List.mem_cons_self k)

/-- The count line of steps that all have labels. -/
theorem exists_countLineFrom (m : Meter) (line : String) (step : Nat) {n : Nat}
    (h : ∀ i < n, m.Labels (step + i)) :
    ∃ count, Clock.countLineFrom m line step n = .ok count := by
  induction n generalizing line step with
  | zero => exact ⟨line, rfl⟩
  | succ n ih =>
    obtain ⟨l, hl⟩ := h 0 (Nat.succ_pos n)
    rw [Nat.add_zero, Int.natCast_mod] at hl
    rw [Clock.countLineFrom, hl]
    refine ih _ _ fun i hi => ?_
    rw [Nat.add_assoc, Nat.add_comm 1]
    exact h (i + 1) (Nat.succ_lt_succ hi)

/-- The text of a staff: the rows, named from the last string to the first, and the count line. -/
theorem text_drawn_of_count {count : String} (hc : (drawn notes m cells).clock.text = .ok count) :
    (drawn notes m cells).text = .ok (String.join ((List.range notes.length).map fun i =>
      line (notes.getD (notes.length - 1 - i) "") (rowOf m.length notes.length cells i)) ++
      "\n" ++ count ++ "\n") := by
  rw [text, hc]
  have hlines : List.zipWith line notes.reverse (drawn notes m cells).rows =
      (List.range notes.length).map fun i =>
        line (notes.getD (notes.length - 1 - i) "") (rowOf m.length notes.length cells i) := by
    refine List.ext_getElem (by simp [drawn]) fun i h₁ h₂ => ?_
    have hi : i < notes.length := by simpa using h₂
    simp only [drawn, List.getElem_zipWith, List.getElem_reverse, List.getElem_map,
      List.getElem_range, List.getD_eq_getElem?_getD]
    rw [List.getElem?_eq_getElem (by omega), Option.getD_some]
  show Except.ok (String.join (List.zipWith line notes.reverse _) ++ _ ++ _ ++ _) = _
  rw [hlines]

/-- A staff whose steps all have labels has a text. -/
theorem text_drawn (hn : notes ≠ []) (h : m.Playable notes.length cells.length) :
    ∃ count, (drawn notes m cells).clock.text = .ok count ∧
      (drawn notes m cells).text = .ok (String.join ((List.range notes.length).map fun i =>
        line (notes.getD (notes.length - 1 - i) "") (rowOf m.length notes.length cells i)) ++
        "\n" ++ count ++ "\n") := by
  obtain ⟨count, hc⟩ : ∃ count, (drawn notes m cells).clock.text = .ok count := by
    refine exists_countLineFrom m _ 0 fun i (hi : i < cells.length / notes.length) => ?_
    rw [Nat.zero_add]
    have hstep := Nat.mul_lt_mul_of_pos_right hi (List.length_pos_of_ne_nil hn)
    exact h i (hstep.trans_le (Nat.div_mul_le_self _ _))
  exact ⟨count, hc, text_drawn_of_count hc⟩

/-- A run on a new staff is a run of the cells that its strokes write. -/
theorem runAll_setup_strokes {m : Meter} {setup : List Command} (strokes : List Stroke)
    (hs : ∀ c ∈ setup, ∀ k, c ≠ .stroke k) (hn : setup.filterMap Command.note? ≠ []) :
    Outcome.runAll apply (setup ++ strokes.map .stroke) { clock := { meter := m } } =
      Outcome.runAll writeCell (cellsFrom (setup.filterMap Command.note?).length 0 strokes)
        (drawn (setup.filterMap Command.note?) (setup.foldl Command.onMeter m) []) := by
  rw [← drawn_nil_nil, Outcome.runAll_append, runAll_setup hs, Outcome.done_andThen,
    List.nil_append, Outcome.runAll_map]
  exact runAll_stroke hn strokes

/-- Nothing stops a run in a meter that has a label for each step of its measure. -/
theorem exists_runAll_eq_done {m : Meter} {setup : List Command} (strokes : List Stroke)
    (hs : ∀ c ∈ setup, ∀ k, c ≠ .stroke k) (hn : setup.filterMap Command.note? ≠ [])
    (hm : (setup.foldl Command.onMeter m).Labelled) :
    ∃ s, Outcome.runAll apply (setup ++ strokes.map .stroke) { clock := { meter := m } } =
      .done s := by
  rw [runAll_setup_strokes strokes hs hn]
  exact ⟨_, runAll_writeCell hn fun step _ => hm.labels step⟩

/-- The rows and the text of a staff after a run that nothing stopped: with `n` strings declared
first, and the cells that the strokes write then, the string declared as number `j` has its name
and its row in the line with index `n - 1 - j`. -/
theorem rows_and_text_of_runAll {m : Meter} {setup : List Command} {strokes : List Stroke}
    {s : Staff} (hs : ∀ c ∈ setup, ∀ k, c ≠ .stroke k) (hn : setup.filterMap Command.note? ≠ [])
    (h : Outcome.runAll apply (setup ++ strokes.map .stroke) { clock := { meter := m } } =
      .done s) :
    let notes := setup.filterMap Command.note?
    let n := notes.length
    let row := rowOf (setup.foldl Command.onMeter m).length n (cellsFrom n 0 strokes)
    s.notes = notes ∧ s.rows = (List.range n).map row ∧
      ∃ count, s.clock.text = .ok count ∧
        s.text = .ok (String.join ((List.range n).map fun i =>
          line (notes.getD (n - 1 - i) "") (row i)) ++ "\n" ++ count ++ "\n") := by
  intro notes n row
  have hrun := (runAll_setup_strokes strokes hs hn).symm.trans h
  obtain ⟨hplay, rfl⟩ := (runAll_writeCell_eq_done_iff hn (Meter.playable_zero _ _)).1 hrun
  rw [List.length_nil, Nat.zero_add] at hplay
  exact ⟨rfl, rfl, text_drawn hn hplay⟩

/-- Two strings and five strokes, in a measure of two steps. -/
theorem rows_and_text_of_two_strings :
    ∃ s, Outcome.runAll apply
        ([.addNote "E", .addNote "A", .setSignature 2 4, .setFidelity 4] ++
          [.fret "3", .next, .spreadEmpty 1, .spreadNext 1, .fret "12"].map .stroke)
        { clock := { meter := .common } } = .done s ∧
      s.rows = ["|------", "|-3----|-12"] ∧
      ∃ count, s.text = .ok ("A  |------\nE  |-3----|-12\n\n" ++ count ++ "\n") := by
  have hs : ∀ c ∈ [Command.addNote "E", .addNote "A", .setSignature 2 4, .setFidelity 4],
      ∀ k, c ≠ .stroke k := by simp
  have hn : [Command.addNote "E", .addNote "A", .setSignature 2 4, .setFidelity 4].filterMap
      Command.note? ≠ [] := by decide
  obtain ⟨s, hrun⟩ := exists_runAll_eq_done (m := .common)
    [.fret "3", .next, .spreadEmpty 1, .spreadNext 1, .fret "12"] hs hn
    (Meter.labelled_of_lt (by unfold Meter.Fits; decide +kernel) (by decide +kernel))
  obtain ⟨-, hrows, count, -, htext⟩ := rows_and_text_of_runAll hs hn hrun
  exact ⟨s, hrun, hrows.trans (by decide +kernel), count, htext.trans
    (congrArg (fun lines => Except.ok (lines ++ count ++ "\n")) (by decide +kernel))⟩

end Tablature.Staff
