import Tablature.Proofs.Staff.Strokes

/-!
# Runs of any operations

Operations may come in any order: strokes on a staff without strings write nothing, and a setup
behind the first cell is refused. A run that nothing stopped has therefore declared its strings
and set its meter first, and then written its cells.

* `eq_drawn_of_runAll`: the staff after a run that nothing stopped;
* `mem_of_mem_written`: the frets among its cells are those of the operations.
-/

namespace Tablature.Staff

/-- The cells that operations write, behind `k` cells on `n` strings. Without strings there are
none. -/
def written : (n k : Nat) → List Command → List Cell
  | _, _, [] => []
  | n, k, .addNote _ :: commands => written (n + 1) k commands
  | n, k, .setSignature _ _ :: commands => written n k commands
  | n, k, .setFidelity _ :: commands => written n k commands
  | n, k, .stroke s :: commands =>
    if n = 0 then written n k commands
    else s.cells n k ++ written n (k + (s.cells n k).length) commands

variable {notes : List String} {m : Meter} {cells : List Cell} {s : Staff}

theorem stroke_of_notes_eq_nil (h : s.notes = []) (k : Stroke) : stroke k s = .done s := by
  cases k with
  | fret f => exact writeCell_of_notes_eq_nil h _
  | empty => exact writeCell_of_notes_eq_nil h _
  | next => rw [stroke, finishStep, if_pos h]
  | spreadEmpty count => rw [stroke, if_pos h]
  | spreadNext count => rw [stroke, if_pos h]

theorem setup_drawn_of_ne_nil (h : cells ≠ []) (what : Setup) (change : Staff → Staff) :
    setup what change (drawn notes m cells) = .stopped (drawn notes m cells) (.locked what) := by
  have hc : (drawn notes m cells).hasCells = true := by simp [drawn, h]
  rw [setup, if_pos hc]

/-- A setup that is not refused comes before the first cell. -/
theorem cells_eq_nil_of_setup {what : Setup} {change : Staff → Staff}
    {f : Staff → Outcome Fault Staff}
    (h : (setup what change (drawn notes m cells)).andThen f = .done s) : cells = [] := by
  by_contra hc
  rw [setup_drawn_of_ne_nil hc, Outcome.stopped_andThen] at h
  exact Outcome.done_ne_stopped _ _ _ h.symm

/-- A stroke that nothing stops writes all of its cells, at steps that have labels. -/
theorem done_of_stroke_andThen {k : Stroke} {f : Staff → Outcome Fault Staff} (hnil : notes ≠ [])
    (hp : m.Playable notes.length cells.length)
    (h : (stroke k (drawn notes m cells)).andThen f = .done s) :
    let cells' := cells ++ k.cells notes.length cells.length
    m.Playable notes.length cells'.length ∧ f (drawn notes m cells') = .done s := by
  rw [stroke_drawn hnil] at h
  rcases runAll_writeCell_cases hnil (k.cells notes.length cells.length) with
    ⟨hall, hrun⟩ | ⟨i, -, e, -, hrun⟩
  · rw [hrun, Outcome.done_andThen] at h
    refine ⟨?_, h⟩
    rw [List.length_append]
    exact (Meter.playable_add_iff (List.length_pos_of_ne_nil hnil)).2 ⟨hp, hall⟩
  · rw [hrun, Outcome.stopped_andThen] at h
    exact absurd h.symm (Outcome.done_ne_stopped _ _ _)

/-- What operations leave behind that nothing stopped. -/
theorem runAll_apply_drawn {commands : List Command} (hn : notes = [] → cells = [])
    (hp : m.Playable notes.length cells.length)
    (h : Outcome.runAll apply commands (drawn notes m cells) = .done s) :
    let notes' := notes ++ commands.filterMap Command.note?
    let m' := commands.foldl Command.onMeter m
    let cells' := cells ++ written notes.length cells.length commands
    s = drawn notes' m' cells' ∧ m'.Playable notes'.length cells'.length := by
  induction commands generalizing notes m cells with
  | nil =>
    simp only [List.filterMap_nil, written, List.append_nil, List.foldl_nil]
    exact ⟨(Outcome.done_inj.1 h).symm, hp⟩
  | cons c commands ih =>
    rw [Outcome.runAll_cons] at h
    cases c with
    | addNote note =>
      obtain rfl := cells_eq_nil_of_setup h
      rw [apply, addNote_drawn_nil, Outcome.done_andThen] at h
      have ih := ih (fun _ => rfl) (Meter.playable_zero _ _) h
      rwa [← List.append_cons, List.length_append] at ih
    | setSignature beats dominant =>
      obtain rfl := cells_eq_nil_of_setup h
      rw [apply, setSignature_drawn_nil, Outcome.done_andThen] at h
      exact ih (fun _ => rfl) (Meter.playable_zero _ _) h
    | setFidelity fidelity =>
      obtain rfl := cells_eq_nil_of_setup h
      rw [apply, setFidelity_drawn_nil, Outcome.done_andThen] at h
      exact ih (fun _ => rfl) (Meter.playable_zero _ _) h
    | stroke k =>
      by_cases hnil : notes = []
      · rw [apply, stroke_of_notes_eq_nil hnil, Outcome.done_andThen] at h
        have hw : written notes.length cells.length (.stroke k :: commands) =
            written notes.length cells.length commands := by rw [written, if_pos (by simp [hnil])]
        rw [hw]
        exact ih hn hp h
      · have hw : written notes.length cells.length (.stroke k :: commands) =
            k.cells notes.length cells.length ++ written notes.length
              (cells.length + (k.cells notes.length cells.length).length) commands := by
          rw [written, if_neg (by simpa using hnil)]
        obtain ⟨hp', hrest⟩ := done_of_stroke_andThen hnil hp h
        have ih := ih (fun hnil' => absurd hnil' hnil) hp' hrest
        rwa [List.append_assoc, List.length_append, ← hw] at ih

/-- The staff after a run on a new one that nothing stopped. -/
theorem eq_drawn_of_runAll {m : Meter} {commands : List Command}
    (h : Outcome.runAll apply commands { clock := { meter := m } } = .done s) :
    let cells := written 0 0 commands
    s = drawn s.notes s.clock.meter cells ∧ s.clock.meter.Playable s.notes.length cells.length := by
  rw [← drawn_nil_nil] at h
  obtain ⟨rfl, hp⟩ := runAll_apply_drawn (fun _ => rfl) (Meter.playable_zero _ _) h
  exact ⟨rfl, hp⟩

/-! ## The cells of a run -/

theorem eq_empty_of_mem_stepCells {n k count : Nat} {cell : Cell}
    (h : cell ∈ stepCells n k count) : cell = .empty := by
  induction count generalizing k with
  | zero => cases h
  | succ count ih =>
    rw [stepCells, List.mem_append] at h
    exact h.elim List.eq_of_mem_replicate ih

theorem Stroke.eq_fret_of_mem_cells {n k : Nat} {stroke : Stroke} {f : String}
    (h : .fret f ∈ stroke.cells n k) : stroke = .fret f := by
  cases stroke with
  | fret g => cases List.mem_singleton.1 h; rfl
  | empty => cases List.mem_singleton.1 h
  | next => cases List.eq_of_mem_replicate h
  | spreadEmpty count => cases List.eq_of_mem_replicate h
  | spreadNext count => cases eq_empty_of_mem_stepCells h

/-- The frets among the cells are the frets of the operations. -/
theorem mem_of_mem_written {n k : Nat} {commands : List Command} {f : String}
    (h : .fret f ∈ written n k commands) : .stroke (.fret f) ∈ commands := by
  induction commands generalizing n k with
  | nil => cases h
  | cons c commands ih =>
    refine List.mem_cons.2 ?_
    cases c with
    | stroke s =>
      rw [written] at h
      split at h
      · exact .inr (ih h)
      · rcases List.mem_append.1 h with h | h
        · exact .inl (congrArg Command.stroke (Stroke.eq_fret_of_mem_cells h).symm)
        · exact .inr (ih h)
    | addNote _ => exact .inr (ih h)
    | setSignature _ _ => exact .inr (ih h)
    | setFidelity _ => exact .inr (ih h)

end Tablature.Staff
