import Tablature.Proofs.Staff.Strokes
import Tablature.Score

/-!
# Plans of scores

A plan says what a score comes to if every cell can be written: the strings, the meter and the
cells of each staff. The score keeps to its plan as long as the plan is playable, that is, as long
as every step begun has a label.

* `addNote_score`, `setOptions_score`: notes and options blocks keep to the plan;
* `stroke_score`, `stroke_score_of_not`: strokes do, unless a step has no label;
* `IsPlayable.of_apply`: what comes later does not make a plan playable;
* `exists_text_score`: a playable plan has a text.
-/

namespace Tablature

/-- A staff of a plan. -/
structure Part where
  notes : List String
  meter : Meter
  cells : List Cell
  /-- Every staff is started by a note. -/
  notes_ne_nil : notes ≠ []

/-- The staffs of a plan, and the meter that the next one starts with. -/
structure Plan where
  newestFirst : List Part := []
  defaults : Meter := .common

namespace Part

/-- The part that a note starts. -/
def start (note : String) (m : Meter) : Part := ⟨[note], m, [], List.cons_ne_nil _ _⟩

def addNote (note : String) (p : Part) : Part :=
  { p with
    notes := p.notes ++ [note]
    notes_ne_nil := List.append_ne_nil_of_left_ne_nil p.notes_ne_nil _ }

def stroke (k : Staff.Stroke) (p : Part) : Part :=
  { p with cells := p.cells ++ k.cells p.notes.length p.cells.length }

/-- The staff as it is drawn. -/
def staff (p : Part) : Staff := Staff.drawn p.notes p.meter p.cells

/-- The resolution is not too large for the cells there are, and neither is the number of a beat
that they begin. -/
def IsPlayable (p : Part) : Prop :=
  (p.cells ≠ [] → p.meter.Fits) ∧
    ∀ step, step * p.notes.length < p.cells.length →
      p.meter.countedSteps ∣ step % p.meter.length →
        step % p.meter.length / p.meter.countedSteps + 1 < 10 ^ Numeral.digitLimit

theorem isPlayable_iff {p : Part} :
    p.IsPlayable ↔ p.meter.Playable p.notes.length p.cells.length := by
  constructor
  · intro ⟨hf, hb⟩ step hs
    have hne : p.cells ≠ [] := List.ne_nil_of_length_pos (Nat.zero_lt_of_lt hs)
    exact Meter.exists_label_iff.2 ⟨hf hne, hb step hs⟩
  · intro h
    refine ⟨fun hne => ?_, fun step hs => (Meter.exists_label_iff.1 (h step hs)).2⟩
    have hpos : 0 * p.notes.length < p.cells.length := by
      rw [Nat.zero_mul]
      exact List.length_pos_of_ne_nil hne
    exact (Meter.exists_label_iff.1 (h 0 hpos)).1

theorem isPlayable_of_cells_eq_nil {p : Part} (h : p.cells = []) : p.IsPlayable := by
  rw [isPlayable_iff, h]
  exact Meter.playable_zero _ _

theorem IsPlayable.of_stroke {p : Part} {k : Staff.Stroke} (h : (p.stroke k).IsPlayable) :
    p.IsPlayable := by
  rw [isPlayable_iff] at h ⊢
  exact h.mono (by simp [stroke])

theorem hasCells_staff (p : Part) : p.staff.hasCells = !p.cells.isEmpty := rfl

/-- A stroke is written on a part that stays playable. -/
theorem stroke_staff {p : Part} {k : Staff.Stroke} (h : (p.stroke k).IsPlayable) :
    p.staff.stroke k = .done (p.stroke k).staff := by
  rw [isPlayable_iff] at h
  rw [staff, Staff.stroke_drawn p.notes_ne_nil]
  exact Staff.runAll_writeCell p.notes_ne_nil (by rwa [stroke, List.length_append] at h)

/-- A stroke that begins a step without a label is not written to its end. -/
theorem stroke_staff_of_not {p : Part} {k : Staff.Stroke} (hp : p.IsPlayable)
    (h : ¬ (p.stroke k).IsPlayable) :
    ∃ s e, p.staff.stroke k = .stopped s (.label e) ∧
      (e = .resolutionOverflow ∨ e = .tooManyDigits) := by
  rw [isPlayable_iff] at hp h
  rw [stroke, List.length_append] at h
  obtain ⟨i, -, e, he, hstop⟩ := Staff.runAll_writeCell_of_not p.notes_ne_nil hp h
  rw [staff, Staff.stroke_drawn p.notes_ne_nil]
  exact ⟨_, e, hstop, Meter.eq_of_label_eq_error he⟩

end Part

namespace Plan

/-- The plan after an operation on the score. -/
def apply : Score.Command → Plan → Plan
  | .note note, ⟨[], defaults⟩ => ⟨[.start note defaults], defaults⟩
  | .note note, ⟨part :: earlier, defaults⟩ =>
    if part.cells = [] then ⟨part.addNote note :: earlier, defaults⟩
    else ⟨.start note defaults :: part :: earlier, defaults⟩
  | .stroke _, ⟨[], defaults⟩ => ⟨[], defaults⟩
  | .stroke k, ⟨part :: earlier, defaults⟩ => ⟨part.stroke k :: earlier, defaults⟩
  | .options block, p =>
    { p with defaults := (Setting.segments block).foldl Setting.applySegment p.defaults }

/-- Every part can be played. -/
def IsPlayable (p : Plan) : Prop := ∀ part ∈ p.newestFirst, part.IsPlayable

/-- The score with the staffs of the plan. -/
def score (p : Plan) : Score := ⟨p.newestFirst.map Part.staff, p.defaults⟩

theorem isPlayable_cons_iff {part : Part} {earlier : List Part} {defaults : Meter} :
    (⟨part :: earlier, defaults⟩ : Plan).IsPlayable ↔
      part.IsPlayable ∧ ∀ part ∈ earlier, part.IsPlayable := List.forall_mem_cons

/-- Only strokes can make a plan unplayable. -/
theorem IsPlayable.note {p : Plan} (h : p.IsPlayable) (note : String) :
    (p.apply (.note note)).IsPlayable := by
  obtain ⟨_ | ⟨part, earlier⟩, defaults⟩ := p
  · exact List.forall_mem_singleton.2 (Part.isPlayable_of_cells_eq_nil rfl)
  · rw [apply]
    split
    · rename_i hc
      exact isPlayable_cons_iff.2
        ⟨Part.isPlayable_of_cells_eq_nil hc, (isPlayable_cons_iff.1 h).2⟩
    · exact isPlayable_cons_iff.2 ⟨Part.isPlayable_of_cells_eq_nil rfl, h⟩

/-- No operation makes an unplayable plan playable. -/
theorem IsPlayable.of_apply {p : Plan} {c : Score.Command} (h : (p.apply c).IsPlayable) :
    p.IsPlayable := by
  obtain ⟨_ | ⟨part, earlier⟩, defaults⟩ := p
  · exact List.forall_mem_nil _
  · cases c with
    | note note =>
      rw [apply] at h
      split at h
      · rename_i hc
        exact isPlayable_cons_iff.2
          ⟨Part.isPlayable_of_cells_eq_nil hc, (isPlayable_cons_iff.1 h).2⟩
      · exact (isPlayable_cons_iff.1 h).2
    | stroke k =>
      have ⟨hpart, hearlier⟩ := isPlayable_cons_iff.1 h
      exact isPlayable_cons_iff.2 ⟨hpart.of_stroke, hearlier⟩
    | options block => exact h

/-- A note goes to the last staff, or starts a new one. -/
theorem addNote_score (p : Plan) (note : String) :
    p.score.addNote note = .done (p.apply (.note note)).score := by
  have hstart (m : Meter) :
      Staff.addNote note { clock := { meter := m } } = .done (Part.start note m).staff := by
    rw [← Staff.drawn_nil_nil]
    exact Staff.addNote_drawn_nil note
  obtain ⟨_ | ⟨part, earlier⟩, defaults⟩ := p
  · simp only [score, Score.addNote, Score.opensStaff, List.map_nil, if_true, Score.openStaff,
      Score.onCurrent, hstart, Outcome.map_done, apply, List.map_cons]
  · by_cases hc : part.cells = []
    · have hadd : Staff.addNote note part.staff = .done (part.addNote note).staff := by
        rw [Part.staff, Part.staff, Part.addNote, hc]
        exact Staff.addNote_drawn_nil note
      have hcells : part.staff.hasCells = false := by rw [Part.hasCells_staff, hc]; rfl
      rw [apply, if_pos hc]
      simp only [score, Score.addNote, Score.opensStaff, List.map_cons, hcells, Bool.false_eq_true,
        if_false, Score.onCurrent, hadd, Outcome.map_done]
    · have hcells : part.staff.hasCells = true := by simp [Part.hasCells_staff, hc]
      rw [apply, if_neg hc]
      simp only [score, Score.addNote, Score.opensStaff, List.map_cons, hcells, if_true,
        Score.openStaff, Score.onCurrent, hstart, Outcome.map_done]

theorem stroke_score {p : Plan} {k : Staff.Stroke} (h : (p.apply (.stroke k)).IsPlayable) :
    p.score.stroke k = .done (p.apply (.stroke k)).score := by
  obtain ⟨_ | ⟨part, earlier⟩, defaults⟩ := p
  · rfl
  · simp only [score, Score.stroke, List.map_cons, Score.onCurrent,
      Part.stroke_staff (isPlayable_cons_iff.1 h).1, Outcome.map_done, apply]

theorem stroke_score_of_not {p : Plan} {k : Staff.Stroke} (hp : p.IsPlayable)
    (h : ¬ (p.apply (.stroke k)).IsPlayable) :
    ∃ s e, p.score.stroke k = .stopped s (.label e) ∧
      (e = .resolutionOverflow ∨ e = .tooManyDigits) := by
  obtain ⟨_ | ⟨part, earlier⟩, defaults⟩ := p
  · exact absurd hp h
  · obtain ⟨hpart, hearlier⟩ := isPlayable_cons_iff.1 hp
    have hnot : ¬ (part.stroke k).IsPlayable := fun hk => h (isPlayable_cons_iff.2 ⟨hk, hearlier⟩)
    obtain ⟨s, e, hstop, he⟩ := Part.stroke_staff_of_not hpart hnot
    refine ⟨⟨s :: earlier.map Part.staff, defaults⟩, e, ?_, he⟩
    simp only [score, Score.stroke, List.map_cons, Score.onCurrent, hstop, Outcome.map_stopped,
      id_eq]

theorem setOptions_score (p : Plan) (block : String) :
    (p.score.setOptions block).state = (p.apply (.options block)).score := by
  rw [Score.setOptions, Outcome.map, Meter.state_configure]
  rfl

/-- A score whose cells have all been written has a text. -/
theorem exists_text_score {p : Plan} (h : p.IsPlayable) : ∃ text, p.score.text = .ok text := by
  have onto : ∀ (parts : List Part) (before : String), (∀ part ∈ parts, part.IsPlayable) →
      ∃ text, Score.textOnto before (parts.map Part.staff) = .ok text := by
    intro parts
    induction parts with
    | nil => exact fun before _ => ⟨before, rfl⟩
    | cons part parts ih =>
      intro before hp
      obtain ⟨hpart, hparts⟩ := List.forall_mem_cons.1 hp
      obtain ⟨count, -, htext⟩ := Staff.text_drawn part.notes_ne_nil (Part.isPlayable_iff.1 hpart)
      rw [List.map_cons, Score.textOnto, Part.staff, htext]
      exact ih _ hparts
  rw [Score.text, Score.staffs, score, ← List.map_reverse]
  exact onto _ "" fun part hpart => h part (List.mem_reverse.1 hpart)

end Plan

end Tablature
