import Tablature.Score

/-!
# Scores behind others

Once a staff has been left, nothing depends on it any more. A score does the same with other staffs
in front of its own, and its text comes behind theirs.

* `addNote_behind`, `stroke_behind`, `setOptions_behind`: operations with staffs in front;
* `text_behind`: the text with staffs in front.
-/

namespace Tablature.Score

/-- The score with staffs in front of its own. -/
def behind (earlier : List Staff) (s : Score) : Score := ⟨s.newestFirst ++ earlier, s.defaults⟩

variable {s : Score} {earlier : List Staff}

theorem opensStaff_iff : s.opensStaff = true ↔ ∀ staff ∈ s.current?, staff.hasCells = true := by
  obtain ⟨_ | ⟨staff, earlier⟩, defaults⟩ := s
  · simp [opensStaff, current?]
  · simp [opensStaff, current?]

/-- Staffs in front do not matter to a score with a staff. -/
theorem opensStaff_behind (h : s.newestFirst ≠ []) (earlier : List Staff) :
    (s.behind earlier).opensStaff = s.opensStaff := by
  obtain ⟨_ | ⟨staff, later⟩, defaults⟩ := s
  · exact absurd rfl h
  · rfl

/-! ## Operations -/

/-- A score that a note has prepared has a staff. -/
theorem newestFirst_openStaff_ne_nil (s : Score) :
    (if s.opensStaff then s.openStaff else s).newestFirst ≠ [] := by
  split
  · exact List.cons_ne_nil _ _
  · rename_i hopens
    intro hnil
    simp [opensStaff, hnil] at hopens

variable (f : Staff → Outcome Staff.Fault Staff)

theorem newestFirst_onCurrent_ne_nil (h : s.newestFirst ≠ []) :
    (onCurrent f s).state.newestFirst ≠ [] := by
  obtain ⟨_ | ⟨staff, later⟩, defaults⟩ := s
  · exact absurd rfl h
  · exact List.cons_ne_nil _ _

theorem defaults_onCurrent (s : Score) : (onCurrent f s).state.defaults = s.defaults := by
  obtain ⟨_ | ⟨staff, later⟩, defaults⟩ := s <;> rfl

theorem onCurrent_behind (h : s.newestFirst ≠ []) (earlier : List Staff) :
    onCurrent f (s.behind earlier) = (onCurrent f s).map (behind earlier) id := by
  obtain ⟨_ | ⟨staff, later⟩, defaults⟩ := s
  · exact absurd rfl h
  · simp [onCurrent, behind, Outcome.map]

theorem stroke_behind (k : Staff.Stroke) (h : s.newestFirst ≠ []) (earlier : List Staff) :
    (s.behind earlier).stroke k = (s.stroke k).map (behind earlier) id :=
  onCurrent_behind _ h earlier

/-- A note does the same with staffs in front, if they do not decide whether it starts a staff. -/
theorem addNote_behind (name : String) (h : (s.behind earlier).opensStaff = s.opensStaff) :
    (s.behind earlier).addNote name = (s.addNote name).map (behind earlier) id := by
  have hopen : (if s.opensStaff then (s.behind earlier).openStaff else s.behind earlier) =
      (if s.opensStaff then s.openStaff else s).behind earlier := by
    split <;> rfl
  rw [addNote, addNote, h, hopen]
  exact onCurrent_behind _ (newestFirst_openStaff_ne_nil s) earlier

theorem newestFirst_addNote_ne_nil (s : Score) (name : String) :
    (s.addNote name).state.newestFirst ≠ [] :=
  newestFirst_onCurrent_ne_nil _ (newestFirst_openStaff_ne_nil s)

theorem defaults_addNote (s : Score) (name : String) :
    (s.addNote name).state.defaults = s.defaults := by
  rw [addNote, defaults_onCurrent]
  split <;> rfl

theorem setOptions_behind (block : String) (s : Score) (earlier : List Staff) :
    (s.behind earlier).setOptions block = (s.setOptions block).map (behind earlier) id := by
  simp [setOptions, behind, Outcome.map]

/-! ## Texts -/

theorem textOnto_eq_map (before : String) (staffs : List Staff) :
    textOnto before staffs = (textOnto "" staffs).map (before ++ ·) := by
  induction staffs generalizing before with
  | nil => simp [textOnto, Except.map]
  | cons staff staffs ih =>
    rw [textOnto, textOnto]
    cases staff.text with
    | error e => rfl
    | ok text =>
      show textOnto _ _ = (textOnto _ _).map _
      rw [ih (before ++ _), ih ("" ++ _)]
      cases textOnto "" staffs with
      | error e => rfl
      | ok later => simp [Except.map, String.append_assoc]

theorem textOnto_append {before between : String} {staffs : List Staff}
    (h : textOnto before staffs = .ok between) (later : List Staff) :
    textOnto before (staffs ++ later) = textOnto between later := by
  induction staffs generalizing before with
  | nil =>
    cases h
    rfl
  | cons staff staffs ih =>
    rw [List.cons_append]
    rw [textOnto] at h ⊢
    cases ht : staff.text with
    | error e =>
      rw [ht] at h
      cases h
    | ok text =>
      rw [ht] at h
      exact ih h

/-- The text of the staffs in front comes in front. -/
theorem text_behind {defaults : Meter} {before : String}
    (h : (⟨earlier, defaults⟩ : Score).text = .ok before) (s : Score) :
    (s.behind earlier).text = s.text.map (before ++ ·) := by
  rw [text, staffs, behind, List.reverse_append]
  exact (textOnto_append h _).trans (textOnto_eq_map before _)

end Tablature.Score
