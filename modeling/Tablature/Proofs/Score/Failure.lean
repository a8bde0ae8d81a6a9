import Tablature.Proofs.Score.History

/-!
# Operations that fail

Spreads are written cell by cell, and still all of their cells are written or none, if a staff
refuses a change or the resolution of its meter is too large for a double. Only a beat whose number
has too many digits stops a spread half way.

* `unchanged_of_fault`: what such a failure leaves behind, on a staff and in a score.
-/

namespace Tablature

namespace Score

/-- If an operation leaves the last staff as it was, then also the score. -/
theorem state_onCurrent {f : Staff → Outcome Staff.Fault Staff} {s : Score} {e : Staff.Fault}
    (hf : ∀ staff, (f staff).fault = some e → (f staff).state = staff)
    (h : (s.onCurrent f).fault = some e) : (s.onCurrent f).state = s := by
  obtain ⟨_ | ⟨staff, earlier⟩, defaults⟩ := s
  · rfl
  · have hstate := hf staff (by simpa [onCurrent, Outcome.map] using h)
    simp only [onCurrent, Outcome.map, hstate]

theorem state_apply_of_staff {s : Score} {c : Command} {e : Staff.Fault}
    (h : (s.apply c).fault = some (.staff e)) (he : e ≠ .label .tooManyDigits) :
    (s.apply c).state = s := by
  cases c with
  | note name =>
    obtain ⟨e', hfault, -⟩ := Option.map_eq_some_iff.1 h
    exact absurd ((addNote_changes s name).1.symm.trans hfault) nofun
  | stroke k =>
    obtain ⟨e', hfault, heq⟩ := Option.map_eq_some_iff.1 h
    cases heq
    exact state_onCurrent (fun staff hs => Staff.state_stroke_of_fault hs he) hfault
  | options block =>
    obtain ⟨e', -, heq⟩ := Option.map_eq_some_iff.1 h
    cases heq

end Score

/-- In whatever state a staff is, and whatever has been done to its clock: an operation that fails
leaves all of it as it was, unless a beat has a number with too many digits. A failure of this kind
leaves a score as it was, too. -/
theorem unchanged_of_fault :
    (∀ (s : Staff) (c : Staff.Command) (e : Staff.Fault),
      (Staff.apply c s).fault = some e → e ≠ .label .tooManyDigits → (Staff.apply c s).state = s) ∧
    ∀ (s : Score) (c : Score.Command) (e : Staff.Fault),
      (s.apply c).fault = some (.staff e) → e ≠ .label .tooManyDigits → (s.apply c).state = s :=
  ⟨fun _ _ _ => Staff.state_apply_of_fault, fun _ _ _ => Score.state_apply_of_staff⟩

/-- Two strings, a cell on the first of them, and a clock that was then set to a resolution that is
no double: a note is refused, and neither a spread on the staff nor one in the score changes it. -/
theorem unchanged_of_fault_of_one_cell :
    let clock : Clock := { meter := Meter.common.setFidelity (2 ^ 1026) }
    let s : Staff := ⟨["E", "A"], ["", "|-3-"], clock, true, 0⟩
    let score : Score := ⟨[s], .common⟩
    ((Staff.apply (.addNote "D") s).fault = some (.locked .notes) ∧
        (Staff.apply (.addNote "D") s).state = s) ∧
      ((Staff.apply (.stroke (.spreadNext 3)) s).fault = some (.label .resolutionOverflow) ∧
        (Staff.apply (.stroke (.spreadNext 3)) s).state = s) ∧
      (score.apply (.stroke (.spreadEmpty 5))).fault = some (.staff (.label .resolutionOverflow)) ∧
        (score.apply (.stroke (.spreadEmpty 5))).state = score := by
  intro clock s score
  have hnote : (Staff.apply (.addNote "D") s).fault = some (.locked .notes) := rfl
  have hstroke : (Staff.apply (.stroke (.spreadNext 3)) s).fault =
      some (.label .resolutionOverflow) := by decide +kernel
  have hscore : (score.apply (.stroke (.spreadEmpty 5))).fault =
      some (.staff (.label .resolutionOverflow)) := by decide +kernel
  exact ⟨⟨hnote, unchanged_of_fault.1 s _ _ hnote (by decide)⟩,
    ⟨hstroke, unchanged_of_fault.1 s _ _ hstroke (by decide)⟩,
    hscore, unchanged_of_fault.2 score _ _ hscore (by decide)⟩

end Tablature
