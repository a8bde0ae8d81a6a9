import Tablature.Clock
import Tablature.Proofs.Meter.Label

/-!
# The labels of a clock

A clock may be started with any numbers and changed to any others, and may be asked for the label
of any position, also one before the measure.

* `label_after`: the answer, and when there is none.
-/

namespace Tablature.Clock

/-- The clock that changes make of a new one with the given numbers. -/
def after (beats dominant fidelity : Int) (commands : List Command) : Clock :=
  commands.foldl (fun k c => k.apply c) (ofNumbers beats dominant fidelity)

/-- Whatever numbers a clock was given, nothing is divided by zero for the label of a position, and
no part of a beat is too large for a double. There is no label in two cases only: the resolution is
rounded to more than the largest double, or else the position is on a beat whose number has too
many digits. -/
theorem label_after (beats dominant fidelity : Int) (commands : List Command) (p : Int) :
    let m := (after beats dominant fidelity commands).meter
    m.dominant ≠ 0 ∧ m.countedSteps ≠ 0 ∧
      m.label p ≠ .error .zeroResolution ∧ m.label p ≠ .error .partOverflow ∧
      (m.label p = .error .resolutionOverflow ↔ Binary64.largest < m.resolution) ∧
      (m.label p = .error .tooManyDigits ↔
        m.resolution ≤ Binary64.largest ∧ m.IsOverlong p) ∧
      ((∃ l, m.label p = .ok l) ↔ m.resolution ≤ Binary64.largest ∧ ¬ m.IsOverlong p) := by
  intro m
  rw [← not_le, ← Meter.fits_iff_resolution_le]
  refine ⟨m.dominant_pos.ne', m.countedSteps_pos.ne', ?_⟩
  rcases m.label_cases p with ⟨hf, hl⟩ | ⟨hf, ho, hl⟩ | ⟨hf, ho, l, hl⟩
  · simp [hl, hf]
  · simp [hl, hf, ho]
  · simp [hl, hf, ho]

/-- A resolution that is zero as a double: every position is on a beat. -/
example : (after 4 (2 ^ 1080) 1 []).meter.label (-3) = .ok "-2" := by decide +kernel

end Tablature.Clock
