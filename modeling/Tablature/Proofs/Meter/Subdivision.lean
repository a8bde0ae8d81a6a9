import Mathlib.Tactic.Zify
import Tablature.Proofs.Binary64.Fraction
import Tablature.Proofs.Meter.Steps

/-!
# The labels between two beats

The label of a step is found with two roundings, of the resolution and of the fraction of a beat.
For fidelities below `2 ^ 50` neither makes a difference: the labels are those of the exact
fractions.

* `keepsSteps_of_lt`: the labels are counted in the exact steps of a beat;
* `label_eq_subdivision`: the label of every step.
-/

namespace Tablature.Meter

open Binary64

/-! ## Between two beats -/

/-- The label of the step that lies `part` steps behind a beat: a quarter, a half and three quarters
of the beat have one of their own. -/
def subdivision (m : Meter) (part : Int) : String :=
  if 4 * part * m.dominant = m.fidelity then "e"
  else if 2 * part * m.dominant = m.fidelity then "&"
  else if 4 * part * m.dominant = 3 * m.fidelity then "a"
  else "."

theorem keepsSteps_of_lt {m : Meter} (h : m.fidelity < 2 ^ 50) : m.KeepsSteps := by
  have hle : m.fidelity / m.dominant ≤ m.fidelity := Nat.div_le_self _ _
  rw [KeepsSteps, if_pos (by omega)]
  rcases Nat.eq_zero_or_pos (m.fidelity / m.dominant) with h₀ | hpos
  · exact .inl h₀
  · -- already the smallest gap is wide enough
    have hlog := Nat.log2_self_le hpos.ne'
    have hlog₅₃ : (m.fidelity / m.dominant).log2 ≤ 53 := by
      have := (Nat.log2_lt hpos.ne').2 (show m.fidelity / m.dominant < 2 ^ 53 by omega)
      omega
    have hmul : 2 ^ (m.fidelity / m.dominant).log2 * m.dominant < 2 ^ 53 := by
      have := Nat.mul_le_mul_right m.dominant hlog
      have := Nat.div_mul_le_self m.fidelity m.dominant
      omega
    have hlt : m.dominant < 2 ^ (53 - (m.fidelity / m.dominant).log2) := by
      rw [← Nat.pow_sub_mul_pow 2 hlog₅₃, mul_comm] at hmul
      exact Nat.lt_of_mul_lt_mul_right hmul
    have hgap : 0 < m.dominant - m.fidelity % m.dominant :=
      Nat.sub_pos_of_lt (Nat.mod_lt _ m.dominant_pos)
    exact .inr (.inl (hlt.trans_le (Nat.le_mul_of_pos_right _ hgap)))

theorem fits_of_lt {m : Meter} (h : m.fidelity < 2 ^ 50) : m.Fits := by
  have hbound : 2 ^ 50 ≤ overflowBound := by decide +kernel
  exact (h.trans_le hbound).trans_le (Nat.le_mul_of_pos_left _ m.dominant_pos)

/-- Behind a beat, the label is that of the exact fraction of the beat. -/
theorem label_eq_subdivision_of_not_dvd {m : Meter} (h : m.fidelity < 2 ^ 50) {p : Int}
    (hp : ¬ (m.countedSteps : Int) ∣ p) :
    m.label p = .ok (m.subdivision (p % m.countedSteps)) := by
  have hpos : (0 : Int) < m.countedSteps := by exact_mod_cast m.countedSteps_pos
  obtain ⟨hlt, -⟩ := lt_resolution_of_not_dvd hp
  obtain ⟨r, hr⟩ : ∃ r : Nat, p % m.countedSteps = r :=
    Int.eq_ofNat_of_zero_le (Int.emod_nonneg p hpos.ne')
  have hr₀ : 0 < r := by
    refine Nat.pos_of_ne_zero fun h₀ => hp (Int.dvd_of_emod_eq_zero ?_)
    rw [hr, h₀]
    rfl
  have hrlt : r < m.countedSteps := by
    have := Int.emod_lt_of_pos p hpos
    omega
  have hsteps := (countedSteps_eq_iff m).2 (keepsSteps_of_lt h)
  have hwhole : 1 ≤ m.fidelity / m.dominant ∧ r < 2 ^ 53 := by
    have hle : m.fidelity / m.dominant ≤ m.fidelity := Nat.div_le_self _ _
    rw [hsteps, stepsPerBeat] at hrlt
    omega
  have hle : m.dominant ≤ m.fidelity := (Nat.div_pos_iff.1 hwhole.1).2
  rw [label_of_not_dvd (fits_of_lt h) hp, hr, Int.cast_natCast, nearest_natCast hwhole.2.le]
  rw [hr, Int.cast_natCast] at hlt
  have hquarters {n : Nat} (hn : n = 1 ∨ n = 2 ∨ n = 3) :
      nearest ((r : Rat) / m.resolution) = n / 4 ↔ 4 * r * m.dominant = n * m.fidelity :=
    nearest_div_eq_iff hn m.dominant_pos h hr₀ hlt hle
  have h₁ : nearest ((r : Rat) / m.resolution) = 1 / 4 ↔
      4 * (r : Int) * m.dominant = m.fidelity := by
    rw [← Nat.cast_one, hquarters (.inl rfl), one_mul]
    exact_mod_cast Iff.rfl
  have h₂ : nearest ((r : Rat) / m.resolution) = 1 / 2 ↔
      2 * (r : Int) * m.dominant = m.fidelity := by
    rw [show (1 / 2 : Rat) = (2 : Nat) / 4 by norm_num, hquarters (.inr (.inl rfl))]
    zify
    constructor <;> intro h <;> linarith
  have h₃ : nearest ((r : Rat) / m.resolution) = 3 / 4 ↔
      4 * (r : Int) * m.dominant = 3 * m.fidelity := by
    rw [← Nat.cast_ofNat, hquarters (.inr (.inr rfl))]
    exact_mod_cast Iff.rfl
  simp only [fractionLabel, subdivision, h₁, h₂, h₃]

/-- For fidelities below `2 ^ 50`, rounding never creates or loses a label: beats are labelled with
their numbers, their quarters with `e`, `&` and `a`, and all other steps with a point. -/
theorem label_eq_subdivision (m : Meter) (h : m.fidelity < 2 ^ 50) (p : Int) :
    m.label p =
      if p % m.stepsPerBeat = 0 then
        if (p / m.stepsPerBeat + 1).natAbs < 10 ^ Numeral.digitLimit then
          .ok (toString (p / m.stepsPerBeat + 1))
        else .error .tooManyDigits
      else .ok (m.subdivision (p % m.stepsPerBeat)) := by
  rw [← (countedSteps_eq_iff m).2 (keepsSteps_of_lt h)]
  split <;> rename_i hp
  · rw [label_of_dvd (fits_of_lt h) (Int.dvd_of_emod_eq_zero hp), beatLabel_eq]
  · exact label_eq_subdivision_of_not_dvd h fun hd => hp (Int.emod_eq_zero_of_dvd hd)

/-- The step in front of the first beat, in sixteenths of a measure in thirds: the resolution
`16 / 3` is not a double, and the step lies three quarters behind a beat. -/
theorem label_eq_subdivision_of_sixteen_thirds :
    let m : Meter := ⟨4, 3, 16, by decide, by decide, by decide⟩
    m.fidelity < 2 ^ 50 ∧ m.label (-1) = .ok "a" := by
  intro m
  have h : m.fidelity < 2 ^ 50 := by decide
  exact ⟨h, (label_eq_subdivision m h (-1)).trans (by decide +kernel)⟩

end Tablature.Meter
