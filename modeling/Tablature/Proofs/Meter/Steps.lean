import Tablature.Proofs.Meter.Label

/-!
# The steps of a beat, exact and rounded

A measure has the exact steps of each beat, but labels are counted in whole steps of the rounded
resolution. The two differ where a double is nearer to the resolution than its whole part is.

* `floor_nearest_of_lt`, `floor_nearest_of_le`: the whole part of a rounded quotient;
* `countedSteps_eq_iff`: the meters for which the labels are counted in the steps of a beat.
-/

namespace Tablature.Meter

open Binary64

section Quotient

variable {f d : Nat}

/-- A quotient lies below the next integer by the gap that its remainder leaves. -/
theorem div_eq_sub_gap (hd : 0 < d) :
    (f : Rat) / d = ((f / d : Nat) : Rat) + 1 - ((d - f % d : Nat) : Rat) / d := by
  have hd' : (d : Rat) ≠ 0 := by exact_mod_cast hd.ne'
  have hf : (f : Rat) = d * ((f / d : Nat) : Rat) + ((f % d : Nat) : Rat) := by
    exact_mod_cast (Nat.div_add_mod f d).symm
  rw [Nat.cast_sub (Nat.mod_lt f hd).le]
  field_simp
  linarith

theorem natCast_div_le (hd : 0 < d) : ((f / d : Nat) : Rat) ≤ (f : Rat) / d := by
  have hd' : (0 : Rat) < d := by exact_mod_cast hd
  rw [le_div_iff₀ hd']
  exact_mod_cast Nat.div_mul_le_self f d

theorem lt_natCast_div_add_one (hd : 0 < d) : (f : Rat) / d < ((f / d : Nat) : Rat) + 1 := by
  have hd' : (0 : Rat) < d := by exact_mod_cast hd
  have hg : (0 : Rat) < ((d - f % d : Nat) : Rat) := by
    have := Nat.mod_lt f hd
    exact_mod_cast (by omega : 0 < d - f % d)
  rw [div_eq_sub_gap hd]
  have := div_pos hg hd'
  linarith

/-- The exponent of a quotient is that of its whole part. -/
theorem floorLog2_div (hd : 0 < d) (hk : f / d ≠ 0) :
    floorLog2 ((f : Rat) / d) = ((f / d).log2 : Int) := by
  obtain ⟨h₁, -⟩ := log2_bounds hk
  have h₂ : (((f / d : Nat) : Rat) + 1) ≤ 2 ^ (((f / d).log2 : Int) + 1) := by
    have : f / d + 1 ≤ 2 ^ ((f / d).log2 + 1) := Nat.lt_log2_self
    rw [show (((f / d).log2 : Int) + 1) = (((f / d).log2 + 1 : Nat) : Int) by push_cast; ring,
      zpow_natCast]
    exact_mod_cast this
  exact floorLog2_eq (h₁.trans (natCast_div_le hd)) ((lt_natCast_div_add_one hd).trans_le h₂)

/-- Below `2 ^ 53`, a quotient is rounded to less than the next integer if that is more than half
a spacing away, or just half a spacing away from an even integer above `2 ^ 52`. -/
theorem nearest_div_lt_iff (hd : 0 < d) (hk : f / d ≠ 0) (h53 : f / d < 2 ^ 53) :
    nearest ((f : Rat) / d) < ((f / d : Nat) : Rat) + 1 ↔
      d < 2 ^ (53 - (f / d).log2) * (d - f % d) ∨
      d = 2 ^ (53 - (f / d).log2) * (d - f % d) ∧ 2 ^ 52 ≤ f / d ∧ f / d % 2 = 0 := by
  have he : (f / d).log2 < 53 := (Nat.log2_lt hk).2 h53
  have hlog := floorLog2_div hd hk
  have hpos : (0 : Rat) < (f : Rat) / d :=
    lt_of_lt_of_le (by exact_mod_cast Nat.pos_of_ne_zero hk) (natCast_div_le hd)
  have hgap := div_eq_sub_gap (f := f) hd
  have hk₁ := Nat.log2_self_le hk
  have hk₂ := Nat.lt_log2_self (n := f / d)
  generalize f / d = k at *
  generalize d - f % d = g at *
  -- the unit is `2 ^ -j`, and the next integer has an even number of units unless `j = 0`
  obtain ⟨j, hj⟩ : ∃ j, k.log2 + j = 52 := ⟨52 - k.log2, by omega⟩
  have hs : spacingExponent ((f : Rat) / d) = -(j : Int) := by
    rw [spacingExponent_of_floorLog2 hlog (by omega)]
    omega
  have hu : (f : Rat) / d / 2 ^ (-(j : Int)) =
      (((k + 1) * 2 ^ j - 1 : Int) : Rat) + 1 - 2 ^ j * g / d := by
    rw [zpow_neg, div_inv_eq_mul, zpow_natCast, hgap]
    push_cast
    ring
  have hlt : nearest ((f : Rat) / d) < (k : Rat) + 1 ↔
      ¬ ((k + 1) * 2 ^ j - 1 : Int) < roundHalfEven ((f : Rat) / d / 2 ^ (-(j : Int))) := by
    rw [nearest_of_pos hpos, hs, zpow_neg, zpow_natCast, ← div_eq_mul_inv,
      div_lt_iff₀ (by positivity), not_lt, Int.le_sub_one_iff]
    exact_mod_cast Iff.rfl
  have hd' : (0 : Rat) < d := by exact_mod_cast hd
  have hhalf : (2 : Rat) ^ j * g / d < 1 / 2 ↔ 2 ^ (j + 1) * g < d := by
    rw [div_lt_iff₀ hd', pow_succ, ← Nat.cast_lt (α := Rat)]
    push_cast
    constructor <;> intro h <;> linarith
  have hhalf' : (2 : Rat) ^ j * g / d = 1 / 2 ↔ 2 ^ (j + 1) * g = d := by
    rw [div_eq_iff hd'.ne', pow_succ, ← Nat.cast_inj (R := Rat)]
    push_cast
    constructor <;> intro h <;> linarith
  have hodd : ((k + 1) * 2 ^ j - 1 : Int) % 2 = 1 ↔ ¬ (2 ^ 52 ≤ k ∧ k % 2 = 0) := by
    rcases j with _ | j
    · have : 2 ^ 52 ≤ k := by rw [show k.log2 = 52 by omega] at hk₁; exact hk₁
      rw [pow_zero, mul_one]
      omega
    · have : k < 2 ^ 52 := hk₂.trans_le (Nat.pow_le_pow_right (by decide) (by omega))
      rw [pow_succ, ← mul_assoc]
      omega
  rw [hlt, hu, lt_roundHalfEven_sub_iff, hhalf, hhalf', hodd, show 53 - k.log2 = j + 1 by omega]
  omega

theorem floor_nearest_of_lt (hd : 0 < d) (hk : f / d ≠ 0) (h53 : f / d < 2 ^ 53) :
    (nearest ((f : Rat) / d)).floor = (f / d : Nat) ↔
      d < 2 ^ (53 - (f / d).log2) * (d - f % d) ∨
      d = 2 ^ (53 - (f / d).log2) * (d - f % d) ∧ 2 ^ 52 ≤ f / d ∧ f / d % 2 = 0 := by
  rw [← nearest_div_lt_iff hd hk h53]
  have hle : ((f / d : Nat) : Rat) ≤ nearest ((f : Rat) / d) := by
    rw [← nearest_natCast h53.le]
    exact nearest_mono (natCast_div_le hd)
  have h₁ : ((f / d : Nat) : Int) ≤ (nearest ((f : Rat) / d)).floor := by
    rw [Rat.le_floor_iff]; exact_mod_cast hle
  have h₂ : (nearest ((f : Rat) / d)).floor < ((f / d : Nat) : Int) + 1 ↔
      nearest ((f : Rat) / d) < ((f / d : Nat) : Rat) + 1 := by
    rw [Rat.floor_lt_iff]; push_cast; rfl
  rw [← h₂]
  omega

/-- From `2 ^ 53` on, a quotient is rounded to its whole part if that is a double. -/
theorem floor_nearest_of_le (hd : 0 < d) (h53 : 2 ^ 53 ≤ f / d) :
    (nearest ((f : Rat) / d)).floor = (f / d : Nat) ↔ 2 ^ ((f / d).log2 - 52) ∣ f / d := by
  have hk : f / d ≠ 0 := by omega
  have hlog := floorLog2_div hd hk
  have hle := natCast_div_le (f := f) hd
  have hlt := lt_natCast_div_add_one (f := f) hd
  have he : 53 ≤ (f / d).log2 := (Nat.le_log2 hk).2 h53
  generalize f / d = k at *
  obtain ⟨j, hj⟩ : ∃ j, k.log2 = 52 + (j + 1) := ⟨k.log2 - 53, by omega⟩
  have hs : spacingExponent ((f : Rat) / d) = ((j + 1 : Nat) : Int) := by
    rw [spacingExponent_of_floorLog2 hlog (by omega)]
    omega
  have hpos : (0 : Rat) < (f : Rat) / d :=
    lt_of_lt_of_le (by exact_mod_cast Nat.pos_of_ne_zero hk) hle
  rw [nearest_of_pos hpos, hs, zpow_natCast, show k.log2 - 52 = j + 1 by omega]
  have hu : (0 : Rat) < 2 ^ (j + 1) := by positivity
  have hu₂ : (2 : Rat) ≤ 2 ^ (j + 1) := by
    rw [pow_succ]
    have : (1 : Rat) ≤ 2 ^ j := one_le_pow₀ (by norm_num)
    linarith
  generalize hq : roundHalfEven ((f : Rat) / d / 2 ^ (j + 1)) = q
  have hfl : ((q : Rat) * 2 ^ (j + 1)).floor = q * 2 ^ (j + 1) := by
    rw [show (q : Rat) * 2 ^ (j + 1) = ((q * 2 ^ (j + 1) : Int) : Rat) by push_cast; rfl,
      Rat.floor_intCast]
  rw [hfl]
  constructor
  · intro h
    have : ((2 ^ (j + 1) : Nat) : Int) ∣ (k : Int) := by
      rw [← h]; push_cast; exact Dvd.intro_left q rfl
    exact_mod_cast this
  · rintro ⟨c, rfl⟩
    -- the quotient is less than one, so at most half a unit, above a whole number of units
    have h₁ : ((c : Int) : Rat) ≤ (f : Rat) / d / 2 ^ (j + 1) := by
      rw [le_div_iff₀ hu]
      push_cast at hle ⊢
      linarith
    have h₂ : (f : Rat) / d / 2 ^ (j + 1) < ((c : Int) : Rat) + 1 / 2 := by
      rw [div_lt_iff₀ hu]
      push_cast at hlt ⊢
      linarith
    rw [← hq, roundHalfEven_of_lt_half h₁ h₂]
    push_cast
    ring

end Quotient

/-- Rounding leaves the whole part of the resolution alone: it is below `2 ^ 53`, and the next
integer more than half the distance of doubles away (or just half, where ties go down); or it is
from there on, and a double. -/
def KeepsSteps (m : Meter) : Prop :=
  let whole := m.fidelity / m.dominant
  let gap := m.dominant - m.fidelity % m.dominant
  if whole < 2 ^ 53 then
    whole = 0 ∨ m.dominant < 2 ^ (53 - whole.log2) * gap ∨
      m.dominant = 2 ^ (53 - whole.log2) * gap ∧ 2 ^ 52 ≤ whole ∧ whole % 2 = 0
  else 2 ^ (whole.log2 - 52) ∣ whole

/-- A resolution below one is rounded to one at most. -/
theorem countedSteps_of_lt {m : Meter} (h : m.fidelity / m.dominant = 0) : m.countedSteps = 1 := by
  have hd : (0 : Rat) < m.dominant := by exact_mod_cast m.dominant_pos
  have hx : (m.fidelity : Rat) / m.dominant ≤ 2 ^ (0 : Int) := by
    rw [zpow_zero, div_le_one hd]
    have := (Nat.div_eq_zero_iff_lt m.dominant_pos).1 h
    exact_mod_cast this.le
  have hr : m.resolution ≤ 1 := by simpa [resolution] using nearest_le_twoPow (by decide) hx
  have hf : m.resolution.floor ≤ 1 := by
    have : m.resolution.floor < 1 + 1 := by
      rw [Rat.floor_lt_iff]; push_cast; linarith
    omega
  simp only [countedSteps, wholeSteps]
  omega

/-- The labels are counted in the steps of a beat exactly when rounding leaves these alone. -/
theorem countedSteps_eq_iff (m : Meter) : m.countedSteps = m.stepsPerBeat ↔ m.KeepsSteps := by
  rcases Nat.eq_zero_or_pos (m.fidelity / m.dominant) with h₀ | hpos
  · rw [countedSteps_of_lt h₀]
    simp [KeepsSteps, stepsPerBeat, h₀]
  have hk := hpos.ne'
  have hfloor : m.countedSteps = m.stepsPerBeat ↔
      m.resolution.floor = (m.fidelity / m.dominant : Nat) := by
    have hr : (1 : Int) ≤ m.resolution.floor := by
      rw [Rat.le_floor_iff]
      have h₁ : (2 : Rat) ^ (0 : Int) ≤ (m.fidelity : Rat) / m.dominant := by
        rw [zpow_zero]
        exact le_trans (by exact_mod_cast hpos) (natCast_div_le m.dominant_pos)
      simpa [resolution] using twoPow_le_nearest (by decide) h₁
    simp only [countedSteps, wholeSteps, stepsPerBeat]
    omega
  rw [hfloor, resolution]
  simp only [KeepsSteps, hk, false_or]
  split <;> rename_i h
  · exact floor_nearest_of_lt m.dominant_pos hk h
  · exact floor_nearest_of_le m.dominant_pos (not_lt.1 h)

end Tablature.Meter
