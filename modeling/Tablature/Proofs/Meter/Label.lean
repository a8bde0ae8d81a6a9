import Tablature.Meter.Label
import Tablature.Proofs.Binary64.Nearest

/-!
# When a step has a label

The label of a step is looked for in doubles, but only two things can go wrong: the resolution is
too large for a double, or the number of a beat has too many digits.

* `label_of_dvd`, `label_of_not_dvd`: what the label is, if the resolution is a double;
* `beatLabel_eq`: the label of a beat, also before the first;
* `exists_label_iff`: which steps have a label;
* `label_cases`: the two ways in which a step has none;
* `isNumeral_iff`, `eq_repr_of_dvd`: which labels are numerals, and of which numbers;
* `eq_downbeat_iff`: the label `1` stands on the first step of a measure only.
-/

namespace Tablature.Meter

open Binary64

/-- The resolution as a double, if it is not too large for one. -/
def resolution (m : Meter) : Rat := nearest ((m.fidelity : Rat) / (m.dominant : Rat))

/-- The steps of a beat as they are counted for the labels. -/
def countedSteps (m : Meter) : Nat := wholeSteps m.resolution

/-- The resolution is not too large for a double. -/
def Fits (m : Meter) : Prop := m.fidelity < m.dominant * overflowBound

theorem countedSteps_pos (m : Meter) : 0 < m.countedSteps := by
  simp only [countedSteps, wholeSteps]
  omega

theorem fits_iff {m : Meter} :
    m.Fits ↔ (m.fidelity : Rat) / (m.dominant : Rat) < overflowBound := by
  have hd : (0 : Rat) < m.dominant := by exact_mod_cast m.dominant_pos
  rw [div_lt_iff₀ hd, mul_comm, Fits]
  exact_mod_cast Iff.rfl

theorem fits_iff_resolution_le {m : Meter} : m.Fits ↔ m.resolution ≤ largest := by
  rw [fits_iff, resolution, nearest_le_largest_iff]

theorem resolution?_eq {m : Meter} :
    m.resolution? = if (m.fidelity : Rat) / (m.dominant : Rat) < overflowBound then
      some m.resolution else none := by
  split <;> rename_i h
  · exact ofRat?_eq_some_iff.2 ⟨h, rfl⟩
  · exact ofRat?_eq_none_iff.2 (not_lt.1 h)

theorem label_of_not_fits {m : Meter} (h : ¬ m.Fits) (p : Int) :
    m.label p = .error .resolutionOverflow := by
  rw [label, resolution?_eq, if_neg (fits_iff.not.1 h)]

theorem label_of_fits {m : Meter} (h : m.Fits) (p : Int) :
    m.label p = if p % m.countedSteps = 0 then beatLabel (p / m.countedSteps + 1)
      else partLabel (p % m.countedSteps) m.resolution := by
  rw [label, resolution?_eq, if_pos (fits_iff.1 h)]
  rfl

/-- The label of a step on a beat. -/
theorem label_of_dvd {m : Meter} (h : m.Fits) {p : Int} (hp : (m.countedSteps : Int) ∣ p) :
    m.label p = beatLabel (p / m.countedSteps + 1) := by
  rw [label_of_fits h, if_pos (Int.emod_eq_zero_of_dvd hp)]

/-- Behind a beat there are steps only if the resolution is at least two, and fewer than it. -/
theorem lt_resolution_of_not_dvd {m : Meter} {p : Int} (hp : ¬ (m.countedSteps : Int) ∣ p) :
    ((p % m.countedSteps : Int) : Rat) < m.resolution ∧ 0 < m.resolution := by
  have hpos : (0 : Int) < m.countedSteps := by exact_mod_cast m.countedSteps_pos
  have h₀ := Int.emod_nonneg p hpos.ne'
  have h₁ := Int.emod_lt_of_pos p hpos
  have h₂ : p % m.countedSteps ≠ 0 := fun e => hp (Int.dvd_of_emod_eq_zero e)
  have hf : (m.countedSteps : Int) ≤ m.resolution.floor := by
    have : m.countedSteps = max 1 m.resolution.floor.toNat := rfl
    omega
  have hr : ((m.countedSteps : Int) : Rat) ≤ m.resolution := Rat.le_floor_iff.1 hf
  have hlt : ((p % m.countedSteps : Int) : Rat) < ((m.countedSteps : Int) : Rat) := by
    exact_mod_cast h₁
  exact ⟨hlt.trans_le hr, lt_of_lt_of_le (by exact_mod_cast hpos) hr⟩

/-- The label of a step between two beats. -/
theorem label_of_not_dvd {m : Meter} (h : m.Fits) {p : Int} (hp : ¬ (m.countedSteps : Int) ∣ p) :
    m.label p = .ok (fractionLabel
      (nearest (nearest ((p % m.countedSteps : Int) : Rat) / m.resolution))) := by
  obtain ⟨hlt, hpos⟩ := lt_resolution_of_not_dvd hp
  have hnear : nearest ((p % m.countedSteps : Int) : Rat) < 2 ^ (1024 : Int) := by
    refine (nearest_mono hlt.le).trans_lt ?_
    rw [resolution, nearest_nearest]
    exact nearest_lt_iff.2 (fits_iff.1 h)
  rw [label_of_fits h, if_neg fun e => hp (Int.dvd_of_emod_eq_zero e), partLabel,
    ofRat?_eq_some_iff.2 ⟨nearest_lt_iff.1 hnear, rfl⟩]
  exact if_neg hpos.ne'

/-! ## Numerals -/

theorem digitLimit_lt_length_iff (n : Nat) :
    Numeral.digitLimit < (toString n).length ↔ 10 ^ Numeral.digitLimit ≤ n := by
  rw [Nat.toString_eq_ofList_toDigits, String.length_ofList, ← not_le,
    Nat.length_toDigits_le_iff (by decide) (by decide), not_lt]

/-- The number of a beat is its label, if it has not too many digits. -/
theorem beatLabel_eq (n : Int) :
    beatLabel n = if n.natAbs < 10 ^ Numeral.digitLimit then .ok (toString n)
      else .error .tooManyDigits := by
  unfold beatLabel Numeral.write
  simp only [digitLimit_lt_length_iff, ← not_lt]
  by_cases h : n.natAbs < 10 ^ Numeral.digitLimit
  · rw [if_neg (not_not.2 h), if_pos h]
  · rw [if_pos h, if_neg h]

theorem beatLabel_natCast (n : Nat) :
    beatLabel n =
      if n < 10 ^ Numeral.digitLimit then .ok (Nat.repr n) else .error .tooManyDigits :=
  beatLabel_eq n

/-- A label that is a numeral. -/
def IsNumeral (l : String) : Prop := ∀ c ∈ l.toList, c.isDigit = true

instance (l : String) : Decidable (IsNumeral l) :=
  List.decidableBAll _ l.toList

theorem isNumeral_repr (n : Nat) : IsNumeral (Nat.repr n) := by
  intro c hc
  rw [Nat.toList_repr] at hc
  exact Nat.isDigit_of_mem_toDigits (by decide) (by decide) hc

theorem not_isNumeral_fractionLabel (x : Rat) : ¬ IsNumeral (fractionLabel x) := by
  unfold fractionLabel
  split_ifs <;> decide +kernel

theorem fits_of_label_eq_ok {m : Meter} {p : Int} {l : String} (h : m.label p = .ok l) :
    m.Fits := by
  by_contra hf
  simp [label_of_not_fits hf] at h

theorem not_isNumeral_of_not_dvd {m : Meter} {p : Nat} {l : String} (h : m.label p = .ok l)
    (hp : ¬ m.countedSteps ∣ p) : ¬ IsNumeral l := by
  rw [label_of_not_dvd (fits_of_label_eq_ok h) (by exact_mod_cast hp), Except.ok.injEq] at h
  rw [← h]
  exact not_isNumeral_fractionLabel _

theorem label_natCast_of_dvd {m : Meter} (h : m.Fits) {p : Nat} (hp : m.countedSteps ∣ p) :
    m.label p = if p / m.countedSteps + 1 < 10 ^ Numeral.digitLimit then
      .ok (Nat.repr (p / m.countedSteps + 1)) else .error .tooManyDigits := by
  rw [label_of_dvd h (by exact_mod_cast hp), ← beatLabel_natCast]
  push_cast
  rfl

theorem eq_repr_of_dvd {m : Meter} {p : Nat} {l : String} (h : m.label p = .ok l)
    (hp : m.countedSteps ∣ p) : l = Nat.repr (p / m.countedSteps + 1) := by
  rw [label_natCast_of_dvd (fits_of_label_eq_ok h) hp] at h
  split at h
  · exact (Except.ok.inj h).symm
  · simp at h

/-- The steps that have a label. -/
theorem exists_label_iff {m : Meter} {p : Nat} : (∃ l, m.label p = .ok l) ↔
    m.Fits ∧ (m.countedSteps ∣ p → p / m.countedSteps + 1 < 10 ^ Numeral.digitLimit) := by
  by_cases hf : m.Fits
  · by_cases hp : m.countedSteps ∣ p
    · rw [label_natCast_of_dvd hf hp]
      split <;> simp [*]
    · rw [label_of_not_dvd hf (by exact_mod_cast hp)]
      simp [hf, hp]
  · simp [label_of_not_fits hf, hf]

/-- A step on a beat whose number has too many digits. -/
def IsOverlong (m : Meter) (p : Int) : Prop :=
  (m.countedSteps : Int) ∣ p ∧
    Numeral.digitLimit < (Nat.toDigits 10 (p / m.countedSteps + 1).natAbs).length

/-- The one label of a step, or the one reason why it has none. -/
theorem label_cases (m : Meter) (p : Int) :
    ¬ m.Fits ∧ m.label p = .error .resolutionOverflow ∨
      m.Fits ∧ m.IsOverlong p ∧ m.label p = .error .tooManyDigits ∨
      m.Fits ∧ ¬ m.IsOverlong p ∧ ∃ l, m.label p = .ok l := by
  by_cases hf : m.Fits
  · refine .inr ?_
    by_cases hp : (m.countedSteps : Int) ∣ p
    · have hlong : m.IsOverlong p ↔
          10 ^ Numeral.digitLimit ≤ (p / m.countedSteps + 1).natAbs := by
        rw [← digitLimit_lt_length_iff, Nat.toString_eq_ofList_toDigits, String.length_ofList]
        exact and_iff_right hp
      rw [hlong, label_of_dvd hf hp, beatLabel_eq]
      split <;> rename_i h
      · exact .inr ⟨hf, not_le.2 h, _, rfl⟩
      · exact .inl ⟨hf, not_lt.1 h, rfl⟩
    · exact .inr ⟨hf, fun h => hp h.1, _, label_of_not_dvd hf hp⟩
  · exact .inl ⟨hf, label_of_not_fits hf p⟩

/-- Why a step has no label. -/
theorem eq_of_label_eq_error {m : Meter} {p : Int} {e : LabelFault} (h : m.label p = .error e) :
    e = .resolutionOverflow ∨ e = .tooManyDigits := by
  rcases label_cases m p with ⟨-, hl⟩ | ⟨-, -, hl⟩ | ⟨-, -, l, hl⟩ <;> rw [hl] at h
  · exact .inl (Except.error.inj h).symm
  · exact .inr (Except.error.inj h).symm
  · cases h

/-- The numerals among the labels stand on the beats, as they are counted. -/
theorem isNumeral_iff {m : Meter} {p : Nat} {l : String} (h : m.label p = .ok l) :
    IsNumeral l ↔ m.countedSteps ∣ p := by
  refine ⟨fun hn => ?_, fun hp => eq_repr_of_dvd h hp ▸ isNumeral_repr _⟩
  by_contra hp
  exact not_isNumeral_of_not_dvd h hp hn

theorem isNumeral_downbeat : IsNumeral downbeat := by decide +kernel

/-- Only the first step of a measure is labelled as one. -/
theorem eq_downbeat_iff {m : Meter} {p : Nat} {l : String} (h : m.label p = .ok l) :
    l = downbeat ↔ p = 0 := by
  constructor
  · rintro rfl
    have hp := (isNumeral_iff h).1 isNumeral_downbeat
    have h₁ : Nat.toDigits 10 1 = Nat.toDigits 10 (p / m.countedSteps + 1) := by
      rw [← Nat.toList_repr, ← Nat.toList_repr, ← eq_repr_of_dvd h hp]
      rfl
    have h₂ : p / m.countedSteps = 0 := by
      have h₂ := congrArg (Nat.ofDigitChars 10 · 0) h₁
      simp only [Nat.ofDigitChars_ten_toDigits] at h₂
      omega
    rw [← Nat.div_mul_cancel hp, h₂, Nat.zero_mul]
  · rintro rfl
    rw [eq_repr_of_dvd h (Nat.dvd_zero _), Nat.zero_div]
    rfl

/-! ## Measures -/

/-- Every step of the measure has a label. -/
def Labelled (m : Meter) : Prop := ∀ p < m.length, ∃ l, m.label p = .ok l

theorem labelled_of_lt {m : Meter} (hf : m.Fits) (hl : m.length < 10 ^ Numeral.digitLimit) :
    m.Labelled := by
  intro p hp
  refine exists_label_iff.2 ⟨hf, fun _ => ?_⟩
  have := Nat.div_le_self p m.countedSteps
  omega

/-- A step has a label, counted from the first step of a staff. -/
def Labels (m : Meter) (step : Nat) : Prop := ∃ l, m.label (step % m.length : Nat) = .ok l

theorem Labelled.labels {m : Meter} (h : m.Labelled) (step : Nat) : m.Labels step :=
  h _ (Nat.mod_lt step m.length_pos)

end Tablature.Meter
