import Mathlib.Data.List.Range
import Tablature.Proofs.Meter.Steps

/-!
# The numbers of the beats

The numerals among the labels of a measure should be the numbers of its beats, each on the first
step of its beat. They are unless rounding the resolution changes its whole part.

* `numerals_eq`: the numerals of a measure, and the steps they stand on;
* `numerals_eq_beatNumbers_iff`: when they are the numbers of the beats;
* `numerals_ne_beatNumbers`: a measure in which they are not.
-/

namespace Tablature.Meter

/-- The numerals among the labels of a measure, behind the steps they stand on. -/
def numerals (m : Meter) : List (Nat × String) :=
  (List.range m.length).filterMap fun p : Nat =>
    match m.label p with
    | .ok l => if IsNumeral l then some (p, l) else none
    | .error _ => none

/-- The numbers of the beats of a measure, behind the first step of each. -/
def beatNumbers (m : Meter) : List (Nat × String) :=
  (List.range m.beats).map fun j => (j * (m.length / m.beats), toString (j + 1))

theorem length_div_beats (m : Meter) : m.length / m.beats = m.stepsPerBeat :=
  Nat.mul_div_cancel_left _ m.beats_pos

theorem numerals_eq {m : Meter} (h : m.Labelled) :
    m.numerals = ((List.range m.length).filter (m.countedSteps ∣ ·)).map fun p =>
      (p, toString (p / m.countedSteps + 1)) := by
  rw [numerals, ← List.filterMap_eq_map, List.filterMap_filter]
  refine List.filterMap_congr fun p hp => ?_
  obtain ⟨l, hl⟩ := h p (List.mem_range.1 hp)
  simp only [hl, isNumeral_iff hl, decide_eq_true_eq, Function.comp_apply]
  split <;> rename_i hd
  · rw [eq_repr_of_dvd hl hd]; rfl
  · rfl

/-- The first step is the only multiple of a number that has no smaller bound. -/
theorem filter_dvd_range_of_le {k n : Nat} (hn : 0 < n) (h : n ≤ k) :
    (List.range n).filter (k ∣ ·) = [0] := by
  obtain ⟨n, rfl⟩ : ∃ j, n = j + 1 := ⟨n - 1, by omega⟩
  rw [List.range_succ_eq_map, List.filter_cons_of_pos (by simp), List.cons.injEq,
    List.filter_eq_nil_iff]
  refine ⟨rfl, fun p hp => ?_⟩
  obtain ⟨i, hi, rfl⟩ := List.mem_map.1 hp
  have := List.mem_range.1 hi
  rw [decide_eq_true_eq]
  exact Nat.not_dvd_of_pos_of_lt (Nat.succ_pos i) (by omega)

/-- The multiples of the length of a beat in a measure. -/
theorem filter_dvd_range {k : Nat} (hk : 0 < k) (b : Nat) :
    (List.range (b * k)).filter (k ∣ ·) = (List.range b).map (· * k) := by
  induction b with
  | zero => simp
  | succ b ih =>
    have hshift : (fun i => decide (k ∣ i)) ∘ (fun i => b * k + i) = fun i => decide (k ∣ i) := by
      funext i
      simp [Nat.dvd_add_right (Nat.dvd_mul_left k b)]
    rw [Nat.succ_mul, List.range_add, List.filter_append, ih, List.range_succ, List.map_append,
      List.filter_map, hshift, filter_dvd_range_of_le hk (Nat.le_refl k)]
    rfl

theorem numerals_of_steps_eq {m : Meter} (h : m.Labelled)
    (hs : m.countedSteps = m.stepsPerBeat) : m.numerals = m.beatNumbers := by
  have hl : m.length = m.beats * m.countedSteps := by rw [hs]; rfl
  rw [numerals_eq h, hl, filter_dvd_range m.countedSteps_pos, List.map_map, beatNumbers,
    length_div_beats, ← hs]
  refine List.map_congr_left fun j _ => ?_
  rw [Function.comp_apply, Nat.mul_div_cancel _ m.countedSteps_pos]

/-- In a measure of one beat, more counted steps than that do no harm. -/
theorem numerals_of_one_beat {m : Meter} (h : m.Labelled) (hb : m.beats = 1)
    (hs : m.stepsPerBeat ≤ m.countedSteps) : m.numerals = m.beatNumbers := by
  have hl : m.length = m.stepsPerBeat := by rw [length, hb, Nat.one_mul]
  have hf := filter_dvd_range_of_le m.length_pos (hl.trans_le hs)
  rw [numerals_eq h, hf, beatNumbers, hb]
  simp

/-- The steps on which a list of numerals says the beats begin. -/
theorem mem_steps_iff {m : Meter} (h : m.Labelled) (he : m.numerals = m.beatNumbers) {p : Nat}
    (hp : p < m.length) : m.countedSteps ∣ p ↔ m.stepsPerBeat ∣ p := by
  have he := congrArg (List.map Prod.fst) he
  rw [numerals_eq h, beatNumbers, length_div_beats, List.map_map, List.map_map] at he
  have h₁ : p ∈ (List.range m.length).filter (m.countedSteps ∣ ·) ↔
      p ∈ (List.range m.beats).map (· * m.stepsPerBeat) := by
    have hid : (List.range m.length).filter (m.countedSteps ∣ ·) =
        (List.range m.beats).map (· * m.stepsPerBeat) := by simpa [Function.comp_def] using he
    rw [hid]
  rw [← filter_dvd_range m.stepsPerBeat_pos] at h₁
  simpa [hp, show p < m.beats * m.stepsPerBeat from hp] using h₁

/-- The numerals of a measure are the numbers of its beats if they are counted in the steps of a
beat, and else only if there is one beat. -/
theorem numerals_eq_iff {m : Meter} (h : m.Labelled) : m.numerals = m.beatNumbers ↔
    m.countedSteps = m.stepsPerBeat ∨ m.beats = 1 ∧ m.stepsPerBeat ≤ m.countedSteps := by
  refine ⟨fun he => ?_, fun hs => hs.elim (numerals_of_steps_eq h) fun hs =>
    numerals_of_one_beat h hs.1 hs.2⟩
  have hb := m.beats_pos
  have hk := m.countedSteps_pos
  have hlen : m.length = m.beats * m.stepsPerBeat := rfl
  rcases Nat.lt_or_ge m.countedSteps m.stepsPerBeat with hlt | hge
  · -- the second numeral would stand inside the first beat
    have hp : m.countedSteps < m.length := by
      have := Nat.mul_le_mul_right m.stepsPerBeat hb
      omega
    have := Nat.le_of_dvd hk ((mem_steps_iff h he hp).1 (Nat.dvd_refl _))
    omega
  · rcases Nat.lt_or_ge 1 m.beats with hb₁ | hb₁
    · have hp : m.stepsPerBeat < m.length := by
        have := Nat.mul_le_mul_right m.stepsPerBeat hb₁
        have := m.stepsPerBeat_pos
        omega
      have := Nat.le_of_dvd m.stepsPerBeat_pos ((mem_steps_iff h he hp).2 (Nat.dvd_refl _))
      exact .inl (by omega)
    · exact .inr ⟨by omega, hge⟩

/-- The numerals of a labelled measure are the numbers of its beats, counted in the steps of a
beat, exactly when rounding leaves the whole part of the resolution alone. Only in a measure of
one beat may the steps differ, if more of them are counted. -/
theorem numerals_eq_beatNumbers_iff (m : Meter) (h : m.Labelled) :
    (m.numerals = m.beatNumbers ∧ m.countedSteps = m.stepsPerBeat ↔ m.KeepsSteps) ∧
      (m.numerals = m.beatNumbers ↔
        m.KeepsSteps ∨ m.beats = 1 ∧ m.stepsPerBeat ≤ m.countedSteps) := by
  rw [numerals_eq_iff h, ← countedSteps_eq_iff]
  exact ⟨⟨And.right, fun hs => ⟨.inl hs, hs⟩⟩, Iff.rfl⟩

/-- Two beats of `2 ^ 53 + 2` steps each: the resolution is a double. -/
theorem numerals_eq_beatNumbers_of_double :
    let m : Meter := ⟨2, 1, 2 ^ 53 + 2, by decide, by decide, by decide⟩
    m.Labelled ∧ m.numerals = m.beatNumbers ∧ m.countedSteps = m.stepsPerBeat := by
  intro m
  have h : m.Labelled := labelled_of_lt (by unfold Fits; decide +kernel) (by decide +kernel)
  exact ⟨h, (numerals_eq_beatNumbers_iff m h).1.2 (by unfold KeepsSteps; decide +kernel)⟩

/-- Two beats of `2 ^ 53 + 1` steps each are counted in `2 ^ 53` steps. -/
theorem numerals_ne_beatNumbers :
    let m : Meter := ⟨2, 1, 2 ^ 53 + 1, by decide, by decide, by decide⟩
    m.Labelled ∧ ¬ (m.numerals = m.beatNumbers) ∧ ¬ (m.countedSteps = m.stepsPerBeat) := by
  intro m
  have h : m.Labelled := labelled_of_lt (by unfold Fits; decide +kernel) (by decide +kernel)
  have hs : ¬ (m.countedSteps = m.stepsPerBeat) := by
    rw [countedSteps_eq_iff]
    unfold KeepsSteps
    decide +kernel
  refine ⟨h, fun he => ?_, hs⟩
  rcases (numerals_eq_iff h).1 he with he | ⟨he, -⟩
  · exact hs he
  · exact absurd he (by decide)

end Tablature.Meter
