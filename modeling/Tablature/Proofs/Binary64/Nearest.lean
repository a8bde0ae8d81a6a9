import Mathlib.Algebra.Order.Field.Power
import Mathlib.Data.Rat.Floor
import Mathlib.Tactic.FieldSimp
import Mathlib.Tactic.Linarith
import Mathlib.Tactic.Positivity
import Mathlib.Tactic.Ring
import Tablature.Binary64

/-!
# Rounding to the nearest double

* `lt_roundHalfEven_iff`: when a number is rounded to more than an integer;
* `nearest_mono`: rounding keeps the order;
* `nearest_eq_self`: a number of at most 53 bits is a double;
* `nearest_le_largest_iff`, `ofRat?_eq_some_iff`: which numbers are not too large for a double.
-/

namespace Tablature.Binary64

/-! ## Powers of two -/

theorem twoPow_eq (e : Int) : twoPow e = (2 : Rat) ^ e := by
  cases e with
  | ofNat k => simp [twoPow, Nat.one_shiftLeft]
  | negSucc k => simp [twoPow, Nat.one_shiftLeft, zpow_negSucc]

theorem twoPow_pos (e : Int) : 0 < (2 : Rat) ^ e := zpow_pos (by norm_num) e

theorem twoPow_le {a b : Int} (h : a ≤ b) : (2 : Rat) ^ a ≤ 2 ^ b :=
  zpow_le_zpow_right₀ (by norm_num) h

theorem lt_of_twoPow_lt {a b : Int} (h : (2 : Rat) ^ a < 2 ^ b) : a < b :=
  (zpow_lt_zpow_iff_right₀ (by norm_num)).1 h

theorem twoPow_add (a b : Int) : (2 : Rat) ^ (a + b) = 2 ^ a * 2 ^ b := zpow_add₀ (by norm_num) a b

/-- A power of two that is not below one is an integer. -/
theorem twoPow_eq_natCast {e : Int} (h : 0 ≤ e) : (2 : Rat) ^ e = ((2 ^ e.toNat : Nat) : Rat) := by
  lift e to Nat using h
  simp

/-! ## The binary exponent -/

theorem log2_bounds {n : Nat} (h : n ≠ 0) :
    (2 : Rat) ^ (n.log2 : Int) ≤ n ∧ (n : Rat) < 2 ^ ((n.log2 : Int) + 1) := by
  have h₁ : ((2 ^ n.log2 : Nat) : Rat) ≤ n := by exact_mod_cast Nat.log2_self_le h
  have h₂ : (n : Rat) < ((2 ^ (n.log2 + 1) : Nat) : Rat) := by exact_mod_cast Nat.lt_log2_self
  constructor
  · simpa using h₁
  · rw [show ((n.log2 : Int) + 1) = ((n.log2 + 1 : Nat) : Int) by push_cast; ring, zpow_natCast]
    simpa using h₂

theorem floorLog2_spec {x : Rat} (h : 0 < x) :
    (2 : Rat) ^ floorLog2 x ≤ x ∧ x < 2 ^ (floorLog2 x + 1) := by
  have hn : x.num.natAbs ≠ 0 := by
    rw [Int.natAbs_ne_zero]
    exact (Rat.num_pos.2 h).ne'
  have hx : x * x.den = x.num.natAbs := by
    have : ((x.num.natAbs : Int) : Rat) = x.num := by
      rw [Int.natAbs_of_nonneg (Rat.num_pos.2 h).le]
    rw [Rat.mul_den_eq_num, ← this, Int.cast_natCast]
  obtain ⟨n₁, n₂⟩ := log2_bounds hn
  obtain ⟨d₁, d₂⟩ := log2_bounds x.den_ne_zero
  simp only [floorLog2, twoPow_eq]
  rw [← hx] at n₁ n₂
  generalize (x.num.natAbs.log2 : Int) = a at n₁ n₂ ⊢
  generalize (x.den.log2 : Int) = b at d₁ d₂ ⊢
  -- the quotient of the leading powers is off by less than a factor of two on both sides
  have hlo : (2 : Rat) ^ (a - b - 1) < x := by
    have e : (2 : Rat) ^ (a - b - 1) * 2 ^ (b + 1) = 2 ^ a := by
      rw [← twoPow_add]; congr 1; ring
    refine lt_of_mul_lt_mul_right ?_ (twoPow_pos (b + 1)).le
    rw [e]
    exact n₁.trans_lt (mul_lt_mul_of_pos_left d₂ h)
  have hhi : x < (2 : Rat) ^ (a - b + 1) := by
    have e : (2 : Rat) ^ (a - b + 1) * 2 ^ b = 2 ^ (a + 1) := by
      rw [← twoPow_add]; congr 1; ring
    refine lt_of_mul_lt_mul_right ?_ (twoPow_pos b).le
    rw [e]
    exact (mul_le_mul_of_nonneg_left d₁ h.le).trans_lt n₂
  split
  · rename_i hlt
    exact ⟨hlo.le, by rwa [sub_add_cancel]⟩
  · rename_i hge
    exact ⟨not_lt.1 hge, hhi⟩

theorem floorLog2_eq {x : Rat} {e : Int} (h₁ : (2 : Rat) ^ e ≤ x) (h₂ : x < 2 ^ (e + 1)) :
    floorLog2 x = e := by
  obtain ⟨h₃, h₄⟩ := floorLog2_spec ((twoPow_pos e).trans_le h₁)
  have := lt_of_twoPow_lt (h₁.trans_lt h₄)
  have := lt_of_twoPow_lt (h₃.trans_lt h₂)
  omega

theorem floorLog2_lt_of_lt {x : Rat} {e : Int} (hx : 0 < x) (h : x < 2 ^ e) : floorLog2 x < e :=
  lt_of_twoPow_lt ((floorLog2_spec hx).1.trans_lt h)

theorem le_floorLog2_of_le {x : Rat} {e : Int} (h : (2 : Rat) ^ e ≤ x) : e ≤ floorLog2 x := by
  have := lt_of_twoPow_lt (h.trans_lt (floorLog2_spec ((twoPow_pos e).trans_le h)).2)
  omega

/-! ## The nearest integer -/

/-- A number is rounded to more than `n` when it lies more than a half above it, or just a half
above an odd `n`. -/
theorem lt_roundHalfEven_iff {x : Rat} {n : Int} :
    n < roundHalfEven x ↔ (n : Rat) + 1 / 2 < x ∨ x = n + 1 / 2 ∧ n % 2 = 1 := by
  have h₁ : (x.floor : Rat) ≤ x := Rat.floor_le x
  have h₂ : x < (x.floor : Rat) + 1 := by exact_mod_cast Rat.lt_floor_add_one x
  unfold roundHalfEven
  generalize x.floor = k at h₁ h₂
  rcases lt_trichotomy n k with hn | rfl | hn
  · have hc : (n : Rat) + 1 ≤ k := by exact_mod_cast hn
    refine iff_of_true ?_ (.inl (by linarith))
    dsimp only
    split_ifs <;> omega
  · dsimp only
    split_ifs with c₁ c₂ c₃
    · refine iff_of_false (by omega) ?_
      rintro (h | ⟨h, -⟩) <;> linarith
    · exact iff_of_true (by omega) (.inl (by linarith))
    · refine iff_of_false (by omega) ?_
      rintro (h | ⟨-, h⟩)
      · linarith
      · omega
    · exact iff_of_true (by omega) (.inr ⟨by linarith, by omega⟩)
  · have hc : (k : Rat) + 1 ≤ n := by exact_mod_cast hn
    refine iff_of_false ?_ ?_
    · dsimp only
      split_ifs <;> omega
    · rintro (h | ⟨h, -⟩) <;> linarith

/-- A number that lies `t` below `n + 1` is rounded to more than `n` when `t` is less than a half,
or just a half and `n` odd. -/
theorem lt_roundHalfEven_sub_iff {n : Int} {t : Rat} :
    n < roundHalfEven (n + 1 - t) ↔ t < 1 / 2 ∨ t = 1 / 2 ∧ n % 2 = 1 := by
  rw [lt_roundHalfEven_iff]
  have hlt : (n : Rat) + 1 / 2 < n + 1 - t ↔ t < 1 / 2 := by
    constructor <;> intro h <;> linarith
  have heq : (n : Rat) + 1 - t = n + 1 / 2 ↔ t = 1 / 2 := by
    constructor <;> intro h <;> linarith
  rw [hlt, heq]

theorem roundHalfEven_mono {x y : Rat} (h : x ≤ y) : roundHalfEven x ≤ roundHalfEven y := by
  by_contra hlt
  rcases lt_roundHalfEven_iff.1 (not_le.1 hlt) with hx | ⟨hx, hodd⟩
  · have := lt_roundHalfEven_iff.2 (.inl (hx.trans_le h))
    omega
  · rcases h.lt_or_eq with h | h
    · have := lt_roundHalfEven_iff.2 (.inl (hx ▸ h))
      omega
    · exact hlt (h ▸ le_refl _)

theorem roundHalfEven_intCast (n : Int) : roundHalfEven n = n := by
  have h₁ : ¬ n < roundHalfEven n := by
    rw [lt_roundHalfEven_iff]
    rintro (h | ⟨h, -⟩) <;> linarith
  have h₂ : n - 1 < roundHalfEven n := by
    rw [lt_roundHalfEven_iff]
    left
    push_cast
    linarith
  omega

theorem roundHalfEven_le {x : Rat} {n : Int} (h : x ≤ n) : roundHalfEven x ≤ n :=
  roundHalfEven_intCast n ▸ roundHalfEven_mono h

theorem le_roundHalfEven {x : Rat} {n : Int} (h : (n : Rat) ≤ x) : n ≤ roundHalfEven x :=
  roundHalfEven_intCast n ▸ roundHalfEven_mono h

/-- Less than a half above an integer, a number is rounded down. -/
theorem roundHalfEven_of_lt_half {x : Rat} {n : Int} (h : (n : Rat) ≤ x) (hlt : x < n + 1 / 2) :
    roundHalfEven x = n := by
  refine le_antisymm (not_lt.1 fun hn => ?_) (le_roundHalfEven h)
  rcases lt_roundHalfEven_iff.1 hn with hup | ⟨hup, -⟩
  · exact lt_asymm hlt hup
  · exact hlt.ne hup

/-! ## The nearest double -/

/-- The exponent of the distance of the doubles around `x`. -/
def spacingExponent (x : Rat) : Int := max minExponent (floorLog2 x - (precision - 1))

theorem nearest_of_nonpos {x : Rat} (h : x ≤ 0) : nearest x = 0 := if_pos h

theorem nearest_of_pos {x : Rat} (h : 0 < x) :
    nearest x = roundHalfEven (x / 2 ^ spacingExponent x) * 2 ^ spacingExponent x := by
  rw [nearest, if_neg (not_le.2 h), spacing, twoPow_eq]
  rfl

theorem nearest_nonneg (x : Rat) : 0 ≤ nearest x := by
  rcases le_or_gt x 0 with h | h
  · rw [nearest_of_nonpos h]
  · rw [nearest_of_pos h]
    have h₀ : ((0 : Int) : Rat) ≤ x / 2 ^ spacingExponent x := by
      rw [Int.cast_zero]; exact (div_pos h (twoPow_pos _)).le
    have : (0 : Rat) ≤ roundHalfEven (x / 2 ^ spacingExponent x) := by
      exact_mod_cast le_roundHalfEven h₀
    exact mul_nonneg this (twoPow_pos _).le

/-- A multiple of a power of two is one of any smaller power. -/
theorem multiple_eq (n : Int) {s e : Int} (h : s ≤ e) :
    (n : Rat) * 2 ^ e = ((n * (2 ^ (e - s).toNat : Nat) : Int) : Rat) * 2 ^ s := by
  rw [Int.cast_mul, Int.cast_natCast, ← twoPow_eq_natCast (by omega), mul_assoc, ← twoPow_add,
    sub_add_cancel]

/-- A bound that is a multiple of the spacing is kept. -/
theorem nearest_le_of_multiple {x : Rat} {n e : Int} (hx : 0 < x) (he : spacingExponent x ≤ e)
    (h : x ≤ n * 2 ^ e) : nearest x ≤ n * 2 ^ e := by
  rw [multiple_eq n he] at h ⊢
  rw [nearest_of_pos hx]
  have := roundHalfEven_le ((div_le_iff₀ (twoPow_pos _)).2 h)
  exact mul_le_mul_of_nonneg_right (by exact_mod_cast this) (twoPow_pos _).le

theorem le_nearest_of_multiple {x : Rat} {n e : Int} (hx : 0 < x) (he : spacingExponent x ≤ e)
    (h : n * 2 ^ e ≤ x) : n * 2 ^ e ≤ nearest x := by
  rw [multiple_eq n he] at h ⊢
  rw [nearest_of_pos hx]
  have := le_roundHalfEven ((le_div_iff₀ (twoPow_pos _)).2 h)
  exact mul_le_mul_of_nonneg_right (by exact_mod_cast this) (twoPow_pos _).le

theorem nearest_le_twoPow {x : Rat} {e : Int} (he : minExponent ≤ e) (h : x ≤ 2 ^ e) :
    nearest x ≤ 2 ^ e := by
  rcases le_or_gt x 0 with hx | hx
  · rw [nearest_of_nonpos hx]; exact (twoPow_pos e).le
  · have hf : floorLog2 x ≤ e := by
      have := lt_of_twoPow_lt (((floorLog2_spec hx).1.trans h).trans_lt
        (show (2 : Rat) ^ e < 2 ^ (e + 1) from zpow_lt_zpow_right₀ (by norm_num) (by omega)))
      omega
    have := nearest_le_of_multiple (n := 1) hx
      (show spacingExponent x ≤ e by simp only [spacingExponent, precision]; omega)
      (by simpa using h)
    simpa using this

theorem twoPow_le_nearest {x : Rat} {e : Int} (he : minExponent ≤ e) (h : (2 : Rat) ^ e ≤ x) :
    2 ^ e ≤ nearest x := by
  have hx := (twoPow_pos e).trans_le h
  have hf := le_floorLog2_of_le h
  have := le_nearest_of_multiple (n := 1) (e := floorLog2 x) hx
    (by simp only [spacingExponent, precision]; omega) (by simpa using (floorLog2_spec hx).1)
  exact (twoPow_le hf).trans (by simpa using this)

theorem nearest_mono {x y : Rat} (h : x ≤ y) : nearest x ≤ nearest y := by
  rcases le_or_gt x 0 with hx | hx
  · rw [nearest_of_nonpos hx]; exact nearest_nonneg y
  have hy := hx.trans_le h
  have hf : floorLog2 x ≤ floorLog2 y := le_floorLog2_of_le ((floorLog2_spec hx).1.trans h)
  rcases eq_or_ne (spacingExponent x) (spacingExponent y) with he | he
  · rw [nearest_of_pos hx, nearest_of_pos hy, he]
    have := roundHalfEven_mono (div_le_div_of_nonneg_right h (twoPow_pos (spacingExponent y)).le)
    exact mul_le_mul_of_nonneg_right (by exact_mod_cast this) (twoPow_pos _).le
  · -- with a wider spacing, a power of two lies between the numbers
    simp only [spacingExponent, precision, minExponent] at he
    have hmin : minExponent ≤ floorLog2 y := by simp only [minExponent]; omega
    have hxy : x ≤ 2 ^ floorLog2 y :=
      (floorLog2_spec hx).2.le.trans (twoPow_le (by omega))
    exact (nearest_le_twoPow hmin hxy).trans (twoPow_le_nearest hmin (floorLog2_spec hy).1)

/-- A number of at most 53 bits, none of them below `2 ^ -1074`, is a double. -/
theorem nearest_eq_self {n : Nat} {e : Int} (hn : n ≤ 2 ^ 53) (he : minExponent ≤ e) :
    nearest (n * 2 ^ e) = n * 2 ^ e := by
  rcases Nat.eq_zero_or_pos n with rfl | hpos
  · rw [Nat.cast_zero, zero_mul, nearest_of_nonpos le_rfl]
  rcases hn.eq_or_lt with rfl | hn
  · have e53 : ((2 ^ 53 : Nat) : Rat) * 2 ^ e = 2 ^ (53 + e) := by
      rw [twoPow_add]; norm_num
    rw [e53]
    exact le_antisymm (nearest_le_twoPow (by omega) le_rfl) (twoPow_le_nearest (by omega) le_rfl)
  · have hx : (0 : Rat) < n * 2 ^ e := mul_pos (by exact_mod_cast hpos) (twoPow_pos e)
    have hlt : (n : Rat) * 2 ^ e < 2 ^ (53 + e) := by
      rw [twoPow_add]
      exact mul_lt_mul_of_pos_right (by exact_mod_cast hn) (twoPow_pos e)
    have hs : spacingExponent (n * 2 ^ e) ≤ e := by
      have := floorLog2_lt_of_lt hx hlt
      simp only [spacingExponent, precision]
      omega
    exact le_antisymm (nearest_le_of_multiple (n := n) hx hs (by simp))
      (le_nearest_of_multiple (n := n) hx hs (by simp))

theorem nearest_natCast {n : Nat} (h : n ≤ 2 ^ 53) : nearest n = n := by
  simpa using nearest_eq_self (e := 0) h (by decide)

theorem exists_nearest_eq (x : Rat) :
    ∃ n : Nat, n ≤ 2 ^ 53 ∧ ∃ e, minExponent ≤ e ∧ nearest x = n * 2 ^ e := by
  rcases le_or_gt x 0 with hx | hx
  · exact ⟨0, Nat.zero_le _, 0, by decide, by simp [nearest_of_nonpos hx]⟩
  have hle : x / 2 ^ spacingExponent x ≤ ((2 ^ 53 : Int) : Rat) := by
    have h53 : ((2 ^ 53 : Int) : Rat) = 2 ^ (53 : Int) := by norm_num
    rw [div_le_iff₀ (twoPow_pos _), h53, ← twoPow_add]
    refine (floorLog2_spec hx).2.le.trans (twoPow_le ?_)
    simp only [spacingExponent, precision]
    omega
  have hge : ((0 : Int) : Rat) ≤ x / 2 ^ spacingExponent x := by
    rw [Int.cast_zero]; exact (div_pos hx (twoPow_pos _)).le
  have h₁ := roundHalfEven_le hle
  have h₂ := le_roundHalfEven hge
  refine ⟨(roundHalfEven (x / 2 ^ spacingExponent x)).toNat, by omega, spacingExponent x,
    le_max_left _ _, ?_⟩
  rw [nearest_of_pos hx, ← Int.cast_natCast, Int.toNat_of_nonneg h₂]

/-- A double is its own nearest double. -/
theorem nearest_nearest (x : Rat) : nearest (nearest x) = nearest x := by
  obtain ⟨n, hn, e, he, hx⟩ := exists_nearest_eq x
  rw [hx, nearest_eq_self hn he]

theorem spacingExponent_of_floorLog2 {x : Rat} {e : Int} (h : floorLog2 x = e) (he : -1022 ≤ e) :
    spacingExponent x = e - 52 := by
  simp only [spacingExponent, precision, minExponent, h]
  omega

/-- The middle between the largest double and `2 ^ 1024`. -/
def overflowBound : Nat := (2 ^ 54 - 1) * 2 ^ 970

theorem overflowBound_eq : (overflowBound : Rat) = (2 ^ 54 - 1) * 2 ^ (970 : Int) := by
  rw [overflowBound, Nat.cast_mul, Nat.cast_pow, Nat.cast_ofNat,
    show ((2 ^ 54 - 1 : Nat) : Rat) = 2 ^ 54 - 1 by norm_num,
    show (970 : Int) = ((970 : Nat) : Int) from rfl, zpow_natCast]

theorem twoPow_add_natCast (k : Nat) (e : Int) : (2 : Rat) ^ (e + k) = 2 ^ k * 2 ^ e := by
  rw [twoPow_add, zpow_natCast, mul_comm]

theorem floorLog2_of_lt_overflowBound {x : Rat} (h₁ : (2 : Rat) ^ (1023 : Int) ≤ x)
    (h₂ : x ≤ overflowBound) : floorLog2 x = 1023 := by
  refine floorLog2_eq h₁ (h₂.trans_lt ?_)
  rw [overflowBound_eq, show (1023 + 1 : Int) = 970 + (54 : Nat) by decide, twoPow_add_natCast]
  exact mul_lt_mul_of_pos_right (by norm_num) (twoPow_pos _)

theorem overflowBound_div :
    (overflowBound : Rat) / 2 ^ (971 : Int) = ((2 ^ 53 - 1 : Int) : Rat) + 1 / 2 := by
  rw [div_eq_iff (twoPow_pos _).ne', overflowBound_eq, show (971 : Int) = 970 + (1 : Nat) by decide,
    twoPow_add_natCast, ← mul_assoc]
  congr 1
  norm_num

theorem nearest_overflowBound : nearest overflowBound = 2 ^ (1024 : Int) := by
  have hle : (2 : Rat) ^ (1023 : Int) ≤ overflowBound := by
    rw [overflowBound_eq, show (1023 : Int) = 970 + (53 : Nat) by decide, twoPow_add_natCast]
    exact mul_le_mul_of_nonneg_right (by norm_num) (twoPow_pos _).le
  rw [nearest_of_pos ((twoPow_pos _).trans_le hle),
    spacingExponent_of_floorLog2 (floorLog2_of_lt_overflowBound hle le_rfl) (by decide),
    show (1023 : Int) - 52 = 971 by decide, overflowBound_div]
  -- just a half above an odd number of units
  have h₁ : (2 ^ 53 - 1 : Int) < roundHalfEven (((2 ^ 53 - 1 : Int) : Rat) + 1 / 2) :=
    lt_roundHalfEven_iff.2 (.inr ⟨rfl, by decide⟩)
  have h₂ : roundHalfEven (((2 ^ 53 - 1 : Int) : Rat) + 1 / 2) ≤ (2 ^ 53 : Int) :=
    roundHalfEven_le (by norm_num)
  rw [show roundHalfEven (((2 ^ 53 - 1 : Int) : Rat) + 1 / 2) = 2 ^ 53 by omega,
    show (1024 : Int) = 971 + (53 : Nat) by decide, twoPow_add_natCast]
  norm_num

/-- A number is rounded to less than `2 ^ 1024` when it lies below the middle. -/
theorem nearest_lt_iff {x : Rat} : nearest x < 2 ^ (1024 : Int) ↔ x < overflowBound := by
  constructor
  · intro h
    by_contra hx
    have := nearest_mono (not_lt.1 hx)
    rw [nearest_overflowBound] at this
    exact absurd h (not_lt.2 this)
  · intro h
    rcases lt_or_ge x (2 ^ (1023 : Int)) with hx | hx
    · exact (nearest_le_twoPow (by decide) hx.le).trans_lt
        (zpow_lt_zpow_right₀ (by norm_num) (by decide))
    rw [nearest_of_pos ((twoPow_pos _).trans_le hx),
      spacingExponent_of_floorLog2 (floorLog2_of_lt_overflowBound hx h.le) (by decide),
      show (1023 : Int) - 52 = 971 by decide]
    have hlt := div_lt_div_of_pos_right h (twoPow_pos 971)
    rw [overflowBound_div] at hlt
    have hr : roundHalfEven (x / 2 ^ (971 : Int)) < 2 ^ 53 := by
      have : ¬ (2 ^ 53 - 1 : Int) < roundHalfEven (x / 2 ^ (971 : Int)) := by
        rw [lt_roundHalfEven_iff]
        rintro (h | ⟨h, -⟩) <;> linarith
      omega
    rw [show (1024 : Int) = 971 + (53 : Nat) by decide, twoPow_add_natCast]
    exact mul_lt_mul_of_pos_right (by exact_mod_cast hr) (twoPow_pos _)

/-- The largest double. -/
def largest : Rat := (2 ^ 53 - 1) * 2 ^ (971 : Int)

/-- No double lies between the largest one and `2 ^ 1024`. -/
theorem nearest_le_largest_iff {x : Rat} : nearest x ≤ largest ↔ x < overflowBound := by
  have hpow : (2 : Rat) ^ (1024 : Int) = 2 ^ 53 * 2 ^ (971 : Int) := by
    rw [show (1024 : Int) = 971 + (53 : Nat) by decide, twoPow_add_natCast]
  rw [← nearest_lt_iff, hpow]
  obtain ⟨n, hn, e, -, hx⟩ := exists_nearest_eq x
  rw [hx]
  constructor
  · intro h
    exact h.trans_lt (mul_lt_mul_of_pos_right (by norm_num) (twoPow_pos _))
  · intro h
    rcases le_or_gt 971 e with he | he
    · -- a whole number of the units of the largest doubles, and less than `2 ^ 53` of them
      rw [← Int.cast_natCast, multiple_eq n he] at h ⊢
      generalize ((n : Int) * (2 ^ (e - 971).toNat : Nat)) = k at h ⊢
      have hk : k ≤ 2 ^ 53 - 1 := by
        have := lt_of_mul_lt_mul_right h (twoPow_pos 971).le
        exact Int.le_sub_one_of_lt (by exact_mod_cast this)
      exact mul_le_mul_of_nonneg_right (by exact_mod_cast hk) (twoPow_pos _).le
    · have hunit : (2 : Rat) * 2 ^ e ≤ 2 ^ (971 : Int) := by
        rw [show (2 : Rat) * 2 ^ e = 2 ^ (e + 1) by rw [twoPow_add, zpow_one, mul_comm]]
        exact twoPow_le he
      have hn' : (n : Rat) ≤ 2 ^ 53 := by exact_mod_cast hn
      calc (n : Rat) * 2 ^ e
          ≤ 2 ^ 53 * 2 ^ e := mul_le_mul_of_nonneg_right hn' (twoPow_pos e).le
        _ = 2 ^ 52 * (2 * 2 ^ e) := by ring
        _ ≤ 2 ^ 52 * 2 ^ (971 : Int) := mul_le_mul_of_nonneg_left hunit (by norm_num)
        _ ≤ largest := mul_le_mul_of_nonneg_right (by norm_num) (twoPow_pos _).le

/-- A number has a nearest double unless it reaches the middle. -/
theorem ofRat?_eq_some_iff {x y : Rat} : ofRat? x = some y ↔ x < overflowBound ∧ y = nearest x := by
  rw [ofRat?, twoPow_eq, ← nearest_lt_iff]
  split <;> rename_i h
  · rw [Option.some.injEq, eq_comm]
    exact ⟨fun e => ⟨h, e⟩, And.right⟩
  · exact ⟨nofun, fun e => absurd e.1 h⟩

theorem ofRat?_eq_none_iff {x : Rat} : ofRat? x = none ↔ overflowBound ≤ x := by
  rw [Option.eq_none_iff_forall_ne_some]
  simp only [ne_eq, ofRat?_eq_some_iff, not_and]
  exact ⟨fun h => not_lt.1 fun hx => h _ hx rfl, fun h _ hx => absurd hx (not_lt.2 h)⟩

end Tablature.Binary64
