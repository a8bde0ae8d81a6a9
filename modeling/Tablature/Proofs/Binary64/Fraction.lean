import Mathlib.Algebra.Order.Group.Unbundled.Abs
import Mathlib.Tactic.LinearCombination
import Tablature.Proofs.Binary64.Nearest

/-!
# Fractions of rounded quotients

A quotient is rounded, and a whole number is divided by it and rounded again.

* `abs_nearest_sub_le`: how far a number is rounded;
* `nearest_eq_three_quarters`: what is rounded to three quarters, ties included;
* `nearest_div_eq_iff`: quarters of a quotient, and nothing else, are quarters of the rounded one.
-/

namespace Tablature.Binary64

/-! ## Bounds of the error -/

theorem abs_roundHalfEven_sub_le (x : Rat) : |(roundHalfEven x : Rat) - x| ≤ 1 / 2 := by
  have h₁ : ¬ (roundHalfEven x : Rat) + 1 / 2 < x := fun h =>
    lt_irrefl _ (lt_roundHalfEven_iff.2 (.inl h))
  have h₂ : (roundHalfEven x : Rat) - 1 / 2 ≤ x := by
    rcases lt_roundHalfEven_iff.1 (sub_one_lt (roundHalfEven x)) with h | ⟨h, -⟩
    · push_cast at h; linarith
    · push_cast at h; linarith
  rw [abs_le]
  constructor <;> linarith

/-- A number is rounded by at most half the distance of the doubles around it. -/
theorem abs_nearest_sub_le {x : Rat} (hx : 0 < x) :
    |nearest x - x| ≤ 2 ^ spacingExponent x / 2 := by
  have hs := twoPow_pos (spacingExponent x)
  have hsplit : nearest x - x =
      (roundHalfEven (x / 2 ^ spacingExponent x) - x / 2 ^ spacingExponent x) *
        2 ^ spacingExponent x := by
    rw [nearest_of_pos hx, sub_mul, div_mul_cancel₀ _ hs.ne']
  rw [hsplit, abs_mul, abs_of_pos hs]
  have := mul_le_mul_of_nonneg_right (abs_roundHalfEven_sub_le (x / 2 ^ spacingExponent x)) hs.le
  linarith

/-- A fraction of one is rounded by at most `2 ^ -54`. -/
theorem abs_nearest_sub_le_of_lt_one {y : Rat} (hy : 0 < y) (h : y < 1) :
    |nearest y - y| ≤ 1 / 2 ^ 54 := by
  have hf : floorLog2 y < 0 := floorLog2_lt_of_lt hy (by simpa using h)
  have hs : (2 : Rat) ^ spacingExponent y ≤ 2 ^ (-53 : Int) :=
    twoPow_le (by simp only [spacingExponent, precision, minExponent]; omega)
  have := abs_nearest_sub_le hy
  norm_num at hs ⊢
  linarith

/-- A number that is not below one is rounded by at most its `2 ^ 53`rd part. -/
theorem abs_nearest_sub_le_of_one_le {x : Rat} (h : 1 ≤ x) : |nearest x - x| ≤ x / 2 ^ 53 := by
  have hx : 0 < x := lt_of_lt_of_le one_pos h
  have hf : 0 ≤ floorLog2 x := le_floorLog2_of_le (by simpa using h)
  have hs : spacingExponent x + 52 = floorLog2 x := by
    rw [spacingExponent_of_floorLog2 rfl (by omega), sub_add_cancel]
  have hle := (floorLog2_spec hx).1
  rw [← hs, show (52 : Int) = (52 : Nat) from rfl, twoPow_add_natCast] at hle
  have := abs_nearest_sub_le hx
  rw [le_div_iff₀ (by norm_num)]
  have : (0 : Rat) < 2 ^ spacingExponent x := twoPow_pos _
  nlinarith

/-- Three quarters is the nearest double of all that lies within `2 ^ -54` of it, ends included. -/
theorem nearest_eq_three_quarters {y : Rat} (h : |y - 3 / 4| ≤ 1 / 2 ^ 54) : nearest y = 3 / 4 := by
  obtain ⟨h₁, h₂⟩ := abs_le.1 h
  have hf : floorLog2 y = -1 := by
    refine floorLog2_eq ?_ ?_
    · norm_num at h₁ ⊢; linarith
    · norm_num at h₂ ⊢; linarith
  have hpos : 0 < y := by norm_num at h₁; linarith
  have hs : spacingExponent y = -53 := spacingExponent_of_floorLog2 hf (by decide)
  have hround : roundHalfEven (y / 2 ^ (-53 : Int)) = 3 * 2 ^ 51 := by
    rw [zpow_neg, div_inv_eq_mul, show (53 : Int) = ((53 : Nat) : Int) from rfl, zpow_natCast]
    have h₃ : ¬ (3 * 2 ^ 51 : Int) < roundHalfEven (y * 2 ^ 53) := by
      rw [lt_roundHalfEven_iff]
      rintro (hlt | ⟨-, hodd⟩)
      · push_cast at hlt; norm_num at hlt h₂; linarith
      · exact absurd hodd (by decide)
    have h₄ : (3 * 2 ^ 51 - 1 : Int) < roundHalfEven (y * 2 ^ 53) := by
      rw [lt_roundHalfEven_iff]
      rcases h₁.lt_or_eq with hlt | heq
      · left; push_cast; norm_num at hlt ⊢; linarith
      · right; refine ⟨?_, by decide⟩; push_cast; norm_num at heq ⊢; linarith
    omega
  rw [nearest_of_pos hpos, hs, hround]
  norm_num

/-! ## Quarters of a rounded quotient -/

section Fraction

variable {f d r : Nat}

/-- A fraction that is rounded to a quarter, a half or three quarters is it: quotients of numbers
below `2 ^ 50` that differ from these do so by more than both roundings together. -/
theorem eq_of_nearest_div_eq {n : Nat} (hd : 0 < d) (hf : f < 2 ^ 50) (hr : 0 < r)
    (hlt : (r : Rat) < nearest ((f : Rat) / d)) (hle : d ≤ f)
    (h : nearest ((r : Rat) / nearest ((f : Rat) / d)) = n / 4) : 4 * r * d = n * f := by
  have hd' : (0 : Rat) < d := by exact_mod_cast hd
  have hr' : (0 : Rat) < r := by exact_mod_cast hr
  have hx : (1 : Rat) ≤ (f : Rat) / d := by rw [le_div_iff₀ hd']; exact_mod_cast (by omega)
  have hfx : (f : Rat) = f / d * d := (div_mul_cancel₀ _ hd'.ne').symm
  have herr := abs_nearest_sub_le_of_one_le hx
  have hf' : (f : Rat) < 2 ^ 50 := by exact_mod_cast hf
  generalize nearest ((f : Rat) / d) = res at *
  have hres : 0 < res := hr'.trans hlt
  have hy₀ := div_pos hr' hres
  have hy₁ := (div_lt_one hres).2 hlt
  have hy := abs_nearest_sub_le_of_lt_one hy₀ hy₁
  have hrr : (r : Rat) = r / res * res := (div_mul_cancel₀ _ hres.ne').symm
  rw [h] at hy
  generalize (r : Rat) / res = y at *
  generalize (f : Rat) / d = x at *
  have hdiff : (4 * r * d - n * f : Rat) = 4 * (x * d) * (y * ((res - x) / x) - (n / 4 - y)) := by
    have hx₀ : x ≠ 0 := (lt_of_lt_of_le one_pos hx).ne'
    rw [hrr, hfx]
    field_simp
    ring
  have hrel : |(res - x) / x| ≤ 1 / 2 ^ 53 := by
    have hx₀ : 0 < x := lt_of_lt_of_le one_pos hx
    rw [abs_div, abs_of_pos hx₀, div_le_iff₀ hx₀]
    linarith
  have hsum : |y * ((res - x) / x) - (n / 4 - y)| ≤ 1 / 2 ^ 53 + 1 / 2 ^ 54 := by
    have hmul : |y * ((res - x) / x)| ≤ 1 / 2 ^ 53 := by
      rw [abs_mul, abs_of_pos hy₀]
      exact (mul_le_of_le_one_left (abs_nonneg _) hy₁.le).trans hrel
    exact (abs_sub _ _).trans (add_le_add hmul hy)
  have hlt₁ : |(4 * r * d - n * f : Rat)| < 1 := by
    rw [hdiff, abs_mul, ← hfx, abs_of_nonneg (by positivity)]
    have := mul_le_mul_of_nonneg_left hsum (show (0 : Rat) ≤ 4 * f by positivity)
    norm_num at this ⊢
    linarith
  have hint : |(4 * r * d - n * f : Int)| < 1 := by exact_mod_cast hlt₁
  have := Int.abs_lt_one_iff.1 hint
  exact_mod_cast sub_eq_zero.1 this

/-- Quotients by three lie a third of the distance of doubles away from the nearest one, at most. -/
theorem abs_nearest_third_sub_le {a : Nat} (h : 3 ≤ a) (h50 : a < 2 ^ 52) :
    |nearest ((a : Rat) / 3) - a / 3| ≤ 2 ^ spacingExponent ((a : Rat) / 3) / 3 := by
  have hx : (0 : Rat) < a / 3 := div_pos (by exact_mod_cast (by omega : 0 < a)) (by norm_num)
  have hfloor : floorLog2 ((a : Rat) / 3) < 52 := by
    refine floorLog2_lt_of_lt hx ?_
    have : (a : Rat) < 2 ^ 52 := by exact_mod_cast h50
    rw [show (52 : Int) = ((52 : Nat) : Int) from rfl, zpow_natCast]
    linarith
  have hfloor₀ : 0 ≤ floorLog2 ((a : Rat) / 3) := by
    refine le_floorLog2_of_le ?_
    have : (3 : Rat) ≤ a := by exact_mod_cast h
    rw [zpow_zero]
    linarith
  obtain ⟨j, hj⟩ : ∃ j : Nat, spacingExponent ((a : Rat) / 3) = -(j : Int) :=
    ⟨(52 - floorLog2 ((a : Rat) / 3)).toNat, by
      rw [spacingExponent_of_floorLog2 rfl (by omega)]; omega⟩
  have herr := abs_nearest_sub_le hx
  have hnear := nearest_of_pos hx
  rw [hj] at herr hnear ⊢
  have hu := twoPow_pos (-(j : Int))
  have hunit : (2 : Rat) ^ j * 2 ^ (-(j : Int)) = 1 := by
    rw [← zpow_natCast, ← twoPow_add, add_neg_cancel, zpow_zero]
  generalize (2 : Rat) ^ (-(j : Int)) = u at *
  generalize roundHalfEven ((a : Rat) / 3 / u) = q at *
  -- in units of a third of the spacing, the error is an integer, and at most three halves
  have hc : nearest ((a : Rat) / 3) - a / 3 = ((3 * q - a * 2 ^ j : Int) : Rat) * (u / 3) := by
    push_cast
    rw [hnear]
    linear_combination (a : Rat) / 3 * hunit
  have hle : |(3 * q - a * 2 ^ j : Int)| ≤ 1 := by
    rw [hc, abs_mul, abs_of_pos (div_pos hu (by norm_num))] at herr
    have : |((3 * q - a * 2 ^ j : Int) : Rat)| < 2 := by
      by_contra hge
      have hthird : 0 ≤ u / 3 := div_nonneg hu.le (by norm_num)
      have := mul_le_mul_of_nonneg_right (not_lt.1 hge) hthird
      linarith
    have : |(3 * q - a * 2 ^ j : Int)| < 2 := by exact_mod_cast this
    omega
  rw [hc, abs_mul, abs_of_pos (div_pos hu (by norm_num))]
  have hle' : |((3 * q - a * 2 ^ j : Int) : Rat)| ≤ 1 := by exact_mod_cast hle
  exact mul_le_of_le_one_left (div_pos hu (by norm_num)).le hle'

/-- Three quarters of a quotient, divided by the rounded quotient, are rounded to three quarters. -/
theorem nearest_div_third {r : Nat} (hr : 0 < r) (h50 : r < 2 ^ 50) :
    nearest ((r : Rat) / nearest (((4 * r : Nat) : Rat) / 3)) = 3 / 4 := by
  have ha : 3 ≤ 4 * r := by omega
  have herr := abs_nearest_third_sub_le ha (by omega)
  have hx : (1 : Rat) ≤ ((4 * r : Nat) : Rat) / 3 := by
    have : ((3 : Nat) : Rat) ≤ ((4 * r : Nat) : Rat) := by exact_mod_cast ha
    push_cast at this ⊢
    linarith
  have hfloor₀ : 0 ≤ floorLog2 (((4 * r : Nat) : Rat) / 3) :=
    le_floorLog2_of_le (by simpa using hx)
  have hres : 2 ^ 52 * (2 : Rat) ^ spacingExponent (((4 * r : Nat) : Rat) / 3) ≤
      nearest (((4 * r : Nat) : Rat) / 3) := by
    rw [← twoPow_add_natCast, spacingExponent_of_floorLog2 rfl (by omega)]
    refine twoPow_le_nearest (by simp only [minExponent]; omega) ?_
    simpa using (floorLog2_spec (lt_of_lt_of_le one_pos hx)).1
  have hu := twoPow_pos (spacingExponent (((4 * r : Nat) : Rat) / 3))
  apply nearest_eq_three_quarters
  generalize (2 : Rat) ^ spacingExponent (((4 * r : Nat) : Rat) / 3) = u at *
  have hrx : (r : Rat) = 3 / 4 * (((4 * r : Nat) : Rat) / 3) := by push_cast; ring
  rw [hrx]
  generalize nearest (((4 * r : Nat) : Rat) / 3) = res at *
  generalize ((4 * r : Nat) : Rat) / 3 = x at *
  have hres₀ : 0 < res := lt_of_lt_of_le (by positivity) hres
  have hdiff : 3 / 4 * x / res - 3 / 4 = -(3 / 4) * ((res - x) / res) := by
    field_simp
    ring
  have hrel : |(res - x) / res| ≤ 1 / (3 * 2 ^ 52) := by
    rw [abs_div, abs_of_pos hres₀, div_le_iff₀ hres₀]
    linarith
  rw [hdiff, abs_mul, abs_neg, abs_of_pos (by norm_num : (0 : Rat) < 3 / 4)]
  linarith

/-- A part of a whole number that is a number of quarters is rounded to them. -/
theorem nearest_div_natCast {a n : Nat} (hr : 0 < r) (h50 : r < 2 ^ 50) (hn : 0 < n) (h4 : n ≤ 4)
    (h : n * a = 4 * r) : nearest ((r : Rat) / nearest (a : Rat)) = n / 4 := by
  have ha : a ≤ 2 ^ 53 := by nlinarith
  have ha₀ : (a : Rat) ≠ 0 := by
    rintro h₀
    rw [Nat.cast_eq_zero.1 h₀] at h
    omega
  have hdiv : (r : Rat) / a = n * 2 ^ (-2 : Int) := by
    have : (n * a : Rat) = 4 * r := by exact_mod_cast h
    rw [div_eq_iff ha₀]
    norm_num
    linarith
  rw [nearest_natCast ha, hdiv, nearest_eq_self (by omega) (by decide)]
  norm_num
  ring

/-- A fraction is rounded to a quarter, a half or three quarters exactly when it is that. -/
theorem nearest_div_eq_iff {n : Nat} (hn : n = 1 ∨ n = 2 ∨ n = 3) (hd : 0 < d) (hf : f < 2 ^ 50)
    (hr : 0 < r) (hlt : (r : Rat) < nearest ((f : Rat) / d)) (hle : d ≤ f) :
    nearest ((r : Rat) / nearest ((f : Rat) / d)) = n / 4 ↔ 4 * r * d = n * f := by
  refine ⟨eq_of_nearest_div_eq hd hf hr hlt hle, fun h => ?_⟩
  have hd' : (d : Rat) ≠ 0 := by exact_mod_cast hd.ne'
  have hn₀ : (n : Rat) ≠ 0 := by
    rcases hn with rfl | rfl | rfl <;> norm_num
  have hx : (f : Rat) / d = ((4 * r : Nat) : Rat) / n := by
    rw [div_eq_div_iff hd' hn₀]
    exact_mod_cast (by rw [h]; ring : f * n = 4 * r * d)
  have hr50 : r < 2 ^ 50 := by
    have : r ≤ r * d := Nat.le_mul_of_pos_right r hd
    have : 4 * (r * d) = n * f := by rw [← h]; ring
    rcases hn with rfl | rfl | rfl <;> omega
  rw [hx]
  rcases hn with rfl | rfl | rfl
  · rw [Nat.cast_one, div_one]
    simpa using nearest_div_natCast hr hr50 one_pos (by decide) (one_mul (4 * r))
  · rw [show ((4 * r : Nat) : Rat) / (2 : Nat) = (2 * r : Nat) by push_cast; ring]
    exact nearest_div_natCast hr hr50 two_pos (by decide) (by ring)
  · exact nearest_div_third hr hr50

end Fraction

end Tablature.Binary64
