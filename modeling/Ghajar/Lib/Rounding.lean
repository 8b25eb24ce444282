import Mathlib.Algebra.Order.Ring.Rat
import Mathlib.Tactic.Linarith
import Mathlib.Tactic.Positivity
import Mathlib.Tactic.FieldSimp

/-!
# Rounded whole numbers

A quotient rounded to the nearest whole number, halves away from zero, and a whole number rounded
up to a multiple of a step. Both are monotone; the first loses at most a half and the second
nothing.
-/

namespace Ghajar.Rounding

/-- `a / b` to the nearest whole number, a half away from zero. -/
def halfUp (a b : Int) : Int :=
  if 0 ≤ a then (2 * a + b) / (2 * b) else -((2 * -a + b) / (2 * b))

/-- The least multiple of the step that is not below. -/
def upTo (step n : Int) : Int := -(-n / step) * step

variable {a b c step m n : Int}

/-- A half at most is lost. -/
theorem le_halfUp (hb : 0 < b) : 2 * a - b ≤ 2 * b * halfUp a b := by
  unfold halfUp
  split
  · have := Int.lt_mul_ediv_self_add (x := 2 * a + b) (k := 2 * b) (by omega)
    linarith
  · have := Int.mul_ediv_self_le (x := 2 * -a + b) (k := 2 * b) (by omega)
    linarith

theorem halfUp_mono (hb : 0 < b) (h : a ≤ c) : halfUp a b ≤ halfUp c b := by
  have hpos : ∀ x : Int, 0 ≤ x → 0 ≤ (2 * x + b) / (2 * b) := fun x hx =>
    Int.ediv_nonneg (by omega) (by omega)
  unfold halfUp
  by_cases ha : 0 ≤ a
  · rw [if_pos ha, if_pos (le_trans ha h)]
    exact Int.ediv_le_ediv (by omega) (by omega)
  · rw [if_neg ha]
    have hneg := hpos (-a) (by omega)
    by_cases hc : 0 ≤ c
    · rw [if_pos hc]
      have := hpos c hc
      omega
    · rw [if_neg hc]
      exact neg_le_neg (Int.ediv_le_ediv (by omega) (by omega))

theorem dvd_upTo : step ∣ upTo step n := Dvd.intro_left _ rfl

theorem le_upTo (hs : 0 < step) : n ≤ upTo step n := by
  have := Int.ediv_mul_le (-n) (ne_of_gt hs)
  unfold upTo
  linarith

theorem upTo_mono (hs : 0 < step) (h : m ≤ n) : upTo step m ≤ upTo step n := by
  have := Int.ediv_le_ediv hs (neg_le_neg h)
  exact mul_le_mul_of_nonneg_right (neg_le_neg this) hs.le

/-- The loss as a fraction. -/
theorem sub_half_le_halfUp (hb : 0 < b) : (a : ℚ) / b - 1 / 2 ≤ halfUp a b := by
  have h : ((2 * a - b : Int) : ℚ) ≤ ((2 * b * halfUp a b : Int) : ℚ) := by
    exact_mod_cast le_halfUp hb
  have hb' : (0 : ℚ) < b := by exact_mod_cast hb
  push_cast at h
  rw [sub_le_iff_le_add, div_le_iff₀ hb']
  linarith

end Ghajar.Rounding
