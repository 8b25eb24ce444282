import Mathlib

/-!
# Longs

Arithmetic of 64-bit signed integers as it wraps, on the integers they stand for. Each operation is
the exact one as long as its result is a long.
-/

namespace Ghajar.Long

/-- The long that a whole result is cut to. -/
def wrap (n : Int) : Int := n.bmod (2 ^ 64)

def add (a b : Int) : Int := wrap (a + b)

def sub (a b : Int) : Int := wrap (a - b)

def mul (a b : Int) : Int := wrap (a * b)

/-- A quotient is cut towards zero; only the least long over minus one wraps. -/
def div (a b : Int) : Int := wrap (a.tdiv b)

/-- The low 32 bits, with their sign. -/
def toInt (n : Int) : Int := n.bmod (2 ^ 32)

variable {a b n : Int}

theorem wrap_eq (h1 : -2 ^ 63 ≤ n) (h2 : n < 2 ^ 63) : wrap n = n :=
  Int.bmod_eq_of_le (by omega) (by omega)

/-- A result that is too large by less than the whole range has the range taken off. -/
theorem wrap_over (h1 : 2 ^ 63 ≤ n) (h2 : n < 2 ^ 64 + 2 ^ 63) : wrap n = n - 2 ^ 64 := by
  have h : wrap n = wrap (n - 2 ^ 64) := by
    have hc := Int.sub_bmod_right n (2 ^ 64)
    push_cast at hc
    exact hc.symm
  rw [h, wrap_eq (by omega) (by omega)]

theorem toInt_eq (h1 : -2 ^ 31 ≤ n) (h2 : n < 2 ^ 31) : toInt n = n :=
  Int.bmod_eq_of_le (by omega) (by omega)

theorem sub_eq (h1 : -2 ^ 63 ≤ a - b) (h2 : a - b < 2 ^ 63) : sub a b = a - b := wrap_eq h1 h2

theorem mul_eq (h1 : -2 ^ 63 ≤ a * b) (h2 : a * b < 2 ^ 63) : mul a b = a * b := wrap_eq h1 h2

/-- A quotient is as exact as what it is cut to. -/
theorem div_eq (h : a.tdiv b = n) (h1 : -2 ^ 63 ≤ n) (h2 : n < 2 ^ 63) : div a b = n := by
  unfold div
  rw [h, wrap_eq h1 h2]

end Ghajar.Long
