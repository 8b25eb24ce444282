import Ghajar.Lib.Words
import Mathlib.Algebra.BigOperators.Intervals
import Mathlib.Data.BitVec
import Mathlib.Tactic.Linarith
import Mathlib.Tactic.Positivity
import Mathlib.Tactic.Ring

/-!
# Numbers in limbs of sixteen bits

`limb t k` is the signed limb of weight `65536 ^ k`, and `part t n` the number that
the limbs below `n` stand for, whatever their size and sign. Changing one limb
changes the number by the difference at its weight.
-/

namespace Limbs

def limb (t : List (BitVec 64)) (k : Nat) : Int := (t.getD k 0).toInt

def part (t : List (BitVec 64)) (n : Nat) : Int :=
  ∑ k ∈ Finset.range n, limb t k * 65536 ^ k

variable {s t : List (BitVec 64)} {v : BitVec 64} {j k n : Nat}

@[simp] theorem limb_set_self (h : k < t.length) : limb (t.set k v) k = v.toInt := by
  rw [limb, Words.getD_set_self h]

@[simp] theorem limb_set_ne (h : k ≠ j) : limb (t.set k v) j = limb t j := by
  rw [limb, limb, Words.getD_set_ne h]

@[simp] theorem limb_zero : limb (List.replicate n 0) k = 0 := by
  rw [limb, List.getD_eq_getElem?_getD, List.getElem?_replicate]
  split <;> rfl

theorem limb_of_le (h : t.length ≤ k) : limb t k = 0 := by
  rw [limb, List.getD_eq_getElem?_getD, List.getElem?_eq_none h]
  rfl

theorem limb_take (h : k < n) : limb (t.take n) k = limb t k := by
  rw [limb, limb, List.getD_eq_getElem?_getD, List.getElem?_take_of_lt h,
    List.getD_eq_getElem?_getD]

theorem limb_drop (m k : Nat) : limb (t.drop m) k = limb t (m + k) := by
  rw [limb, limb, List.getD_eq_getElem?_getD, List.getElem?_drop, List.getD_eq_getElem?_getD]

theorem part_succ (t : List (BitVec 64)) (n : Nat) :
    part t (n + 1) = part t n + limb t n * 65536 ^ n := Finset.sum_range_succ _ n

@[simp] theorem part_zero (t : List (BitVec 64)) : part t 0 = 0 := rfl

theorem part_congr (h : ∀ k < n, limb s k = limb t k) : part s n = part t n :=
  Finset.sum_congr rfl fun k hk => by rw [h k (Finset.mem_range.1 hk)]

/-- The number of the limbs from `m` on, at its weight. -/
theorem part_drop (t : List (BitVec 64)) (m n : Nat) :
    part t (m + n) = part t m + 65536 ^ m * part (t.drop m) n := by
  induction n with
  | zero => rw [Nat.add_zero, part_zero, mul_zero, add_zero]
  | succ n ih =>
    rw [← Nat.add_assoc, part_succ, ih, part_succ, limb_drop, pow_add]
    ring

theorem part_linear {o : List (BitVec 64)} (m : Int)
    (h : ∀ k < n, limb o k = limb s k + m * limb t k) : part o n = part s n + m * part t n := by
  induction n with
  | zero => simp
  | succ n ih =>
    rw [part_succ, part_succ, part_succ, ih fun k hk => h k (Nat.lt_succ_of_lt hk),
      h n (Nat.lt_succ_self n)]
    ring

/-- A number with one limb changed. -/
theorem part_changed (hk : k < n) (h : ∀ j < n, j ≠ k → limb s j = limb t j) :
    part s n = part t n + (limb s k - limb t k) * 65536 ^ k := by
  have hd : part s n - part t n = (limb s k - limb t k) * 65536 ^ k := by
    rw [part, part, ← Finset.sum_sub_distrib, Finset.sum_eq_single_of_mem k (Finset.mem_range.2 hk)]
    · ring
    · intro j hj hjk
      rw [h j (Finset.mem_range.1 hj) hjk, sub_self]
  omega

theorem part_set (hk : k < n) (hl : k < t.length) :
    part (t.set k v) n = part t n + (v.toInt - limb t k) * 65536 ^ k := by
  rw [part_changed hk fun j _ hj => limb_set_ne hj.symm, limb_set_self hl]

/-- A number with two limbs changed. -/
theorem part_changed₂ {i : Nat} (hi : i < n) (hk : k < n) (hik : i ≠ k)
    (h : ∀ j < n, j ≠ i → j ≠ k → limb s j = limb t j) :
    part s n = part t n + (limb s i - limb t i) * 65536 ^ i + (limb s k - limb t k) * 65536 ^ k := by
  have hd : part s n - part t n =
      (limb s i - limb t i) * 65536 ^ i + (limb s k - limb t k) * 65536 ^ k := by
    rw [part, part, ← Finset.sum_sub_distrib,
      Finset.sum_eq_add_of_mem i k (Finset.mem_range.2 hi) (Finset.mem_range.2 hk) hik]
    · ring
    · intro j hj hjk
      rw [h j (Finset.mem_range.1 hj) hjk.1 hjk.2, sub_self]
  omega

/-- Every limb has its sixteen bits and no sign. -/
def Carried (t : List (BitVec 64)) (n : Nat) : Prop := ∀ k < n, 0 ≤ limb t k ∧ limb t k < 65536

theorem Carried.part_lt (h : Carried t n) : 0 ≤ part t n ∧ part t n < 65536 ^ n := by
  induction n with
  | zero => simp
  | succ n ih =>
    have hp := ih fun k hk => h k (by omega)
    have hn := h n (by omega)
    have hw : (0 : Int) < 65536 ^ n := by positivity
    rw [part_succ, pow_succ]
    constructor
    · nlinarith
    · nlinarith

end Limbs
