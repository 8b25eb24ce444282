import Mathlib.Algebra.BigOperators.Intervals
import Mathlib.Tactic.Ring
import Mathlib.Data.List.Basic

/-!
# Numbers as bytes

`leBytes w n` is `n` in `w` bytes, the lowest first; `leNat` is the number of
such bytes. The big-endian words of 16, 32 and 64 bits are the same bytes in reverse.
-/

namespace Bytes

def leBytes : Nat → Nat → List UInt8
  | 0, _ => []
  | w + 1, n => UInt8.ofNat n :: leBytes w (n / 256)

def leNat : List UInt8 → Nat
  | [] => 0
  | b :: bs => b.toNat + 256 * leNat bs

@[simp] theorem leBytes_length (w n : Nat) : (leBytes w n).length = w := by
  induction w generalizing n with
  | zero => rfl
  | succ w ih => simp [leBytes, ih]

theorem leNat_lt (bs : List UInt8) : leNat bs < 256 ^ bs.length := by
  induction bs with
  | nil => simp [leNat]
  | cons b bs ih =>
    have hb : b.toNat < 256 := b.toNat_lt
    simp only [leNat, List.length_cons, pow_succ]
    omega

theorem leNat_leBytes (w n : Nat) : leNat (leBytes w n) = n % 256 ^ w := by
  induction w generalizing n with
  | zero => simp [leBytes, leNat, Nat.mod_one]
  | succ w ih =>
    simp only [leBytes, leNat, ih]
    rw [pow_succ', Nat.mod_mul, UInt8.toNat_ofNat']

theorem leBytes_leNat (bs : List UInt8) : leBytes bs.length (leNat bs) = bs := by
  induction bs with
  | nil => rfl
  | cons b bs ih =>
    have hb : b.toNat < 256 := b.toNat_lt
    have hd : (b.toNat + 256 * leNat bs) / 256 = leNat bs := by omega
    have hm : UInt8.ofNat (b.toNat + 256 * leNat bs) = b := by
      apply UInt8.toNat_inj.1
      rw [UInt8.toNat_ofNat']
      omega
    simp only [List.length_cons, leNat, leBytes, hd, hm, ih]

theorem leNat_append (as bs : List UInt8) :
    leNat (as ++ bs) = leNat as + 256 ^ as.length * leNat bs := by
  induction as with
  | nil => simp [leNat]
  | cons a as ih =>
    simp only [List.cons_append, leNat, ih, List.length_cons, pow_succ]
    ring

/-- Bytes in pairs, as digits of sixteen bits. -/
theorem leNat_pairs (x y : Nat → UInt8) (n : Nat) :
    leNat ((List.range n).flatMap fun i => [x i, y i]) =
      ∑ i ∈ Finset.range n, ((x i).toNat + 256 * (y i).toNat) * 65536 ^ i := by
  induction n with
  | zero => rfl
  | succ n ih =>
    have hl : ((List.range n).flatMap fun i => [x i, y i]).length = 2 * n := by
      simp [List.length_flatMap, Nat.mul_comm]
    rw [List.range_succ, List.flatMap_append, leNat_append, ih, hl, Finset.sum_range_succ, pow_mul]
    simp only [List.flatMap_cons, List.flatMap_nil, List.append_nil, leNat]
    ring

theorem eq_flatMap_pairs {bs : List UInt8} {n : Nat} (h : bs.length = 2 * n) :
    bs = (List.range n).flatMap fun i => [bs.getD (2 * i) 0, bs.getD (2 * i + 1) 0] := by
  induction n generalizing bs with
  | zero => exact List.eq_nil_of_length_eq_zero h
  | succ n ih =>
    match bs, h with
    | a :: b :: bs, h =>
      have hb : bs.length = 2 * n := by simpa [Nat.mul_succ] using h
      rw [List.range_succ_eq_map, List.flatMap_cons, List.flatMap_map]
      conv_lhs => rw [ih hb]
      simp [Nat.mul_succ]

/-- Bit `i` is in byte `i / 8`. -/
theorem testBit_leNat (bs : List UInt8) (i : Nat) :
    (leNat bs).testBit i = (bs.getD (i / 8) 0).toNat.testBit (i % 8) := by
  induction bs generalizing i with
  | nil => simp [leNat]
  | cons b bs ih =>
    have hb : b.toNat < 2 ^ 8 := b.toNat_lt
    rw [leNat, Nat.add_comm, Nat.testBit_two_pow_mul_add (leNat bs) hb]
    rcases Nat.lt_or_ge i 8 with h | h
    · rw [if_pos h, Nat.div_eq_of_lt h, Nat.mod_eq_of_lt h]
      rfl
    · have hd : i / 8 = (i - 8) / 8 + 1 := by omega
      have hm : i % 8 = (i - 8) % 8 := by omega
      rw [if_neg (Nat.not_lt.2 h), ih, hd, hm, List.getD_cons_succ]

def be16 (v : UInt16) : List UInt8 := (leBytes 2 v.toNat).reverse

def rd16 (bs : List UInt8) : UInt16 := UInt16.ofNat (leNat bs.reverse)

def be32 (v : UInt32) : List UInt8 := (leBytes 4 v.toNat).reverse

def rd32 (bs : List UInt8) : UInt32 := UInt32.ofNat (leNat bs.reverse)

def be64 (v : UInt64) : List UInt8 := (leBytes 8 v.toNat).reverse

def rd64 (bs : List UInt8) : UInt64 := UInt64.ofNat (leNat bs.reverse)

@[simp] theorem be16_length (v : UInt16) : (be16 v).length = 2 := by simp [be16]

@[simp] theorem be32_length (v : UInt32) : (be32 v).length = 4 := by simp [be32]

@[simp] theorem be64_length (v : UInt64) : (be64 v).length = 8 := by simp [be64]

@[simp] theorem rd16_be16 (v : UInt16) : rd16 (be16 v) = v := by
  have hv : v.toNat < 256 ^ 2 := v.toNat_lt
  rw [rd16, be16, List.reverse_reverse, leNat_leBytes, Nat.mod_eq_of_lt hv, UInt16.ofNat_toNat]

@[simp] theorem rd32_be32 (v : UInt32) : rd32 (be32 v) = v := by
  have hv : v.toNat < 256 ^ 4 := v.toNat_lt
  rw [rd32, be32, List.reverse_reverse, leNat_leBytes, Nat.mod_eq_of_lt hv, UInt32.ofNat_toNat]

@[simp] theorem rd64_be64 (v : UInt64) : rd64 (be64 v) = v := by
  have hv : v.toNat < 256 ^ 8 := v.toNat_lt
  rw [rd64, be64, List.reverse_reverse, leNat_leBytes, Nat.mod_eq_of_lt hv, UInt64.ofNat_toNat]

theorem be16_rd16 {bs : List UInt8} (h : bs.length = 2) : be16 (rd16 bs) = bs := by
  have hl : bs.reverse.length = 2 := by rw [List.length_reverse, h]
  have hv : leNat bs.reverse < 2 ^ 16 := by
    have := leNat_lt bs.reverse
    rwa [hl] at this
  rw [be16, rd16, UInt16.toNat_ofNat_of_lt' hv, ← hl, leBytes_leNat, List.reverse_reverse]

theorem be32_rd32 {bs : List UInt8} (h : bs.length = 4) : be32 (rd32 bs) = bs := by
  have hl : bs.reverse.length = 4 := by rw [List.length_reverse, h]
  have hv : leNat bs.reverse < 2 ^ 32 := by
    have := leNat_lt bs.reverse
    rwa [hl] at this
  rw [be32, rd32, UInt32.toNat_ofNat_of_lt' hv, ← hl, leBytes_leNat, List.reverse_reverse]

theorem be64_rd64 {bs : List UInt8} (h : bs.length = 8) : be64 (rd64 bs) = bs := by
  have hl : bs.reverse.length = 8 := by rw [List.length_reverse, h]
  have hv : leNat bs.reverse < 2 ^ 64 := by
    have := leNat_lt bs.reverse
    rwa [hl] at this
  rw [be64, rd64, UInt64.toNat_ofNat_of_lt' hv, ← hl, leBytes_leNat, List.reverse_reverse]

theorem be32_inj {v w : UInt32} (h : be32 v = be32 w) : v = w := by
  rw [← rd32_be32 v, h, rd32_be32]

end Bytes
