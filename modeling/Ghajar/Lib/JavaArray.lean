import Ghajar.Lib.Bytes
import Ghajar.Lib.Exits

/-!
# Byte arrays under 32-bit indices

Indices and lengths are `Int32`, whose sums wrap. Each read checks its bounds and throws. The lemmas
go by the natural number an index was made of: below `2 ^ 31` indices are ordered like their
numbers, and from there to `2 ^ 32` they are negative.
-/

namespace JavaArray

open Bytes Exits

/-- The exceptions of the library functions. -/
inductive Thrown where
  | indexOutOfBounds
  | illegalArgument
  | json
  deriving DecidableEq, Repr

section Reads

variable {ρ : Type} (b : List UInt8)

def size : Int32 := .ofNat b.length

/-- `b.copyOfRange(lo, hi)`: the upper bound is checked against the size, and then the platform's
own function checks that the range is not turned around and begins in the array. -/
def copyOfRange (lo hi : Int32) : Exits Thrown ρ (List UInt8) :=
  if size b < hi then throws .indexOutOfBounds
  else if hi < lo then throws .illegalArgument
  else if lo < 0 ∨ size b < lo then throws .indexOutOfBounds
  else .ok ((b.drop lo.toInt.toNat).take (hi.toInt.toNat - lo.toInt.toNat))

/-- `b[i]` -/
def get (i : Int32) : Exits Thrown ρ UInt8 :=
  if i < 0 ∨ size b ≤ i then throws .indexOutOfBounds
  else .ok (b.getD i.toInt.toNat 0)

/-- `ByteBuffer.wrap(b, off, n)` -/
def wrapped (off n : Int32) : Exits Thrown ρ (List UInt8) :=
  if off < 0 ∨ size b < off ∨ size b - off < n then throws .indexOutOfBounds
  else .ok ((b.drop off.toInt.toNat).take n.toInt.toNat)

/-- `ByteBuffer.wrap(b, off, 4).int` -/
def getInt (off : Int32) : Exits Thrown ρ Int32 := do
  let w ← wrapped b off 4
  return .ofNat (rd32 w).toNat

/-- `ByteBuffer.wrap(b, off, 2).short.toInt() and 0xFFFF` -/
def getShort (off : Int32) : Exits Thrown ρ Int32 := do
  let w ← wrapped b off 2
  return .ofNat (rd16 w).toNat

end Reads

/-- The number in four bytes, the highest first. -/
def u32 (b : List UInt8) (off : Nat) : Nat := (rd32 ((b.drop off).take 4)).toNat

def u16 (b : List UInt8) (off : Nat) : Nat := (rd16 ((b.drop off).take 2)).toNat

theorem u32_lt (b : List UInt8) (off : Nat) : u32 b off < 2 ^ 32 := UInt32.toNat_lt _

theorem u16_lt (b : List UInt8) (off : Nat) : u16 b off < 2 ^ 16 := UInt16.toNat_lt _

/-! ## Order -/

section Order

variable {m n : Nat}

theorem ofNat_lt (hm : m < 2 ^ 31) (hn : n < 2 ^ 31) : Int32.ofNat m < Int32.ofNat n ↔ m < n :=
  Int32.ofNat_lt_iff_lt hm hn

theorem ofNat_le (hm : m < 2 ^ 31) (hn : n < 2 ^ 31) : Int32.ofNat m ≤ Int32.ofNat n ↔ m ≤ n :=
  Int32.ofNat_le_iff_le hm hn

theorem toInt_high (h : 2 ^ 31 ≤ n) (h' : n < 2 ^ 32) :
    (Int32.ofNat n).toInt = (n : Int) - 2 ^ 32 := by
  rw [Int32.toInt_ofNat', Int.bmod_def]
  have hmod : (n : Int) % Int32.size = n := Int.emod_eq_of_lt (by omega) (by
    show (n : Int) < 4294967296
    omega)
  rw [hmod, if_neg (by show ¬(n : Int) < (4294967296 + 1) / 2; omega)]
  rfl

/-- A number that has the highest bit is negative, so below all that do not. -/
theorem high_lt (h : 2 ^ 31 ≤ n) (h' : n < 2 ^ 32) (hm : m < 2 ^ 31) :
    Int32.ofNat n < Int32.ofNat m := by
  rw [Int32.lt_iff_toInt_lt, toInt_high h h', Int32.toInt_ofNat_of_lt hm]
  omega

theorem not_lt_high (h : 2 ^ 31 ≤ n) (h' : n < 2 ^ 32) (hm : m < 2 ^ 31) :
    ¬Int32.ofNat m < Int32.ofNat n := by
  have hlt := high_lt h h' hm
  rw [Int32.lt_iff_toInt_lt] at hlt ⊢
  omega

end Order

/-! ## Reads in range -/

section Range

variable {ρ : Type} {b : List UInt8} {i j n : Nat}

theorem copyOfRange_eq (hb : b.length < 2 ^ 31) (hij : i ≤ j) (hj : j ≤ b.length) :
    (copyOfRange b (.ofNat i) (.ofNat j) : Exits Thrown ρ _) = .ok ((b.drop i).take (j - i)) := by
  have hi : i < 2 ^ 31 := by omega
  have hj' : j < 2 ^ 31 := by omega
  have h0 : ¬Int32.ofNat i < 0 := fun h => by
    have := (ofNat_lt hi (n := 0) (by omega)).1 h
    omega
  rw [copyOfRange, size, if_neg (by rw [ofNat_lt hb hj']; omega),
    if_neg (by rw [ofNat_lt hj' hi]; omega),
    if_neg (not_or.2 ⟨h0, by rw [ofNat_lt hb hi]; omega⟩),
    Int32.toInt_ofNat_of_lt hi, Int32.toInt_ofNat_of_lt hj', Int.toNat_natCast, Int.toNat_natCast]

/-- A range of a length that is not there is never copied, whether or not its end wraps. -/
theorem not_safe_copyOfRange (hb : b.length < 2 ^ 31) (hi : i ≤ b.length) (hn : n < 2 ^ 31)
    (h : b.length < i + n) :
    ¬Safe (copyOfRange b (.ofNat i) (.ofNat (i + n)) : Exits Thrown ρ _) := by
  unfold copyOfRange size
  by_cases hw : i + n < 2 ^ 31
  · rw [if_pos ((ofNat_lt hb hw).2 h)]
    exact not_safe_throws
  · rw [if_neg (not_lt_high (by omega) (by omega) hb),
      if_pos (high_lt (by omega) (by omega) (by omega))]
    exact not_safe_throws

theorem get_eq (hb : b.length < 2 ^ 31) (hi : i < b.length) :
    (get b (.ofNat i) : Exits Thrown ρ _) = .ok (b.getD i 0) := by
  have hi' : i < 2 ^ 31 := by omega
  have h0 : ¬Int32.ofNat i < 0 := fun h => by
    have := (ofNat_lt hi' (n := 0) (by omega)).1 h
    omega
  rw [get, size, if_neg (not_or.2 ⟨h0, by rw [ofNat_le hb hi']; omega⟩),
    Int32.toInt_ofNat_of_lt hi', Int.toNat_natCast]

theorem wrapped_eq (hb : b.length < 2 ^ 31) (h : i + n ≤ b.length) :
    (wrapped b (.ofNat i) (.ofNat n) : Exits Thrown ρ _) = .ok ((b.drop i).take n) := by
  have hi : i < 2 ^ 31 := by omega
  have hn : n < 2 ^ 31 := by omega
  have h0 : ¬Int32.ofNat i < 0 := fun h => by
    have := (ofNat_lt hi (n := 0) (by omega)).1 h
    omega
  have hsub : Int32.ofNat b.length - Int32.ofNat i = Int32.ofNat (b.length - i) := by
    have hadd := Int32.ofNat_add (b.length - i) i
    rw [Nat.sub_add_cancel (by omega)] at hadd
    rw [hadd]
    exact Int32.add_sub_cancel _ _
  rw [wrapped, size, if_neg (not_or.2 ⟨h0, not_or.2 ⟨by rw [ofNat_lt hb hi]; omega, by
      rw [hsub, ofNat_lt (by omega) hn]; omega⟩⟩),
    Int32.toInt_ofNat_of_lt hi, Int32.toInt_ofNat_of_lt hn, Int.toNat_natCast, Int.toNat_natCast]

theorem getInt_eq (hb : b.length < 2 ^ 31) (h : i + 4 ≤ b.length) :
    (getInt b (.ofNat i) : Exits Thrown ρ _) = .ok (.ofNat (u32 b i)) := by
  rw [getInt]
  have hw := wrapped_eq (ρ := ρ) hb h
  rw [show (4 : Int32) = .ofNat 4 from rfl, hw]
  rfl

theorem getShort_eq (hb : b.length < 2 ^ 31) (h : i + 2 ≤ b.length) :
    (getShort b (.ofNat i) : Exits Thrown ρ _) = .ok (.ofNat (u16 b i)) := by
  rw [getShort]
  have hw := wrapped_eq (ρ := ρ) hb h
  rw [show (2 : Int32) = .ofNat 2 from rfl, hw]
  rfl

end Range

end JavaArray
