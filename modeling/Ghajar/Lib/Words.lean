import Mathlib.Data.BitVec
import Mathlib.Data.List.GetD

/-!
# Signed bytes and words

A byte widens with its sign to a word of 32 or 64 bits, and a word narrows to its
low byte. Bitwise operations on words are those on the bytes. An array is a list
that is read with a default and written in place.
-/

namespace Words

def toInt (b : UInt8) : BitVec 32 := b.toBitVec.signExtend 32

def toLong (b : UInt8) : BitVec 64 := b.toBitVec.signExtend 64

def toByte {w : Nat} (v : BitVec w) : UInt8 := UInt8.ofBitVec (v.setWidth 8)

theorem toByte_toNat {w : Nat} (v : BitVec w) : (toByte v).toNat = v.toNat % 256 := by
  simp [toByte, UInt8.toNat]

theorem setWidth_signExtend {w : Nat} (h : 8 ≤ w) (v : BitVec 8) :
    (v.signExtend w).setWidth 8 = v := by
  apply BitVec.eq_of_getLsbD_eq
  intro i hi
  have hw : i < w := Nat.lt_of_lt_of_le hi h
  simp only [BitVec.getLsbD_setWidth, BitVec.getLsbD_signExtend, hi, hw, decide_true,
    Bool.true_and, if_true]

@[simp] theorem toByte_toInt (b : UInt8) : toByte (toInt b) = b := by
  rw [toByte, toInt, setWidth_signExtend (by decide)]

theorem toByte_and {w : Nat} (v v' : BitVec w) : toByte (v &&& v') = toByte v &&& toByte v' := by
  rw [toByte, BitVec.setWidth_and]
  rfl

theorem toByte_or {w : Nat} (v v' : BitVec w) : toByte (v ||| v') = toByte v ||| toByte v' := by
  rw [toByte, BitVec.setWidth_or]
  rfl

theorem toByte_xor {w : Nat} (v v' : BitVec w) : toByte (v ^^^ v') = toByte v ^^^ toByte v' := by
  rw [toByte, BitVec.setWidth_xor]
  rfl

/-- `b and 0xFF` is the byte without its sign. -/
theorem toInt_and (b : UInt8) : toInt b &&& 0xFF#32 = b.toBitVec.setWidth 32 := by
  have h : ∀ v : BitVec 8, v.signExtend 32 &&& 0xFF#32 = v.setWidth 32 := by decide
  exact h b.toBitVec

theorem toLong_and (b : UInt8) : toLong b &&& 0xFF#64 = b.toBitVec.setWidth 64 := by
  have h : ∀ v : BitVec 8, v.signExtend 64 &&& 0xFF#64 = v.setWidth 64 := by decide
  exact h b.toBitVec

section Arrays

variable {α : Type} {l : List α} {i j : Nat} {v d : α}

theorem getD_set_self (h : i < l.length) : (l.set i v).getD i d = v := by
  rw [List.getD_eq_getElem _ _ (by rwa [List.length_set]), List.getElem_set_self]

theorem getD_set_ne (h : i ≠ j) : (l.set i v).getD j d = l.getD j d := by
  rw [List.getD_eq_getElem?_getD, List.getElem?_set_ne h, List.getD_eq_getElem?_getD]

end Arrays

end Words
