import Mathlib.Data.BitVec
import Mathlib.Data.List.Basic
import Mathlib.Tactic.NormNum
import Mathlib.Tactic.Positivity

/-!
# 64-bit arithmetic that remembers an overflow

The operations are those of the machine, so they wrap; beside its result a
computation carries whether every addition, subtraction, multiplication and shift
in it was exact. `Ok m P` says that all of them were and the result has `P`; it
has one rule for each operation and one for a loop over the numbers below `n`.
-/

structure Checked (α : Type) where
  val : α
  safe : Bool

namespace Checked

variable {α β : Type}

instance : Monad Checked where
  pure a := ⟨a, true⟩
  bind m k := ⟨(k m.val).val, m.safe && (k m.val).safe⟩

instance : LawfulMonad Checked :=
  LawfulMonad.mk' Checked (fun m => by cases m; simp [Functor.map])
    (fun a k => by simp [bind, pure]) (fun m k l => by simp [bind, Bool.and_assoc])

/-! ## Operations -/

def add (a b : BitVec 64) : Checked (BitVec 64) := ⟨a + b, !a.saddOverflow b⟩

def sub (a b : BitVec 64) : Checked (BitVec 64) := ⟨a - b, !a.ssubOverflow b⟩

def mul (a b : BitVec 64) : Checked (BitVec 64) := ⟨a * b, !a.smulOverflow b⟩

/-- `a shl n`, exact where shifting back gives `a`. -/
def shl (a : BitVec 64) (n : Nat) : Checked (BitVec 64) :=
  ⟨a <<< n, ((a <<< n).sshiftRight n == a)⟩

/-! ## Rules -/

/-- No operation of `m` overflows, and its result has `P`. -/
def Ok (m : Checked α) (P : α → Prop) : Prop := m.safe = true ∧ P m.val

variable {P : α → Prop} {Q : β → Prop} {m : Checked α}

theorem ok_pure {a : α} (h : P a) : Ok (pure a) P := ⟨rfl, h⟩

theorem Ok.bind {k : α → Checked β} (hm : Ok m P) (hk : ∀ a, P a → Ok (k a) Q) :
    Ok (m >>= k) Q := by
  have h := hk m.val hm.2
  refine ⟨?_, h.2⟩
  show (m.safe && (k m.val).safe) = true
  rw [hm.1, h.1]
  rfl

theorem Ok.mono {P' : α → Prop} (h : Ok m P) (hp : ∀ a, P a → P' a) : Ok m P' :=
  ⟨h.1, hp _ h.2⟩

theorem Ok.eq {a : α} (h : Ok m (· = a)) : m = ⟨a, true⟩ := by
  obtain ⟨hs, hv⟩ := h
  cases m
  simp only at hs hv
  rw [hs, hv]

/-- A loop keeps what each of its turns keeps. -/
theorem ok_loop {n : Nat} {f : α → Nat → Checked α} (I : Nat → α → Prop)
    (step : ∀ i < n, ∀ a, I i a → Ok (f a i) (I (i + 1))) {a : α} (h : I 0 a) :
    Ok ((List.range n).foldlM f a) (I n) := by
  induction n with
  | zero => exact ok_pure h
  | succ n ih =>
    rw [List.range_succ, List.foldlM_append]
    apply Ok.bind (ih fun i hi => step i (Nat.lt_succ_of_lt hi))
    intro b hb
    rw [List.foldlM_cons]
    exact Ok.bind (step n (Nat.lt_succ_self n) b hb) fun c hc => ok_pure hc

section Arithmetic

variable {a b : BitVec 64}

theorem toInt_bmod {z : Int} (h : -2 ^ 63 ≤ z ∧ z < 2 ^ 63) : z.bmod (2 ^ 64) = z :=
  Int.bmod_eq_of_le (by omega) (by omega)

theorem ok_add (h : -2 ^ 63 ≤ a.toInt + b.toInt ∧ a.toInt + b.toInt < 2 ^ 63) :
    Ok (add a b) fun c => c.toInt = a.toInt + b.toInt := by
  refine ⟨?_, ?_⟩
  · simp only [add, BitVec.saddOverflow]
    simp; omega
  · exact (BitVec.toInt_add a b).trans (toInt_bmod h)

theorem ok_sub (h : -2 ^ 63 ≤ a.toInt - b.toInt ∧ a.toInt - b.toInt < 2 ^ 63) :
    Ok (sub a b) fun c => c.toInt = a.toInt - b.toInt := by
  refine ⟨?_, ?_⟩
  · simp only [sub, BitVec.ssubOverflow]
    simp; omega
  · exact BitVec.toInt_sub.trans (toInt_bmod h)

theorem ok_mul (h : -2 ^ 63 ≤ a.toInt * b.toInt ∧ a.toInt * b.toInt < 2 ^ 63) :
    Ok (mul a b) fun c => c.toInt = a.toInt * b.toInt := by
  refine ⟨?_, ?_⟩
  · simp only [mul, BitVec.smulOverflow]
    simp; omega
  · exact (BitVec.toInt_mul a b).trans (toInt_bmod h)

theorem toInt_shiftLeft {n : Nat} (hn : n < 63)
    (h : -2 ^ 63 ≤ a.toInt * 2 ^ n ∧ a.toInt * 2 ^ n < 2 ^ 63) :
    (a <<< n).toInt = a.toInt * 2 ^ n := by
  have hp : (BitVec.twoPow 64 n).toInt = 2 ^ n := by
    rw [BitVec.toInt_twoPow, if_neg (by omega), if_neg (by omega)]
  rw [BitVec.shiftLeft_eq_mul_twoPow, BitVec.toInt_mul, hp, toInt_bmod h]

theorem toInt_sshiftRight (a : BitVec 64) (n : Nat) :
    (a.sshiftRight n).toInt = a.toInt / 2 ^ n := by
  rw [BitVec.toInt_sshiftRight, Int.shiftRight_eq_div_pow]
  norm_cast

theorem ok_shl {n : Nat} (hn : n < 63)
    (h : -2 ^ 63 ≤ a.toInt * 2 ^ n ∧ a.toInt * 2 ^ n < 2 ^ 63) :
    Ok (shl a n) fun c => c.toInt = a.toInt * 2 ^ n := by
  have hb : (a <<< n).sshiftRight n = a := by
    apply BitVec.eq_of_toInt_eq
    rw [toInt_sshiftRight, toInt_shiftLeft hn h, Int.mul_ediv_cancel _ (by positivity)]
  refine ⟨?_, toInt_shiftLeft hn h⟩
  rw [shl, hb, beq_self_eq_true]

/-- The low bits do not show the sign. -/
theorem toInt_emod {n : Nat} (hn : n ≤ 64) (a : BitVec 64) :
    a.toInt % 2 ^ n = (a.toNat : Int) % 2 ^ n := by
  have hd : ((2 : Int) ^ n) ∣ 2 ^ 64 := pow_dvd_pow 2 hn
  have he : a.toInt % ((2 ^ 64 : Nat) : Int) = (a.toNat : Int) % ((2 ^ 64 : Nat) : Int) := by
    rw [BitVec.toInt_eq_toNat_bmod, Int.bmod_emod]
  rw [← Int.emod_emod_of_dvd _ hd, ← Int.emod_emod_of_dvd (a.toNat : Int) hd]
  exact congrArg (· % (2 : Int) ^ n) he

theorem toInt_and {n : Nat} (hn : n < 63) {mask : BitVec 64} (h : mask.toNat = 2 ^ n - 1)
    (a : BitVec 64) : (a &&& mask).toInt = a.toInt % 2 ^ n := by
  have hp : 2 ^ n ≤ 2 ^ 62 := Nat.pow_le_pow_right (by decide) (by omega)
  have hm : a.toNat % 2 ^ n < 2 ^ n := Nat.mod_lt _ (Nat.two_pow_pos n)
  have ht : (a &&& mask).toNat = a.toNat % 2 ^ n := by
    rw [BitVec.toNat_and, h, Nat.and_two_pow_sub_one_eq_mod]
  rw [BitVec.toInt_eq_toNat_of_lt (by omega), ht, toInt_emod (by omega)]
  norm_cast

end Arithmetic

end Checked
