import Mathlib

/-!
# Numbers as bytes of seven bits

The lowest seven bits come first, and every byte but the last has its highest bit set. `value` is
the number without a bound, `Spelled` says what bytes spell one; a number has many spellings, of
which `encode` is the shortest.
-/

namespace Varint

def value : List UInt8 → Nat
  | [] => 0
  | b :: bs => b.toNat % 128 + 128 * value bs

/-- The first byte below 128 is the last one. -/
def Spelled : List UInt8 → Prop
  | [] => False
  | b :: bs => if b.toNat < 128 then bs = [] else Spelled bs

def encode (n : Nat) : List UInt8 :=
  if n < 128 then [.ofNat n] else .ofNat (n % 128 + 128) :: encode (n / 128)

theorem encode_spelled (n : Nat) : Spelled (encode n) := by
  induction n using encode.induct with
  | case1 n h =>
    rw [encode, if_pos h, Spelled, UInt8.toNat_ofNat', if_pos (by omega)]
  | case2 n h ih =>
    rw [encode, if_neg h, Spelled, UInt8.toNat_ofNat', if_neg (by omega)]
    exact ih

theorem value_encode (n : Nat) : value (encode n) = n := by
  induction n using encode.induct with
  | case1 n h =>
    rw [encode, if_pos h, value, value, UInt8.toNat_ofNat']
    omega
  | case2 n h ih =>
    rw [encode, if_neg h, value, ih, UInt8.toNat_ofNat']
    omega

theorem encode_length {n k : Nat} (h : n < 128 ^ (k + 1)) : (encode n).length ≤ k + 1 := by
  induction k generalizing n with
  | zero =>
    rw [encode, if_pos (by simpa using h)]
    rfl
  | succ k ih =>
    rw [encode]
    split
    · exact Nat.succ_pos _
    · have hdiv : n / 128 < 128 ^ (k + 1) :=
        Nat.div_lt_of_lt_mul (by rw [← pow_succ']; exact h)
      exact Nat.succ_le_succ (ih hdiv)

/-- One more group of seven bits, above the ones there are. -/
theorem or_shiftLeft {x : UInt64} {c s : Nat} (hx : x.toNat < 2 ^ s) (hs : s < 64) (hc : c < 256) :
    (x ||| UInt64.ofNat c <<< UInt64.ofNat s).toNat = x.toNat + c * 2 ^ s % 2 ^ 64 := by
  have hshift : (UInt64.ofNat c <<< UInt64.ofNat s).toNat = 2 ^ s * (c % 2 ^ (64 - s)) := by
    rw [UInt64.toNat_shiftLeft, UInt64.toNat_ofNat', UInt64.toNat_ofNat', Nat.shiftLeft_eq,
      Nat.mod_eq_of_lt (by omega : c < 2 ^ 64), Nat.mod_eq_of_lt (by omega : s < 2 ^ 64),
      Nat.mod_eq_of_lt hs, Nat.mul_comm, ← Nat.mul_mod_mul_left, ← Nat.pow_add]
    rw [show s + (64 - s) = 64 by omega]
  rw [UInt64.toNat_or, hshift, Nat.or_comm, ← Nat.two_pow_add_eq_or_of_lt hx, Nat.add_comm,
    ← Nat.mul_mod_mul_left, ← Nat.pow_add, show s + (64 - s) = 64 by omega, Nat.mul_comm]

end Varint
