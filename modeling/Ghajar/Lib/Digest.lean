import Mathlib

/-!
# Digests as text

A digest of 32 bytes, of which a program keeps the first ones as hexadecimal digits. The digits
say what the bytes are (`hex_inj`).
-/

namespace Digest

/-- A hash function with digests of 32 bytes. -/
abbrev Hash := List UInt8 → { d : List UInt8 // d.length = 32 }

/-- Two digits for a byte. -/
def hexByte (b : UInt8) : List Char :=
  [Nat.digitChar (b.toNat / 16), Nat.digitChar (b.toNat % 16)]

def hex (bs : List UInt8) : List Char := bs.flatMap hexByte

theorem digitChar_inj : ∀ m < 16, ∀ n < 16, Nat.digitChar m = Nat.digitChar n → m = n := by
  decide

theorem hexByte_inj {x y : UInt8} (h : hexByte x = hexByte y) : x = y := by
  have hx : x.toNat < 256 := x.toNat_lt
  have hy : y.toNat < 256 := y.toNat_lt
  rw [hexByte, hexByte, List.cons.injEq, List.cons.injEq] at h
  have hq := digitChar_inj _ (by omega) _ (by omega) h.1
  have hr := digitChar_inj _ (by omega) _ (by omega) h.2.1
  exact UInt8.toNat_inj.1 (by omega)

theorem hex_length (bs : List UInt8) : (hex bs).length = 2 * bs.length := by
  induction bs with
  | nil => rfl
  | cons b bs ih =>
    have hc : (hex (b :: bs)).length = 2 + (hex bs).length := by
      rw [hex, List.flatMap_cons, List.length_append]
      rfl
    rw [hc, ih, List.length_cons]
    omega

theorem hex_inj {x y : List UInt8} (h : hex x = hex y) : x = y := by
  induction x generalizing y with
  | nil =>
    cases y with
    | nil => rfl
    | cons c y => simp [hex, hexByte] at h
  | cons c x ih =>
    cases y with
    | nil => simp [hex, hexByte] at h
    | cons d y =>
      rw [hex, hex, List.flatMap_cons, List.flatMap_cons] at h
      obtain ⟨hc, ht⟩ := List.append_inj h rfl
      rw [hexByte_inj hc, ih ht]

/-- The first `n` bytes of the digest of a text. -/
def short (sha : Hash) (n : Nat) (text : List UInt8) : List UInt8 := (sha text).1.take n

theorem short_length (sha : Hash) {n : Nat} (hn : n ≤ 32) (text : List UInt8) :
    (short sha n text).length = n := by
  rw [short, List.length_take, (sha text).2]
  omega

end Digest
