import Ghajar.Crypto.Ladder
import Ghajar.Lib.ScalarMult
import Mathlib.FieldTheory.IsAlgClosed.AlgebraicClosure

/-!
# What the key exchange computes

The array is X25519 of the clamped scalar and no word overflows on the way. The
number it stands for is below the prime, and in any field above the coordinates it
is the u-coordinate of the multiple of a point over the given one.
-/

namespace Ghajar.Curve25519

open Bytes Montgomery
open X25519 (prime decodeScalar decodeUCoordinate)

/-- The result is read back as the ladder's value, reduced. -/
theorem leNat_x25519 (n p : List UInt8) :
    leNat (X25519.x25519 n p) =
      (X25519.ladderValue (decodeScalar n) (decodeUCoordinate p)).val := by
  have hv : (X25519.ladderValue (decodeScalar n) (decodeUCoordinate p)).val < prime :=
    ZMod.val_lt _
  have hp : prime < 256 ^ 32 := by decide
  rw [X25519.x25519, leNat_leBytes, Nat.mod_eq_of_lt (hv.trans hp)]

theorem scalarmult_is_multiple {n p : List UInt8} (hn : n.length = 32) (hp : p.length = 32) :
    scalarmult n p = ⟨X25519.x25519 n p, true⟩ ∧
      (X25519.x25519 n p).length = 32 ∧ leNat (X25519.x25519 n p) < prime ∧
      (∃ P : (curve (486662 : AlgebraicClosure (ZMod prime))).Point,
        Over P (decodeUCoordinate p : AlgebraicClosure (ZMod prime))) ∧
      ∀ (K : Type) [Field K] [DecidableEq K] [Algebra (ZMod prime) K]
        (P : (curve (486662 : K)).Point), Over P (decodeUCoordinate p : K) →
          (leNat (X25519.x25519 n p) : K) = u (decodeScalar n • P) := by
  refine ⟨(scalarmult_ok hn hp).eq, leBytes_length _ _, ?_, X25519.exists_over _, ?_⟩
  · rw [leNat_x25519]
    exact ZMod.val_lt _
  · intro K _ _ _ P hP
    have hP' : Over P (algebraMap (ZMod prime) K (decodeUCoordinate p : Nat)) := by
      rwa [map_natCast]
    rw [leNat_x25519, ← X25519.ladderValue_smul (X25519.decodeScalar_lt hn) hP',
      ← map_natCast (algebraMap (ZMod prime) K), ZMod.natCast_zmod_val]

open Classical in
/-- The base point and the least scalar, in the algebraic closure. -/
theorem base_is_multiple :
    ∃ P : (curve (486662 : AlgebraicClosure (ZMod prime))).Point,
      Over P ((9 : Nat) : AlgebraicClosure (ZMod prime)) ∧
      ∃ r, scalarmult (List.replicate 32 0) (9 :: List.replicate 31 0) = ⟨r, true⟩ ∧
        leNat r < prime ∧
        (leNat r : AlgebraicClosure (ZMod prime)) = u (2 ^ 254 • P) := by
  have h := scalarmult_is_multiple (n := List.replicate 32 0) (p := 9 :: List.replicate 31 0)
    rfl rfl
  have hk : decodeScalar (List.replicate 32 0) = 2 ^ 254 := by decide
  have hu : decodeUCoordinate (9 :: List.replicate 31 0) = 9 := by decide
  rw [hk, hu] at h
  obtain ⟨he, -, hlt, ⟨P, hP⟩, hm⟩ := h
  exact ⟨P, hP, _, he, hlt, hm _ P hP⟩

end Ghajar.Curve25519
