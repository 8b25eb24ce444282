import Ghajar.Lib.Bytes
import Mathlib.Data.ZMod.Basic

/-!
# X25519 (RFC 7748)

The function of a scalar and a u-coordinate, as the document writes it: the scalar
is clamped, the coordinate read below `2^255`, and the ladder run over the bits of
the scalar from the highest, with its swaps put off to the next turn.
-/

namespace X25519

open Bytes

def prime : Nat := 2 ^ 255 - 19

instance : NeZero prime := ⟨by decide⟩

def a24 : Nat := 121665

def decodeScalar (k : List UInt8) : Nat :=
  let k := k.set 0 (k.getD 0 0 &&& 248)
  let k := k.set 31 (k.getD 31 0 &&& 127)
  leNat (k.set 31 (k.getD 31 0 ||| 64))

theorem decodeScalar_lt {k : List UInt8} (hk : k.length = 32) : decodeScalar k < 2 ^ 255 := by
  have h7 (b : UInt8) : ((b &&& 127) ||| 64).toNat.testBit 7 = false := by
    have h127 : (127 : UInt8).toNat.testBit 7 = false := rfl
    have h64 : (64 : UInt8).toNat.testBit 7 = false := rfl
    rw [UInt8.toNat_or, UInt8.toNat_and, Nat.testBit_or, Nat.testBit_and, h127, h64,
      Bool.and_false, Bool.or_false]
  have h31 : 31 < k.length := by omega
  apply Nat.lt_pow_two_of_testBit
  intro i hi
  rw [decodeScalar, testBit_leNat]
  rcases Nat.eq_or_lt_of_le hi with rfl | hi'
  · simpa [h31] using h7 _
  · have hl : k.length ≤ i / 8 := by omega
    simp [hl]

def decodeUCoordinate (u : List UInt8) : Nat := leNat (u.set 31 (u.getD 31 0 &&& 127))

variable {R : Type} [CommRing R]

def cswap (swap : Bool) (x y : R) : R × R := if swap then (y, x) else (x, y)

/-- The state of the ladder between two turns. -/
structure State (R : Type) where
  x₂ : R
  z₂ : R
  x₃ : R
  z₃ : R
  swap : Bool

/-- The operations of a turn on the swapped state. -/
def turn (x₁ : R) (s : State R) : State R :=
  let A := s.x₂ + s.z₂
  let AA := A ^ 2
  let B := s.x₂ - s.z₂
  let BB := B ^ 2
  let E := AA - BB
  let C := s.x₃ + s.z₃
  let D := s.x₃ - s.z₃
  let DA := D * A
  let CB := C * B
  { s with
    x₃ := (DA + CB) ^ 2
    z₃ := x₁ * (DA - CB) ^ 2
    x₂ := AA * BB
    z₂ := E * (AA + (a24 : R) * E) }

def swapped (s : State R) : State R :=
  match cswap s.swap s.x₂ s.x₃, cswap s.swap s.z₂ s.z₃ with
  | (x₂, x₃), (z₂, z₃) => { s with x₂, x₃, z₂, z₃ }

def step (k : Nat) (x₁ : R) (s : State R) (t : Nat) : State R :=
  let kₜ := k.testBit t
  { turn x₁ (swapped { s with swap := s.swap ^^ kₜ }) with swap := kₜ }

omit [CommRing R] in
/-- Undoing one swap and doing another. -/
theorem swapped_xor (s : State R) (b : Bool) :
    swapped { s with swap := s.swap ^^ b } =
      { swapped { swapped s with swap := b } with swap := s.swap ^^ b } := by
  cases s with
  | mk x₂ z₂ x₃ z₃ c => cases c <;> cases b <;> rfl

def ladder (k : Nat) (x₁ : R) : State R :=
  swapped ((List.range 255).reverse.foldl (step k x₁)
    { x₂ := 1, z₂ := 0, x₃ := x₁, z₃ := 1, swap := false })

/-- The ladder's quotient, with the inverse as a power. -/
def ladderValue (k u : Nat) : ZMod prime :=
  let s := ladder k (u : ZMod prime)
  s.x₂ * s.z₂ ^ (prime - 2)

def x25519 (k u : List UInt8) : List UInt8 :=
  leBytes 32 (ladderValue (decodeScalar k) (decodeUCoordinate u)).val

end X25519
