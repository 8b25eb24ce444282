import Ghajar.Crypto.Ladder
import Ghajar.Lib.ScalarMult
import Mathlib.FieldTheory.IsAlgClosed.AlgebraicClosure

/-!
# Two parties that exchange keys

`generateKeyPair` with the random bytes as its argument. The multiples of one point commute, also
where one of them is the point at infinity and where the point has order two, so each party gets the
same secret of its own private key and the public key of the other.
-/

namespace X25519

open Bytes Montgomery WeierstrassCurve.Affine

variable {n m p : List UInt8}

theorem x25519_length : (x25519 n p).length = 32 := leBytes_length _ _

/-- What the ladder computes is below the prime, and is read back as it is. -/
theorem decodeUCoordinate_x25519 :
    decodeUCoordinate (x25519 n p) = (ladderValue (decodeScalar n) (decodeUCoordinate p)).val := by
  have hv : (ladderValue (decodeScalar n) (decodeUCoordinate p)).val < prime := ZMod.val_lt _
  rw [x25519]
  generalize (ladderValue (decodeScalar n) (decodeUCoordinate p)).val = v at hv
  have h255 : v < 2 ^ 255 := hv.trans (by decide)
  have hle : leNat (leBytes 32 v) = v := by
    rw [leNat_leBytes]
    exact Nat.mod_eq_of_lt (h255.trans (by decide))
  have hbyte : ∀ j < 8, ((leBytes 32 v).getD 31 0 &&& 127).toNat.testBit j =
      ((leBytes 32 v).getD 31 0).toNat.testBit j := by
    intro j hj
    have h127 : ∀ j < 7, (127 : UInt8).toNat.testBit j = true := by decide
    rw [UInt8.toNat_and, Nat.testBit_and]
    by_cases h7 : j < 7
    · rw [h127 j h7, Bool.and_true]
    · have htop : v.testBit 255 = false := Nat.testBit_lt_two_pow h255
      rw [← hle, testBit_leNat] at htop
      obtain rfl : j = 7 := by omega
      rw [htop, Bool.false_and]
  refine Eq.trans (Nat.eq_of_testBit_eq fun i => ?_) hle
  rw [decodeUCoordinate, testBit_leNat, testBit_leNat]
  by_cases h31 : i / 8 = 31
  · have hlen : 31 < (leBytes 32 v).length := by rw [leBytes_length]; decide
    rw [h31, Words.getD_set_self hlen, hbyte _ (Nat.mod_lt _ (by decide))]
  · rw [Words.getD_set_ne (Ne.symm h31)]

section Points

variable {K : Type} [Field K] [DecidableEq K] [Algebra (ZMod prime) K] [IsAlgClosed K]
  {P : (curve (486662 : K)).Point} {k l x : Nat}

/-- Of the coordinate zero there is only zero. -/
theorem ladderValue_zero (hk : k < 2 ^ 255) :
    algebraMap (ZMod prime) K (ladderValue k 0) = 0 := by
  obtain ⟨Q, hQ⟩ := exists_over (0 : K)
  have h0 : Over Q (algebraMap (ZMod prime) K ((0 : Nat) : ZMod prime)) := by
    rwa [Nat.cast_zero, map_zero]
  rw [ladderValue_smul hk h0, u_nsmul_zero hQ]

/-- A ladder over what another one computed has the multiple of the multiple. -/
theorem ladderValue_twice (hk : k < 2 ^ 255) (hl : l < 2 ^ 255)
    (hP : Over P (algebraMap (ZMod prime) K x)) :
    algebraMap (ZMod prime) K (ladderValue k (ladderValue l x).val) = u ((k * l) • P) := by
  have hval : algebraMap (ZMod prime) K ((ladderValue l x).val : ZMod prime) = u (l • P) := by
    rw [ZMod.natCast_zmod_val, ladderValue_smul hl hP]
  rw [mul_nsmul']
  cases hQ : l • P with
  | zero =>
    rw [hQ, ZMod.natCast_zmod_val] at hval
    have hzero : ladderValue l x = 0 := (map_eq_zero _).1 hval
    rw [hzero, ZMod.val_zero, ladderValue_zero hk]
    have hnone : k • (Point.zero : (curve (486662 : K)).Point) = 0 := nsmul_zero k
    rw [hnone]
    rfl
  | some X Y h =>
    rw [hQ] at hval
    exact ladderValue_smul hk (by
      rw [hval]
      exact ⟨Y, h, rfl⟩)

end Points

open Classical in
/-- The two scalars may be exchanged. -/
theorem x25519_comm (hn : n.length = 32) (hm : m.length = 32) :
    x25519 n (x25519 m p) = x25519 m (x25519 n p) := by
  obtain ⟨P, hP⟩ := exists_over
    (algebraMap (ZMod prime) (AlgebraicClosure (ZMod prime)) (decodeUCoordinate p : ZMod prime))
  have hk := decodeScalar_lt hn
  have hl := decodeScalar_lt hm
  have he : ladderValue (decodeScalar n) (decodeUCoordinate (x25519 m p)) =
      ladderValue (decodeScalar m) (decodeUCoordinate (x25519 n p)) := by
    apply (algebraMap (ZMod prime) (AlgebraicClosure (ZMod prime))).injective
    rw [decodeUCoordinate_x25519, decodeUCoordinate_x25519, ladderValue_twice hk hl hP,
      ladderValue_twice hl hk hP, mul_comm]
  rw [x25519, he]
  rfl

end X25519

namespace Ghajar.Curve25519

open Words Checked

/-- The private key made of what `SecureRandom` gives. -/
def privateKey (random : List UInt8) : List UInt8 :=
  let priv := random.set 0 (toByte (toInt (random.getD 0 0) &&& 248))
  priv.set 31 (toByte ((toInt (priv.getD 31 0) &&& 127) ||| 64))

/-- The private key and the public key. -/
def generateKeyPair (random : List UInt8) : Checked (List UInt8 × List UInt8) := do
  let priv := privateKey random
  let pub ← scalarmultBase priv
  return (priv, pub)

theorem privateKey_length (random : List UInt8) : (privateKey random).length = random.length := by
  rw [privateKey, List.length_set, List.length_set]

/-- The public key is nine times the private one. -/
theorem generateKeyPair_eq {r : List UInt8} (h : r.length = 32) : generateKeyPair r =
    ⟨(privateKey r, X25519.x25519 (privateKey r) ((List.replicate 32 0).set 0 9)), true⟩ := by
  have hpriv : (privateKey r).length = 32 := (privateKey_length r).trans h
  have hbase : ((List.replicate 32 (0 : UInt8)).set 0 9).length = 32 := rfl
  have hok := (scalarmult_ok hpriv hbase).eq
  dsimp only [generateKeyPair]
  rw [scalarmultBase, hok]
  rfl

/-- **Two parties that exchange their public keys get the same secret.** No word overflows. -/
theorem keys_agree {r r' : List UInt8} (h : r.length = 32) (h' : r'.length = 32) :
    ∃ n p n' p' secret, generateKeyPair r = ⟨(n, p), true⟩ ∧ generateKeyPair r' = ⟨(n', p'), true⟩ ∧
      scalarmult n p' = ⟨secret, true⟩ ∧ scalarmult n' p = ⟨secret, true⟩ := by
  have hn : (privateKey r).length = 32 := (privateKey_length r).trans h
  have hn' : (privateKey r').length = 32 := (privateKey_length r').trans h'
  refine ⟨_, _, _, _, _, generateKeyPair_eq h, generateKeyPair_eq h',
    (scalarmult_ok hn X25519.x25519_length).eq, ?_⟩
  rw [X25519.x25519_comm hn hn']
  exact (scalarmult_ok hn' X25519.x25519_length).eq

theorem keys_agree_one : ∃ n p n' p' secret,
    generateKeyPair (List.replicate 32 1) = ⟨(n, p), true⟩ ∧
      generateKeyPair (List.replicate 32 2) = ⟨(n', p'), true⟩ ∧
      scalarmult n p' = ⟨secret, true⟩ ∧ scalarmult n' p = ⟨secret, true⟩ :=
  keys_agree rfl rfl

end Ghajar.Curve25519
