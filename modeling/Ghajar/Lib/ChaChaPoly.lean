import Ghajar.Lib.Bytes
import Mathlib.Algebra.Order.Ring.Nat
import Mathlib.Data.Nat.ModEq
import Mathlib.Logic.Function.Iterate

/-!
# ChaCha20 and Poly1305 in numbers (RFC 8439)

Words are numbers below `2^32` and messages are lists of bytes. The key stream is
a function of the byte's place, and the authenticator is the value of a polynomial
at the clamped key, reduced once, so neither says how it is computed.
-/

namespace ChaChaPoly

open Bytes

variable {α : Type}

/-! ## Parts of a message -/

/-- `l` in parts of `n`, the last of them as long as what is left. -/
def chunks (n : Nat) (l : List α) : List (List α) :=
  (List.range ((l.length + n - 1) / n)).map fun i => (l.drop (n * i)).take n

theorem chunks_nil (n : Nat) : chunks n ([] : List α) = [] := by
  rcases Nat.eq_zero_or_pos n with rfl | hn
  · simp [chunks]
  · have h : (0 + n - 1) / n = 0 := Nat.div_eq_of_lt (by omega)
    rw [chunks, List.length_nil, h]
    rfl

theorem chunks_cons {n : Nat} (hn : 0 < n) {l : List α} (hl : l ≠ []) :
    chunks n l = l.take n :: chunks n (l.drop n) := by
  have hp : 0 < l.length := List.length_pos_of_ne_nil hl
  have hc : (l.length + n - 1) / n = (l.length - n + n - 1) / n + 1 := by
    rcases Nat.lt_or_ge l.length n with h | h
    · have h1 : (l.length - n + n - 1) / n = 0 := Nat.div_eq_of_lt (by omega)
      have h2 : l.length + n - 1 = l.length - 1 + n := by omega
      rw [h1, h2, Nat.add_div_right _ hn, Nat.div_eq_of_lt (by omega)]
    · have h2 : l.length + n - 1 = l.length - n + n - 1 + n := by omega
      rw [h2, Nat.add_div_right _ hn]
  rw [chunks, hc, List.range_succ_eq_map, List.map_cons, List.map_map, chunks, List.length_drop]
  congr 1
  apply List.map_congr_left
  intro i _
  rw [Function.comp_apply, List.drop_drop, Nat.mul_succ, Nat.add_comm n]

/-! ## The block function -/

def add32 (a b : Nat) : Nat := (a + b) % 2 ^ 32

def rotl (n x : Nat) : Nat := x * 2 ^ n % 2 ^ 32 + x / 2 ^ (32 - n)

/-- The quarter round on four words. -/
def quarter (a b c d : Nat) : Nat × Nat × Nat × Nat :=
  let a := add32 a b; let d := rotl 16 (d ^^^ a)
  let c := add32 c d; let b := rotl 12 (b ^^^ c)
  let a := add32 a b; let d := rotl 8 (d ^^^ a)
  let c := add32 c d; let b := rotl 7 (b ^^^ c)
  (a, b, c, d)

/-- The quarter round on the words of a state at `x`, `y`, `z` and `w`. -/
def quarterRound (x y z w : Nat) (s : List Nat) : List Nat :=
  match quarter (s.getD x 0) (s.getD y 0) (s.getD z 0) (s.getD w 0) with
  | (a, b, c, d) => (((s.set x a).set y b).set z c).set w d

/-- Four column rounds and four diagonal rounds. -/
def innerBlock (s : List Nat) : List Nat :=
  let s := quarterRound 0 4 8 12 s
  let s := quarterRound 1 5 9 13 s
  let s := quarterRound 2 6 10 14 s
  let s := quarterRound 3 7 11 15 s
  let s := quarterRound 0 5 10 15 s
  let s := quarterRound 1 6 11 12 s
  let s := quarterRound 2 7 8 13 s
  quarterRound 3 4 9 14 s

def words (bs : List UInt8) : List Nat := (chunks 4 bs).map leNat

def initial (key : List UInt8) (counter : Nat) (nonce : List UInt8) : List Nat :=
  [0x61707865, 0x3320646e, 0x79622d32, 0x6b206574] ++ words key ++ [counter % 2 ^ 32] ++ words nonce

def block (key : List UInt8) (counter : Nat) (nonce : List UInt8) : List UInt8 :=
  let s := initial key counter nonce
  (List.zipWith add32 (innerBlock^[10] s) s).flatMap (leBytes 4)

example : (block ((List.range 32).map .ofNat) 1 [0, 0, 0, 9, 0, 0, 0, 0x4a, 0, 0, 0, 0]).take 8 =
    [0x10, 0xf1, 0xe7, 0xe4, 0xd1, 0x3b, 0x59, 0x15] := by decide +kernel

/-! ## The cipher -/

/-- Byte `i` of the key stream from block `counter` on. -/
def keystream (key : List UInt8) (counter : Nat) (nonce : List UInt8) (i : Nat) : UInt8 :=
  (block key (counter + i / 64) nonce).getD (i % 64) 0

def chacha20 (key : List UInt8) (counter : Nat) (nonce text : List UInt8) : List UInt8 :=
  text.mapIdx fun i b => b ^^^ keystream key counter nonce i

@[simp] theorem chacha20_length (key : List UInt8) (counter : Nat) (nonce text : List UInt8) :
    (chacha20 key counter nonce text).length = text.length := by simp [chacha20]

/-- The same key stream twice is none. -/
@[simp] theorem chacha20_chacha20 (key : List UInt8) (counter : Nat) (nonce text : List UInt8) :
    chacha20 key counter nonce (chacha20 key counter nonce text) = text := by
  apply List.ext_getElem (by simp)
  intro i h1 h2
  simp [chacha20, UInt8.xor_assoc]

/-! ## The authenticator -/

def prime1305 : Nat := 2 ^ 130 - 5

def clamp (r : Nat) : Nat := r &&& 0x0ffffffc0ffffffc0ffffffc0fffffff

/-- `c₁ r^q + c₂ r^(q-1) + … + c_q r`. -/
def polyEval (r : Nat) : List Nat → Nat
  | [] => 0
  | c :: cs => c * r ^ (cs.length + 1) + polyEval r cs

/-- A part of the message as a number, with a one above its highest byte. -/
def coefficient (part : List UInt8) : Nat := leNat (part ++ [1])

def poly1305 (key msg : List UInt8) : List UInt8 :=
  let r := clamp (leNat (key.take 16))
  let s := leNat ((key.drop 16).take 16)
  leBytes 16 (polyEval r ((chunks 16 msg).map coefficient) % prime1305 + s)

/-- Adding, multiplying and reducing at each part computes the polynomial. -/
theorem foldl_polyEval (r : Nat) {p a : Nat} (ha : a < p) (cs : List Nat) :
    cs.foldl (fun acc c => (acc + c) * r % p) a = (a * r ^ cs.length + polyEval r cs) % p := by
  induction cs generalizing a with
  | nil => simp [polyEval, Nat.mod_eq_of_lt ha]
  | cons c cs ih =>
    have hlt : (a + c) * r % p < p := Nat.mod_lt _ (Nat.lt_of_le_of_lt (Nat.zero_le a) ha)
    have hm : (a + c) * r % p * r ^ cs.length + polyEval r cs ≡
        (a + c) * r * r ^ cs.length + polyEval r cs [MOD p] :=
      ((Nat.mod_modEq _ _).mul_right _).add_right _
    have he : (a + c) * r * r ^ cs.length + polyEval r cs =
        a * r ^ (cs.length + 1) + (c * r ^ (cs.length + 1) + polyEval r cs) := by ring
    rw [List.foldl_cons, ih hlt, polyEval, List.length_cons, ← he]
    exact hm

/-! ## The two together -/

def pad16 (l : List UInt8) : List UInt8 :=
  if l.length % 16 = 0 then [] else List.replicate (16 - l.length % 16) 0

def macData (aad ct : List UInt8) : List UInt8 :=
  aad ++ pad16 aad ++ ct ++ pad16 ct ++ leBytes 8 aad.length ++ leBytes 8 ct.length

def oneTimeKey (key nonce : List UInt8) : List UInt8 := (block key 0 nonce).take 32

def tag (key nonce aad ct : List UInt8) : List UInt8 :=
  poly1305 (oneTimeKey key nonce) (macData aad ct)

@[simp] theorem tag_length (key nonce aad ct : List UInt8) :
    (tag key nonce aad ct).length = 16 := by
  simp [tag, poly1305]

end ChaChaPoly
