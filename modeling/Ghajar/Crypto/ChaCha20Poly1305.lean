import Ghajar.Lib.ChaChaPoly
import Ghajar.Lib.Words

/-!
# ChaCha20-Poly1305 of the sealed containers

`NpvContainer` writes the cipher out on 32-bit words (`Int`) and signed bytes,
and the authenticator on big integers. The arrays are lists here; a loop over an
offset keeps its offset, and what it has written so far is its `out`.
-/

namespace Ghajar.ChaCha20Poly1305

open Bytes Words

/-! ## Words and bytes -/

def le32 (b : List UInt8) (o : Nat) : BitVec 32 :=
  (toInt (b.getD o 0) &&& 0xFF#32) ||| ((toInt (b.getD (o + 1) 0) &&& 0xFF#32) <<< 8) |||
    ((toInt (b.getD (o + 2) 0) &&& 0xFF#32) <<< 16) |||
    ((toInt (b.getD (o + 3) 0) &&& 0xFF#32) <<< 24)

/-! ## Blocks -/

def qr (a b c d : Nat) (x : List (BitVec 32)) : List (BitVec 32) :=
  let x := x.set a (x.getD a 0 + x.getD b 0)
  let x := x.set d ((x.getD d 0 ^^^ x.getD a 0).rotateLeft 16)
  let x := x.set c (x.getD c 0 + x.getD d 0)
  let x := x.set b ((x.getD b 0 ^^^ x.getD c 0).rotateLeft 12)
  let x := x.set a (x.getD a 0 + x.getD b 0)
  let x := x.set d ((x.getD d 0 ^^^ x.getD a 0).rotateLeft 8)
  let x := x.set c (x.getD c 0 + x.getD d 0)
  x.set b ((x.getD b 0 ^^^ x.getD c 0).rotateLeft 7)

/-- The body of `repeat(10)`. -/
def rounds (x : List (BitVec 32)) : List (BitVec 32) :=
  let x := qr 0 4 8 12 x
  let x := qr 1 5 9 13 x
  let x := qr 2 6 10 14 x
  let x := qr 3 7 11 15 x
  let x := qr 0 5 10 15 x
  let x := qr 1 6 11 12 x
  let x := qr 2 7 8 13 x
  qr 3 4 9 14 x

/-- The words `s` that a block starts from. -/
def start (key : List UInt8) (counter : BitVec 32) (nonce : List UInt8) : List (BitVec 32) :=
  [0x61707865, 0x3320646e, 0x79622d32, 0x6b206574] ++
    (List.range 8).map (fun i => le32 key (i * 4)) ++ [counter] ++
    (List.range 3).map (fun i => le32 nonce (i * 4))

/-- The four bytes of `v` in `out`. -/
def outBytes (v : BitVec 32) : List UInt8 :=
  [toByte v, toByte (v >>> 8), toByte (v >>> 16), toByte (v >>> 24)]

def block (key : List UInt8) (counter : BitVec 32) (nonce : List UInt8) : List UInt8 :=
  let s := start key counter nonce
  (List.zipWith (· + ·) (rounds^[10] s) s).flatMap outBytes

def xorLoop (key nonce input : List UInt8) (counter : BitVec 32) (off : Nat)
    (out : List UInt8) : List UInt8 :=
  if off < input.length then
    let ks := block key counter nonce
    let n := min 64 (input.length - off)
    xorLoop key nonce input (counter + 1) (off + n)
      (out ++ (List.range n).map fun i =>
        toByte (toInt (input.getD (off + i) 0) ^^^ toInt (ks.getD i 0)))
  else out
termination_by input.length - off
decreasing_by omega

def xor (key nonce input : List UInt8) (counter0 : BitVec 32) : List UInt8 :=
  xorLoop key nonce input counter0 0 []

/-! ## The authenticator -/

/-- The bits of a number that is not negative (`BigInteger.bitLength`). -/
def bitLength (n : Nat) : Nat := if n = 0 then 0 else n.log2 + 1

/-- `BigInteger.toByteArray`: the highest byte first, in as many bytes as the bits and a sign. -/
def toByteArray (n : Nat) : List UInt8 := (leBytes (bitLength n / 8 + 1) n).reverse

/-- `BigInteger(1, bytes)`: the highest byte first. -/
def bigInteger (bytes : List UInt8) : Nat := leNat bytes.reverse

def leInt (b : List UInt8) : Nat := bigInteger b.reverse

def masked (mask : BitVec 32) (i : Nat) (b : List UInt8) : List UInt8 :=
  b.set i (toByte (toInt (b.getD i 0) &&& mask))

def rBytes (key : List UInt8) : List UInt8 :=
  masked 252 12 (masked 252 8 (masked 252 4
    (masked 15 15 (masked 15 11 (masked 15 7 (masked 15 3 (key.take 16)))))))

def polyLoop (r p : Nat) (msg : List UInt8) (acc i : Nat) : Nat :=
  if i < msg.length then
    let n := min 16 (msg.length - i)
    let chunk := (msg.drop i).take n ++ [1]
    polyLoop r p msg ((acc + leInt chunk) * r % p) (i + n)
  else acc
termination_by msg.length - i
decreasing_by omega

def poly1305 (key msg : List UInt8) : List UInt8 :=
  let p := 1 <<< 130 - 5
  let r := leInt (rBytes key)
  let s := leInt ((key.drop 16).take 16)
  let acc := polyLoop r p msg 0 0
  let tag := (toByteArray (acc + s)).reverse
  (List.range 16).map fun i => if i < tag.length then tag.getD i 0 else 0

/-! ## Sealing and opening -/

def pad (n : Nat) : List UInt8 := List.replicate ((16 - n % 16) % 16) 0

def macData (aad ct : List UInt8) : List UInt8 :=
  let lens := leBytes 8 aad.length ++ leBytes 8 ct.length
  aad ++ pad aad.length ++ ct ++ pad ct.length ++ lens

def «open» (key nonce ctTag aad : List UInt8) : Option (List UInt8) :=
  if key.length ≠ 32 ∨ nonce.length ≠ 12 ∨ ctTag.length < 16 then none
  else
    let ct := ctTag.take (ctTag.length - 16)
    let tag := ctTag.drop (ctTag.length - 16)
    let polyKey := (block key 0 nonce).take 32
    let expected := poly1305 polyKey (macData aad ct)
    if expected ≠ tag then none else some (xor key nonce ct 1)

/-- `seal`, which the tests build their containers with. -/
def «seal» (key nonce pt aad : List UInt8) : List UInt8 :=
  let ct := xor key nonce pt 1
  let polyKey := (block key 0 nonce).take 32
  ct ++ poly1305 polyKey (macData aad ct)

end Ghajar.ChaCha20Poly1305
