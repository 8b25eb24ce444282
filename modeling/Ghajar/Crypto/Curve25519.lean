import Ghajar.Lib.Checked
import Ghajar.Lib.Words

/-!
# The key exchange of the tunnels

`Curve25519` keeps a field element in sixteen `Long`s of about sixteen bits, signed
and only partly carried between operations. A `Long` is a 64-bit word and its
arithmetic wraps; each operation also tells whether it was exact (`Checked`). An
array that is passed and changed in place is passed and returned.
-/

namespace Ghajar.Curve25519

open Words

abbrev Long := BitVec 64

/-! ## Carrying and selecting -/

/-- The turn `i` of `car25519`. -/
def carStep (o : List Long) (i : Nat) : Checked (List Long) := do
  let v ← Checked.add (o.getD i 0) (← Checked.shl 1 16)
  let o := o.set i v
  let c := (o.getD i 0).sshiftRight 16
  let k := (i + 1) * (if i < 15 then 1 else 0)
  let t ← Checked.mul 37 (← Checked.sub c 1)
  let t ← Checked.mul t (if i = 15 then 1 else 0)
  let w ← Checked.add (o.getD k 0) (← Checked.add (← Checked.sub c 1) t)
  let o := o.set k w
  let y ← Checked.sub (o.getD i 0) (← Checked.shl c 16)
  return o.set i y

def car25519 (o : List Long) : Checked (List Long) := (List.range 16).foldlM carStep o

/-- The turn `i` of `sel25519` under the mask `c`. -/
def selStep (c : Long) (pq : List Long × List Long) (i : Nat) : List Long × List Long :=
  let t := c &&& (pq.1.getD i 0 ^^^ pq.2.getD i 0)
  (pq.1.set i (pq.1.getD i 0 ^^^ t), pq.2.set i (pq.2.getD i 0 ^^^ t))

def sel25519 (p q : List Long) (b : BitVec 32) : Checked (List Long × List Long) := do
  let c := ~~~(← Checked.sub (b.signExtend 64) 1)
  return (List.range 16).foldl (selStep c) (p, q)

/-! ## Bytes -/

/-- The turn of `pack25519` for the limb `i`. -/
def borrowStep (t m : List Long) (i : Nat) : Checked (List Long) := do
  let v ← Checked.sub (← Checked.sub (t.getD i 0) 0xffff)
    (((m.getD (i - 1) 0).sshiftRight 16) &&& 1)
  let m := m.set i v
  return m.set (i - 1) (m.getD (i - 1) 0 &&& 0xffff)

/-- The body of the loop over `j` in `pack25519`: `t` less the prime, where that is not below
zero. -/
def reduceOnce (t : List Long) : Checked (List Long) := do
  let m := (List.replicate 16 0).set 0 (← Checked.sub (t.getD 0 0) 0xffed)
  let m ← (List.range 14).foldlM (fun m j => borrowStep t m (j + 1)) m
  let v ← Checked.sub (← Checked.sub (t.getD 15 0) 0x7fff)
    (((m.getD 14 0).sshiftRight 16) &&& 1)
  let m := m.set 15 v
  let b : BitVec 32 := (((m.getD 15 0).sshiftRight 16) &&& 1).setWidth 32
  let m := m.set 14 (m.getD 14 0 &&& 0xffff)
  return (← sel25519 t m (1 - b)).1

def pack25519 (n : List Long) : Checked (List UInt8) := do
  let t ← car25519 n
  let t ← car25519 t
  let t ← car25519 t
  let t ← (List.range 2).foldlM (fun t _ => reduceOnce t) t
  return (List.range 16).flatMap fun i =>
    [toByte (t.getD i 0 &&& 0xff), toByte ((t.getD i 0).sshiftRight 8 &&& 0xff)]

def unpack25519 (n : List UInt8) : Checked (List Long) := do
  let o ← (List.range 16).foldlM (fun o i => do
    let v ← Checked.add (toLong (n.getD (2 * i) 0) &&& 0xff)
      (← Checked.shl (toLong (n.getD (2 * i + 1) 0) &&& 0xff) 8)
    return o.set i v) (List.replicate 16 0)
  return o.set 15 (o.getD 15 0 &&& 0x7fff)

/-! ## Field operations -/

def add (a b : List Long) : Checked (List Long) :=
  (List.range 16).foldlM (fun o i => do
    return o.set i (← Checked.add (a.getD i 0) (b.getD i 0))) (List.replicate 16 0)

def sub (a b : List Long) : Checked (List Long) :=
  (List.range 16).foldlM (fun o i => do
    return o.set i (← Checked.sub (a.getD i 0) (b.getD i 0))) (List.replicate 16 0)

/-- The turn `j` of the inner loop of `mul`. -/
def mulStep (a b : List Long) (i : Nat) (t : List Long) (j : Nat) : Checked (List Long) := do
  return t.set (i + j)
    (← Checked.add (t.getD (i + j) 0) (← Checked.mul (a.getD i 0) (b.getD j 0)))

/-- The turn `i` of the second loop of `mul`. -/
def foldStep (t : List Long) (i : Nat) : Checked (List Long) := do
  return t.set i (← Checked.add (t.getD i 0) (← Checked.mul 38 (t.getD (i + 16) 0)))

def mul (a b : List Long) : Checked (List Long) := do
  let t ← (List.range 16).foldlM (fun t i => (List.range 16).foldlM (mulStep a b i) t)
    (List.replicate 31 0)
  let t ← (List.range 15).foldlM foldStep t
  let o := t.take 16
  let o ← car25519 o
  car25519 o

def sqr (a : List Long) : Checked (List Long) := mul a a

/-- The turn `a` of `inv25519`. -/
def invStep (i c : List Long) (a : Nat) : Checked (List Long) := do
  let c ← sqr c
  if a ≠ 2 ∧ a ≠ 4 then mul c i else return c

def inv25519 (i : List Long) : Checked (List Long) :=
  (List.range 254).foldlM (fun c j => invStep i c (253 - j)) i

def _121665 : List Long := ((List.replicate 16 0).set 0 0xDB41).set 1 1

/-! ## The ladder -/

/-- The four elements that the ladder works on. -/
structure Rungs where
  a : List Long
  b : List Long
  c : List Long
  d : List Long

def bit (z : List UInt8) (i : Nat) : BitVec 32 :=
  ((toInt (z.getD (i >>> 3) 0) &&& 0xff#32).sshiftRight (i &&& 7)) &&& 1

/-- The turn `i` of `scalarmult`. -/
def ladderStep (z : List UInt8) (x : List Long) (s : Rungs) (i : Nat) : Checked Rungs := do
  let r := bit z i
  let (a, b) ← sel25519 s.a s.b r
  let (c, d) ← sel25519 s.c s.d r
  let e ← add a c
  let a ← sub a c
  let c ← add b d
  let b ← sub b d
  let d ← sqr e
  let f ← sqr a
  let a ← mul c a
  let c ← mul b e
  let e ← add a c
  let a ← sub a c
  let b ← sqr a
  let c ← sub d f
  let a ← mul c _121665
  let a ← add a d
  let c ← mul c a
  let a ← mul d f
  let d ← mul b x
  let b ← sqr e
  let (a, b) ← sel25519 a b r
  let (c, d) ← sel25519 c d r
  return { a, b, c, d }

/-- The scalar as `scalarmult` uses it. -/
def clamped (n : List UInt8) : List UInt8 :=
  let z := (List.range 32).map fun i => n.getD i 0
  let z := z.set 31 (toByte ((toInt (z.getD 31 0) &&& 127) ||| 64))
  z.set 0 (toByte (toInt (z.getD 0 0) &&& 248))

def scalarmult (n p : List UInt8) : Checked (List UInt8) := do
  let z := clamped n
  let x ← unpack25519 p
  let zero : List Long := List.replicate 16 0
  let s ← (List.range 255).foldlM (fun s j => ladderStep z x s (254 - j))
    { a := zero.set 0 1, b := x, c := zero, d := zero.set 0 1 }
  let c ← inv25519 s.c
  let a ← mul s.a c
  pack25519 a

def scalarmultBase (n : List UInt8) : Checked (List UInt8) :=
  scalarmult n ((List.replicate 32 0).set 0 9)

end Ghajar.Curve25519
