import Ghajar.Lib.ByteReader

/-!
# SoftEther packs

The named values of a connection's setup (`native/ghajar-helper/softether.go`).
A pack keeps its names in the order they came, each with its values. `marshal`
writes a name once, with the type of its first value; every value is then
written by its own type, a wide string with a zero behind it. `unmarshalPack`
reads elements, whose values all have the element's type, and adds them up.
-/

namespace Ghajar.Softether

open ByteReader Bytes

def packInt : UInt32 := 0
def packData : UInt32 := 1
def packStr : UInt32 := 2
def packUniStr : UInt32 := 3
def packInt64 : UInt32 := 4

structure PackValue where
  i : UInt64 := 0
  b : List UInt8 := []
  typ : UInt32
  deriving DecidableEq, Repr

/-- The names in order and the values of each: a name is there with its first value. -/
@[ext] structure Pack where
  names : List (List UInt8)
  vals : List UInt8 → List PackValue
  nodup : names.Nodup
  named : ∀ n, n ∈ names ↔ vals n ≠ []

def newPack : Pack where
  names := []
  vals := fun _ => []
  nodup := List.nodup_nil
  named := by simp

namespace Pack

def add (p : Pack) (name : List UInt8) (v : PackValue) : Pack where
  names := if p.vals name = [] then p.names ++ [name] else p.names
  vals := fun n => if n = name then p.vals name ++ [v] else p.vals n
  nodup := by
    split
    · rename_i h
      have hn : name ∉ p.names := fun hm => (p.named name).1 hm h
      rw [List.nodup_append]
      refine ⟨p.nodup, by simp, ?_⟩
      rintro a ha b hb rfl
      rw [List.mem_singleton] at hb
      exact hn (hb ▸ ha)
    · exact p.nodup
  named := by
    intro n
    have hp := p.named n
    by_cases he : n = name
    · subst he
      split <;> simp_all
    · split <;> simp_all

theorem add_vals (p : Pack) (name n : List UInt8) (v : PackValue) :
    (p.add name v).vals n = if n = name then p.vals name ++ [v] else p.vals n := rfl

def addInt (p : Pack) (n : List UInt8) (v : UInt32) : Pack :=
  p.add n { i := v.toUInt64, typ := packInt }

def addBool (p : Pack) (n : List UInt8) (v : Bool) : Pack :=
  if v then p.addInt n 1 else p.addInt n 0

def addStr (p : Pack) (n v : List UInt8) : Pack := p.add n { b := v, typ := packStr }

def addData (p : Pack) (n v : List UInt8) : Pack := p.add n { b := v, typ := packData }

end Pack

/-! ## Writing -/

/-- A value as `marshal` writes it. -/
def PackValue.bytes (v : PackValue) : List UInt8 :=
  if v.typ = packInt then be32 v.i.toUInt32
  else if v.typ = packInt64 then be64 v.i
  else if v.typ = packData ∨ v.typ = packStr then be32 (UInt32.ofNat v.b.length) ++ v.b
  else if v.typ = packUniStr then be32 (UInt32.ofNat (v.b.length + 1)) ++ (v.b ++ [0])
  else []

namespace Pack

/-- `vs[0].typ`; a name of a pack has a value. -/
def headTyp (p : Pack) (n : List UInt8) : UInt32 := (p.vals n).head?.elim packInt PackValue.typ

def elementBytes (p : Pack) (n : List UInt8) : List UInt8 :=
  be32 (UInt32.ofNat (n.length + 1)) ++ (n ++ (be32 (p.headTyp n) ++
    (be32 (UInt32.ofNat (p.vals n).length) ++ (p.vals n).flatMap PackValue.bytes)))

def marshal (p : Pack) : List UInt8 :=
  be32 (UInt32.ofNat p.names.length) ++ p.names.flatMap p.elementBytes

end Pack

/-! ## Reading -/

inductive PackErr
  | eof
  | unexpectedEof
  | truncated
  | badElementCount
  | badName
  | badValueCount
  | valueType (typ : UInt32)
  deriving DecidableEq, Repr

def PackErr.text : PackErr → String
  | .eof => "EOF"
  | .unexpectedEof => "unexpected EOF"
  | .truncated => "pack: truncated"
  | .badElementCount => "pack: bad element count"
  | .badName => "pack: bad name"
  | .badValueCount => "pack: bad value count"
  | .valueType typ => "pack: value type " ++ toString typ.toNat

def readN (n : UInt32) : ByteReader PackErr (List UInt8) :=
  readFull .truncated .truncated n.toNat

/-- The type of an element is read without a look at the error: what is left is then gone. -/
def readTyp : ByteReader PackErr UInt32 := fun s =>
  if 4 ≤ s.length then .ok (rd32 (s.take 4), s.drop 4) else .ok (0, [])

def readValue (typ : UInt32) : ByteReader PackErr PackValue :=
  if typ = packInt then do
    let x ← word32 .eof .unexpectedEof
    pure { typ := typ, i := x.toUInt64 }
  else if typ = packInt64 then do
    let x ← word64 .eof .unexpectedEof
    pure { typ := typ, i := x }
  else if typ = packData ∨ typ = packStr ∨ typ = packUniStr then do
    let n ← word32 .eof .unexpectedEof
    let b ← readN n
    pure { typ := typ, b := b }
  else fail (.valueType typ)

/-- One element, its values added to the pack as they come. -/
def readElement (p : Pack) : ByteReader PackErr Pack := do
  let nl ← word32 .badName .badName
  if nl = 0 ∨ nl > 64 then fail .badName
  else do
    let nb ← readN (nl - 1)
    let typ ← readTyp
    let num ← word32 .badValueCount .badValueCount
    if num > 65536 then fail .badValueCount
    else loop num.toNat (fun p => do
      let v ← readValue typ
      pure (p.add nb v)) p

def readPack : ByteReader PackErr Pack := do
  let count ← word32 .badElementCount .badElementCount
  if count > 4096 then fail .badElementCount
  else loop count.toNat readElement newPack

/-- The pack of some bytes; bytes behind it do not matter. -/
def unmarshalPack (data : List UInt8) : Except PackErr Pack :=
  match readPack data with
  | .ok (p, _) => .ok p
  | .error e => .error e

end Ghajar.Softether
