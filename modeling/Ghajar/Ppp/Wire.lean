import Ghajar.Lib.Reactive

/-!
# PPP frames and options

The wire formats of `native/ghajar-helper/ppp.go`: a configuration option
(type, length, value), a control packet (code, identifier, length, data) and
a frame (optional `FF 03`, protocol, payload). Protocol numbers are naturals,
everything else is bytes.
-/

namespace Ghajar.Ppp

abbrev Bytes := List UInt8

def pppLCP : Nat := 0xc021
def pppPAP : Nat := 0xc023
def pppCHAP : Nat := 0xc223
def pppIPCP : Nat := 0x8021
def chapMSv2 : UInt8 := 0x81
def lcpMRU : UInt8 := 1
def lcpACCM : UInt8 := 2
def lcpAuth : UInt8 := 3
def lcpMagic : UInt8 := 5
def ipcpAddr : UInt8 := 3
def ipcpDNS1 : UInt8 := 129
def ipcpDNS2 : UInt8 := 131
def confReq : UInt8 := 1
def confAck : UInt8 := 2
def confNak : UInt8 := 3
def confRej : UInt8 := 4
def termReq : UInt8 := 5
def termAck : UInt8 := 6
def protoRej : UInt8 := 8
def echoReq : UInt8 := 9
def echoReply : UInt8 := 10

/-- `binary.BigEndian.PutUint16` of a 16-bit truncation. -/
def be16 (n : Nat) : Bytes := [UInt8.ofNat (n / 256), UInt8.ofNat n]

/-- `binary.BigEndian.Uint16` of two bytes. -/
def rd16 (a b : UInt8) : Nat := a.toNat * 256 + b.toNat

structure PppOpt where
  t : UInt8
  v : Bytes
  deriving DecidableEq, Repr

/-- `parseOpts` with as many rounds as the input has bytes; each takes at least two. -/
def parseOptsN : Nat → Bytes → Option (List PppOpt)
  | _, [] => some []
  | 0, _ :: _ => none
  | _ + 1, [_] => none
  | n + 1, t :: l :: rest =>
    if l.toNat < 2 ∨ rest.length + 2 < l.toNat then none
    else (parseOptsN n (rest.drop (l.toNat - 2))).map (⟨t, rest.take (l.toNat - 2)⟩ :: ·)

/-- The options of a packet, `none` for `ppp: bad option`. -/
def parseOpts (b : Bytes) : Option (List PppOpt) := parseOptsN b.length b

def packOpts (o : List PppOpt) : Bytes :=
  o.flatMap fun x => x.t :: UInt8.ofNat (2 + x.v.length) :: x.v

/-- A control packet. -/
def cp (code id : UInt8) (data : Bytes) : Bytes :=
  code :: id :: be16 (4 + data.length) ++ data

/-- Strips the optional `FF 03` header: protocol and payload, `none` for an empty or short frame. -/
def splitPPP (b : Bytes) : Option (Nat × Bytes) :=
  let b := match b with
    | 0xff :: 0x03 :: r => r
    | b => b
  match b with
  | [] => none
  | p :: r =>
    if p.toNat % 2 = 1 then some (p.toNat, r)
    else match r with
      | [] => none
      | q :: r => some (rd16 p q, r)

/-- A frame that passed the checks in front of the protocol switch. -/
structure Packet where
  pr : Nat
  code : UInt8
  pid : UInt8
  data : Bytes
  /-- The whole payload, for a Protocol-Reject. -/
  pl : Bytes
  deriving DecidableEq, Repr

/-- The packet in a frame; `none` for a frame the main loop skips. -/
def packet (frame : Bytes) : Option Packet :=
  match splitPPP frame with
  | some (pr, code :: pid :: a :: b :: rest) =>
    let n := rd16 a b
    if n < 4 ∨ rest.length + 4 < n then none
    else some ⟨pr, code, pid, rest.take (n - 4), code :: pid :: a :: b :: rest⟩
  | _ => none

end Ghajar.Ppp
