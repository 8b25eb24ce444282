import Ghajar.Lib.Bytes

/-!
# Frames on the Virtual Hub

The layer-2 part of `native/ghajar-helper/softether.go`: addresses, the frames that are built
(`ethFrame`, `arpPacket`, `udpIPv4`), and what `handleFrame` reads in a frame before it does
anything about it (`content`).
-/

namespace Ghajar.Softether

open Bytes

/-! ## Addresses -/

/-- A hardware address of six bytes. -/
abbrev Mac := { b : List UInt8 // b.length = 6 }

def bcastMAC : Mac := ⟨[0xff, 0xff, 0xff, 0xff, 0xff, 0xff], rfl⟩

/-- `make(net.HardwareAddr, 6)`. -/
def zeroMAC : Mac := ⟨[0, 0, 0, 0, 0, 0], rfl⟩

/-- `netip.Addr`; the zero value is `none` where it can occur. -/
inductive Addr
  | v4 (n : UInt32)
  | v6 (n : Nat)
  deriving DecidableEq, Repr

namespace Addr

/-- `As4`, which panics for an IPv6 address that is not IPv4-mapped. -/
def as4 : Addr → Option (List UInt8)
  | v4 n => some (be32 n)
  | v6 n => if n / 2 ^ 32 = 0xffff then some (be32 (UInt32.ofNat n)) else none

def isUnspecified : Addr → Bool
  | v4 n => n == 0
  | v6 n => n == 0

/-- `netip.AddrFrom4` of four bytes. -/
def from4 (b : List UInt8) : Addr := v4 (rd32 b)

def zero : Addr := v4 0

/-- 255.255.255.255. -/
def broadcast : Addr := v4 0xffffffff

end Addr

/-- `As4` of an address that may be the zero value, for which it panics too. -/
def as4 (a : Option Addr) : Option (List UInt8) := a.bind Addr.as4

/-! ## What is built -/

def ethFrame (dst src : Mac) (typ : UInt16) (payload : List UInt8) : List UInt8 :=
  dst.1 ++ (src.1 ++ (be16 typ ++ payload))

/-- `none` when an address has no four-byte form. -/
def arpPacket (op : UInt16) (sha : Mac) (spa : Option Addr) (tha : Mac) (tpa : Option Addr) :
    Option (List UInt8) := do
  let s4 ← as4 spa
  let t4 ← as4 tpa
  some (be16 1 ++ be16 0x0800 ++ [6, 4] ++ be16 op ++ (sha.1 ++ (s4 ++ (tha.1 ++ t4))))

/-- The sum of the words of sixteen bits, an odd last byte as the high one. -/
def wordSum : List UInt8 → Nat
  | a :: b :: bs => a.toNat * 256 + b.toNat + wordSum bs
  | [a] => a.toNat * 256
  | [] => 0

/-- Folds the carries in, in at most as many rounds as there are words of a sum of 32 bits. -/
def foldCarry : Nat → Nat → Nat
  | 0, s => s
  | n + 1, s => if s / 65536 ≠ 0 then foldCarry n (s % 65536 + s / 65536) else s

def ipChecksum (b : List UInt8) : UInt16 := ~~~UInt16.ofNat (foldCarry 4 (wordSum b % 2 ^ 32))

/-- An IPv4/UDP packet; the UDP checksum 0 is allowed for IPv4. -/
def udpIPv4 (src dst : Option Addr) (sport dport : UInt16) (payload : List UInt8) :
    Option (List UInt8) := do
  let s4 ← as4 src
  let d4 ← as4 dst
  let start := [0x45, 0] ++ be16 (UInt16.ofNat (28 + payload.length)) ++ [0, 0, 0, 0, 64, 17]
  let sum := ipChecksum (start ++ [0, 0] ++ s4 ++ d4)
  some (start ++ be16 sum ++ s4 ++ d4 ++ be16 sport ++ be16 dport ++
    be16 (UInt16.ofNat (8 + payload.length)) ++ [0, 0] ++ payload)

/-! ## What is read -/

/-- Six bytes of a packet that are there. -/
def macAt (b : List UInt8) (i : Nat) (h : i + 6 ≤ b.length) : Mac :=
  ⟨(b.drop i).take 6, by rw [List.length_take, List.length_drop]; omega⟩

/-- `binary.BigEndian.Uint16(b[i:])`. -/
def u16At (b : List UInt8) (i : Nat) : UInt16 := rd16 ((b.drop i).take 2)

def addrAt (b : List UInt8) (i : Nat) : Addr := .from4 ((b.drop i).take 4)

/-- A frame for us: an ARP packet, the payload of a datagram to port 68, or another IPv4 packet. -/
inductive Content
  | arp (op : UInt16) (sha : Mac) (spa tpa : Addr)
  | dhcp (m : List UInt8)
  | packet (p : List UInt8)
  deriving DecidableEq

def arpContent (payload : List UInt8) : Option Content :=
  if h : payload.length < 28 then none
  else if u16At payload 2 ≠ 0x0800 then none
  else some (.arp (u16At payload 6) (macAt payload 8 (by omega)) (addrAt payload 14)
    (addrAt payload 24))

def ipContent (payload : List UInt8) : Option Content :=
  if payload.length < 20 ∨ payload.getD 0 0 >>> 4 ≠ 4 then none
  else
    let total := (u16At payload 2).toNat
    if total < 20 ∨ payload.length < total then none
    else
      let payload := payload.take total
      let ihl := (payload.getD 0 0 &&& 0x0f).toNat * 4
      if payload.getD 9 0 = 17 ∧ ihl + 8 ≤ payload.length ∧ u16At payload (ihl + 2) = 68 then
        some (.dhcp (payload.drop (ihl + 8)))
      else some (.packet payload)

/-- The checks of `handleFrame`; `none` is a frame it ignores. -/
def content (mac : Mac) (f : List UInt8) : Option Content :=
  if f.length < 14 then none
  else if f.take 6 ≠ mac.1 ∧ f.take 6 ≠ bcastMAC.1 then none
  else if u16At f 12 = 0x0806 then arpContent (f.drop 14)
  else if u16At f 12 = 0x0800 then ipContent (f.drop 14)
  else none

end Ghajar.Softether
