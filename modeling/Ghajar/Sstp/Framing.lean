import Mathlib
import Ghajar.Lib.ByteReader
import Ghajar.Ppp.MsChap

/-!
# SSTP packets

The packets of `native/ghajar-helper/sstp.go`: a header of version, control bit and a length of
twelve bits that counts the header, and the body. `packet_reads` is the exact account of the reader,
from which the round trip follows. The Call Connected message is laid out twice, once without its
MAC to make it (`callConnected_eq`), and both are the packet that goes out.
-/

namespace Ghajar.Sstp

open Bytes ByteReader

def sstpMsgConnected : UInt16 := 4
def sstpAttrCryptoBinding : UInt8 := 3

inductive ReadError where
  | eof
  | unexpectedEOF
  | badVersion (v : UInt8)
  | badLength (n : Nat)
  /-- An index or a length out of range. -/
  | panic
  deriving DecidableEq, Repr

/-! ## Writing -/

def packet (control : Bool) (body : List UInt8) : List UInt8 :=
  [0x10, if control then 1 else 0] ++ be16 (.ofNat (4 + body.length)) ++ body

/-- What is written to the connection, or why nothing is. -/
def writePacket (control : Bool) (body : List UInt8) : Except String (List UInt8) :=
  let n := 4 + body.length
  if 0x0fff < n then .error s!"sstp packet too large: {n}" else .ok (packet control body)

/-- `sstpControl`: type, attribute count, attributes. -/
def sstpControl (msgType : UInt16) (attrs : List (List UInt8)) : List UInt8 :=
  be16 msgType ++ be16 (.ofNat attrs.length) ++ attrs.flatten

def sstpAttr (id : UInt8) (value : List UInt8) : List UInt8 :=
  [0, id] ++ be16 (.ofNat (4 + value.length)) ++ value

/-! ## Reading -/

abbrev Reader := ByteReader ReadError

/-- `b[i]` -/
def index (b : List UInt8) (i : Nat) : Reader UInt8 := b[i]?.elim (fail .panic) pure

/-- `b[i:]` -/
def sliceFrom (b : List UInt8) (i : Nat) : Reader (List UInt8) :=
  if i ≤ b.length then pure (b.drop i) else fail .panic

/-- `binary.BigEndian.Uint16(b)` -/
def uint16 (b : List UInt8) : Reader UInt16 :=
  if 2 ≤ b.length then pure (rd16 (b.take 2)) else fail .panic

/-- `io.ReadFull` into `make([]byte, n)` -/
def readMade (n : Int) : Reader (List UInt8) :=
  if n < 0 then fail .panic else readFull .eof .unexpectedEOF n.toNat

def readPacket : Reader (Bool × List UInt8) := do
  let h ← readFull .eof .unexpectedEOF 4
  let version ← index h 0
  if version ≠ 0x10 then fail (.badVersion version)
  else do
    let tail ← sliceFrom h 2
    let field ← uint16 tail
    let n := (field &&& 0x0fff).toNat
    if n < 4 then fail (.badLength n)
    else do
      let body ← readMade (n - 4)
      let flags ← index h 1
      return (flags &&& 1 == 1, body)

/-- `readPacket` on the four bytes of a header. -/
def readHeader (h0 h1 h2 h3 : UInt8) : Reader (Bool × List UInt8) :=
  if h0 ≠ 0x10 then fail (.badVersion h0)
  else
    let n := (rd16 [h2, h3] &&& 0x0fff).toNat
    if n < 4 then fail (.badLength n)
    else do
      let body ← readFull .eof .unexpectedEOF (n - 4)
      return (h1 &&& 1 == 1, body)

section Reading

variable {s rest body : List UInt8} {h0 h1 h2 h3 : UInt8} {c : Bool}

theorem readPacket_header : readPacket (h0 :: h1 :: h2 :: h3 :: s) = readHeader h0 h1 h2 h3 s := by
  have hread : (readFull .eof .unexpectedEOF 4 : Reader _) (h0 :: h1 :: h2 :: h3 :: s) =
      .ok ([h0, h1, h2, h3], s) := by
    rw [readFull, if_pos (by simp)]
    rfl
  rw [readPacket, bind_of_ok hread, @bind_of_ok _ _ _ _ _ _ s h0 rfl, readHeader]
  split
  · rfl
  · rw [@bind_of_ok _ _ _ _ _ _ s [h2, h3] rfl,
      @bind_of_ok _ _ _ _ _ _ s (rd16 [h2, h3]) rfl]
    generalize (rd16 [h2, h3] &&& 0x0fff).toNat = n
    simp only
    split
    · rfl
    · next h =>
      have hmade : readMade ((n : Int) - 4) = readFull .eof .unexpectedEOF (n - 4) := by
        rw [readMade, if_neg (by omega), show ((n : Int) - 4).toNat = n - 4 by omega]
      rw [hmade]
      rfl

theorem readPacket_short (h : s.length < 4) :
    readPacket s = .error (if s.isEmpty then .eof else .unexpectedEOF) := by
  have hread : (readFull .eof .unexpectedEOF 4 : Reader _) s =
      .error (if s.isEmpty then .eof else .unexpectedEOF) := by
    rw [readFull, if_neg (by omega)]
  exact bind_of_error hread

/-- The bytes of a packet: the upper bits of its length and of its flags are not looked at. -/
def Packet (p : Bool × List UInt8) (w : List UInt8) : Prop :=
  ∃ flags : UInt8, ∃ field : UInt16, p.1 = (flags &&& 1 == 1) ∧
    (field &&& 0x0fff).toNat = 4 + p.2.length ∧ w = [0x10, flags] ++ be16 field ++ p.2

theorem packet_reads : Reads readPacket Packet := by
  rintro s ⟨c, body⟩ rest
  match s with
  | h0 :: h1 :: h2 :: h3 :: s =>
    rw [readPacket_header]
    have htwo : be16 (rd16 [h2, h3]) = [h2, h3] := be16_rd16 rfl
    constructor
    · intro h
      rw [readHeader] at h
      split at h
      · cases h
      · next hv =>
        simp only at h
        split at h
        · cases h
        · next hn =>
          obtain ⟨b, mid, hb, hpure⟩ := bind_ok.1 h
          obtain ⟨he, rfl⟩ := pure_ok.1 hpure
          obtain ⟨rfl, rfl⟩ := Prod.mk.inj he
          obtain ⟨w, ⟨hlen, rfl⟩, rfl⟩ := (reads_readFull _ _ _ _ _ _).1 hb
          have hbody : (rd16 [h2, h3] &&& 0x0fff).toNat = 4 + w.length := by omega
          refine ⟨[0x10, h1] ++ be16 (rd16 [h2, h3]) ++ w, ⟨h1, _, rfl, hbody, rfl⟩, ?_⟩
          rw [htwo, not_not.1 hv]
          rfl
    · rintro ⟨w, ⟨flags, field, hc, hlen, rfl⟩, hs⟩
      obtain ⟨a, b, hab⟩ : ∃ a b, be16 field = [a, b] := List.length_eq_two.1 (be16_length field)
      have hfield : rd16 [a, b] = field := by rw [← hab, rd16_be16]
      rw [hab] at hs
      simp only [List.cons_append, List.nil_append, List.cons.injEq] at hs
      obtain ⟨rfl, rfl, rfl, rfl, rfl⟩ := hs
      have hbody := @Reads.ok _ _ _ _ body _ rest
        (reads_readFull ReadError.eof .unexpectedEOF body.length) ⟨rfl, rfl⟩
      simp only at hlen hc
      rw [readHeader, if_neg (by simp), hfield]
      simp only [hlen]
      rw [if_neg (by omega), Nat.add_sub_cancel_left, bind_of_ok hbody, hc]
      rfl
  | [] | [_] | [_, _] | [_, _, _] =>
    rw [readPacket_short (by simp)]
    refine ⟨fun h => (by cases h), ?_⟩
    rintro ⟨w, ⟨flags, field, -, -, rfl⟩, hs⟩
    have hl := congrArg List.length hs
    simp only [List.length_append, List.length_cons, List.length_nil, be16_length] at hl
    omega

theorem length_field {n : ℕ} (h : n ≤ 0x0fff) : (UInt16.ofNat n &&& 0x0fff).toNat = n := by
  rw [UInt16.toNat_and, UInt16.toNat_ofNat_of_lt' (by
    have : UInt16.size = 65536 := rfl
    omega)]
  exact (Nat.and_two_pow_sub_one_eq_mod n 12).trans (Nat.mod_eq_of_lt (by omega))

theorem writePacket_ok {w : List UInt8} :
    writePacket c body = .ok w ↔ 4 + body.length ≤ 0x0fff ∧ w = packet c body := by
  rw [writePacket]
  split
  · exact ⟨fun h => (by cases h), fun h => absurd h.1 (by omega)⟩
  · exact ⟨fun h => ⟨by omega, (Except.ok.inj h).symm⟩, fun h => by rw [h.2]⟩

theorem written_packet {w : List UInt8} (h : writePacket c body = .ok w) : Packet (c, body) w := by
  obtain ⟨hlen, rfl⟩ := writePacket_ok.1 h
  refine ⟨if c then 1 else 0, .ofNat (4 + body.length), ?_, length_field hlen, rfl⟩
  cases c <;> rfl

/-- What was written one after the other. -/
def writePackets (ps : List (Bool × List UInt8)) : Except String (List (List UInt8)) :=
  ps.mapM fun q => writePacket q.1 q.2

theorem written_words {ps : List (Bool × List UInt8)} {ws : List (List UInt8)}
    (h : writePackets ps = .ok ws) : Words Packet ps ws.flatten := by
  induction ps generalizing ws with
  | nil =>
    cases h
    rfl
  | cons q ps ih =>
    rw [writePackets, List.mapM_cons] at h
    cases hw : writePacket q.1 q.2 with
    | error e =>
      rw [hw] at h
      cases h
    | ok w =>
      rw [hw] at h
      change (writePackets ps >>= fun ws => pure (w :: ws)) = Except.ok ws at h
      cases hr : writePackets ps with
      | error e =>
        rw [hr] at h
        cases h
      | ok us =>
        rw [hr] at h
        cases h
        exact ⟨w, us.flatten, written_packet hw, ih hr, List.flatten_cons⟩

theorem not_panics (s : List UInt8) : readPacket s ≠ .error .panic := by
  match s with
  | h0 :: h1 :: h2 :: h3 :: s =>
    rw [readPacket_header, readHeader]
    split
    · exact fun h => (by cases h)
    · simp only
      split
      · exact fun h => (by cases h)
      · intro h
        cases hr : (readFull .eof .unexpectedEOF ((rd16 [h2, h3] &&& 0x0fff).toNat - 4) :
            Reader _) s with
        | ok q =>
          rw [bind_of_ok hr] at h
          cases h
        | error e =>
          rw [bind_of_error hr] at h
          rw [readFull] at hr
          split at hr
          · cases hr
          · cases h
            split at hr <;> cases hr
  | [] | [_] | [_, _] | [_, _, _] =>
    rw [readPacket_short (by simp)]
    simp

/-- A header that is refused. -/
inductive Refused : UInt8 → UInt8 → UInt8 → UInt8 → ReadError → Prop
  | version {h0 h1 h2 h3 : UInt8} (h : h0 ≠ 0x10) : Refused h0 h1 h2 h3 (.badVersion h0)
  | length {h1 h2 h3 : UInt8} (h : (rd16 [h2, h3] &&& 0x0fff).toNat < 4) :
      Refused 0x10 h1 h2 h3 (.badLength (rd16 [h2, h3] &&& 0x0fff).toNat)

/-- A refused header ends the reading, whatever is behind it. -/
theorem refused_error {e : ReadError} (h : Refused h0 h1 h2 h3 e) (s : List UInt8) :
    readPacket (h0 :: h1 :: h2 :: h3 :: s) = .error e := by
  rw [readPacket_header, readHeader]
  cases h with
  | version h => rw [if_pos h]; rfl
  | length h =>
    rw [if_neg (by simp)]
    simp only [if_pos h]
    rfl

end Reading

/-! ## The crypto binding -/

/-- A hash function of the library, whose blocks have 64 bytes. -/
structure Hash where
  size : Nat
  sum : List UInt8 → List UInt8
  sum_length : ∀ b, (sum b).length = size
  size_le : size ≤ 32

/-- `hmac.New`, one write and `Sum(nil)` -/
def Hash.hmac (H : Hash) (key msg : List UInt8) : List UInt8 :=
  let key := if 64 < key.length then H.sum key else key
  let key := key ++ List.replicate (64 - key.length) 0
  H.sum (key.map (· ^^^ 0x5c) ++ H.sum (key.map (· ^^^ 0x36) ++ msg))

structure Hashes where
  sha256 : List UInt8 → { d : List UInt8 // d.length = 32 }
  sha1 : List UInt8 → { d : List UInt8 // d.length = 20 }

/-- `newHash` and `size` -/
def Hashes.pick (D : Hashes) (hashProto : UInt8) : Hash :=
  if hashProto = 2 then ⟨32, fun b => (D.sha256 b).1, fun b => (D.sha256 b).2, by decide⟩
  else ⟨20, fun b => (D.sha1 b).1, fun b => (D.sha1 b).2, by decide⟩

def cmk (H : Hash) (hlak : Option (List UInt8)) : List UInt8 :=
  let seed := Ppp.ascii "SSTP inner method derived CMK" ++ [UInt8.ofNat H.size, 0, 1]
  H.hmac (hlak.getD (List.replicate 32 0)) seed

/-- `callConnected`, the value of the attribute before its MAC: reserved(3) proto(1) nonce(32)
cert hash(32) mac(32). -/
def bindingValue (H : Hash) (hashProto : UInt8) (nonce certDER : List UInt8) : List UInt8 :=
  let v := (List.replicate 100 0).set 3 hashProto
  let v := Ppp.copyAt v 4 (nonce.take 32)
  Ppp.copyAt v 36 ((H.sum certDER).take 32)

def callConnected (D : Hashes) (hashProto : UInt8) (nonce certDER : List UInt8)
    (hlak : Option (List UInt8)) : List UInt8 :=
  let H := D.pick hashProto
  let v := bindingValue H hashProto nonce certDER
  let msg := sstpControl sstpMsgConnected [sstpAttr sstpAttrCryptoBinding v]
  let pkt := [0x10, 1] ++ be16 (.ofNat (4 + msg.length)) ++ msg
  let v := Ppp.copyAt v 68 ((H.hmac (cmk H hlak) pkt).take 32)
  sstpControl sstpMsgConnected [sstpAttr sstpAttrCryptoBinding v]

section Binding

variable {H : Hash} {a b c src v : List UInt8}

theorem hmac_length (H : Hash) (key msg : List UInt8) : (H.hmac key msg).length = H.size :=
  H.sum_length _

theorem copyAt_field (h : src.length ≤ b.length) :
    Ppp.copyAt (a ++ (b ++ c)) a.length src = a ++ (src ++ b.drop src.length ++ c) := by
  rw [Ppp.copyAt, List.take_left, List.drop_append, List.drop_eq_nil_of_le (by omega),
    List.take_of_length_le (by simp only [List.length_append]; omega), List.nil_append,
    Nat.add_sub_cancel_left, List.drop_append_of_le_length h]
  simp only [List.append_assoc]

/-- A digest, and zeros up to 32 bytes. -/
def field32 (d : List UInt8) : List UInt8 := d ++ List.replicate (32 - d.length) 0

theorem field32_length (h : src.length ≤ 32) : (field32 src).length = 32 := by
  rw [field32, List.length_append, List.length_replicate]
  omega

theorem copyAt_zeros (h : src.length ≤ 32) :
    Ppp.copyAt (a ++ (List.replicate 32 0 ++ c)) a.length src = a ++ (field32 src ++ c) := by
  rw [copyAt_field (by simpa using h), List.drop_replicate, field32]

/-- What stands before the MAC. -/
def bound (H : Hash) (hashProto : UInt8) (nonce certDER : List UInt8) : List UInt8 :=
  [0, 0, 0, hashProto] ++ (nonce ++ field32 (H.sum certDER))

variable {hashProto : UInt8} {nonce certDER : List UInt8} {D : Hashes} {hlak : Option (List UInt8)}

theorem bound_length (hn : nonce.length = 32) :
    (bound H hashProto nonce certDER).length = 68 := by
  have hs := @field32_length (H.sum certDER) ((H.sum_length certDER).trans_le H.size_le)
  simp only [bound, List.length_append, List.length_cons, List.length_nil, hn, hs]

theorem bindingValue_eq (hn : nonce.length = 32) : bindingValue H hashProto nonce certDER =
    bound H hashProto nonce certDER ++ List.replicate 32 0 := by
  have hs : (H.sum certDER).length ≤ 32 := (H.sum_length certDER).trans_le H.size_le
  have hv : (List.replicate 100 (0 : UInt8)).set 3 hashProto = [0, 0, 0, hashProto] ++
      (List.replicate 32 0 ++ (List.replicate 32 0 ++ List.replicate 32 0)) := rfl
  have hfirst : Ppp.copyAt ([0, 0, 0, hashProto] ++
      (List.replicate 32 0 ++ (List.replicate 32 0 ++ List.replicate 32 0))) 4 nonce =
      [0, 0, 0, hashProto] ++ (nonce ++ (List.replicate 32 0 ++ List.replicate 32 0)) := by
    have h := copyAt_zeros (a := [0, 0, 0, hashProto])
      (c := List.replicate 32 0 ++ List.replicate 32 0) hn.le
    rwa [field32, hn, Nat.sub_self, List.replicate_zero, List.append_nil] at h
  have hhead : ([0, 0, 0, hashProto] ++ nonce).length = 36 := by
    simp only [List.length_append, List.length_cons, List.length_nil, hn]
  have hsecond := copyAt_zeros (a := [0, 0, 0, hashProto] ++ nonce)
    (c := List.replicate 32 0) hs
  rw [hhead] at hsecond
  rw [bindingValue, hv, List.take_of_length_le hn.le, List.take_of_length_le hs, hfirst,
    ← List.append_assoc [0, 0, 0, hashProto], hsecond, bound]
  simp only [List.append_assoc]

/-- The packet of the message with this value. -/
def bindingPacket (v : List UInt8) : List UInt8 :=
  packet true (sstpControl sstpMsgConnected [sstpAttr sstpAttrCryptoBinding v])

/-- What stands before the value in the packet. -/
def packetHead : List UInt8 := [0x10, 1, 0, 112, 0, 4, 0, 1, 0, 3, 0, 104]

theorem bindingPacket_eq (hv : v.length = 100) : bindingPacket v = packetHead ++ v := by
  have hmsg : sstpControl sstpMsgConnected [sstpAttr sstpAttrCryptoBinding v] =
      [0, 4, 0, 1, 0, 3, 0, 104] ++ v := by
    have htype : be16 sstpMsgConnected = [0, 4] := by decide
    have hcount : be16 (UInt16.ofNat 1) = [0, 1] := by decide
    have hlen : be16 (UInt16.ofNat (4 + 100)) = [0, 104] := by decide
    rw [sstpControl, sstpAttr, hv, List.flatten_singleton, List.length_singleton, htype, hcount,
      hlen]
    rfl
  have hlen : be16 (UInt16.ofNat (4 + (8 + 100))) = [0, 112] := by decide
  rw [bindingPacket, packet, hmsg, List.length_append, hv]
  change [0x10, 1] ++ be16 (UInt16.ofNat (4 + (8 + 100))) ++ _ = _
  rw [hlen]
  rfl

/-- The packet with its MAC set to zero. -/
def zeroMac (sent : List UInt8) : List UInt8 :=
  sent.take 80 ++ List.replicate 32 0 ++ sent.drop 112

/-- The MAC of a packet. -/
def macOf (sent : List UInt8) : List UInt8 := (sent.drop 80).take 32

theorem zeroMac_eq (hb : a.length = 68) (hm : src.length = 32) :
    zeroMac (packetHead ++ (a ++ src)) = packetHead ++ (a ++ List.replicate 32 0) := by
  have hhead : (packetHead ++ a).length = 80 := by rw [List.length_append, hb]; rfl
  have hall : (packetHead ++ a ++ src).length = 112 := by
    rw [List.length_append, hhead, hm]
  rw [← List.append_assoc, zeroMac, List.take_left' hhead, List.drop_eq_nil_of_le hall.le,
    List.append_nil, List.append_assoc]

theorem macOf_eq (hb : a.length = 68) (hm : src.length = 32) :
    macOf (packetHead ++ (a ++ src)) = src := by
  have hhead : (packetHead ++ a).length = 80 := by rw [List.length_append, hb]; rfl
  rw [← List.append_assoc, macOf, List.drop_left' hhead, List.take_of_length_le hm.le]

theorem callConnected_sent (hn : nonce.length = 32) :
    let H := D.pick hashProto
    let pkt := packetHead ++ (bound H hashProto nonce certDER ++ List.replicate 32 0)
    writePacket true (callConnected D hashProto nonce certDER hlak) = .ok
      (packetHead ++ (bound H hashProto nonce certDER ++ field32 (H.hmac (cmk H hlak) pkt))) := by
  intro H pkt
  have hb : (bound H hashProto nonce certDER).length = 68 := bound_length hn
  have hpkt : [0x10, 1] ++ be16 (.ofNat (4 + (sstpControl sstpMsgConnected
      [sstpAttr sstpAttrCryptoBinding (bindingValue H hashProto nonce certDER)]).length)) ++
      sstpControl sstpMsgConnected
        [sstpAttr sstpAttrCryptoBinding (bindingValue H hashProto nonce certDER)] = pkt := by
    rw [bindingValue_eq hn]
    exact bindingPacket_eq (by rw [List.length_append, hb, List.length_replicate])
  have hmac : (H.hmac (cmk H hlak) pkt).length ≤ 32 := (hmac_length H _ _).trans_le H.size_le
  have hfield := field32_length hmac
  have hvalue : Ppp.copyAt (bindingValue H hashProto nonce certDER) 68
      ((H.hmac (cmk H hlak) pkt).take 32) =
      bound H hashProto nonce certDER ++ field32 (H.hmac (cmk H hlak) pkt) := by
    have h := copyAt_zeros (a := bound H hashProto nonce certDER) (c := []) hmac
    rw [hb] at h
    rw [bindingValue_eq hn, List.take_of_length_le hmac]
    simpa using h
  have hmsg : callConnected D hashProto nonce certDER hlak = sstpControl sstpMsgConnected
      [sstpAttr sstpAttrCryptoBinding
        (bound H hashProto nonce certDER ++ field32 (H.hmac (cmk H hlak) pkt))] := by
    rw [← hvalue, ← hpkt]
    rfl
  have hvl : (bound H hashProto nonce certDER ++ field32 (H.hmac (cmk H hlak) pkt)).length =
      100 := by rw [List.length_append, hb, hfield]
  rw [hmsg, writePacket_ok]
  refine ⟨?_, (bindingPacket_eq hvl).symm⟩
  simp only [sstpControl, sstpAttr, List.length_append, be16_length, List.flatten_singleton, hvl,
    List.length_cons, List.length_nil]
  omega

end Binding

/-- **Packets and the crypto binding.** What was written is read back in order, and nothing behind
it is taken; a stream that ends in its header, and a header with another version or a length below
its own, is refused, whatever follows, and no read is out of range; and the MAC of the Call Connected message is the HMAC of the packet
that goes out with that MAC set to zero. -/
theorem framing (D : Hashes) :
    (∀ ps ws, writePackets ps = .ok ws → ∀ rest,
      times ps.length readPacket (ws.flatten ++ rest) = .ok (ps, rest)) ∧
    (∀ s, readPacket s ≠ .error .panic) ∧
    (∀ s, s.length < 4 → ∃ e, readPacket s = .error e) ∧
    (∀ h0 h1 h2 h3, h0 ≠ 0x10 ∨ (rd16 [h2, h3] &&& 0x0fff).toNat < 4 →
      ∃ e, ∀ s, readPacket (h0 :: h1 :: h2 :: h3 :: s) = .error e) ∧
    ∀ hashProto nonce certDER hlak, nonce.length = 32 →
      ∃ sent, writePacket true (callConnected D hashProto nonce certDER hlak) = .ok sent ∧
        macOf sent =
          field32 ((D.pick hashProto).hmac (cmk (D.pick hashProto) hlak) (zeroMac sent)) := by
  refine ⟨fun ps ws h rest => ?_, not_panics, fun s h => ⟨_, readPacket_short h⟩,
    fun h0 h1 h2 h3 h => ?_, fun hashProto nonce certDER hlak hn => ?_⟩
  · exact (reads_times packet_reads ps.length).ok ⟨rfl, written_words h⟩
  · by_cases hv : h0 = 0x10
    · subst hv
      exact ⟨_, refused_error (.length (h.resolve_left (not_not.2 rfl)))⟩
    · exact ⟨_, refused_error (.version hv)⟩
  · have hsent := @callConnected_sent hashProto _ certDER D hlak hn
    refine ⟨_, hsent, ?_⟩
    have hb : (bound (D.pick hashProto) hashProto nonce certDER).length = 68 := bound_length hn
    have hm := field32_length ((hmac_length (D.pick hashProto) (cmk (D.pick hashProto) hlak)
      (packetHead ++ (bound (D.pick hashProto) hashProto nonce certDER ++
        List.replicate 32 0))).trans_le (D.pick hashProto).size_le)
    rw [zeroMac_eq hb hm, macOf_eq hb hm]

/-! ## Two packets -/

/-- Functions that give digests of the right lengths. -/
def someHashes : Hashes :=
  ⟨fun b => ⟨List.replicate 32 (b.headD 0), List.length_replicate⟩,
    fun b => ⟨List.replicate 20 (b.headD 0), List.length_replicate⟩⟩

theorem framing_two : times 2 readPacket
    ([0x10, 1, 0, 8, 0, 1, 0, 0, 0x10, 0, 0, 6, 0xff, 0x03] ++ [7]) =
      .ok ([(true, [0, 1, 0, 0]), (false, [0xff, 0x03])], [7]) :=
  (framing someHashes).1 [(true, [0, 1, 0, 0]), (false, [0xff, 0x03])]
    [[0x10, 1, 0, 8, 0, 1, 0, 0], [0x10, 0, 0, 6, 0xff, 0x03]] (by decide) [7]

end Ghajar.Sstp
