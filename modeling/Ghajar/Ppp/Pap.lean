import Ghajar.Ppp.Step

/-!
# The name and the password on the wire

What `sendPPP` and `writePacket` (`native/ghajar-helper/sstp.go`) make of an Authenticate-Request,
and how a peer reads it: a frame with a length of 12 bits, in it a packet with one of 16, in it
two texts with one of 8 each. `pap_carries_iff` says when the peer reads the name and the password
that were meant.
-/

namespace Ghajar.Ppp

open Reactive

/-! ## Framing -/

/-- The bytes of a packet, none where it is too large. -/
def writePacket (control : Bool) (body : Bytes) : Option Bytes :=
  let n := 4 + body.length
  if 0x0fff < n then none
  else some (0x10 :: (if control then 1 else 0) :: be16 n ++ body)

def sendPPP (proto : Nat) (payload : Bytes) : Option Bytes :=
  writePacket false ([0xff, 0x03] ++ be16 proto ++ payload)

/-! ## The peer -/

/-- The body of one packet that fills these bytes. -/
def readPacket : Bytes → Option Bytes
  | v :: flags :: a :: b :: body =>
    if v = 0x10 ∧ flags.toNat % 2 = 0 ∧ rd16 a b % 4096 = 4 + body.length then some body else none
  | _ => none

/-- A length byte and so many bytes, twice, and nothing behind. -/
def readPap : Bytes → Option (Bytes × Bytes)
  | n :: rest =>
    if rest.length < n.toNat then none
    else match rest.drop n.toNat with
      | m :: pass => if pass.length = m.toNat then some (rest.take n.toNat, pass) else none
      | [] => none
  | [] => none

/-- The name and the password in an Authenticate-Request that fills its frame. -/
def received (wire : Bytes) : Option (Bytes × Bytes) := do
  let p ← packet (← readPacket wire)
  if p.pr = pppPAP ∧ p.code = 1 ∧ p.pl.length = 4 + p.data.length then readPap p.data else none

/-- The payload goes out, and the peer reads from it what was meant. -/
def Carries (o : PppConfig) (payload : Bytes) : Prop :=
  ∃ wire, sendPPP pppPAP payload = some wire ∧ received wire = some (o.user, o.pass)

/-! ## What is read back -/

section
variable {h : Host} {o : PppConfig} {u p : Bytes} {n : Nat}

theorem rd16_be16 (hn : n < 65536) : rd16 (UInt8.ofNat (n / 256)) (UInt8.ofNat n) = n := by
  rw [rd16, UInt8.toNat_ofNat', UInt8.toNat_ofNat']
  omega

theorem readPap_length {data : Bytes} (hr : readPap data = some (u, p)) :
    u.length ≤ 255 ∧ p.length ≤ 255 := by
  unfold readPap at hr
  split at hr
  · rename_i n rest
    split at hr
    · cases hr
    split at hr
    · rename_i m pass _
      split at hr
      · rename_i hlen
        obtain ⟨rfl, rfl⟩ := Prod.mk.inj (Option.some.inj hr)
        have hn := n.toNat_lt
        have hm := m.toNat_lt
        rw [List.length_take]
        omega
      · cases hr
    · cases hr
  · cases hr

theorem received_length {wire : Bytes} (hr : received wire = some (u, p)) :
    u.length ≤ 255 ∧ p.length ≤ 255 := by
  unfold received at hr
  obtain ⟨body, -, hr⟩ := Option.bind_eq_some_iff.1 hr
  obtain ⟨q, -, hr⟩ := Option.bind_eq_some_iff.1 hr
  split at hr
  · exact readPap_length hr
  · cases hr

theorem readPap_eq (hu : u.length ≤ 255) (hp : p.length ≤ 255) :
    readPap (UInt8.ofNat u.length :: u ++ UInt8.ofNat p.length :: p) = some (u, p) := by
  have hul : (UInt8.ofNat u.length).toNat = u.length := by
    rw [UInt8.toNat_ofNat']
    omega
  have hpl : (UInt8.ofNat p.length).toNat = p.length := by
    rw [UInt8.toNat_ofNat']
    omega
  rw [List.cons_append, readPap, hul, if_neg (by rw [List.length_append]; omega),
    List.drop_left, List.take_left]
  exact if_pos hpl.symm

/-- What fits into a packet is read back from it. -/
theorem readPacket_writePacket {body : Bytes} (hlen : body.length ≤ 4091) :
    ∃ wire, writePacket false body = some wire ∧ readPacket wire = some body := by
  refine ⟨0x10 :: 0 :: UInt8.ofNat ((4 + body.length) / 256) :: UInt8.ofNat (4 + body.length) ::
    body, ?_, ?_⟩
  · exact if_neg (by omega)
  · have hn : rd16 (UInt8.ofNat ((4 + body.length) / 256)) (UInt8.ofNat (4 + body.length)) % 4096 =
        4 + body.length := by
      rw [rd16_be16 (by omega), Nat.mod_eq_of_lt (by omega)]
    exact if_pos ⟨rfl, rfl, hn⟩

theorem packet_cp {c i : UInt8} {data : Bytes} (hlen : data.length ≤ 65531) :
    packet ([0xff, 0x03] ++ be16 pppPAP ++ cp c i data) =
      some ⟨pppPAP, c, i, data, cp c i data⟩ := by
  have hsplit : splitPPP ([0xff, 0x03] ++ be16 pppPAP ++ cp c i data) =
      some (pppPAP, cp c i data) := rfl
  unfold packet
  rw [hsplit]
  unfold cp be16
  simp only [List.cons_append, List.nil_append]
  rw [rd16_be16 (by omega), if_neg (by omega), Nat.add_sub_cancel_left, List.take_length]

theorem carries_papReq {s : St} (hu : o.user.length ≤ 255) (hp : o.pass.length ≤ 255) :
    Carries o (s.papReq o) := by
  let data : Bytes := UInt8.ofNat o.user.length :: o.user ++ UInt8.ofNat o.pass.length :: o.pass
  have hlen : data.length = o.user.length + o.pass.length + 2 := by
    simp only [data, List.length_append, List.length_cons]
    omega
  have hreq : s.papReq o = cp 1 s.papID data := rfl
  have hcp : (cp 1 s.papID data).length = 4 + data.length := by
    simp only [cp, be16, List.length_append, List.length_cons, List.length_nil]
  obtain ⟨wire, hwire, hread⟩ := @readPacket_writePacket
    ([0xff, 0x03] ++ be16 pppPAP ++ cp 1 s.papID data) (by
      rw [List.length_append, hcp]
      simp only [be16, List.length_append, List.length_cons, List.length_nil]
      omega)
  refine ⟨wire, hwire, ?_⟩
  unfold received
  rw [hread, Option.bind_eq_bind, Option.bind_some, packet_cp (by omega), Option.bind_eq_bind,
    Option.bind_some, if_pos ⟨rfl, rfl, hcp⟩]
  exact readPap_eq hu hp

/-! ## Every Authenticate-Request of a run -/

/-- Whatever went out to PAP is the one request. -/
structure OneRequest (o : PppConfig) (s : St) : Prop where
  papID : s.papID = 4
  sent : ∀ pl, .sent pppPAP pl ∈ s.out → pl = s.papReq o

theorem OneRequest.push {s : St} (hs : OneRequest o s) (e : Ev)
    (he : ∀ pl, e = .sent pppPAP pl → pl = s.papReq o) :
    OneRequest o { s with out := e :: s.out } where
  papID := hs.papID
  sent pl hpl := by
    rcases List.mem_cons.1 hpl with hpl | hpl
    · exact he pl hpl.symm
    · exact hs.sent pl hpl

theorem Handled.oneRequest {s s' : St} {p : Packet} (hh : Handled h o s p s')
    (hs : OneRequest o s) : OneRequest o s' := by
  cases hh with
  | quiet => exact hs
  | lcpTalk i pid d hack =>
    have hs' : OneRequest o { s with id := i } := ⟨hs.papID, hs.sent⟩
    exact hs'.push _ fun pl hpl => by cases hpl
  | lcpRenewed ours i =>
    have hs' : OneRequest o { s with lcpOurs := ours, id := i, lcpID := i } := ⟨hs.papID, hs.sent⟩
    exact hs'.push _ fun pl hpl => by cases hpl
  | lcpAcked => exact ⟨hs.papID, hs.sent⟩
  | @lcpAccepted opts =>
    have hs' : OneRequest o { s with
      authProto := (scanOpts o opts).auth
      authOK := s.authOK || (scanOpts o opts).auth == 0
      lcpPeerOK := true } := ⟨hs.papID, hs.sent⟩
    exact hs'.push _ fun pl hpl => by cases hpl
  | papAccepted => exact ⟨hs.papID, hs.sent⟩
  | challenged =>
    have hs' : OneRequest o { s with
        authProto := pppCHAP
        authChal := challengeOf p.data
        nt := h.crypto.ntResponse (challengeOf p.data) h.peerChal o.user o.pass } :=
      ⟨hs.papID, hs.sent⟩
    exact hs'.push _ fun pl hpl => by cases hpl
  | succeeded => exact ⟨hs.papID, hs.sent⟩
  | ipcpRefused pl => exact hs.push _ fun pl hpl => by cases hpl
  | ipcpAccepted =>
    have hs' : OneRequest o { s with ipcpPeerOK := true } := ⟨hs.papID, hs.sent⟩
    exact hs'.push _ fun pl hpl => by cases hpl
  | ipcpAcked => exact ⟨hs.papID, hs.sent⟩
  | ipcpRenewed ours i pl =>
    have hs' : OneRequest o { s with ipcpOurs := ours, id := i, ipcpID := i } :=
      ⟨hs.papID, hs.sent⟩
    exact hs'.push _ fun pl hpl => by cases hpl

theorem Reacted.oneRequest {s s' : St} {e : Event} (hr : Reacted h o s e s')
    (hs : OneRequest o s) : OneRequest o s' := by
  cases hr with
  | idle => exact hs
  | lcpAgain => exact hs.push _ fun pl hpl => by cases hpl
  | papAgain =>
    refine hs.push _ fun pl hpl => ?_
    cases hpl
    rfl
  | ipcpAgain => exact hs.push _ fun pl hpl => by cases hpl
  | skipped => exact hs.push _ fun pl hpl => by cases hpl
  | handled _ hh => exact hh.oneRequest (hs.push _ fun pl hpl => by cases hpl)

theorem PapStep.oneRequest {s s' : St} (hp : PapStep o s s') (hs : OneRequest o s) :
    OneRequest o s' := by
  cases hp with
  | skip => exact hs
  | sent =>
    have hs' : OneRequest o { s with papSent := true } := ⟨hs.papID, hs.sent⟩
    refine hs'.push _ fun pl hpl => ?_
    cases hpl
    rfl

theorem AuthStep.oneRequest {s s' : St} (ha : AuthStep h s s') (hs : OneRequest o s) :
    OneRequest o s' := by
  have hs' : OneRequest o { s with ipcpSent := true } := ⟨hs.papID, hs.sent⟩
  cases ha with
  | skip => exact hs
  | plain => exact hs'.push _ fun pl hpl => by cases hpl
  | authed =>
    exact (hs'.push (.auth s.hlak true) fun pl hpl => by cases hpl).push _
      fun pl hpl => by cases hpl

theorem AuthFailed.oneRequest {s s' : St} (ha : AuthFailed h s s') (hs : OneRequest o s) :
    OneRequest o s' := by
  have hs' : OneRequest o { s with ipcpSent := true } := ⟨hs.papID, hs.sent⟩
  cases ha with
  | mk => exact hs'.push (.auth s.hlak false) fun pl hpl => by cases hpl

theorem settle_oneRequest {s : St} (hs : OneRequest o s) :
    OneRequest o (settle h o s).state := by
  have hn := settle_settled h o s
  generalize settle h o s = n at hn ⊢
  cases hn with
  | wait hp ha => exact ha.oneRequest (hp.oneRequest hs)
  | up hp ha => exact ha.oneRequest (hp.oneRequest hs)
  | papFailed hp => exact hp.oneRequest hs
  | authFailed hp ha => exact ha.oneRequest (hp.oneRequest hs)
  | sendFailed hp ha => exact ha.oneRequest (hp.oneRequest hs)

theorem pppNegotiate_oneRequest {es : List Event} : OneRequest o (pppNegotiate h o es).1 := by
  have hstart : OneRequest o (started h o) := by
    refine OneRequest.push (s := initial h o) ⟨rfl, fun pl hpl => ?_⟩ _ fun pl hpl => by cases hpl
    cases hpl
  unfold pppNegotiate
  split
  · exact Machine.run_state (M := machine h o) (C := fun _ _ => True) (I := OneRequest o)
      (fun s hs => settle_oneRequest hs)
      (fun s e hs _ => (react_reacted h o s e).oneRequest hs) hstart Machine.meets_true
  · exact hstart

end

/-- **The peer reads the name and the password that were meant exactly where neither is longer
than its length byte can say.** -/
theorem pap_carries_iff (h : Host) (o : PppConfig) (es : List Event) (payload : Bytes)
    (hsent : .sent pppPAP payload ∈ (pppNegotiate h o es).1.out) :
    Carries o payload ↔ o.user.length ≤ 255 ∧ o.pass.length ≤ 255 := by
  constructor
  · rintro ⟨wire, -, hr⟩
    exact received_length hr
  · rintro ⟨hu, hp⟩
    rw [pppNegotiate_oneRequest.sent payload hsent]
    exact carries_papReq hu hp

/-- A peer that asks for PAP. -/
def asksPap : List Event :=
  [.cp pppLCP confReq 1 [3, 4, 0xc0, 0x23], .cp pppLCP confAck 2 []]

theorem plain_carries : Carries (.plain .pap) (cp 1 4 [1, 117, 1, 112]) ↔
    (PppConfig.plain .pap).user.length ≤ 255 ∧ (PppConfig.plain .pap).pass.length ≤ 255 :=
  pap_carries_iff .plain (.plain .pap) asksPap _ (by decide)

/-- A name of 256 characters is announced as an empty one. -/
theorem long_name_lost : ¬ ∀ (h : Host) (o : PppConfig) (es : List Event) (payload : Bytes),
    o.user ≠ [] → .sent pppPAP payload ∈ (pppNegotiate h o es).1.out → Carries o payload := by
  intro hall
  let o : PppConfig := ⟨List.replicate 256 117, [112], .pap, 1400⟩
  have hsent : .sent pppPAP (cp 1 4 (0 :: o.user ++ [1, 112])) ∈
      (pppNegotiate .plain o asksPap).1.out := by decide +kernel
  obtain ⟨wire, -, hr⟩ := hall .plain o asksPap _ (by decide) hsent
  have hlen : o.user.length = 256 := List.length_replicate
  exact absurd (received_length hr).1 (by omega)

end Ghajar.Ppp
