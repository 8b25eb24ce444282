import Ghajar.Lib.History
import Ghajar.Ppp.Scan
import Ghajar.Ppp.Step

/-!
# Authentication is earned

`Earned` says the history holds a reason to call the peer authenticated: we
acknowledged a request that asks for none, a PAP Ack answers a request of ours,
or a CHAP Success proves the password for a challenge we answered. PAP and CHAP
frames are handled whatever was negotiated, so `authOK` is earned in the runs
whose acknowledgements are solicited (`solicited`), not in all.
-/

namespace Ghajar.Ppp

open Reactive Reactive.Machine History

section
variable (h : Host) (o : PppConfig)

/-- The options of a Configure-Request that asks for no authentication. -/
def AsksNoAuth (data : Bytes) : Prop :=
  ∃ opts, parseOpts data = some opts ∧ lastAuth opts = none

/-- We answer the challenge `chal` just received. -/
def answers (chal : Bytes) : Ev → List Ev → Prop
  | .sent pr pl, .recv f :: _ => ∃ p, packet f = some p ∧ p.pr = pppCHAP ∧ p.code = 1 ∧
      goodChallenge p.data = true ∧ challengeOf p.data = chal ∧ pr = pppCHAP ∧
      pl = chapResponse h o p.pid (h.crypto.ntResponse chal h.peerChal o.user o.pass)
  | _, _ => False

/-- A PAP Ack after a request of ours with its identifier. -/
def PapEarned (p : Packet) (before : List Ev) : Prop :=
  p.pr = pppPAP ∧ p.code = 2 ∧ ∃ d, .sent pppPAP (cp 1 p.pid d) ∈ before

/-- A CHAP Success that proves the password for a challenge we answered. -/
def ChapEarned (p : Packet) (before : List Ev) : Prop :=
  p.pr = pppCHAP ∧ p.code = 3 ∧ ∃ chal, Once (answers h o chal) before ∧
    provesPassword h o chal (h.crypto.ntResponse chal h.peerChal o.user o.pass) p.data = true

/-- The event is a reason to call the peer authenticated. -/
def grants : Ev → List Ev → Prop
  | .sent pr pl, .recv f :: _ => ∃ p, packet f = some p ∧ p.pr = pppLCP ∧ p.code = confReq ∧
      AsksNoAuth p.data ∧ pr = pppLCP ∧ pl = cp confAck p.pid p.data
  | .recv f, before => ∃ p, packet f = some p ∧ (PapEarned p before ∨ ChapEarned h o p before)
  | _, _ => False

/-- **The history earns the authentication.** -/
def Earned (out : List Ev) : Prop := Once (grants h o) out

/-- A PAP Ack answers a request; a CHAP Success that would be accepted answers a response. -/
def solicitedPacket (s : St) (p : Packet) : Bool :=
  s.authOK ||
    ((!(p.pr == pppPAP && p.code == 2 && p.pid == s.papID) || s.papSent) &&
      (!(p.pr == pppCHAP && p.code == 3 && provesPassword h o s.authChal s.nt p.data) ||
        !s.authChal.isEmpty))

def solicited (s : St) : Event → Bool
  | .frame f => (packet f).all (solicitedPacket h o s)
  | _ => true

variable {h o}

/-! ## The invariant -/

variable (h o) in
/-- The flags are backed by the history. -/
structure Backed (s : St) : Prop where
  auth : s.authOK = true → Earned h o s.out
  pap : s.papSent = true → ∃ d, .sent pppPAP (cp 1 s.papID d) ∈ s.out
  chap : s.authChal ≠ [] → Once (answers h o s.authChal) s.out ∧
    s.nt = h.crypto.ntResponse s.authChal h.peerChal o.user o.pass

theorem Backed.push {s : St} (hs : Backed h o s) (e : Ev) :
    Backed h o { s with out := e :: s.out } where
  auth := fun ha => .inr (hs.auth ha)
  pap := fun hp => (hs.pap hp).imp fun _ hm => List.mem_cons_of_mem _ hm
  chap := fun hc => ⟨.inr (hs.chap hc).1, (hs.chap hc).2⟩

theorem started_backed : Backed h o (started h o) where
  auth := fun ha => by cases ha
  pap := fun ha => by cases ha
  chap := fun hc => absurd rfl hc

theorem PapStep.backed {s s' : St} (hp : PapStep o s s') (hs : Backed h o s) :
    Backed h o s' := by
  cases hp with
  | skip => exact hs
  | sent =>
    exact
      { auth := fun ha => .inr (hs.auth ha)
        pap := fun _ => ⟨_, List.mem_cons_self⟩
        chap := fun hc => ⟨.inr (hs.chap hc).1, (hs.chap hc).2⟩ }

theorem AuthStep.backed {s s' : St} (ha : AuthStep h s s') (hs : Backed h o s) :
    Backed h o s' := by
  cases ha with
  | skip => exact hs
  | plain =>
    have hs' : Backed h o { s with ipcpSent := true } := { hs with }
    exact hs'.push _
  | authed =>
    have hs' : Backed h o { s with ipcpSent := true } := { hs with }
    exact (hs'.push _).push _

theorem AuthFailed.backed {s s' : St} (ha : AuthFailed h s s') (hs : Backed h o s) :
    Backed h o s' := by
  cases ha with
  | mk =>
    have hs' : Backed h o { s with ipcpSent := true } := { hs with }
    exact hs'.push _

theorem settle_backed {s : St} (hs : Backed h o s) : Backed h o (settle h o s).state := by
  have hn := settle_settled h o s
  generalize settle h o s = n at hn ⊢
  cases hn with
  | wait hp ha => exact ha.backed (hp.backed hs)
  | up hp ha => exact ha.backed (hp.backed hs)
  | papFailed hp => exact hp.backed hs
  | authFailed hp ha => exact ha.backed (hp.backed hs)
  | sendFailed hp ha => exact ha.backed (hp.backed hs)

theorem handled_backed {s s' : St} {f : Bytes} {p : Packet} (hb : Backed h o s)
    (hf : packet f = some p) (hc : solicitedPacket h o s p = true)
    (hh : Handled h o { s with out := .recv f :: s.out } p s') : Backed h o s' := by
  have hs := hb.push (.recv f)
  simp only [solicitedPacket, Bool.or_eq_true, Bool.and_eq_true, Bool.not_eq_eq_eq_not,
    Bool.not_true] at hc
  cases hh with
  | quiet => exact hs
  | lcpTalk i =>
    have hs' : Backed h o { s with id := i, out := .recv f :: s.out } := { hs with }
    exact hs'.push _
  | lcpRenewed ours i =>
    have hs' : Backed h o { s with
        lcpOurs := ours, id := i, lcpID := i, out := .recv f :: s.out } := { hs with }
    exact hs'.push _
  | lcpAcked => exact { hs with }
  | @lcpAccepted opts hpr hcode hp hr hn =>
    refine
      { auth := fun ha => ?_
        pap := fun hp => (hs.pap hp).imp fun _ hm => List.mem_cons_of_mem _ hm
        chap := fun hc => ⟨.inr (hs.chap hc).1, (hs.chap hc).2⟩ }
    rcases Bool.or_eq_true_iff.1 ha with ha | ha
    · exact .inr (hs.auth ha)
    · exact .inl ⟨p, hf, hpr, hcode,
        ⟨opts, hp, lastAuth_none hr hn (beq_iff_eq.1 ha)⟩, rfl, rfl⟩
  | papAccepted hpr hid hcode =>
    refine { hs with auth := fun _ => ?_ }
    rcases hc with ha | ⟨hpap, -⟩
    · exact hs.auth ha
    · have hid' : p.pid = s.papID := hid
      have hsent : s.papSent = true := by simpa [hpr, hcode, hid'] using hpap
      exact .inl ⟨p, hf, .inl ⟨hpr, hcode, by rw [hid']; exact hb.pap hsent⟩⟩
  | challenged hpr hcode hg =>
    exact
      { auth := fun ha => .inr (hs.auth ha)
        pap := fun hp => (hs.pap hp).imp fun _ hm => List.mem_cons_of_mem _ hm
        chap := fun _ => ⟨.inl ⟨p, hf, hpr, hcode, hg, rfl, rfl, rfl⟩, rfl⟩ }
  | succeeded hpr hcode hw =>
    refine { hs with auth := fun _ => ?_ }
    rcases hc with ha | ⟨-, hchap⟩
    · exact hs.auth ha
    · have hw' : provesPassword h o s.authChal s.nt p.data = true := hw
      have hne : s.authChal ≠ [] := by simpa [hpr, hcode, hw'] using hchap
      obtain ⟨hans, hnt⟩ := hb.chap hne
      exact .inl ⟨p, hf, .inr ⟨hpr, hcode, s.authChal, hans, hnt ▸ hw'⟩⟩
  | ipcpRefused => exact hs.push _
  | ipcpAccepted =>
    have hs' : Backed h o { s with ipcpPeerOK := true, out := .recv f :: s.out } := { hs with }
    exact hs'.push _
  | ipcpAcked => exact { hs with }
  | ipcpRenewed ours i =>
    have hs' : Backed h o { s with
        ipcpOurs := ours, id := i, ipcpID := i, out := .recv f :: s.out } := { hs with }
    exact hs'.push _

theorem react_backed {s : St} {e : Event} (hs : Backed h o s) (hc : solicited h o s e = true) :
    Backed h o (react h o s e).state := by
  have hr := react_reacted h o s e
  generalize (react h o s e).state = s' at hr ⊢
  cases hr with
  | idle => exact hs
  | lcpAgain => exact hs.push _
  | papAgain => exact hs.push _
  | ipcpAgain => exact hs.push _
  | skipped => exact hs.push _
  | handled hp hh => exact handled_backed hs hp (by simpa [solicited, hp] using hc) hh

/-- **`authOK` is earned** wherever a run stands whose acknowledgements were solicited. -/
theorem authOK_earned {es : List Event}
    (hm : (machine h o).Meets (fun s e => solicited h o s e = true) (started h o) es)
    (ha : (pppNegotiate h o es).1.authOK = true) : Earned h o (pppNegotiate h o es).1.out := by
  unfold pppNegotiate at ha ⊢
  split at ha
  · rename_i hsend
    rw [if_pos hsend]
    exact (run_state (M := machine h o) (fun _ => settle_backed) (fun _ _ => react_backed)
      started_backed hm).auth ha
  · cases ha

end

/-- A peer that asks for PAP and accepts our request. -/
def papPeer : List Event :=
  [.cp pppLCP confReq 1 [3, 4, 0xc0, 0x23], .cp pppLCP confAck 2 [], .cp pppPAP 2 4 [0]]

theorem papPeer_earned : Earned .plain (.plain .pap)
    (pppNegotiate .plain (.plain .pap) papPeer).1.out :=
  authOK_earned (by decide) (by decide)

/-- A peer that sends a PAP Ack before anything was asked. -/
def papAckOnly : List Event := [.cp pppPAP 2 4 [0]]

/-- `authOK` is set under `mschapv2`, with no PAP request ever sent. -/
theorem papAckOnly_unearned :
    (pppNegotiate .plain (.plain .mschapv2) papAckOnly).1.authOK = true ∧
      ¬ Earned .plain (.plain .mschapv2)
        (pppNegotiate .plain (.plain .mschapv2) papAckOnly).1.out := by
  refine ⟨by decide, ?_⟩
  have ho : (pppNegotiate .plain (.plain .mschapv2) papAckOnly).1.out =
      [.sent pppIPCP (cp confReq 3 (packOpts (initial .plain (.plain .mschapv2)).ipcpOurs)),
        .auth [] true, .recv (be16 pppPAP ++ cp 2 4 [0]),
        .sent pppLCP (cp confReq 2 (packOpts (initial .plain (.plain .mschapv2)).lcpOurs))] := by
    decide
  have hp : packet (be16 pppPAP ++ cp 2 4 [0]) = some ⟨pppPAP, 2, 4, [0], cp 2 4 [0]⟩ := by decide
  rw [ho]
  rintro (he | he | he | he | he)
  · exact he
  · exact he
  · obtain ⟨p, hpk, ⟨-, -, d, hm⟩ | ⟨hc, -⟩⟩ := he
    · simp [pppPAP, pppLCP] at hm
    · rw [hp] at hpk
      cases hpk
      cases hc
  · exact he
  · exact he

end Ghajar.Ppp
