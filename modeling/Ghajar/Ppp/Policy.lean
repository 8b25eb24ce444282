import Ghajar.Lib.History
import Ghajar.Ppp.Scan
import Ghajar.Ppp.Step

/-!
# Credentials and the policy

`byMethod` is the law for one packet of ours: a PAP request or a CHAP response
goes out only if the request of the peer we acknowledged last asked for that
method and the policy allows it. A CHAP challenge is answered in any phase, so
the law holds in a run exactly when every well-formed challenge finds MS-CHAPv2
agreed (`agreed`).
-/

namespace Ghajar.Ppp

open Reactive Reactive.Machine History

/-- The options of the request of the peer we acknowledged last. -/
def lastAcked : List Ev → Option Bytes
  | [] => none
  | .sent pr (code :: _ :: _ :: _ :: data) :: before =>
    if pr = pppLCP ∧ code = confAck then some data else lastAcked before
  | _ :: before => lastAcked before

def AsksPAP (v : Bytes) : Prop := ∃ a b rest, v = a :: b :: rest ∧ rd16 a b = pppPAP

def AsksMSCHAP (v : Bytes) : Prop :=
  ∃ a b rest, v = a :: b :: rest ∧ rd16 a b = pppCHAP ∧ rest.headD 0 = chapMSv2

/-- The request acknowledged last asks for a method with the property. -/
def Asked (P : Bytes → Prop) (out : List Ev) : Prop :=
  ∃ data, lastAcked out = some data ∧ ∃ v, askedAuth data = some v ∧ P v

/-- **Credentials go out by the method agreed and allowed.** -/
def byMethod (o : PppConfig) : Ev → List Ev → Prop
  | .sent pr _, before =>
    (pr = pppPAP → Asked AsksPAP before ∧ o.auth ≠ .mschapv2) ∧
      (pr = pppCHAP → Asked AsksMSCHAP before ∧ o.auth ≠ .pap)
  | _, _ => True

/-- A challenge that will be answered finds MS-CHAPv2 agreed. -/
def agreedPacket (s : St) (p : Packet) : Bool :=
  !(p.pr == pppCHAP && p.code == 1 && goodChallenge p.data) || s.authProto == pppCHAP

def agreed (s : St) : Event → Bool
  | .frame f => (packet f).all (agreedPacket s)
  | _ => true

/-! ## What the accepted request asked for -/

section
variable {h : Host} {o : PppConfig}

theorem Wants.pap {v : Bytes} (hw : Wants o v pppPAP) : AsksPAP v ∧ o.auth ≠ .mschapv2 := by
  obtain ⟨a, b, rest, rfl, hp, hw⟩ := hw
  refine ⟨⟨a, b, rest, rfl, hp⟩, fun ho => ?_⟩
  simp [wantAuth, ho, pppPAP, pppCHAP] at hw

theorem Wants.chap {v : Bytes} (hw : Wants o v pppCHAP) : AsksMSCHAP v ∧ o.auth ≠ .pap := by
  obtain ⟨a, b, rest, rfl, hp, hw⟩ := hw
  constructor
  · refine ⟨a, b, rest, rfl, hp, ?_⟩
    cases ho : o.auth with
    | pap => simp [wantAuth, ho, pppPAP, pppCHAP] at hw
    | mschapv2 => simpa [wantAuth, ho, pppPAP, pppCHAP] using hw
    | auto => simpa [wantAuth, ho, pppPAP, pppCHAP] using hw
  · intro ho
    simp [wantAuth, ho, pppPAP, pppCHAP] at hw

/-! ## The invariant -/

/-- The history as it stands when a request with these options was acknowledged. -/
def AgreesWith (o : PppConfig) (out : List Ev) (p : Nat) : Prop :=
  Agrees o ((lastAcked out).bind askedAuth) p

variable (o) in
/-- The protocol in force is the one asked for; what went out followed it. -/
structure Kept (s : St) : Prop where
  agrees : AgreesWith o s.out s.authProto
  sent : Always (byMethod o) s.out

theorem AgreesWith.asksPAP {out : List Ev} (ha : AgreesWith o out pppPAP) :
    Asked AsksPAP out ∧ o.auth ≠ .mschapv2 := by
  unfold AgreesWith at ha
  cases hl : lastAcked out with
  | none => rw [hl] at ha; cases ha
  | some data =>
    rw [hl, Option.bind_some] at ha
    cases hv : askedAuth data with
    | none => rw [hv] at ha; cases ha
    | some v =>
      rw [hv] at ha
      exact ⟨⟨data, hl, v, hv, ha.pap.1⟩, ha.pap.2⟩

theorem AgreesWith.asksMSCHAP {out : List Ev} (ha : AgreesWith o out pppCHAP) :
    Asked AsksMSCHAP out ∧ o.auth ≠ .pap := by
  unfold AgreesWith at ha
  cases hl : lastAcked out with
  | none => rw [hl] at ha; cases ha
  | some data =>
    rw [hl, Option.bind_some] at ha
    cases hv : askedAuth data with
    | none => rw [hv] at ha; cases ha
    | some v =>
      rw [hv] at ha
      exact ⟨⟨data, hl, v, hv, ha.chap.1⟩, ha.chap.2⟩

theorem lastAcked_recv {f : Bytes} {out : List Ev} : lastAcked (.recv f :: out) = lastAcked out :=
  rfl

theorem lastAcked_auth {hlak : Bytes} {ok : Bool} {out : List Ev} :
    lastAcked (.auth hlak ok :: out) = lastAcked out := rfl

/-- Only an LCP Configure-Ack changes what was acknowledged last. -/
theorem lastAcked_sent {pr : Nat} {pl : Bytes} {out : List Ev}
    (hp : pr = pppLCP → pl.head? ≠ some confAck) :
    lastAcked (.sent pr pl :: out) = lastAcked out := by
  match pl with
  | [] | [_] | [_, _] | [_, _, _] => rfl
  | code :: _ :: _ :: _ :: data =>
    have hn : ¬ (pr = pppLCP ∧ code = confAck) := fun he => hp he.1 (by rw [he.2]; rfl)
    simp only [lastAcked, if_neg hn]

theorem lastAcked_ack {pid : UInt8} {data : Bytes} {out : List Ev} :
    lastAcked (.sent pppLCP (cp confAck pid data) :: out) = some data := rfl

theorem Kept.recv {s : St} (hs : Kept o s) (f : Bytes) :
    Kept o { s with out := .recv f :: s.out } := ⟨hs.agrees, trivial, hs.sent⟩

theorem Kept.send {s : St} (hs : Kept o s) {pr : Nat} {pl : Bytes}
    (hack : pr = pppLCP → pl.head? ≠ some confAck)
    (hpap : pr = pppPAP → s.authProto = pppPAP) (hchap : pr = pppCHAP → s.authProto = pppCHAP) :
    Kept o (s.send pr pl) where
  agrees := by
    show Agrees o ((lastAcked (.sent pr pl :: s.out)).bind askedAuth) s.authProto
    rw [lastAcked_sent hack]
    exact hs.agrees
  sent := ⟨⟨fun he => AgreesWith.asksPAP (hpap he ▸ hs.agrees),
    fun he => AgreesWith.asksMSCHAP (hchap he ▸ hs.agrees)⟩, hs.sent⟩

/-- A packet that carries no credentials and is no acknowledgement. -/
theorem Kept.talk {s : St} (hs : Kept o s) {pr : Nat} {pl : Bytes}
    (hpr : pr = pppLCP ∧ pl.head? ≠ some confAck ∨ pr = pppIPCP) : Kept o (s.send pr pl) := by
  rcases hpr with ⟨rfl, ha⟩ | rfl
  · exact hs.send (fun _ => ha) (fun he => by cases he) fun he => by cases he
  · exact hs.send (fun he => by cases he) (fun he => by cases he) fun he => by cases he

theorem started_kept : Kept o (started h o) :=
  ⟨rfl, ⟨fun he => (by cases he), fun he => (by cases he)⟩, trivial⟩

theorem PapStep.kept {s s' : St} (hp : PapStep o s s') (hs : Kept o s) : Kept o s' := by
  cases hp with
  | skip => exact hs
  | sent hd =>
    have hs' : Kept o { s with papSent := true } := { hs with }
    have ha : s.authProto = pppPAP := by
      simp only [papDue, Bool.and_eq_true, beq_iff_eq] at hd
      exact hd.1.2
    exact hs'.send (fun he => by cases he) (fun _ => ha) fun he => by cases he

theorem AuthStep.kept {s s' : St} (ha : AuthStep h s s') (hs : Kept o s) : Kept o s' := by
  cases ha with
  | skip => exact hs
  | plain =>
    have hs' : Kept o { s with ipcpSent := true } := { hs with }
    exact hs'.talk (.inr rfl)
  | authed =>
    have hs' : Kept o { s with ipcpSent := true, out := .auth s.hlak true :: s.out } :=
      ⟨hs.agrees, trivial, hs.sent⟩
    exact hs'.talk (.inr rfl)

theorem settle_kept {s : St} (hs : Kept o s) : Kept o (settle h o s).state := by
  have hn := settle_settled h o s
  generalize settle h o s = n at hn ⊢
  cases hn with
  | wait hp ha => exact ha.kept (hp.kept hs)
  | up hp ha => exact ha.kept (hp.kept hs)
  | papFailed hp => exact hp.kept hs
  | authFailed hp ha =>
    cases ha with
    | mk => exact ⟨(hp.kept hs).agrees, trivial, (hp.kept hs).sent⟩
  | sendFailed hp ha => exact ha.kept (hp.kept hs)

theorem handled_kept {s s' : St} {f : Bytes} {p : Packet} (hk : Kept o s)
    (hc : agreedPacket s p = true)
    (hh : Handled h o { s with out := .recv f :: s.out } p s') : Kept o s' := by
  have hs := hk.recv f
  cases hh with
  | quiet => exact hs
  | lcpTalk i pid d hack =>
    have hs' : Kept o { s with id := i, out := .recv f :: s.out } := { hs with }
    exact hs'.talk (.inl ⟨rfl, fun he => hack (Option.some.inj he)⟩)
  | lcpRenewed ours i =>
    have hs' : Kept o { s with
        lcpOurs := ours, id := i, lcpID := i, out := .recv f :: s.out } := { hs with }
    exact hs'.talk (.inl ⟨rfl, fun he => by cases he⟩)
  | lcpAcked => exact { hs with }
  | lcpAccepted hpr hcode hp hr hn =>
    refine ⟨?_, ⟨fun he => (by cases he), fun he => (by cases he)⟩, hs.sent⟩
    show Agrees o ((lastAcked (.sent pppLCP (cp confAck p.pid p.data) :: _)).bind askedAuth) _
    rw [lastAcked_ack, Option.bind_some, askedAuth, hp, Option.bind_some]
    exact scanOpts_agrees hr hn
  | papAccepted => exact { hs with }
  | challenged hpr hcode hg =>
    have ha : s.authProto = pppCHAP := by simpa [agreedPacket, hpr, hcode, hg] using hc
    have hs' : Kept o { s with
        authProto := pppCHAP
        authChal := challengeOf p.data
        nt := h.crypto.ntResponse (challengeOf p.data) h.peerChal o.user o.pass
        out := .recv f :: s.out } := ⟨ha ▸ hs.agrees, hs.sent⟩
    exact hs'.send (fun he => by cases he) (fun he => by cases he) fun _ => rfl
  | succeeded => exact { hs with }
  | ipcpRefused => exact hs.talk (.inr rfl)
  | ipcpAccepted =>
    have hs' : Kept o { s with ipcpPeerOK := true, out := .recv f :: s.out } := { hs with }
    exact hs'.talk (.inr rfl)
  | ipcpAcked => exact { hs with }
  | ipcpRenewed ours i =>
    have hs' : Kept o { s with
        ipcpOurs := ours, id := i, ipcpID := i, out := .recv f :: s.out } := { hs with }
    exact hs'.talk (.inr rfl)

theorem react_kept {s : St} {e : Event} (hs : Kept o s) (hc : agreed s e = true) :
    Kept o (react h o s e).state := by
  have hr := react_reacted h o s e
  generalize (react h o s e).state = s' at hr ⊢
  cases hr with
  | idle => exact hs
  | lcpAgain => exact hs.talk (.inl ⟨rfl, fun he => by cases he⟩)
  | papAgain _ ha =>
    exact hs.send (fun he => by cases he) (fun _ => ha) fun he => by cases he
  | ipcpAgain => exact hs.talk (.inr rfl)
  | skipped => exact hs.recv _
  | handled hp hh => exact handled_kept hs (by simpa [agreed, hp] using hc) hh

/-! ## Breaking the condition -/

/-- A protocol other than MS-CHAPv2 was not asked for as MS-CHAPv2. -/
theorem AgreesWith.not_asksMSCHAP {out : List Ev} {p : Nat} (ha : AgreesWith o out p)
    (hp : p ≠ pppCHAP) : ¬ Asked AsksMSCHAP out := by
  rintro ⟨data, hl, v, hv, a, b, rest, rfl, hchap, -⟩
  unfold AgreesWith at ha
  rw [hl, Option.bind_some, hv] at ha
  obtain ⟨a', b', rest', he, rfl, -⟩ := ha
  cases he
  exact hp hchap

/-- **A challenge answered before MS-CHAPv2 was agreed stays in the history.** -/
theorem unagreed_not_byMethod {s : St} {e : Event} {es : List Event} (hs : Kept o s)
    (hc : ¬ agreed s e = true) :
    ¬ Always (byMethod o) ((machine h o).after s e es).1.out := by
  cases e with
  | closed => simp [agreed] at hc
  | tick => simp [agreed] at hc
  | deadline => simp [agreed] at hc
  | frame f =>
    cases hp : packet f with
    | none => simp [agreed, hp] at hc
    | some p =>
      have ⟨⟨⟨hpr, hcode⟩, hg⟩, hne⟩ : ((p.pr = pppCHAP ∧ p.code = 1) ∧
          goodChallenge p.data = true) ∧ s.authProto ≠ pppCHAP := by
        simpa [agreed, hp, agreedPacket] using hc
      have hr : (machine h o).react s (.frame f) =
          chapChallenge h o { s with out := .recv f :: s.out } p := by
        simp [machine, react, hp, handle, hpr, pppLCP, pppPAP, pppCHAP, handleCHAP, hcode]
      simp only [Machine.after, hr, chapChallenge, hg, if_true]
      intro hb
      have hb' := hb.of_suffix (run_out_suffix h o)
      exact hs.agrees.not_asksMSCHAP hne (hb'.1.2 rfl).1

variable (h o) in
/-- **Credentials went by the method agreed and allowed exactly when every
challenge found MS-CHAPv2 agreed.** -/
theorem byMethod_iff (es : List Event) :
    Always (byMethod o) (pppNegotiate h o es).1.out ↔
      (h.sendOK [] pppLCP (initial h o).lcpReq = true →
        (machine h o).Meets (fun s e => agreed s e = true) (started h o) es) := by
  unfold pppNegotiate
  split
  · rename_i hsend
    constructor
    · intro hb _
      exact meets_of_run (I := Kept o) (W := Kept o) (F := fun s _ => Kept o s)
        (G := fun p => Always (byMethod o) p.1.out)
        (fun s hs => Next.all_state.2 (settle_kept hs))
        (fun s e hs hc => Next.all_state.2 (react_kept hs hc))
        (fun s e es hs hc => unagreed_not_byMethod hs hc) started_kept hb
    · intro hm
      exact (run_state (M := machine h o) (fun _ => settle_kept) (fun _ _ => react_kept)
        started_kept (hm hsend)).sent
  · rename_i hsend
    exact ⟨fun _ hs => absurd hs hsend, fun _ => started_kept.sent⟩

end

/-- A server that challenges at once. -/
def challengeOnly : List Event := [.cp pppCHAP 1 1 (16 :: List.replicate 16 9)]

/-- Under the policy `pap` the challenge is answered, with nothing negotiated. -/
theorem challengeOnly_answered :
    (∃ pl, .sent pppCHAP pl ∈ (pppNegotiate .plain (.plain .pap) challengeOnly).1.out) ∧
      ¬ Always (byMethod (.plain .pap)) (pppNegotiate .plain (.plain .pap) challengeOnly).1.out :=
  ⟨⟨_, List.mem_cons_self⟩, fun hb => (hb.1.2 rfl).2 rfl⟩

end Ghajar.Ppp
