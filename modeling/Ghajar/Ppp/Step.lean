import Ghajar.Ppp.Negotiate

/-!
# What one round of the negotiation can do

`Handled s p s'` lists every way the protocol switch changes the state on a
packet `p`, with the guards of the branch; `handle_handled` says the switch
does nothing else. `PapStep` and `AuthStep` do the same for the two sends at
the head of the loop. Every invariant is proved by cases on these, none by
unfolding the switch again.
-/

namespace Ghajar.Ppp

open Reactive

section
variable (h : Host) (o : PppConfig)

/-- The ways the protocol switch leads from `s` to `s'` on the packet `p`. -/
inductive Handled (s : St) (p : Packet) : St → Prop where
  | quiet : Handled s p s
  /-- A reject, a nak, an echo reply, a terminate ack or a protocol reject. -/
  | lcpTalk (i : UInt8) {c : UInt8} (pid : UInt8) (d : Bytes) (hack : c ≠ confAck) :
      Handled s p ({ s with id := i }.send pppLCP (cp c pid d))
  | lcpRenewed (ours : List PppOpt) (i : UInt8) (hpr : p.pr = pppLCP) :
      Handled s p ({ s with lcpOurs := ours, id := i, lcpID := i }.send pppLCP
        ({ s with lcpOurs := ours, id := i, lcpID := i } : St).lcpReq)
  | lcpAcked (hpr : p.pr = pppLCP) (hc : p.code = confAck) (hid : p.pid = s.lcpID) :
      Handled s p { s with lcpOurOK := true }
  | lcpAccepted {opts : List PppOpt} (hpr : p.pr = pppLCP) (hc : p.code = confReq)
      (hp : parseOpts p.data = some opts) (hrej : (scanOpts o opts).rej = [])
      (hnak : (scanOpts o opts).nak = []) :
      Handled s p ({ s with authProto := (scanOpts o opts).auth,
                            authOK := s.authOK || (scanOpts o opts).auth == 0,
                            lcpPeerOK := true }.send pppLCP (cp confAck p.pid p.data))
  | papAccepted (hpr : p.pr = pppPAP) (hid : p.pid = s.papID) (hc : p.code = 2) :
      Handled s p { s with authOK := true }
  | challenged (hpr : p.pr = pppCHAP) (hc : p.code = 1) (hg : goodChallenge p.data = true) :
      Handled s p ({ s with
        authProto := pppCHAP
        authChal := challengeOf p.data
        nt := h.crypto.ntResponse (challengeOf p.data) h.peerChal o.user o.pass }.send pppCHAP
          (chapResponse h o p.pid
            (h.crypto.ntResponse (challengeOf p.data) h.peerChal o.user o.pass)))
  | succeeded (hpr : p.pr = pppCHAP) (hc : p.code = 3)
      (hw : provesPassword h o s.authChal s.nt p.data = true) :
      Handled s p { s with hlak := h.crypto.clientHLAK o.pass s.nt, authOK := true }
  | ipcpRefused {opts : List PppOpt} (pl : Bytes) (hpr : p.pr = pppIPCP) (hc : p.code = confReq)
      (hp : parseOpts p.data = some opts) (hrej : (opts.filter fun x => x.t ≠ ipcpAddr) ≠ []) :
      Handled s p (s.send pppIPCP pl)
  | ipcpAccepted {opts : List PppOpt} (hpr : p.pr = pppIPCP) (hc : p.code = confReq)
      (hp : parseOpts p.data = some opts) (hrej : (opts.filter fun x => x.t ≠ ipcpAddr) = []) :
      Handled s p ({ s with ipcpPeerOK := true }.send pppIPCP (cp confAck p.pid p.data))
  | ipcpAcked (hpr : p.pr = pppIPCP) (hc : p.code = confAck) (hid : p.pid = s.ipcpID) :
      Handled s p { s with ipcpOurOK := true }
  | ipcpRenewed (ours : List PppOpt) (i : UInt8) (pl : Bytes) (hpr : p.pr = pppIPCP)
      (hc : p.code = confNak ∨ p.code = confRej) (hid : p.pid = s.ipcpID) :
      Handled s p ({ s with ipcpOurs := ours, id := i, ipcpID := i }.send pppIPCP pl)

theorem lcpConfReq_handled {s : St} {p : Packet} (hpr : p.pr = pppLCP) (hc : p.code = confReq) :
    Handled h o s p (lcpConfReq o s p.pid p.data) := by
  unfold lcpConfReq
  cases hp : parseOpts p.data with
  | none => exact .quiet
  | some opts =>
    simp only
    split
    · exact .lcpTalk s.id _ _ (by decide)
    · rename_i hrej
      split
      · exact .lcpTalk s.id _ _ (by decide)
      · rename_i hnak
        exact .lcpAccepted hpr hc hp (Classical.not_not.1 hrej) (Classical.not_not.1 hnak)

theorem lcpConfNak_handled {s : St} {p : Packet} (rej : Bool) (hpr : p.pr = pppLCP) :
    Handled h o s p (lcpConfNak s rej p.pid p.data) := by
  unfold lcpConfNak
  split
  · exact .quiet
  · exact .lcpRenewed _ _ hpr

theorem handleLCP_handled {s : St} {p : Packet} (hpr : p.pr = pppLCP) :
    Handled h o s p (handleLCP h o s p).state := by
  unfold handleLCP
  split
  · exact lcpConfReq_handled h o hpr ‹_›
  split
  · split
    · exact .lcpAcked hpr ‹_› ‹_›
    · exact .quiet
  split
  · exact lcpConfNak_handled h o false hpr
  split
  · exact lcpConfNak_handled h o true hpr
  split
  · exact .lcpTalk s.id _ _ (by decide)
  split
  · exact .lcpTalk s.id _ _ (by decide)
  · exact .quiet

theorem handlePAP_handled {s : St} {p : Packet} (hpr : p.pr = pppPAP) :
    Handled h o s p (handlePAP s p).state := by
  unfold handlePAP
  split
  · exact .quiet
  · rename_i hid
    split
    · exact .papAccepted hpr (Classical.not_not.1 hid) ‹_›
    split <;> exact .quiet

theorem handleCHAP_handled {s : St} {p : Packet} (hpr : p.pr = pppCHAP) :
    Handled h o s p (handleCHAP h o s p).state := by
  unfold handleCHAP chapChallenge
  split
  · split
    · exact .challenged hpr ‹_› ‹_›
    · exact .quiet
  split
  · split
    · exact .succeeded hpr ‹_› ‹_›
    · exact .quiet
  split <;> exact .quiet

theorem ipcpConfNak_handled {s : St} {p : Packet} (rej : Bool) (hpr : p.pr = pppIPCP)
    (hc : p.code = confNak ∨ p.code = confRej) :
    Handled h o s p (ipcpConfNak s rej p.pid p.data).state := by
  unfold ipcpConfNak
  split
  · exact .quiet
  · rename_i hid
    split
    · exact .quiet
    · exact .ipcpRenewed _ _ _ hpr hc (Classical.not_not.1 hid)

theorem handleIPCP_handled {s : St} {p : Packet} (hpr : p.pr = pppIPCP) :
    Handled h o s p (handleIPCP s p).state := by
  unfold handleIPCP ipcpConfReq
  split
  · cases hp : parseOpts p.data with
    | none => exact .quiet
    | some opts =>
      simp only
      split
      · exact .ipcpRefused _ hpr ‹_› hp ‹_›
      · rename_i hrej
        exact .ipcpAccepted hpr ‹_› hp (Classical.not_not.1 hrej)
  split
  · split
    · exact .ipcpAcked hpr ‹_› ‹_›
    · exact .quiet
  split
  · exact ipcpConfNak_handled h o false hpr (.inl ‹_›)
  split
  · exact ipcpConfNak_handled h o true hpr (.inr ‹_›)
  · exact .quiet

/-- **The protocol switch does what `Handled` lists.** -/
theorem handle_handled (s : St) (p : Packet) : Handled h o s p (handle h o s p).state := by
  unfold handle
  split
  · exact handleLCP_handled h o ‹_›
  split
  · exact handlePAP_handled h o ‹_›
  split
  · exact handleCHAP_handled h o ‹_›
  split
  · exact handleIPCP_handled h o ‹_›
  · exact .lcpTalk _ _ _ (by decide)

/-- A round of `select`, whatever the event: what it leaves. -/
inductive Reacted (s : St) : Event → St → Prop where
  | idle {e : Event} : Reacted s e s
  | lcpAgain (hl : s.lcpOurOK = false) : Reacted s .tick (s.send pppLCP s.lcpReq)
  | papAgain (hl : s.lcpOurOK = true) (ha : s.authProto = pppPAP) (hn : s.authOK = false) :
      Reacted s .tick (s.send pppPAP (s.papReq o))
  | ipcpAgain (hs : s.ipcpSent = true) : Reacted s .tick (s.send pppIPCP s.ipcpReq)
  | skipped {f : Bytes} (hp : packet f = none) :
      Reacted s (.frame f) { s with out := .recv f :: s.out }
  | handled {f : Bytes} {p : Packet} {s' : St} (hp : packet f = some p)
      (hh : Handled h o { s with out := .recv f :: s.out } p s') : Reacted s (.frame f) s'

theorem react_reacted (s : St) (e : Event) : Reacted h o s e (react h o s e).state := by
  cases e with
  | closed => exact .idle
  | deadline => exact .idle
  | tick =>
    show Reacted h o s .tick (handleTick o s)
    unfold handleTick
    split
    · rename_i hl
      exact .lcpAgain (by simpa using hl)
    · rename_i hl
      split
      · rename_i ha
        simp only [Bool.and_eq_true, beq_iff_eq, Bool.not_eq_eq_eq_not, Bool.not_true] at ha
        exact .papAgain (by simpa using hl) ha.1 ha.2
      split
      · rename_i hs
        simp only [Bool.and_eq_true] at hs
        exact .ipcpAgain hs.1
      · exact .idle
  | frame f =>
    simp only [react]
    cases hp : packet f with
    | none => exact .skipped hp
    | some p => exact .handled hp (handle_handled h o _ p)

/-- If it returns at all, it returns an error. -/
def ErrOnly (n : Out) : Prop := n.All (fun _ => True) fun _ r => ∃ m d, r = .err m d

theorem handleLCP_errOnly (s : St) (p : Packet) : ErrOnly (handleLCP h o s p) := by
  unfold handleLCP
  iterate 5 (split; · trivial)
  split
  · exact ⟨_, _, rfl⟩
  · trivial

theorem handlePAP_errOnly (s : St) (p : Packet) : ErrOnly (handlePAP s p) := by
  unfold handlePAP
  iterate 2 (split; · trivial)
  split
  · exact ⟨_, _, rfl⟩
  · trivial

theorem handleCHAP_errOnly (s : St) (p : Packet) : ErrOnly (handleCHAP h o s p) := by
  unfold handleCHAP chapChallenge
  iterate 2
    split
    · split
      · trivial
      · exact ⟨_, _, rfl⟩
  split
  · exact ⟨_, _, rfl⟩
  · trivial

theorem ipcpConfNak_errOnly (s : St) (rej : Bool) (pid : UInt8) (data : Bytes) :
    ErrOnly (ipcpConfNak s rej pid data) := by
  unfold ipcpConfNak
  split
  · trivial
  · split
    · exact ⟨_, _, rfl⟩
    · trivial

theorem handleIPCP_errOnly (s : St) (p : Packet) : ErrOnly (handleIPCP s p) := by
  unfold handleIPCP
  iterate 2 (split; · trivial)
  iterate 2 (split; · exact ipcpConfNak_errOnly _ _ _ _)
  trivial

theorem handle_errOnly (s : St) (p : Packet) : ErrOnly (handle h o s p) := by
  unfold handle
  split
  · exact handleLCP_errOnly h o s p
  split
  · exact handlePAP_errOnly s p
  split
  · exact handleCHAP_errOnly h o s p
  split
  · exact handleIPCP_errOnly s p
  · trivial

/-- Only the head of the loop returns a link. -/
theorem react_errOnly (s : St) (e : Event) : ErrOnly (react h o s e) := by
  cases e with
  | closed => exact ⟨_, _, rfl⟩
  | deadline => exact ⟨_, _, rfl⟩
  | tick => trivial
  | frame f =>
    simp only [react]
    split
    · trivial
    · exact handle_errOnly h o _ _

/-- One obligation for a round of `select`: the states it leads on to. -/
theorem react_all {s : St} {e : Event} {P : St → Prop}
    (hP : ∀ s', Reacted h o s e s' → P s') :
    (react h o s e).All P fun _ r => ∃ m d, r = .err m d := by
  have hr := react_reacted h o s e
  have he := react_errOnly h o s e
  cases hn : react h o s e with
  | go s' =>
    rw [hn] at hr
    exact hP s' hr
  | ret s' r =>
    rw [hn] at he
    exact he

/-! ## What the history keeps -/

theorem Handled.out_suffix {s s' : St} {p : Packet} (hh : Handled h o s p s') :
    s.out <:+ s'.out := by
  cases hh <;> first | exact List.suffix_refl _ | exact List.suffix_cons _ _

theorem Reacted.out_suffix {s s' : St} {e : Event} (hr : Reacted h o s e s') :
    s.out <:+ s'.out := by
  cases hr with
  | idle => exact List.suffix_refl _
  | handled hp hh => exact (List.suffix_cons _ _).trans (hh.out_suffix h o)
  | _ => exact List.suffix_cons _ _

/-! ## The head of the loop -/

/-- The PAP request is due: LCP up, PAP agreed, not sent yet. -/
def papDue (s : St) : Bool :=
  s.lcpOurOK && s.lcpPeerOK && s.authProto == pppPAP && !s.papSent

inductive PapStep (s : St) : St → Prop where
  | skip (hd : papDue s = false) : PapStep s s
  | sent (hd : papDue s = true) :
      PapStep s ({ s with papSent := true }.send pppPAP (s.papReq o))

/-- `onAuth` and the first IPCP request: not due, done without `onAuth`, or
done after `onAuth` returned nil. -/
inductive AuthStep (s : St) : St → Prop where
  | skip (hd : (s.authOK && !s.ipcpSent) = false) : AuthStep s s
  | plain (ha : s.authOK = true) (hs : s.ipcpSent = false) (hn : h.onAuth = none) :
      AuthStep s ({ s with ipcpSent := true }.send pppIPCP s.ipcpReq)
  | authed {f : List Ev → Bytes → Bool} (ha : s.authOK = true) (hs : s.ipcpSent = false)
      (hf : h.onAuth = some f) (hok : f s.out s.hlak = true) :
      AuthStep s ({ s with ipcpSent := true, out := .auth s.hlak true :: s.out }.send
        pppIPCP s.ipcpReq)

/-- `onAuth` was called and failed. -/
inductive AuthFailed (s : St) : St → Prop where
  | mk {f : List Ev → Bytes → Bool} (ha : s.authOK = true) (hs : s.ipcpSent = false)
      (hf : h.onAuth = some f) :
      AuthFailed s { s with ipcpSent := true, out := .auth s.hlak false :: s.out }

/-- The link is up: both sides' IPCP requests acknowledged. -/
def ipcpUp (s : St) : Bool := s.ipcpOurOK && s.ipcpPeerOK

/-- The head of the loop, for whatever it leads to. -/
inductive Settled (s : St) : Out → Prop where
  | wait {s1 s2 : St} (hp : PapStep o s s1) (ha : AuthStep h s1 s2) (hu : ipcpUp s2 = false) :
      Settled s (.go s2)
  | up {s1 s2 : St} {r : Result} (hp : PapStep o s s1) (ha : AuthStep h s1 s2)
      (hu : ipcpUp s2 = true) : Settled s (.ret s2 r)
  | papFailed {s1 : St} {m : String} (hp : PapStep o s s1) : Settled s (.ret s1 (.err m []))
  | authFailed {s1 s2 : St} {m : String} (hp : PapStep o s s1) (ha : AuthFailed h s1 s2) :
      Settled s (.ret s2 (.err m []))
  | sendFailed {s1 s2 : St} {m : String} (hp : PapStep o s s1) (ha : AuthStep h s1 s2) :
      Settled s (.ret s2 (.err m []))

theorem settleLink_settled {s s1 s2 : St} (hp : PapStep o s s1) (ha : AuthStep h s1 s2) :
    Settled h o s (settleLink h s2) := by
  cases hu : ipcpUp s2 with
  | false =>
    have hs : settleLink h s2 = .go s2 := by
      simp only [ipcpUp] at hu
      simp only [settleLink, hu, Bool.false_eq_true, if_false]
    rw [hs]
    exact .wait hp ha hu
  | true =>
    have hu' := hu
    simp only [ipcpUp] at hu'
    simp only [settleLink, hu', if_true]
    split
    · exact .up hp ha hu
    · exact .up hp ha hu

theorem settleAuth_settled {s s1 : St} (hp : PapStep o s s1) :
    Settled h o s (settleAuth h s1) := by
  cases hd : s1.authOK && !s1.ipcpSent with
  | false =>
    have hs : settleAuth h s1 = settleLink h s1 := by simp [settleAuth, hd]
    rw [hs]
    exact settleLink_settled h o hp (.skip hd)
  | true =>
    have ⟨ha, hs⟩ : s1.authOK = true ∧ s1.ipcpSent = false := by simpa using hd
    unfold settleAuth St.sendOr
    simp only [hd, if_true]
    split
    · rename_i hf
      split
      · exact settleLink_settled h o hp (.plain ha hs hf)
      · exact .sendFailed hp (.plain ha hs hf)
    · rename_i f hf
      cases hok : f s1.out s1.hlak with
      | true =>
        simp only [if_true]
        split
        · exact settleLink_settled h o hp (.authed ha hs hf hok)
        · exact .sendFailed hp (.authed ha hs hf hok)
      | false => exact .authFailed hp (.mk ha hs hf)

/-- **The head of the loop does what `Settled` lists.** -/
theorem settle_settled (s : St) : Settled h o s (settle h o s) := by
  cases hd : papDue s with
  | false =>
    have hs : settle h o s = settleAuth h s := by
      simp only [papDue] at hd
      simp only [settle, hd, Bool.false_eq_true, if_false]
    rw [hs]
    exact settleAuth_settled h o (.skip hd)
  | true =>
    have hs : settle h o s = { s with papSent := true }.sendOr h pppPAP (s.papReq o)
        (settleAuth h) := by
      have hd' := hd
      simp only [papDue] at hd'
      simp only [settle, hd', if_true]
      rfl
    rw [hs]
    unfold St.sendOr
    split
    · exact settleAuth_settled h o (.sent hd)
    · exact .papFailed (.sent hd)

/-! ## What the head of the loop keeps -/

theorem PapStep.out_suffix {s s' : St} (hp : PapStep o s s') : s.out <:+ s'.out := by
  cases hp with
  | skip => exact List.suffix_refl _
  | sent => exact List.suffix_cons _ _

theorem AuthStep.out_suffix {s s' : St} (ha : AuthStep h s s') : s.out <:+ s'.out := by
  cases ha with
  | skip => exact List.suffix_refl _
  | plain => exact List.suffix_cons _ _
  | authed => exact (List.suffix_cons _ _).trans (List.suffix_cons _ _)

theorem settle_out_suffix (s : St) : s.out <:+ (settle h o s).state.out := by
  have hs := settle_settled h o s
  generalize settle h o s = n at hs ⊢
  cases hs with
  | wait hp ha => exact (hp.out_suffix o).trans (ha.out_suffix h)
  | up hp ha => exact (hp.out_suffix o).trans (ha.out_suffix h)
  | papFailed hp => exact hp.out_suffix o
  | authFailed hp ha =>
    cases ha with
    | mk => exact (hp.out_suffix o).trans (List.suffix_cons _ _)
  | sendFailed hp ha => exact (hp.out_suffix o).trans (ha.out_suffix h)

/-- **The history only grows.** -/
theorem run_out_suffix {s : St} {es : List Event} :
    s.out <:+ ((machine h o).run s es).1.out :=
  Machine.run_grows (R := fun a b => a.out <:+ b.out) (fun _ => List.suffix_refl _)
    (fun _ _ _ => List.IsSuffix.trans) (settle_out_suffix h o)
    fun s e => (react_reacted h o s e).out_suffix h o

/-- The flags the head of the loop never touches. -/
def flags (s : St) : Bool × Bool × Bool × Bool × Bool :=
  (s.lcpOurOK, s.lcpPeerOK, s.authOK, s.ipcpOurOK, s.ipcpPeerOK)

theorem PapStep.flags_eq {s s' : St} (hp : PapStep o s s') : flags s' = flags s := by
  cases hp <;> rfl

theorem AuthStep.flags_eq {s s' : St} (ha : AuthStep h s s') : flags s' = flags s := by
  cases ha <;> rfl

end

end Ghajar.Ppp
