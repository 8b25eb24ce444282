import Ghajar.Lib.History
import Ghajar.Ppp.Step

/-!
# The phases come in order

A link is up in order (`UpInOrder`) if both LCP requests were acknowledged, the
peer authenticated, `onAuth` ran once and no IPCP packet of ours went out
before it succeeded. The loop answers IPCP in every phase, so this is not a
law of every run: `inPhase` is the condition on the frame met in a waiting
state, and a returned link is in order exactly when every frame met it.
-/

namespace Ghajar.Ppp

open Reactive Reactive.Machine History

/-- The peer acknowledges an LCP request of ours. -/
def acksOurLcp : Ev → List Ev → Prop
  | .recv f, before => ∃ p, packet f = some p ∧ p.pr = pppLCP ∧ p.code = confAck ∧
      ∃ opts, .sent pppLCP (cp confReq p.pid opts) ∈ before
  | _, _ => False

/-- We acknowledge the LCP request just received. -/
def acksPeerLcp : Ev → List Ev → Prop
  | .sent pr pl, .recv f :: _ => ∃ p, packet f = some p ∧ p.pr = pppLCP ∧ p.code = confReq ∧
      pr = pppLCP ∧ pl = cp confAck p.pid p.data
  | _, _ => False

def Authenticated (out : List Ev) : Prop := ∃ hlak, .auth hlak true ∈ out

/-- An IPCP packet of ours comes after `onAuth` succeeded. -/
def afterOnAuth : Ev → List Ev → Prop
  | .sent pr _, before => pr = pppIPCP → Authenticated before
  | _, _ => True

/-- The number of calls of `onAuth`. -/
def authCalls (out : List Ev) : Nat := out.countP fun | .auth _ _ => true | _ => false

/-- **The link came up in order.** -/
structure UpInOrder (h : Host) (s : St) : Prop where
  ourLcp : s.lcpOurOK = true ∧ Once acksOurLcp s.out
  peerLcp : s.lcpPeerOK = true ∧ Once acksPeerLcp s.out
  auth : s.authOK = true
  onAuth : h.onAuth.isSome = true → authCalls s.out = 1 ∧ Always afterOnAuth s.out

/-- The frame makes us send an IPCP packet (or fail). -/
def talksIPCP (s : St) (p : Packet) : Bool :=
  p.pr == pppIPCP && ((p.code == confReq && (parseOpts p.data).isSome) ||
    ((p.code == confNak || p.code == confRej) && p.pid == s.ipcpID))

/-- The frame is the peer's acceptable request. -/
def acceptsIPCP (p : Packet) : Bool :=
  p.code == confReq && (parseOpts p.data).any fun opts => opts.all fun x => x.t = ipcpAddr

/-- The frame completes the IPCP exchange. -/
def completesIPCP (s : St) (p : Packet) : Bool :=
  p.pr == pppIPCP && ((s.ipcpOurOK && acceptsIPCP p) ||
    (s.ipcpPeerOK && p.code == confAck && p.pid == s.ipcpID))

/-- We answer IPCP only after `onAuth`, and the exchange is completed only once
LCP is up both ways and the peer authenticated. -/
def inPhasePacket (h : Host) (s : St) (p : Packet) : Bool :=
  (!talksIPCP s p || h.onAuth.isNone || s.ipcpSent) &&
    (!completesIPCP s p || (s.lcpOurOK && s.lcpPeerOK && s.authOK))

def inPhase (h : Host) (s : St) : Event → Bool
  | .frame f => (packet f).all (inPhasePacket h s)
  | _ => true

/-! ## The invariant -/

section
variable (h : Host) (o : PppConfig)

/-- At the loop head: the flags tell what is in the history. -/
structure Ordered (s : St) : Prop where
  ourReq : ∃ opts, .sent pppLCP (cp confReq s.lcpID opts) ∈ s.out
  ourLcp : s.lcpOurOK = true → Once acksOurLcp s.out
  peerLcp : s.lcpPeerOK = true → Once acksPeerLcp s.out
  calls : authCalls s.out = if s.ipcpSent && h.onAuth.isSome then 1 else 0
  authed : h.onAuth.isSome = true → s.ipcpSent = true → Authenticated s.out
  ipcp : h.onAuth.isSome = true → Always afterOnAuth s.out
  auth : s.ipcpSent = true → s.authOK = true
  up : ipcpUp s = true → s.lcpOurOK = true ∧ s.lcpPeerOK = true ∧ s.authOK = true

/-- While waiting: `onAuth` is done as soon as it is due, IPCP is not complete. -/
structure Waiting (s : St) : Prop extends Ordered h s where
  due : s.authOK = true → s.ipcpSent = true
  down : ipcpUp s = false

variable {h o}

theorem Authenticated.cons {e : Ev} {out : List Ev} (ha : Authenticated out) :
    Authenticated (e :: out) := ha.imp fun _ hm => List.mem_cons_of_mem _ hm

theorem Ordered.recv {s : St} (hs : Ordered h s) (f : Bytes) :
    Ordered h { s with out := .recv f :: s.out } where
  ourReq := hs.ourReq.imp fun _ hm => List.mem_cons_of_mem _ hm
  ourLcp := fun hf => .inr (hs.ourLcp hf)
  peerLcp := fun hf => .inr (hs.peerLcp hf)
  calls := hs.calls
  authed := fun hn hi => (hs.authed hn hi).cons
  ipcp := fun hn => ⟨trivial, hs.ipcp hn⟩
  auth := hs.auth
  up := hs.up

theorem Ordered.send {s : St} (hs : Ordered h s) {pr : Nat} (pl : Bytes)
    (hp : pr = pppIPCP → h.onAuth.isSome = true → s.ipcpSent = true) :
    Ordered h (s.send pr pl) where
  ourReq := hs.ourReq.imp fun _ hm => List.mem_cons_of_mem _ hm
  ourLcp := fun hf => .inr (hs.ourLcp hf)
  peerLcp := fun hf => .inr (hs.peerLcp hf)
  calls := hs.calls
  authed := fun hn hi => (hs.authed hn hi).cons
  ipcp := fun hn => ⟨fun he => hs.authed hn (hp he hn), hs.ipcp hn⟩
  auth := hs.auth
  up := hs.up

theorem started_ordered : Ordered h (started h o) where
  ourReq := ⟨_, List.mem_cons_self⟩
  ourLcp := fun hf => by cases hf
  peerLcp := fun hf => by cases hf
  calls := rfl
  authed := fun _ hf => by cases hf
  ipcp := fun _ => ⟨fun he => (by cases he), trivial⟩
  auth := fun hf => by cases hf
  up := fun hf => by cases hf

theorem PapStep.ordered {s s' : St} (hp : PapStep o s s') (hs : Ordered h s) : Ordered h s' := by
  cases hp with
  | skip => exact hs
  | sent =>
    have hs' : Ordered h { s with papSent := true } := { hs with }
    exact hs'.send _ fun he => by cases he

theorem AuthStep.ordered {s s' : St} (ha : AuthStep h s s') (hs : Ordered h s) :
    Ordered h s' ∧ (s'.authOK = true → s'.ipcpSent = true) := by
  cases ha with
  | skip hd => exact ⟨hs, fun ht => by simpa [ht] using hd⟩
  | plain ha _ hn =>
    have hs' : Ordered h { s with ipcpSent := true } :=
      { hs with
        calls := by simpa [hn] using hs.calls
        authed := fun hf => by simp [hn] at hf
        auth := fun _ => ha }
    exact ⟨hs'.send _ fun _ _ => rfl, fun _ => rfl⟩
  | authed ha hi hf =>
    have hs' : Ordered h { s with ipcpSent := true, out := .auth s.hlak true :: s.out } :=
      { ourReq := hs.ourReq.imp fun _ hm => List.mem_cons_of_mem _ hm
        ourLcp := fun hl => .inr (hs.ourLcp hl)
        peerLcp := fun hl => .inr (hs.peerLcp hl)
        calls := by
          have hc := hs.calls
          simp only [hi, Bool.false_and, Bool.false_eq_true, if_false] at hc
          simp only [authCalls, List.countP_cons, if_true] at hc ⊢
          simp [hc, hf]
        authed := fun _ _ => ⟨s.hlak, List.mem_cons_self⟩
        ipcp := fun hn => ⟨trivial, hs.ipcp hn⟩
        auth := fun _ => ha
        up := hs.up }
    exact ⟨hs'.send _ fun _ _ => rfl, fun _ => rfl⟩

/-- A link that the head of the loop returns is in order. -/
theorem Ordered.upInOrder {s : St} (hs : Ordered h s) (hd : s.authOK = true → s.ipcpSent = true)
    (hu : ipcpUp s = true) : UpInOrder h s := by
  obtain ⟨hl, hp, ha⟩ := hs.up hu
  refine ⟨⟨hl, hs.ourLcp hl⟩, ⟨hp, hs.peerLcp hp⟩, ha, fun hn => ⟨?_, hs.ipcp hn⟩⟩
  have hc := hs.calls
  simpa [hd ha, hn] using hc

theorem settle_ordered {s : St} (hs : Ordered h s) :
    (settle h o s).All (Waiting h) fun s' r => ∀ l, r = .link l → UpInOrder h s' := by
  have hn := settle_settled h o s
  generalize settle h o s = n at hn ⊢
  cases hn with
  | wait hp ha hu =>
    have ho := ha.ordered (hp.ordered hs)
    exact { ho.1 with due := ho.2, down := hu }
  | up hp ha hu =>
    have ho := ha.ordered (hp.ordered hs)
    exact fun l _ => ho.1.upInOrder ho.2 hu
  | papFailed => exact fun l hl => by cases hl
  | authFailed => exact fun l hl => by cases hl
  | sendFailed => exact fun l hl => by cases hl

/-- One packet met in phase keeps the order. -/
theorem handled_ordered {s s' : St} {f : Bytes} {p : Packet} (hw : Waiting h s)
    (hf : packet f = some p) (hc : inPhasePacket h s p = true)
    (hh : Handled h o { s with out := .recv f :: s.out } p s') : Ordered h s' := by
  have hs := hw.toOrdered.recv f
  simp only [inPhasePacket, Bool.and_eq_true, Bool.or_eq_true, Bool.not_eq_eq_eq_not,
    Bool.not_true] at hc
  obtain ⟨htalk, hdone⟩ := hc
  have hsent (ht : talksIPCP s p = true) (hn : h.onAuth.isSome = true) : s.ipcpSent = true := by
    rcases htalk with (ht' | hn') | hi
    · simp [ht] at ht'
    · simp [Option.isNone_iff_eq_none.1 hn'] at hn
    · exact hi
  have hup (ht : completesIPCP s p = true) :
      s.lcpOurOK = true ∧ s.lcpPeerOK = true ∧ s.authOK = true := by
    rcases hdone with ht' | hi
    · simp [ht] at ht'
    · exact and_assoc.1 hi
  cases hh with
  | quiet => exact hs
  | lcpTalk i =>
    have hs' : Ordered h { s with id := i, out := .recv f :: s.out } := { hs with }
    exact hs'.send _ fun he => by cases he
  | lcpRenewed ours i =>
    exact
      { ourReq := ⟨_, List.mem_cons_self⟩
        ourLcp := fun hl => .inr (hs.ourLcp hl)
        peerLcp := fun hl => .inr (hs.peerLcp hl)
        calls := hs.calls
        authed := fun hn hi => (hs.authed hn hi).cons
        ipcp := fun hn => ⟨fun he => (by cases he), hs.ipcp hn⟩
        auth := hs.auth
        up := hs.up }
  | lcpAcked hpr hc hid =>
    exact { hs with
      ourLcp := fun _ => .inl ⟨p, hf, hpr, hc, by rw [hid]; exact hw.ourReq⟩
      up := fun hu => ⟨rfl, (hs.up hu).2⟩ }
  | lcpAccepted hpr hc =>
    exact
      { ourReq := hs.ourReq.imp fun _ hm => List.mem_cons_of_mem _ hm
        ourLcp := fun hl => .inr (hs.ourLcp hl)
        peerLcp := fun _ => .inl ⟨p, hf, hpr, hc, rfl, rfl⟩
        calls := hs.calls
        authed := fun hn hi => (hs.authed hn hi).cons
        ipcp := fun hn => ⟨fun he => (by cases he), hs.ipcp hn⟩
        auth := fun hi => Bool.or_eq_true_iff.2 (.inl (hs.auth hi))
        up := fun hu => by
          have hl := hs.up hu
          exact ⟨hl.1, rfl, Bool.or_eq_true_iff.2 (.inl hl.2.2)⟩ }
  | papAccepted =>
    exact { hs with
      auth := fun _ => rfl
      up := fun hu => ⟨(hs.up hu).1, (hs.up hu).2.1, rfl⟩ }
  | challenged =>
    have hs' : Ordered h { s with
        authProto := pppCHAP
        authChal := challengeOf p.data
        nt := h.crypto.ntResponse (challengeOf p.data) h.peerChal o.user o.pass
        out := .recv f :: s.out } := { hs with }
    exact hs'.send _ fun he => by cases he
  | succeeded =>
    exact { hs with
      auth := fun _ => rfl
      up := fun hu => ⟨(hs.up hu).1, (hs.up hu).2.1, rfl⟩ }
  | ipcpRefused pl hpr hc hp =>
    exact hs.send _ fun _ => hsent (by simp [talksIPCP, hpr, hc, hp])
  | ipcpAccepted hpr hc hp hrej =>
    have ha : acceptsIPCP p = true := by
      simp only [List.filter_eq_nil_iff, decide_not, Bool.not_eq_eq_eq_not, Bool.not_true,
        decide_eq_false_iff_not, Classical.not_not] at hrej
      simpa [acceptsIPCP, hc, hp] using hrej
    have hs' : Ordered h { s with ipcpPeerOK := true, out := .recv f :: s.out } :=
      { hs with
        up := fun hu => by
          have ho : s.ipcpOurOK = true := by simpa [ipcpUp] using hu
          exact hup (by simp [completesIPCP, hpr, ho, ha]) }
    exact hs'.send _ fun _ => hsent (by simp [talksIPCP, hpr, hc, hp])
  | ipcpAcked hpr hc hid =>
    exact { hs with
      up := fun hu => by
        have ho : s.ipcpPeerOK = true := by simpa [ipcpUp] using hu
        exact hup (by simp [completesIPCP, hpr, hc, ho, hid]) }
  | ipcpRenewed ours i pl hpr hc hid =>
    have hs' : Ordered h { s with
        ipcpOurs := ours, id := i, ipcpID := i, out := .recv f :: s.out } := { hs with }
    refine hs'.send _ fun _ => hsent ?_
    have hid' : p.pid = s.ipcpID := hid
    rcases hc with hc | hc <;> simp [talksIPCP, hpr, hc, hid']

theorem react_ordered {s : St} {e : Event} (hw : Waiting h s) (hc : inPhase h s e = true) :
    (react h o s e).All (Ordered h) fun _ r => ∃ m d, r = .err m d := by
  refine react_all h o fun s' hr => ?_
  cases hr with
  | idle => exact hw.toOrdered
  | lcpAgain => exact hw.toOrdered.send _ fun he => by cases he
  | papAgain => exact hw.toOrdered.send _ fun he => by cases he
  | ipcpAgain hs => exact hw.toOrdered.send _ fun _ _ => hs
  | skipped => exact hw.toOrdered.recv _
  | handled hp hh => exact handled_ordered hw hp (by simpa [inPhase, hp] using hc) hh

/-! ## Breaking the condition -/

theorem handle_ipcp {s : St} {p : Packet} (hpr : p.pr = pppIPCP) :
    handle h o s p = handleIPCP s p := by
  simp [handle, hpr, pppIPCP, pppLCP, pppPAP, pppCHAP]

/-- A frame that makes us talk IPCP leaves an IPCP packet in the history, or ends the run. -/
theorem handle_talks {s : St} {p : Packet} (ht : talksIPCP s p = true) :
    (handle h o s p).All (fun s' => ∃ pl, s'.out = .sent pppIPCP pl :: s.out)
      fun _ r => ∃ m d, r = .err m d := by
  simp only [talksIPCP, Bool.and_eq_true, Bool.or_eq_true, beq_iff_eq] at ht
  obtain ⟨hpr, ⟨hc, hopts⟩ | ⟨hc, hid⟩⟩ := ht
  · have hh : handle h o s p = .go (ipcpConfReq s p.pid p.data) := by
      rw [handle_ipcp hpr, handleIPCP, if_pos hc]
    obtain ⟨opts, hopts⟩ := Option.isSome_iff_exists.1 hopts
    rw [hh, Next.all_go, ipcpConfReq, hopts]
    simp only
    split
    · exact ⟨_, rfl⟩
    · exact ⟨_, rfl⟩
  · have hh : ∃ rej, handle h o s p = ipcpConfNak s rej p.pid p.data := by
      rcases hc with hc | hc
      · exact ⟨false, by
          simp [handle_ipcp hpr, handleIPCP, hc, confNak, confReq, confAck]⟩
      · exact ⟨true, by
          simp [handle_ipcp hpr, handleIPCP, hc, confNak, confReq, confAck, confRej]⟩
    obtain ⟨rej, hh⟩ := hh
    rw [hh, ipcpConfNak, if_neg (not_not_intro hid)]
    split
    · exact ⟨_, _, rfl⟩
    · exact ⟨_, rfl⟩

/-- A frame that completes IPCP leaves the other phases as they are. -/
theorem handle_completes {s : St} {p : Packet} (hd : completesIPCP s p = true) :
    ∃ s', handle h o s p = .go s' ∧ ipcpUp s' = true ∧ s'.lcpOurOK = s.lcpOurOK ∧
      s'.lcpPeerOK = s.lcpPeerOK ∧ s'.authOK = s.authOK := by
  simp only [completesIPCP, Bool.and_eq_true, Bool.or_eq_true, beq_iff_eq] at hd
  obtain ⟨hpr, ⟨ho, ha⟩ | ⟨⟨ho, hc⟩, hid⟩⟩ := hd
  · simp only [acceptsIPCP, Bool.and_eq_true, beq_iff_eq, Option.any_eq_true] at ha
    obtain ⟨hc, opts, hopts, hall⟩ := ha
    have hrej : (opts.filter fun x => x.t ≠ ipcpAddr) = [] := by
      simpa [List.filter_eq_nil_iff] using hall
    refine ⟨{ s with ipcpPeerOK := true }.send pppIPCP (cp confAck p.pid p.data), ?_, ?_,
      rfl, rfl, rfl⟩
    · rw [handle_ipcp hpr, handleIPCP, if_pos hc, ipcpConfReq, hopts]
      simp only [hrej, ne_eq, not_true_eq_false, if_false]
    · simpa [ipcpUp, St.send] using ho
  · refine ⟨{ s with ipcpOurOK := true }, ?_, ?_, rfl, rfl, rfl⟩
    · simp [handle_ipcp hpr, handleIPCP, hc, confReq, confAck, hid]
    · simpa [ipcpUp] using ho

/-- A link, and in order. -/
def LinkInOrder (h : Host) (p : St × Option Result) : Prop :=
  (∃ l, p.2 = some (.link l)) ∧ UpInOrder h p.1

theorem not_authenticated {s : St} (hs : Ordered h s) (hi : s.ipcpSent = false) :
    ¬ Authenticated s.out := by
  rintro ⟨hlak, hm⟩
  have hc := hs.calls
  simp only [hi, Bool.false_and, Bool.false_eq_true, if_false, authCalls,
    List.countP_eq_zero] at hc
  exact hc _ hm rfl

/-- An IPCP packet of ours before `onAuth` succeeded stays in the history. -/
theorem talked_not_inOrder {s s' : St} {f : Bytes} {es : List Event} {pl : Bytes}
    (hw : Waiting h s) (hn : h.onAuth.isSome = true) (hi : s.ipcpSent = false)
    (ho : s'.out = .sent pppIPCP pl :: .recv f :: s.out) :
    ¬ LinkInOrder h ((machine h o).run s' es) := by
  rintro ⟨-, hu⟩
  have hb := (hu.onAuth hn).2.of_suffix (run_out_suffix h o)
  rw [ho] at hb
  obtain ⟨hlak, hm⟩ := hb.1 rfl
  rcases List.mem_cons.1 hm with he | hm
  · cases he
  · exact not_authenticated hw.toOrdered hi ⟨hlak, hm⟩

/-- IPCP completed ends the run at once, with the other phases where they are. -/
theorem completed_run {s : St} (es : List Event) (hu : ipcpUp s = true) :
    (flags ((machine h o).run s es).1 = flags s) ∨
      ∀ l, ((machine h o).run s es).2 ≠ some (.link l) := by
  have hn := settle_settled h o s
  cases hr : settle h o s with
  | go s' =>
    rw [hr] at hn
    cases hn with
    | wait hp ha hd =>
      have hf : flags s' = flags s := (ha.flags_eq h).trans (hp.flags_eq o)
      simp only [flags, Prod.mk.injEq] at hf
      simp [ipcpUp, hf] at hd hu
      simp [hu] at hd
  | ret s' r =>
    rw [run_ret (M := machine h o) hr]
    rw [hr] at hn
    cases hn with
    | up hp ha => exact .inl ((ha.flags_eq h).trans (hp.flags_eq o))
    | papFailed => exact .inr fun l hl => by cases hl
    | authFailed => exact .inr fun l hl => by cases hl
    | sendFailed => exact .inr fun l hl => by cases hl

/-- **One frame out of phase spoils every link that follows.** -/
theorem outOfPhase_not_inOrder {s : St} {e : Event} {es : List Event} (hw : Waiting h s)
    (hc : ¬ inPhase h s e = true) : ¬ LinkInOrder h ((machine h o).after s e es) := by
  cases e with
  | closed => simp [inPhase] at hc
  | tick => simp [inPhase] at hc
  | deadline => simp [inPhase] at hc
  | frame f =>
    cases hp : packet f with
    | none => simp [inPhase, hp] at hc
    | some p =>
      have hr : (machine h o).react s (.frame f) =
          handle h o { s with out := .recv f :: s.out } p := by
        simp only [machine, react, hp]
      simp only [inPhase, hp, Option.all_some, inPhasePacket, Bool.and_eq_true, Bool.or_eq_true,
        Bool.not_eq_eq_eq_not, Bool.not_true, Classical.not_and_iff_not_or_not, not_or,
        Bool.not_eq_false] at hc
      simp only [Machine.after, hr]
      rcases hc with ⟨⟨ht, hn⟩, hi⟩ | ⟨hd, hf⟩
      · have ht' := handle_talks (h := h) (o := o) (s := { s with out := .recv f :: s.out }) ht
        cases hh : handle h o { s with out := .recv f :: s.out } p with
        | go s' =>
          rw [hh] at ht'
          obtain ⟨pl, ho⟩ := ht'
          refine talked_not_inOrder hw ?_ (by simpa using hi) ho
          simpa [Option.isSome_iff_ne_none] using hn
        | ret s' r =>
          rw [hh] at ht'
          obtain ⟨m, d, rfl⟩ := ht'
          rintro ⟨⟨l, hl⟩, -⟩
          cases hl
      · obtain ⟨s', hh, hu, hl, hpe, ha⟩ :=
          handle_completes (h := h) (o := o) (s := { s with out := .recv f :: s.out }) hd
        rw [hh]
        rintro ⟨⟨l, hl'⟩, hord⟩
        rcases completed_run (h := h) (o := o) es hu with hfl | hno
        · simp only [flags, Prod.mk.injEq] at hfl
          rcases hf with (hf | hf) | hf
          · exact hf (hl.symm.trans (hfl.1.symm.trans hord.ourLcp.1))
          · exact hf (hpe.symm.trans (hfl.2.1.symm.trans hord.peerLcp.1))
          · exact hf (ha.symm.trans (hfl.2.2.1.symm.trans hord.auth))
        · exact hno l hl'

/-- **A link comes up in order exactly when every frame was in phase.** -/
theorem link_inOrder_iff {es : List Event} {l : PppLink}
    (hl : (pppNegotiate h o es).2 = some (.link l)) :
    UpInOrder h (pppNegotiate h o es).1 ↔
      (machine h o).Meets (fun s e => inPhase h s e = true) (started h o) es := by
  unfold pppNegotiate at hl ⊢
  split at hl
  · rename_i hsend
    rw [if_pos hsend]
    constructor
    · intro hu
      exact meets_of_run (G := LinkInOrder h) (F := fun s' r => ∀ l, r = .link l → UpInOrder h s')
        (fun _ => settle_ordered)
        (fun s e hw hc => (react_ordered hw hc).mono (fun _ => id) fun _ _ hr l hl => by
          obtain ⟨m, d, rfl⟩ := hr; cases hl)
        (fun s e es hw hc => outOfPhase_not_inOrder hw hc) started_ordered ⟨⟨l, hl⟩, hu⟩
    · intro hm
      have hr := run_inv (M := machine h o) (W := Waiting h)
        (F := fun s' r => ∀ l, r = .link l → UpInOrder h s')
        (fun _ => settle_ordered)
        (fun s e hw hc => (react_ordered hw hc).mono (fun _ => id) fun _ _ hr l hl => by
          obtain ⟨m, d, rfl⟩ := hr; cases hl) started_ordered hm
      generalize (machine h o).run (started h o) es = q at hl hr ⊢
      obtain ⟨s', r⟩ := q
      subst hl
      exact hr l rfl
  · cases hl

end

/-- A peer that asks for no authentication and keeps to the phases. -/
def orderly : List Event :=
  [.cp pppLCP confReq 1 [], .cp pppLCP confAck 2 [], .cp pppIPCP confReq 1 [3, 6, 10, 0, 0, 1],
   .cp pppIPCP confNak 3 [3, 6, 10, 0, 0, 2], .cp pppIPCP confAck 5 []]

theorem orderly_inOrder :
    (pppNegotiate .plain (.plain .auto) orderly).2 =
        some (.link ⟨some [10, 0, 0, 2], [], [1, 2, 3, 4]⟩) ∧
      (UpInOrder .plain (pppNegotiate .plain (.plain .auto) orderly).1 ↔
        (machine .plain (.plain .auto)).Meets (fun s e => inPhase .plain s e = true)
          (started .plain (.plain .auto)) orderly) :=
  have hl : (pppNegotiate .plain (.plain .auto) orderly).2 =
      some (.link ⟨some [10, 0, 0, 2], [], [1, 2, 3, 4]⟩) := by decide
  ⟨hl, link_inOrder_iff hl⟩

/-- A peer that sends nothing but IPCP. -/
def ipcpOnly : List Event := orderly.drop 2

/-- The link comes up without LCP, without authentication and without `onAuth`. -/
theorem ipcpOnly_link :
    (pppNegotiate .plain (.plain .mschapv2) ipcpOnly).2 =
        some (.link ⟨some [10, 0, 0, 2], [], [1, 2, 3, 4]⟩) ∧
      (pppNegotiate .plain (.plain .mschapv2) ipcpOnly).1.authOK = false ∧
      authCalls (pppNegotiate .plain (.plain .mschapv2) ipcpOnly).1.out = 0 ∧
      ¬ UpInOrder .plain (pppNegotiate .plain (.plain .mschapv2) ipcpOnly).1 := by
  refine ⟨by decide, by decide, by decide, fun hu => ?_⟩
  have ha := hu.auth
  revert ha
  decide

end Ghajar.Ppp
