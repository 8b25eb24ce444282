import Ghajar.Lib.History
import Ghajar.Ppp.Options

/-!
# The link uses what was acknowledged

The magic number stands in the option list that is sent again, in the bytes an Echo-Reply is made
of, and in the link that `pppPump` answers with; the address and the DNS servers are read off the
option list when both sides have acknowledged. `keeps` is the condition on the frames under which
these stay what the peer acknowledged: no Configure-Nak or -Reject changes our magic number, and
none changes the IPCP options once they are acknowledged.
-/

namespace Ghajar.Ppp

open Reactive Reactive.Machine History

def pppIPv4 : Nat := 0x0021

/-! ## The pump -/

/-- The two directions of `pppPump`, and what it returns. -/
structure Pump where
  out : List Ev
  /-- What was written to the device, newest first. -/
  wrote : List Bytes
  reading : Bool
  writing : Bool
  result : Option String

inductive PumpEvent where
  | frame (f : Bytes)
  | closed
  /-- A packet of the device, and whether it could be sent. -/
  | outgoing (packet : Bytes) (ok : Bool)
  | deviceFailed
  deriving DecidableEq, Repr

namespace Pump

def send (s : Pump) (proto : Nat) (payload : Bytes) : Pump :=
  { s with out := .sent proto payload :: s.out }

/-- The first error is what is returned. -/
def fail (s : Pump) (msg : String) : Pump := { s with result := s.result.or (some msg) }

def handle (magic : Bytes) (s : Pump) (pr : Nat) (pl : Bytes) : Pump :=
  if pr = pppIPv4 then { s with wrote := pl :: s.wrote }
  else if pr = pppLCP then
    match pl with
    | code :: pid :: _ :: _ :: _ =>
      if code = echoReq then s.send pppLCP (cp echoReply pid magic)
      else if code = termReq then
        { (s.send pppLCP (cp termAck pid [])).fail "lcp: server terminated the link" with
          reading := false }
      else s
    | _ => s
  else s

def step (magic : Bytes) (s : Pump) : PumpEvent → Pump
  | .frame f =>
    if s.reading then
      let s := { s with out := .recv f :: s.out }
      match splitPPP f with
      | some (pr, pl) => s.handle magic pr pl
      | none => s
    else s
  | .closed => if s.reading then { s.fail "link closed" with reading := false } else s
  | .outgoing b ok =>
    if s.writing then
      if ok then s.send pppIPv4 b else { (s.send pppIPv4 b).fail "send" with writing := false }
    else s
  | .deviceFailed => if s.writing then { s.fail "read" with writing := false } else s

end Pump

/-- The pump, behind what went past the negotiation. -/
def pppPump (magic : Bytes) (out : List Ev) (es : List PumpEvent) : Pump :=
  es.foldl (Pump.step magic) ⟨out, [], true, true, none⟩

/-! ## What was acknowledged -/

/-- The data of our last request of a protocol that the peer acknowledged; `acks` are the
identifiers acknowledged since. -/
def lastAckedFor (proto : Nat) : List UInt8 → List Ev → Option Bytes
  | _, [] => none
  | acks, .recv f :: es =>
    match packet f with
    | some p =>
      if p.pr = proto ∧ p.code = confAck then lastAckedFor proto (p.pid :: acks) es
      else lastAckedFor proto acks es
    | none => lastAckedFor proto acks es
  | acks, .sent pr (c :: id :: _ :: _ :: data) :: es =>
    if pr = proto ∧ c = confReq ∧ id ∈ acks then some data else lastAckedFor proto acks es
  | acks, .sent _ _ :: es => lastAckedFor proto acks es
  | acks, .auth _ _ :: es => lastAckedFor proto acks es

/-- The magic number of options, zero where they have none. -/
def magicOf (opts : List PppOpt) : Bytes :=
  ((opts.find? fun x => x.t == lcpMagic).map PppOpt.v).getD [0, 0, 0, 0]

def addressOf (opts : List PppOpt) : Option Bytes :=
  (opts.filter fun x => x.t == ipcpAddr).getLast?.bind fun x => addrFromSlice x.v

def dnsOf (opts : List PppOpt) : List (Option Bytes) :=
  ((opts.filter fun x => x.t == ipcpDNS1 || x.t == ipcpDNS2).map fun x => addrFromSlice x.v).filter
    fun a => !isUnspecified a

/-- An Echo-Reply carries the magic number of the acknowledged request. -/
def echoOK : Ev → List Ev → Prop
  | .sent pr pl, before => ∀ pid d data, pr = pppLCP → pl = cp echoReply pid d →
      lastAckedFor pppLCP [] before = some data → d = magicOf ((parseOpts data).getD [])
  | _, _ => True

/-- The link has the address and the DNS servers of the acknowledged request. -/
def LinkTold (l : PppLink) (out : List Ev) : Prop :=
  ∃ data opts, lastAckedFor pppIPCP [] out = some data ∧ parseOpts data = some opts ∧
    l.localAddr = addressOf opts ∧ l.dns = dnsOf opts

/-! ## The condition -/

/-- A Configure-Nak or -Reject of this request of ours. -/
def renews (proto : Nat) (id : UInt8) (p : Packet) : Bool :=
  p.pr == proto && (p.code == confNak || p.code == confRej) && p.pid == id

/-- The options we ask for next. -/
def lcpAfter (s : St) (p : Packet) : List PppOpt :=
  ((parseOpts p.data).getD []).foldl (fun l x => adjust (p.code == confRej) x l) s.lcpOurs

def ipcpAfter (s : St) (p : Packet) : Option (List PppOpt) :=
  ((parseOpts p.data).getD []).foldl (fun l x => l.bind (adjustIPCP (p.code == confRej) x))
    (some s.ipcpOurs)

def keepsPacket (h : Host) (s : St) (p : Packet) : Bool :=
  (!renews pppLCP s.lcpID p || magicOf (lcpAfter s p) == h.mb) &&
    (!(renews pppIPCP s.ipcpID p && s.ipcpOurOK) || (ipcpAfter s p).all (· == s.ipcpOurs))

/-- The frame leaves our magic number, and our IPCP options once they are acknowledged. -/
def keeps (h : Host) (s : St) : Event → Bool
  | .frame f => (packet f).all (keepsPacket h s)
  | _ => true

section
variable (h : Host) (o : PppConfig)

/-! ## What a packet does to our requests -/

/-- Neither a request of ours nor an Echo-Reply. -/
def Plain (pr : Nat) (pl : Bytes) : Prop :=
  (pr = pppLCP → ∃ c id d, pl = cp c id d ∧ c ≠ confReq ∧ c ≠ echoReply) ∧
    (pr = pppIPCP → ∃ c id d, pl = cp c id d ∧ c ≠ confReq)

/-- The variables of our requests are as they were. -/
structure OursKept (s s' : St) : Prop where
  lcpOurs : s'.lcpOurs = s.lcpOurs
  ipcpOurs : s'.ipcpOurs = s.ipcpOurs
  ipcpID : s'.ipcpID = s.ipcpID
  ipcpOurOK : s'.ipcpOurOK = s.ipcpOurOK

theorem OursKept.refl (s : St) : OursKept s s := ⟨rfl, rfl, rfl, rfl⟩

/-- `Handled`, as far as our requests and the Echo-Replies are concerned. -/
inductive Effect (s : St) (p : Packet) : St → Prop where
  | quiet {s' : St} (hk : OursKept s s') (ho : s'.out = s.out) : Effect s p s'
  | said {s' : St} {pr : Nat} {pl : Bytes} (hk : OursKept s s') (hp : Plain pr pl)
      (ho : s'.out = .sent pr pl :: s.out) : Effect s p s'
  | echoed : Effect s p (s.send pppLCP (cp echoReply p.pid h.mb))
  | lcpRenewed (i : UInt8) (hr : renews pppLCP s.lcpID p = true) :
      Effect s p ({ s with lcpOurs := lcpAfter s p, id := i, lcpID := i }.send pppLCP
        (cp confReq i (packOpts (lcpAfter s p))))
  | ipcpAcked (hpr : p.pr = pppIPCP) (hc : p.code = confAck) (hid : p.pid = s.ipcpID) :
      Effect s p { s with ipcpOurOK := true }
  | ipcpRenewed {ours : List PppOpt} (i : UInt8) (hr : renews pppIPCP s.ipcpID p = true)
      (ho : ipcpAfter s p = some ours) :
      Effect s p ({ s with ipcpOurs := ours, id := i, ipcpID := i }.send pppIPCP
        (cp confReq i (packOpts ours)))

variable {h o}

theorem plain_lcp {c id : UInt8} {d : Bytes} (hc : c ≠ confReq) (he : c ≠ echoReply) :
    Plain pppLCP (cp c id d) := ⟨fun _ => ⟨c, id, d, rfl, hc, he⟩, nofun⟩

theorem plain_ipcp {c id : UInt8} {d : Bytes} (hc : c ≠ confReq) : Plain pppIPCP (cp c id d) :=
  ⟨nofun, fun _ => ⟨c, id, d, rfl, hc⟩⟩

theorem lcpConfReq_effect {s : St} {p : Packet} :
    Effect h s p (lcpConfReq o s p.pid p.data) := by
  unfold lcpConfReq
  cases parseOpts p.data with
  | none => exact .quiet (.refl s) rfl
  | some opts =>
    simp only
    split
    · exact .said ⟨rfl, rfl, rfl, rfl⟩ (plain_lcp (by decide) (by decide)) rfl
    split
    · exact .said ⟨rfl, rfl, rfl, rfl⟩ (plain_lcp (by decide) (by decide)) rfl
    · exact .said ⟨rfl, rfl, rfl, rfl⟩ (plain_lcp (by decide) (by decide)) rfl

theorem lcpConfNak_effect {s : St} {p : Packet} (hpr : p.pr = pppLCP)
    (hc : p.code = confNak ∨ p.code = confRej) :
    Effect h s p (lcpConfNak s (p.code == confRej) p.pid p.data) := by
  unfold lcpConfNak
  split
  · exact .quiet (.refl s) rfl
  · rename_i hid
    have hid := Classical.not_not.1 hid
    refine .lcpRenewed (s.id + 1) ?_
    rcases hc with hc | hc <;> simp [renews, hpr, hc, hid]

theorem handleLCP_effect {s : St} {p : Packet} (hpr : p.pr = pppLCP) :
    Effect h s p (handleLCP h o s p).state := by
  unfold handleLCP
  split
  · exact lcpConfReq_effect
  split
  · split <;> exact .quiet ⟨rfl, rfl, rfl, rfl⟩ rfl
  split
  · rename_i hc
    have := lcpConfNak_effect (h := h) (s := s) hpr (.inl hc)
    rwa [hc] at this
  split
  · rename_i hc
    have := lcpConfNak_effect (h := h) (s := s) hpr (.inr hc)
    rwa [hc] at this
  split
  · exact .echoed
  split
  · exact .said ⟨rfl, rfl, rfl, rfl⟩ (plain_lcp (by decide) (by decide)) rfl
  · exact .quiet (.refl s) rfl

theorem handlePAP_effect {s : St} {p : Packet} : Effect h s p (handlePAP s p).state := by
  unfold handlePAP
  split
  · exact .quiet (.refl s) rfl
  split
  · exact .quiet ⟨rfl, rfl, rfl, rfl⟩ rfl
  split <;> exact .quiet (.refl s) rfl

theorem handleCHAP_effect {s : St} {p : Packet} : Effect h s p (handleCHAP h o s p).state := by
  unfold handleCHAP chapChallenge
  split
  · split
    · exact .said ⟨rfl, rfl, rfl, rfl⟩ (show Plain pppCHAP _ from ⟨nofun, nofun⟩) rfl
    · exact .quiet (.refl s) rfl
  split
  · split <;> exact .quiet ⟨rfl, rfl, rfl, rfl⟩ rfl
  split <;> exact .quiet (.refl s) rfl

theorem ipcpConfReq_effect {s : St} {p : Packet} :
    Effect h s p (ipcpConfReq s p.pid p.data) := by
  unfold ipcpConfReq
  cases parseOpts p.data with
  | none => exact .quiet (.refl s) rfl
  | some opts =>
    simp only
    split
    · exact .said ⟨rfl, rfl, rfl, rfl⟩ (plain_ipcp (by decide)) rfl
    · exact .said ⟨rfl, rfl, rfl, rfl⟩ (plain_ipcp (by decide)) rfl

theorem ipcpConfNak_effect {s : St} {p : Packet} (hpr : p.pr = pppIPCP)
    (hc : p.code = confNak ∨ p.code = confRej) :
    Effect h s p (ipcpConfNak s (p.code == confRej) p.pid p.data).state := by
  unfold ipcpConfNak
  split
  · exact .quiet (.refl s) rfl
  · rename_i hid
    have hid := Classical.not_not.1 hid
    split
    · exact .quiet (.refl s) rfl
    · rename_i ours hours
      refine .ipcpRenewed (s.id + 1) ?_ hours
      rcases hc with hc | hc <;> simp [renews, hpr, hc, hid]

theorem handleIPCP_effect {s : St} {p : Packet} (hpr : p.pr = pppIPCP) :
    Effect h s p (handleIPCP s p).state := by
  unfold handleIPCP
  split
  · exact ipcpConfReq_effect
  split
  · split
    · exact .ipcpAcked hpr ‹_› ‹_›
    · exact .quiet (.refl s) rfl
  split
  · rename_i hc
    have := ipcpConfNak_effect (h := h) (s := s) hpr (.inl hc)
    rwa [hc] at this
  split
  · rename_i hc
    have := ipcpConfNak_effect (h := h) (s := s) hpr (.inr hc)
    rwa [hc] at this
  · exact .quiet (.refl s) rfl

theorem handle_effect (s : St) (p : Packet) : Effect h s p (handle h o s p).state := by
  unfold handle
  split
  · exact handleLCP_effect ‹_›
  split
  · exact handlePAP_effect
  split
  · exact handleCHAP_effect
  split
  · exact handleIPCP_effect ‹_›
  · exact .said ⟨rfl, rfl, rfl, rfl⟩ (plain_lcp (by decide) (by decide)) rfl

/-! ## Echo-Replies -/

/-- A request carries the magic number `mb`, and so does an Echo-Reply. -/
def Steady (mb : Bytes) : Ev → List Ev → Prop
  | .sent pr pl, _ => pr = pppLCP →
      (∀ id a b data, pl = confReq :: id :: a :: b :: data →
        magicOf ((parseOpts data).getD []) = mb) ∧
      ∀ pid d, pl = cp echoReply pid d → d = mb
  | _, _ => True

theorem lastAckedFor_steady {mb data : Bytes} {acks : List UInt8} {out : List Ev}
    (hs : Always (Steady mb) out) (hl : lastAckedFor pppLCP acks out = some data) :
    magicOf ((parseOpts data).getD []) = mb := by
  induction acks, out using lastAckedFor.induct pppLCP with
  | case1 => cases hl
  | case2 acks f es p hp hc ih =>
    rw [lastAckedFor, hp] at hl
    exact ih hs.2 ((if_pos hc).symm.trans hl)
  | case3 acks f es p hp hc ih =>
    rw [lastAckedFor, hp] at hl
    exact ih hs.2 ((if_neg hc).symm.trans hl)
  | case4 acks f es hp ih =>
    rw [lastAckedFor, hp] at hl
    exact ih hs.2 hl
  | case5 acks pr es c id a b d hc =>
    rw [lastAckedFor, if_pos hc] at hl
    obtain ⟨hpr, rfl, -⟩ := hc
    obtain rfl := Option.some.inj hl
    exact (hs.1 hpr).1 _ _ _ _ rfl
  | case6 acks pr es c id a b d hc ih =>
    rw [lastAckedFor, if_neg hc] at hl
    exact ih hs.2 hl
  | case7 acks pr pl es hpl ih =>
    rw [lastAckedFor] at hl
    · exact ih hs.2 hl
    · exact hpl
  | case8 acks hlak ok es ih => exact ih hs.2 hl

theorem echoOK_of_steady {mb : Bytes} {out : List Ev} (hs : Always (Steady mb) out) :
    Always echoOK out := by
  induction out with
  | nil => trivial
  | cons e es ih =>
    refine ⟨?_, ih hs.2⟩
    cases e with
    | recv f => trivial
    | auth hl ok => trivial
    | sent pr pl =>
      intro pid d data hpr hpl hdata
      rw [lastAckedFor_steady hs.2 hdata]
      exact (hs.1 hpr).2 pid d hpl

theorem steady_plain {mb pl : Bytes} {pr : Nat} {out : List Ev} (hp : Plain pr pl) :
    Steady mb (.sent pr pl) out := by
  intro hpr
  obtain ⟨c, id, d, rfl, hc, he⟩ := hp.1 hpr
  exact ⟨fun _ _ _ _ h => absurd (List.cons.inj h).1 hc,
    fun _ _ h => absurd (List.cons.inj h).1 he⟩

theorem steady_ipcp {mb pl : Bytes} {out : List Ev} : Steady mb (.sent pppIPCP pl) out := nofun

theorem steady_request {opts : List PppOpt} {i : UInt8} {out : List Ev}
    (hv : ∀ x ∈ opts, x.v.length ≤ 253) :
    Steady (magicOf opts) (.sent pppLCP (cp confReq i (packOpts opts))) out := by
  refine fun _ => ⟨fun id a b data h => ?_, fun _ _ h => absurd (List.cons.inj h).1 (by decide)⟩
  obtain rfl : packOpts opts = data := (List.cons.inj (List.cons.inj
    (List.cons.inj (List.cons.inj h).2).2).2).2
  rw [parseOpts_pack hv]
  rfl

theorem steady_echo {mb : Bytes} {pid : UInt8} {out : List Ev} :
    Steady mb (.sent pppLCP (cp echoReply pid mb)) out := by
  refine fun _ => ⟨fun id a b data h => absurd (List.cons.inj h).1 (by decide), fun _ d h => ?_⟩
  exact (List.cons.inj (List.cons.inj (List.cons.inj (List.cons.inj h).2).2).2).2.symm

/-! ## The IPCP request that was acknowledged -/

/-- The options the function starts with. -/
def unasked : List PppOpt :=
  [⟨ipcpAddr, [0, 0, 0, 0]⟩, ⟨ipcpDNS1, [0, 0, 0, 0]⟩, ⟨ipcpDNS2, [0, 0, 0, 0]⟩]

/-- An acknowledgement of `id` would be one of these options. -/
def AskedOurs (id : UInt8) (ours : List PppOpt) (out : List Ev) : Prop :=
  ours = unasked ∨ ∀ acks, id ∈ acks → lastAckedFor pppIPCP acks out = some (packOpts ours)

/-- These options are acknowledged. -/
def Agreed (ours : List PppOpt) (out : List Ev) : Prop :=
  ours = unasked ∨ ∀ acks, lastAckedFor pppIPCP acks out = some (packOpts ours)

/-- An event that is no IPCP request of ours: at most one more request is acknowledged. -/
def Silent (e : Ev) : Prop :=
  ∀ acks out, ∃ acks', acks ⊆ acks' ∧
    lastAckedFor pppIPCP acks (e :: out) = lastAckedFor pppIPCP acks' out

theorem silent_recv {f : Bytes} : Silent (.recv f) := by
  intro acks out
  cases hp : packet f with
  | none => exact ⟨acks, List.Subset.refl _, by rw [lastAckedFor, hp]⟩
  | some p =>
    by_cases hc : p.pr = pppIPCP ∧ p.code = confAck
    · refine ⟨p.pid :: acks, List.subset_cons_self _ _, ?_⟩
      rw [lastAckedFor, hp]
      exact if_pos hc
    · refine ⟨acks, List.Subset.refl _, ?_⟩
      rw [lastAckedFor, hp]
      exact if_neg hc

theorem silent_auth {hlak : Bytes} {ok : Bool} : Silent (.auth hlak ok) :=
  fun acks _ => ⟨acks, List.Subset.refl _, rfl⟩

theorem silent_sent {pr : Nat} {pl : Bytes}
    (hp : pr = pppIPCP → ∃ c id d, pl = cp c id d ∧ c ≠ confReq) : Silent (.sent pr pl) := by
  refine fun acks out => ⟨acks, List.Subset.refl _, ?_⟩
  rw [lastAckedFor.eq_def]
  split
  · rename_i h
    cases h
  · rename_i h
    cases h
  · rename_i h
    cases h
    split
    · rename_i hc
      obtain ⟨c, id, d, hpl, hne⟩ := hp hc.1
      exact absurd ((List.cons.inj hpl).1.symm.trans hc.2.1) hne
    · rfl
  · rename_i h
    cases h
    rfl
  · rename_i h
    cases h

theorem lastAckedFor_request {i : UInt8} {acks : List UInt8} {d : Bytes} {out : List Ev} :
    lastAckedFor pppIPCP acks (.sent pppIPCP (cp confReq i d) :: out) =
      if i ∈ acks then some d else lastAckedFor pppIPCP acks out := by
  by_cases hi : i ∈ acks
  · rw [if_pos hi]
    exact if_pos ⟨rfl, rfl, hi⟩
  · rw [if_neg hi]
    exact if_neg fun hc => hi hc.2.2

variable {id : UInt8} {ours : List PppOpt} {out : List Ev} {e : Ev}

theorem AskedOurs.silent (ha : AskedOurs id ours out) (he : Silent e) : AskedOurs id ours (e :: out) := by
  rcases ha with rfl | ha
  · exact .inl rfl
  · refine .inr fun acks hid => ?_
    obtain ⟨acks', hsub, heq⟩ := he acks out
    rw [heq]
    exact ha acks' (hsub hid)

theorem Agreed.silent (ha : Agreed ours out) (he : Silent e) : Agreed ours (e :: out) := by
  rcases ha with rfl | ha
  · exact .inl rfl
  · refine .inr fun acks => ?_
    obtain ⟨acks', -, heq⟩ := he acks out
    rw [heq]
    exact ha acks'

theorem asked_request : AskedOurs id ours (.sent pppIPCP (cp confReq id (packOpts ours)) :: out) :=
  .inr fun acks hid => by rw [lastAckedFor_request, if_pos hid]

theorem Agreed.request (ha : Agreed ours out) :
    Agreed ours (.sent pppIPCP (cp confReq id (packOpts ours)) :: out) := by
  rcases ha with rfl | ha
  · exact .inl rfl
  · refine .inr fun acks => ?_
    rw [lastAckedFor_request]
    split
    · rfl
    · exact ha acks

/-- The acknowledgement of what we asked for. -/
theorem AskedOurs.acked {f : Bytes} {p : Packet} (ha : AskedOurs p.pid ours out) (hp : packet f = some p)
    (hpr : p.pr = pppIPCP) (hc : p.code = confAck) : Agreed ours (.recv f :: out) := by
  rcases ha with rfl | ha
  · exact .inl rfl
  · refine .inr fun acks => ?_
    rw [lastAckedFor, hp]
    exact (if_pos ⟨hpr, hc⟩).trans (ha _ (List.mem_cons_self ..))

/-! ## The invariant -/

variable (h) in
structure Told (s : St) : Prop where
  small : ∀ x ∈ s.lcpOurs, x.v.length ≤ 253
  magic : magicOf s.lcpOurs = h.mb
  steady : Always (Steady h.mb) s.out
  four : ∀ x ∈ s.ipcpOurs, x.v.length = 4
  asked : AskedOurs s.ipcpID s.ipcpOurs s.out
  agreed : s.ipcpOurOK = true → Agreed s.ipcpOurs s.out

variable {s s' : St} {p : Packet}

theorem Told.kept (ht : Told h s) (hk : OursKept s s') (ho : s'.out = s.out) : Told h s' := by
  obtain ⟨hl, hi, hid, hok⟩ := hk
  constructor
  · rw [hl]
    exact ht.small
  · rw [hl]
    exact ht.magic
  · rw [ho]
    exact ht.steady
  · rw [hi]
    exact ht.four
  · rw [hid, hi, ho]
    exact ht.asked
  · rw [hok, hi, ho]
    exact ht.agreed

/-- An event that is no request of ours. -/
theorem Told.push (ht : Told h s) (hst : Steady h.mb e s.out) (hsi : Silent e) :
    Told h { s with out := e :: s.out } :=
  ⟨ht.small, ht.magic, ⟨hst, ht.steady⟩, ht.four, ht.asked.silent hsi,
    fun hok => (ht.agreed hok).silent hsi⟩

theorem Told.said {pr : Nat} {pl : Bytes} (ht : Told h s) (hk : OursKept s s') (hp : Plain pr pl)
    (ho : s'.out = .sent pr pl :: s.out) : Told h s' :=
  (ht.push (steady_plain hp) (silent_sent hp.2)).kept
    ⟨hk.lcpOurs, hk.ipcpOurs, hk.ipcpID, hk.ipcpOurOK⟩ ho

/-- The LCP request again. -/
theorem Told.lcpAgain (ht : Told h s) : Told h (s.send pppLCP s.lcpReq) := by
  refine ht.push ?_ (silent_sent nofun)
  rw [← ht.magic]
  exact steady_request ht.small

/-- An IPCP request, which asks for the same if it was acknowledged already. -/
theorem Told.ask {i j : UInt8} (ht : Told h s) (h4 : ∀ x ∈ ours, x.v.length = 4)
    (hsame : s.ipcpOurOK = true → ours = s.ipcpOurs) :
    Told h ({ s with ipcpOurs := ours, id := j, ipcpID := i }.send pppIPCP
      (cp confReq i (packOpts ours))) := by
  refine ⟨ht.small, ht.magic, ⟨steady_ipcp, ht.steady⟩, h4, asked_request, fun hok => ?_⟩
  have ha := ht.agreed hok
  rw [← hsame hok] at ha
  exact ha.request

theorem adjust_forall {P : Bytes → Prop} {rej : Bool} {x : PppOpt} {l : List PppOpt}
    (hx : P x.v) (hl : ∀ y ∈ l, P y.v) : ∀ y ∈ adjust rej x l, P y.v := by
  induction l with
  | nil => exact hl
  | cons y ys ih =>
    have hy := hl y (List.mem_cons_self ..)
    have hys : ∀ z ∈ ys, P z.v := fun z hz => hl z (List.mem_cons_of_mem _ hz)
    unfold adjust
    split
    · split
      · exact hys
      · exact List.forall_mem_cons.2 ⟨hx, hys⟩
    · exact List.forall_mem_cons.2 ⟨hy, ih hys⟩

theorem adjustIPCP_four {rej : Bool} {x : PppOpt} {l l' : List PppOpt}
    (hl : ∀ y ∈ l, y.v.length = 4) (h : adjustIPCP rej x l = some l') :
    ∀ y ∈ l', y.v.length = 4 := by
  induction l generalizing l' with
  | nil =>
    obtain rfl := Option.some.inj h
    exact hl
  | cons y ys ih =>
    have hy := hl y (List.mem_cons_self ..)
    have hys : ∀ z ∈ ys, z.v.length = 4 := fun z hz => hl z (List.mem_cons_of_mem _ hz)
    unfold adjustIPCP at h
    split at h
    · split at h
      · split at h
        · cases h
        · obtain rfl := Option.some.inj h
          exact hys
      · split at h
        · rename_i hx
          obtain rfl := Option.some.inj h
          exact List.forall_mem_cons.2 ⟨hx, hys⟩
        · obtain rfl := Option.some.inj h
          exact hl
    · obtain ⟨l2, hl2, rfl⟩ := Option.map_eq_some_iff.1 h
      exact List.forall_mem_cons.2 ⟨hy, ih hys hl2⟩

/-- The options of a packet are short enough to be sent. -/
theorem getD_small {data : Bytes} : ∀ x ∈ (parseOpts data).getD [], x.v.length ≤ 253 := by
  cases hp : parseOpts data with
  | none => exact fun x hx => absurd hx List.not_mem_nil
  | some opts => exact (parseOptsN_pack hp).2.2

theorem lcpAfter_small (hs : ∀ x ∈ s.lcpOurs, x.v.length ≤ 253) :
    ∀ x ∈ lcpAfter s p, x.v.length ≤ 253 := by
  have hsmall : ∀ x ∈ (parseOpts p.data).getD [], x.v.length ≤ 253 := getD_small
  unfold lcpAfter
  generalize (parseOpts p.data).getD [] = opts at hsmall
  generalize s.lcpOurs = l at hs
  induction opts generalizing l with
  | nil => exact hs
  | cons x xs ih =>
    exact ih (fun y hy => hsmall y (List.mem_cons_of_mem _ hy)) _
      (adjust_forall (P := fun v => v.length ≤ 253) (hsmall x (List.mem_cons_self ..)) hs)

theorem ipcpAfter_four (hs : ∀ x ∈ s.ipcpOurs, x.v.length = 4) (ho : ipcpAfter s p = some ours) :
    ∀ x ∈ ours, x.v.length = 4 := by
  unfold ipcpAfter at ho
  generalize (parseOpts p.data).getD [] = opts at ho
  generalize s.ipcpOurs = l at hs ho
  induction opts generalizing l with
  | nil =>
    obtain rfl := Option.some.inj ho
    exact hs
  | cons x xs ih =>
    rw [List.foldl_cons, Option.bind_some] at ho
    cases ha : adjustIPCP (p.code == confRej) x l with
    | none =>
      rw [ha] at ho
      have hnone : ∀ ys : List PppOpt, ys.foldl
          (fun l x => l.bind (adjustIPCP (p.code == confRej) x)) none = none := by
        intro ys
        induction ys with
        | nil => rfl
        | cons y ys ih => exact ih
      rw [hnone] at ho
      cases ho
    | some l' =>
      rw [ha] at ho
      exact ih l' (adjustIPCP_four hs ha) ho

/-- **One packet.** Under the condition it leaves the invariant. -/
theorem Told.effect {f : Bytes} (ht : Told h s) (hp : packet f = some p)
    (hk : keepsPacket h s p = true)
    (he : Effect h { s with out := .recv f :: s.out } p s') : Told h s' := by
  have htr : Told h { s with out := .recv f :: s.out } := ht.push trivial silent_recv
  simp only [keepsPacket, Bool.and_eq_true, Bool.or_eq_true, Bool.not_eq_true', beq_iff_eq] at hk
  cases he with
  | quiet hkept ho => exact htr.kept hkept ho
  | said hkept hpl ho => exact htr.said hkept hpl ho
  | echoed => exact htr.push steady_echo (silent_sent nofun)
  | lcpRenewed i hr =>
    have hmagic : magicOf (lcpAfter s p) = h.mb :=
      hk.1.resolve_left fun hn => Bool.noConfusion (hn.symm.trans hr)
    have hsmall : ∀ x ∈ lcpAfter s p, x.v.length ≤ 253 := lcpAfter_small ht.small
    refine ⟨hsmall, hmagic, ⟨?_, htr.steady⟩, ht.four, htr.asked.silent (silent_sent nofun),
      fun hok => (htr.agreed hok).silent (silent_sent nofun)⟩
    have hst : Steady (magicOf (lcpAfter s p))
        (.sent pppLCP (cp confReq i (packOpts (lcpAfter s p)))) (.recv f :: s.out) :=
      steady_request hsmall
    rwa [hmagic] at hst
  | ipcpAcked hpr hc hid =>
    refine ⟨htr.small, htr.magic, htr.steady, htr.four, htr.asked, fun _ => ?_⟩
    have ha := ht.asked
    rw [← show p.pid = s.ipcpID from hid] at ha
    exact ha.acked hp hpr hc
  | ipcpRenewed i hr ho =>
    have ho : ipcpAfter s p = some _ := ho
    refine htr.ask (ipcpAfter_four ht.four ho) fun hok => ?_
    have hok : s.ipcpOurOK = true := hok
    have hr : renews pppIPCP s.ipcpID p = true := hr
    have hsame := hk.2.resolve_left (by rw [hr, hok]; nofun)
    rw [ho] at hsame
    exact beq_iff_eq.1 hsame

theorem Told.reacted {ev : Event} (ht : Told h s) (hk : keeps h s ev = true) :
    Told h (react h o s ev).state := by
  cases ev with
  | closed => exact ht
  | deadline => exact ht
  | tick =>
    show Told h (handleTick o s)
    unfold handleTick
    split
    · exact ht.lcpAgain
    split
    · exact ht.said ⟨rfl, rfl, rfl, rfl⟩ (show Plain pppPAP _ from ⟨nofun, nofun⟩) rfl
    split
    · exact ht.ask ht.four fun _ => rfl
    · exact ht
  | frame f =>
    simp only [keeps, Option.all_eq_true] at hk
    simp only [react]
    cases hp : packet f with
    | none => exact ht.push trivial silent_recv
    | some p => exact ht.effect hp (hk p hp) (handle_effect _ p)

theorem Told.pap (ht : Told h s) (hs : PapStep o s s') : Told h s' := by
  cases hs with
  | skip => exact ht
  | sent => exact ht.said ⟨rfl, rfl, rfl, rfl⟩ (show Plain pppPAP _ from ⟨nofun, nofun⟩) rfl

theorem Told.auth (ht : Told h s) (hs : AuthStep h s s') : Told h s' := by
  cases hs with
  | skip => exact ht
  | plain =>
    have ht' : Told h { s with ipcpSent := true } := ht.kept ⟨rfl, rfl, rfl, rfl⟩ rfl
    exact ht'.ask ht.four fun _ => rfl
  | authed =>
    have ht' : Told h { s with ipcpSent := true, out := .auth s.hlak true :: s.out } :=
      (ht.push (e := .auth s.hlak true) trivial silent_auth).kept ⟨rfl, rfl, rfl, rfl⟩ rfl
    exact ht'.ask ht.four fun _ => rfl

theorem Told.settled (ht : Told h s) : Told h (settle h o s).state := by
  have hs := settle_settled h o s
  generalize settle h o s = n at hs ⊢
  cases hs with
  | wait hp ha => exact (ht.pap hp).auth ha
  | up hp ha => exact (ht.pap hp).auth ha
  | papFailed hp => exact ht.pap hp
  | sendFailed hp ha => exact (ht.pap hp).auth ha
  | authFailed hp ha =>
    cases ha with
    | mk =>
      exact ((ht.pap hp).push (e := .auth _ false) trivial silent_auth).kept
        ⟨rfl, rfl, rfl, rfl⟩ rfl

theorem started_told (hmb : h.mb.length = 4) : Told h (started h o) := by
  refine Told.lcpAgain (s := initial h o) ⟨?_, rfl, trivial, ?_, .inl rfl, nofun⟩
  · intro x hx
    simp only [initial, List.mem_cons, List.not_mem_nil, or_false] at hx
    rcases hx with rfl | rfl
    · exact show 2 ≤ 253 by decide
    · exact Nat.le_trans (Nat.le_of_eq hmb) (by decide)
  · intro x hx
    simp only [initial, List.mem_cons, List.not_mem_nil, or_false] at hx
    rcases hx with rfl | rfl | rfl <;> rfl

/-! ## The link -/

theorem linkOf_fold (opts : List PppOpt) (l : PppLink) :
    opts.foldl (fun l x =>
      if x.t = ipcpAddr then { l with localAddr := addrFromSlice x.v }
      else if x.t = ipcpDNS1 ∨ x.t = ipcpDNS2 then
        if isUnspecified (addrFromSlice x.v) then l
        else { l with dns := l.dns ++ [addrFromSlice x.v] }
      else l) l =
    ⟨((opts.filter fun x => x.t == ipcpAddr).getLast?.map fun x => addrFromSlice x.v).getD
      l.localAddr, l.dns ++ dnsOf opts, l.magic⟩ := by
  induction opts generalizing l with
  | nil => simp [dnsOf]
  | cons x opts ih =>
    rw [List.foldl_cons, ih]
    by_cases ha : x.t = ipcpAddr
    · have h1 : (x.t == ipcpDNS1 || x.t == ipcpDNS2) = false := by rw [ha]; rfl
      have hdns : dnsOf (x :: opts) = dnsOf opts := by
        simp only [dnsOf, List.filter_cons, h1, Bool.false_eq_true, if_false]
      rw [if_pos ha, hdns, List.filter_cons_of_pos (by simpa using ha), List.getLast?_cons]
      cases (opts.filter fun x => x.t == ipcpAddr).getLast? <;> rfl
    · rw [if_neg ha, List.filter_cons_of_neg (by simpa using ha)]
      by_cases hd : x.t = ipcpDNS1 ∨ x.t = ipcpDNS2
      · have h1 : (x.t == ipcpDNS1 || x.t == ipcpDNS2) = true := by simpa using hd
        rw [if_pos hd]
        split
        · rename_i hu
          have hdns : dnsOf (x :: opts) = dnsOf opts := by
            simp only [dnsOf, List.filter_cons, h1, if_true, List.map_cons, hu, Bool.not_true,
              Bool.false_eq_true, if_false]
          rw [hdns]
        · rename_i hu
          have hdns : dnsOf (x :: opts) = addrFromSlice x.v :: dnsOf opts := by
            simp only [dnsOf, List.filter_cons, h1, if_true, List.map_cons, hu, Bool.not_false]
          rw [hdns, List.append_assoc, List.singleton_append]
      · have h1 : (x.t == ipcpDNS1 || x.t == ipcpDNS2) = false := by simpa using hd
        have hdns : dnsOf (x :: opts) = dnsOf opts := by
          simp only [dnsOf, List.filter_cons, h1, Bool.false_eq_true, if_false]
        rw [if_neg hd, hdns]

theorem linkOf_eq (s : St) : linkOf h s = ⟨addressOf s.ipcpOurs, dnsOf s.ipcpOurs, h.mb⟩ := by
  rw [linkOf, linkOf_fold, List.nil_append, addressOf]
  cases (s.ipcpOurs.filter fun x => x.t == ipcpAddr).getLast? <;> rfl

/-- What a link is returned from. -/
def FromLink (h : Host) (s : St) (r : Result) : Prop :=
  ∀ l, r = .link l → l = linkOf h s ∧ s.ipcpOurOK = true ∧ isUnspecified l.localAddr = false

theorem settleLink_from {s : St} :
    (settleLink h s).All (fun _ => True) (FromLink h) := by
  unfold settleLink
  split
  · rename_i hup
    dsimp only
    split
    · exact fun l hl => by cases hl
    · rename_i hv
      rintro l ⟨⟩
      simp only [Bool.or_eq_true, not_or, Bool.not_eq_true] at hv
      exact ⟨rfl, (Bool.and_eq_true_iff.1 hup).1, hv.2⟩
  · trivial

theorem sendOr_from {s : St} {pr : Nat} {pl : Bytes} {k : St → Out}
    (hk : ∀ s, (k s).All (fun _ => True) (FromLink h)) :
    (s.sendOr h pr pl k).All (fun _ => True) (FromLink h) := by
  unfold St.sendOr
  split
  · exact hk _
  · exact fun l hl => by cases hl

theorem settleAuth_from {s : St} :
    (settleAuth h s).All (fun _ => True) (FromLink h) := by
  unfold settleAuth
  split
  · dsimp only
    split
    · exact sendOr_from fun _ => settleLink_from
    · split
      · exact sendOr_from fun _ => settleLink_from
      · exact fun l hl => by cases hl
  · exact settleLink_from

theorem settle_from {s : St} : (settle h o s).All (fun _ => True) (FromLink h) := by
  unfold settle
  split
  · exact sendOr_from fun _ => settleAuth_from
  · exact settleAuth_from

/-- A link is what was acknowledged. -/
theorem Told.link {l : PppLink} (ht : Told h s) (hl : FromLink h s (.link l)) :
    l.magic = h.mb ∧ LinkTold l s.out := by
  obtain ⟨rfl, hok, hv⟩ := hl l rfl
  rw [linkOf_eq] at hv ⊢
  refine ⟨rfl, ?_⟩
  rcases ht.agreed hok with hun | hag
  · have hv : isUnspecified (addressOf unasked) = false := hun ▸ hv
    exact absurd hv (by decide)
  · exact ⟨_, _, hag [], parseOpts_pack fun x hx => by rw [ht.four x hx]; decide, rfl, rfl⟩

theorem run_told {es : List Event} (hmb : h.mb.length = 4)
    (hk : (machine h o).Meets (fun s e => keeps h s e = true) (started h o) es) :
    Told h (pppNegotiate h o es).1 ∧
      ∀ l, (pppNegotiate h o es).2 = some (.link l) → FromLink h (pppNegotiate h o es).1 (.link l)
    := by
  unfold pppNegotiate
  split
  · have hrun := run_inv (M := machine h o) (I := Told h) (W := Told h)
      (F := fun s r => Told h s ∧ FromLink h s r)
      (fun s ht => by
        have ht' : Told h ((machine h o).settle s).state := ht.settled
        have hf : ((machine h o).settle s).All (fun _ => True) (FromLink h) := settle_from
        cases hn : (machine h o).settle s with
        | go t => rwa [hn] at ht'
        | ret t r =>
          rw [hn] at ht' hf
          exact ⟨ht', hf⟩)
      (fun s e ht hk => by
        have ht' : Told h ((machine h o).react s e).state := ht.reacted hk
        have he : ErrOnly ((machine h o).react s e) := react_errOnly h o s e
        cases hn : (machine h o).react s e with
        | go t => rwa [hn] at ht'
        | ret t r =>
          rw [hn] at ht' he
          obtain ⟨m, d, rfl⟩ := he
          exact ⟨ht', fun l hl => by cases hl⟩)
      (started_told hmb) hk
    cases hr : (machine h o).run (started h o) es with
    | mk t r =>
      rw [hr] at hrun
      cases r with
      | none => exact ⟨hrun, fun l hl => by cases hl⟩
      | some r =>
        refine ⟨hrun.1, fun l hl => ?_⟩
        obtain rfl := Option.some.inj hl
        exact hrun.2
  · exact ⟨started_told hmb, fun l hl => by cases hl⟩

/-! ## The pump -/

theorem Pump.step_steady {mb : Bytes} {t : Pump} {e : PumpEvent}
    (hs : Always (Steady mb) t.out) : Always (Steady mb) (t.step mb e).out := by
  have hip : ∀ b, Always (Steady mb) (t.send pppIPv4 b).out := fun b => ⟨nofun, hs⟩
  cases e with
  | closed =>
    rw [step]
    split <;> exact hs
  | deviceFailed =>
    rw [step]
    split <;> exact hs
  | outgoing b ok =>
    rw [step]
    split
    · split <;> exact hip b
    · exact hs
  | frame f =>
    rw [step]
    split
    · have hr : Always (Steady mb) (.recv f :: t.out) := ⟨trivial, hs⟩
      dsimp only
      split
      · unfold handle
        split
        · exact hr
        split
        · split
          · split
            · exact ⟨steady_echo, hr⟩
            split
            · exact ⟨steady_plain (plain_lcp (by decide) (by decide)), hr⟩
            · exact hr
          · exact hr
        · exact hr
      · exact hr
    · exact hs

theorem pppPump_steady {mb : Bytes} {es : List PumpEvent} (hs : Always (Steady mb) out) :
    Always (Steady mb) (pppPump mb out es).out := by
  unfold pppPump
  have hgo : ∀ t : Pump, Always (Steady mb) t.out →
      Always (Steady mb) (es.foldl (Pump.step mb) t).out := by
    induction es with
    | nil => exact fun t ht => ht
    | cons e es ih => exact fun t ht => ih _ (Pump.step_steady ht)
  exact hgo _ hs

end

/-- Every Echo-Reply and the link are those of the acknowledged requests. -/
def UsesAcked (h : Host) (o : PppConfig) (es : List Event) : Prop :=
  Always echoOK (pppNegotiate h o es).1.out ∧
    ∀ l, (pppNegotiate h o es).2 = some (.link l) →
      LinkTold l (pppNegotiate h o es).1.out ∧
        ∀ pes, Always echoOK (pppPump l.magic (pppNegotiate h o es).1.out pes).out

/-- **The link uses what was acknowledged**, as long as no frame of the run takes our magic number
away or changes our acknowledged IPCP options. -/
theorem keeps_usesAcked (h : Host) (o : PppConfig) (es : List Event) (hmb : h.mb.length = 4)
    (hk : (machine h o).Meets (fun s e => keeps h s e = true) (started h o) es) :
    UsesAcked h o es := by
  obtain ⟨ht, hlink⟩ := run_told hmb hk
  refine ⟨echoOK_of_steady ht.steady, fun l hl => ?_⟩
  obtain ⟨hmagic, htold⟩ := ht.link (hlink l hl)
  refine ⟨htold, fun pes => ?_⟩
  rw [hmagic]
  exact echoOK_of_steady (pppPump_steady ht.steady)

/-- The peer gives us another address, and keeps our magic number. -/
def renamed : List Event :=
  [.cp pppLCP confReq 1 [], .cp pppLCP confNak 2 [1, 4, 5, 0], .cp pppLCP confAck 5 [],
   .cp pppLCP echoReq 8 [0, 0, 0, 0], .cp pppIPCP confReq 1 [3, 6, 10, 0, 0, 1],
   .cp pppIPCP confNak 3 [3, 6, 10, 0, 0, 2], .cp pppIPCP confAck 6 []]

theorem renamed_usesAcked : UsesAcked .plain (.plain .auto) renamed :=
  keeps_usesAcked .plain (.plain .auto) renamed rfl (by decide)

/-- A Nak of our magic number, an Ack of the request that follows it and an Echo-Request. -/
def otherMagic : List Event :=
  [.cp pppLCP confNak 2 [5, 6, 9, 9, 9, 9], .cp pppLCP confAck 5 [],
   .cp pppLCP echoReq 8 [0, 0, 0, 0]]

/-- An Ack of our IPCP request and then a Nak of it. -/
def lateNak : List Event :=
  [.cp pppLCP confReq 1 [], .cp pppLCP confAck 2 [], .cp pppIPCP confAck 3 [],
   .cp pppIPCP confNak 3 [3, 6, 10, 0, 0, 2], .cp pppIPCP confReq 1 [3, 6, 10, 0, 0, 1]]

/-- The reply keeps the magic number we started with; the link has an address nobody
acknowledged. -/
theorem naks_not_followed :
    ¬ UsesAcked .plain (.plain .auto) otherMagic ∧ ¬ UsesAcked .plain (.plain .auto) lateNak := by
  constructor
  · intro hu
    have hreply : (pppNegotiate .plain (.plain .auto) otherMagic).1.out.head? =
        some (.sent pppLCP (cp echoReply 8 [1, 2, 3, 4])) := by decide
    obtain ⟨e, before, hout⟩ := List.exists_cons_of_ne_nil
      (show (pppNegotiate .plain (.plain .auto) otherMagic).1.out ≠ [] by decide)
    have hacked : lastAckedFor pppLCP []
        (pppNegotiate .plain (.plain .auto) otherMagic).1.out.tail =
          some [1, 4, 5, 120, 5, 6, 9, 9, 9, 9] := by decide
    have hall := hu.1
    rw [hout] at hreply hacked hall
    obtain rfl := Option.some.inj hreply
    exact absurd (hall.1 _ _ _ rfl rfl hacked) (by decide)
  · intro hu
    obtain ⟨data, opts, hdata, hopts, haddr, -⟩ :=
      (hu.2 ⟨some [10, 0, 0, 2], [], [1, 2, 3, 4]⟩ (by decide)).1
    have hacked : lastAckedFor pppIPCP [] (pppNegotiate .plain (.plain .auto) lateNak).1.out =
        some (packOpts unasked) := by decide
    obtain rfl := Option.some.inj (hdata.symm.trans hacked)
    have hparse : parseOpts (packOpts unasked) = some unasked := by decide
    obtain rfl := Option.some.inj (hopts.symm.trans hparse)
    exact absurd haddr (by decide)

end Ghajar.Ppp
