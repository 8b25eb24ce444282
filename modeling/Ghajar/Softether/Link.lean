import Mathlib.Data.LawfulXor.Basic
import Ghajar.Lib.History
import Ghajar.Softether.Dhcp

/-!
# Delivery on the Virtual Hub

`seLink` (`native/ghajar-helper/softether.go`): frames that come in fill the table of neighbours
and are answered (`handleFrame`), packets of the device go to their next hop or cause a request
for its hardware address (`sendIP`). A run is any sequence of both; `log` is what went past,
newest first. The table and the lease are functions of the log, and the last request for an
address is not older than the log says.
-/

namespace Ghajar.Softether

open Bytes History

/-- What went past. -/
inductive LinkEv
  | recv (f : List UInt8)
  | lease (l : Lease)
  | sent (f : List UInt8)
  /-- A request that a packet caused, and when. -/
  | asked (next : Addr) (time : Nat) (f : List UInt8)
  | toDhcp (m : List UInt8)
  | toDevice (p : List UInt8)

structure Link where
  lease : Lease
  arp : Addr → Option Mac
  /-- When an address was asked for, in nanoseconds. -/
  arpAsk : Addr → Option Nat
  /-- The device is there: the set-up is done. -/
  dev : Bool
  log : List LinkEv
  /-- `As4` panicked, and nothing goes on. -/
  crashed : Bool

/-- Two readings of a clock that does not go back: in `time.Since`, and then in `time.Now`. -/
structure Clock where
  since : Nat
  now : Nat
  le : since ≤ now

inductive LinkEvent
  | frame (f : List UInt8)
  /-- The lease is there, and at which time the gateway is asked for. -/
  | leased (l : Lease) (now : Nat)
  /-- A packet of the device. -/
  | outgoing (pkt : List UInt8) (clock : Clock)

def noLease : Lease := ⟨none, none, none, 0, [], 0⟩

/-- `netip.Prefix.Contains`. -/
def contains (addr : Option Addr) (bits : Nat) (ip : Addr) : Bool :=
  match addr, ip with
  | some (.v4 a), .v4 b => bits ≤ 32 && (a ^^^ b).toNat >>> (32 - bits) == 0
  | some (.v6 a), .v6 b => bits ≤ 128 && (a ^^^ b) >>> (128 - bits) == 0
  | _, _ => false

def nextHop (l : Lease) (dst : Addr) : Addr :=
  if !contains l.addr l.pfx dst && l.router.isSome then l.router.getD dst else dst

namespace Link

def send (s : Link) (f : List UInt8) : Link := { s with log := .sent f :: s.log }

/-- `send` of a frame with an ARP packet. -/
def sendARP (s : Link) (dst src : Mac) (p : Option (List UInt8)) : Link :=
  match p with
  | some p => s.send (ethFrame dst src 0x0806 p)
  | none => { s with crashed := true }

def learn (s : Link) (a : Addr) (mac : Mac) : Link :=
  { s with arp := fun x => if x = a then some mac else s.arp x }

def ask (s : Link) (a : Addr) (now : Nat) : Link :=
  { s with arpAsk := fun x => if x = a then some now else s.arpAsk x }

end Link

section
variable (mac : Mac)

/-- The request for the address of a next hop, recorded with its time. -/
def askFor (s : Link) (next : Addr) (now : Nat) : Link :=
  match arpPacket 1 mac s.lease.addr zeroMAC (some next) with
  | some p => { s with log := .asked next now (ethFrame bcastMAC mac 0x0806 p) :: s.log }
  | none => { s with crashed := true }

def sendIP (s : Link) (clock : Clock) (dst : Addr) (pkt : List UInt8) : Link :=
  let next := nextHop s.lease dst
  if dst = .broadcast then s.send (ethFrame bcastMAC mac 0x0800 pkt)
  else
    match s.arp next with
    | some hw => s.send (ethFrame hw mac 0x0800 pkt)
    | none =>
      -- the zero time of an address that was never asked for is long ago
      if (s.arpAsk next).all fun t => t + 1000000000 < clock.since then
        -- the packet is dropped
        askFor mac (s.ask next clock.now) next clock.now
      else s

def handleFrame (s : Link) (f : List UInt8) : Link :=
  let s := { s with log := .recv f :: s.log }
  match content mac f with
  | none => s
  | some (.arp op sha spa tpa) =>
    let s := if spa.isUnspecified then s else s.learn spa sha
    if op = 1 ∧ s.lease.addr = some tpa then
      s.sendARP sha mac (arpPacket 2 mac s.lease.addr sha (some spa))
    else s
  | some (.dhcp m) => { s with log := .toDhcp m :: s.log }
  | some (.packet p) => if s.dev then { s with log := .toDevice p :: s.log } else s

/-- The lease is set and announced, and the gateway is asked for. -/
def setUp (s : Link) (l : Lease) (now : Nat) : Link :=
  let s := { s with lease := l, log := .lease l :: s.log }
  let s := s.sendARP bcastMAC mac (arpPacket 1 mac l.addr zeroMAC l.addr)
  let s :=
    match l.router with
    | some r => (s.ask r now).sendARP bcastMAC mac (arpPacket 1 mac l.addr zeroMAC (some r))
    | none => s
  { s with dev := true }

def linkStep (s : Link) (e : LinkEvent) : Link :=
  if s.crashed then s
  else
    match e with
    | .frame f => handleFrame mac s f
    | .leased l now => if s.dev then s else setUp mac s l now
    | .outgoing pkt clock =>
      if s.dev ∧ 20 ≤ pkt.length ∧ pkt.getD 0 0 >>> 4 = 4 then
        sendIP mac s clock (addrAt pkt 16) pkt
      else s

def linkStart : Link := ⟨noLease, fun _ => none, fun _ => none, false, [], false⟩

def linkRun (es : List LinkEvent) : Link := es.foldl (linkStep mac) linkStart

/-! ## What is to hold -/

/-- The lease of the link. -/
def lastLease : List LinkEv → Lease
  | [] => noLease
  | .lease l :: _ => l
  | _ :: es => lastLease es

/-- The sender of the last ARP packet with this sender address. -/
def learned (a : Addr) : List LinkEv → Option Mac
  | [] => none
  | .recv f :: es =>
    match content mac f with
    | some (.arp _ sha spa _) =>
      if spa = a ∧ spa.isUnspecified = false then some sha else learned a es
    | _ => learned a es
  | _ :: es => learned a es

/-- The leading bits are those of our address. -/
def InPrefix (l : Lease) (dst : Addr) : Prop :=
  ∃ a d, l.addr = some (.v4 a) ∧ dst = .v4 d ∧ l.pfx ≤ 32 ∧
    a.toNat / 2 ^ (32 - l.pfx) = d.toNat / 2 ^ (32 - l.pfx)

/-- The next hop of an IPv4 destination: itself in our prefix or without a gateway, else the
gateway. -/
def IsHop (l : Lease) (dst hop : Addr) : Prop :=
  (InPrefix l dst → hop = dst) ∧ (¬InPrefix l dst → hop = l.router.getD dst)

/-- A unicast packet goes to the hardware address that was learned for its next hop. -/
def Delivered : LinkEv → List LinkEv → Prop
  | .sent f, before => u16At f 12 = 0x0800 → addrAt (f.drop 14) 16 ≠ .broadcast →
      ∃ hop hw, IsHop (lastLease before) (addrAt (f.drop 14) 16) hop ∧
        learned mac hop before = some hw ∧ f.take 6 = hw.1
  | _, _ => True

/-- A packet causes a request for an address that nobody has told, and no second one within a
second. -/
def Spaced : LinkEv → List LinkEv → Prop
  | .asked next t f, before => learned mac next before = none ∧
      (∀ t' f', .asked next t' f' ∈ before → t' + 1000000000 < t) ∧
      ∃ p, arpPacket 1 mac (lastLease before).addr zeroMAC (some next) = some p ∧
        f = ethFrame bcastMAC mac 0x0806 p
  | _, _ => True

/-- An ARP reply answers the request for our own address that has just come in. -/
def Answered : LinkEv → List LinkEv → Prop
  | .sent f, before => u16At f 12 = 0x0806 → u16At (f.drop 14) 6 = 2 →
      ∃ g rest sha spa own, before = .recv g :: rest ∧
        content mac g = some (.arp 1 sha spa own) ∧ (lastLease before).addr = some own
  | _, _ => True

end

/-! ## Frames -/

section
variable {mac : Mac}

theorem ethFrame_take (dst src : Mac) (typ : UInt16) (p : List UInt8) :
    (ethFrame dst src typ p).take 6 = dst.1 :=
  List.take_left' dst.2

theorem ethFrame_typ (dst src : Mac) (typ : UInt16) (p : List UInt8) :
    u16At (ethFrame dst src typ p) 12 = typ := by
  have hd : (ethFrame dst src typ p).drop 12 = be16 typ ++ p := by
    rw [ethFrame, ← List.append_assoc]
    exact List.drop_left' (by rw [List.length_append, dst.2, src.2])
  rw [u16At, hd, List.take_left' (be16_length typ), rd16_be16]

theorem ethFrame_payload (dst src : Mac) (typ : UInt16) (p : List UInt8) :
    (ethFrame dst src typ p).drop 14 = p := by
  have hs : ethFrame dst src typ p = (dst.1 ++ (src.1 ++ be16 typ)) ++ p := by simp [ethFrame]
  rw [hs]
  exact List.drop_left' (by simp [dst.2, src.2])

theorem arpPacket_op {op : UInt16} {sha tha : Mac} {spa tpa : Option Addr} {p : List UInt8}
    (h : arpPacket op sha spa tha tpa = some p) : u16At p 6 = op := by
  unfold arpPacket at h
  obtain ⟨s4, -, h⟩ := Option.bind_eq_some_iff.1 h
  obtain ⟨t4, -, h⟩ := Option.bind_eq_some_iff.1 h
  obtain rfl := Option.some.inj h
  have hd : (be16 1 ++ be16 0x0800 ++ [6, 4] ++ be16 op ++ (sha.1 ++ (s4 ++ (tha.1 ++ t4)))).drop 6 =
      be16 op ++ (sha.1 ++ (s4 ++ (tha.1 ++ t4))) := by
    rw [List.append_assoc]
    exact List.drop_left' (by simp)
  rw [u16At, hd, List.take_left' (be16_length op), rd16_be16]

/-! ## The next hop -/

theorem contains_iff {l : Lease} {d : UInt32} :
    contains l.addr l.pfx (.v4 d) = true ↔ InPrefix l (.v4 d) := by
  unfold InPrefix
  cases ha : l.addr with
  | none => exact ⟨nofun, fun ⟨_, _, h, _⟩ => by cases h⟩
  | some x =>
    cases x with
    | v6 n => exact ⟨nofun, fun ⟨_, _, h, _⟩ => by cases h⟩
    | v4 a =>
      have hbits : (a ^^^ d).toNat >>> (32 - l.pfx) = 0 ↔
          a.toNat / 2 ^ (32 - l.pfx) = d.toNat / 2 ^ (32 - l.pfx) := by
        rw [UInt32.toNat_xor, Nat.shiftRight_xor_distrib, xor_eq_zero_iff,
          Nat.shiftRight_eq_div_pow, Nat.shiftRight_eq_div_pow]
      simp only [contains, Bool.and_eq_true, decide_eq_true_eq, beq_iff_eq, hbits]
      constructor
      · rintro ⟨hb, hd⟩
        exact ⟨a, d, rfl, rfl, hb, hd⟩
      · rintro ⟨a', d', h, h', hb, hd⟩
        cases h
        cases h'
        exact ⟨hb, hd⟩

theorem nextHop_isHop (l : Lease) (d : UInt32) : IsHop l (.v4 d) (nextHop l (.v4 d)) := by
  unfold nextHop IsHop
  rw [← contains_iff]
  cases contains l.addr l.pfx (.v4 d) <;> cases l.router <;> simp

/-! ## The invariant -/

variable (mac) in
/-- The tables are what the log says, and the log is as it should be. -/
structure Tables (s : Link) : Prop where
  lease : s.lease = lastLease s.log
  arp : ∀ a, s.arp a = learned mac a s.log
  asked : ∀ next t f, .asked next t f ∈ s.log → ∃ t', s.arpAsk next = some t' ∧ t ≤ t'
  setUp : s.dev = false → ∀ next t f, .asked next t f ∉ s.log
  delivered : Always (Delivered mac) s.log
  spaced : Always (Spaced mac) s.log
  answered : Always (Answered mac) s.log

variable {s : Link}

/-- A frame that is sent. -/
theorem Tables.send (h : Tables mac s) {f : List UInt8} (hd : Delivered mac (.sent f) s.log)
    (ha : Answered mac (.sent f) s.log) : Tables mac (s.send f) :=
  ⟨h.lease, h.arp, fun _ _ _ hm => h.asked _ _ _ ((List.mem_cons.1 hm).resolve_left nofun),
    fun hdev _ _ _ hm => h.setUp hdev _ _ _ ((List.mem_cons.1 hm).resolve_left nofun),
    ⟨hd, h.delivered⟩, ⟨trivial, h.spaced⟩, ⟨ha, h.answered⟩⟩

theorem Tables.crash (h : Tables mac s) : Tables mac { s with crashed := true } :=
  ⟨h.lease, h.arp, h.asked, h.setUp, h.delivered, h.spaced, h.answered⟩

/-- A frame with an ARP packet is no IPv4 frame. -/
theorem Tables.sendARP (h : Tables mac s) {dst src : Mac} {p : Option (List UInt8)}
    (ha : ∀ q, p = some q → u16At q 6 = 2 → ∃ g rest sha spa own, s.log = .recv g :: rest ∧
      content mac g = some (.arp 1 sha spa own) ∧ (lastLease s.log).addr = some own) :
    Tables mac (s.sendARP dst src p) := by
  cases p with
  | none => exact h.crash
  | some p =>
    refine h.send (fun h8 => ?_) fun _ h2 => ?_
    · rw [ethFrame_typ] at h8
      exact absurd h8 (by decide)
    · rw [ethFrame_payload] at h2
      exact ha p rfl h2

theorem Tables.sendIP (h : Tables mac s) (hdev : s.dev = true) (clock : Clock)
    (pkt : List UInt8) : Tables mac (sendIP mac s clock (addrAt pkt 16) pkt) := by
  obtain ⟨d, hd⟩ : ∃ d, addrAt pkt 16 = .v4 d := ⟨_, rfl⟩
  rw [hd]
  unfold Softether.sendIP
  dsimp only
  have hnot : ∀ dst, Answered mac (.sent (ethFrame dst mac 0x0800 pkt)) s.log := by
    intro dst h6
    rw [ethFrame_typ] at h6
    exact absurd h6 (by decide)
  split
  · rename_i hb
    refine h.send (fun _ hne => ?_) (hnot _)
    rw [ethFrame_payload, hd] at hne
    exact absurd hb hne
  split
  · rename_i hw hhw
    refine h.send (fun _ _ => ⟨nextHop s.lease (.v4 d), hw, ?_, ?_, ethFrame_take ..⟩) (hnot _)
    · rw [ethFrame_payload, hd, ← h.lease]
      exact nextHop_isHop _ _
    · rw [← h.arp]
      exact hhw
  · rename_i hnone
    split
    · rename_i hall
      have hlate : ∀ t f, .asked (nextHop s.lease (.v4 d)) t f ∈ s.log →
          t + 1000000000 < clock.now := by
        intro t f hm
        obtain ⟨t', ht', hle⟩ := h.asked _ _ _ hm
        rw [ht', Option.all_some, decide_eq_true_eq] at hall
        have := clock.le
        omega
      have hask : ∀ next t f, .asked next t f ∈ s.log →
          ∃ t', (s.ask (nextHop s.lease (.v4 d)) clock.now).arpAsk next = some t' ∧ t ≤ t' := by
        intro next t f hm
        by_cases hn : next = nextHop s.lease (.v4 d)
        · subst hn
          have := hlate t f hm
          exact ⟨clock.now, if_pos rfl, by omega⟩
        · obtain ⟨t', ht', hle⟩ := h.asked _ _ _ hm
          exact ⟨t', (if_neg hn).trans ht', hle⟩
      unfold askFor
      split
      · rename_i p hp
        refine ⟨h.lease, h.arp, fun next t f hm => ?_, fun h0 => ?_, ⟨trivial, h.delivered⟩,
          ⟨⟨?_, hlate, p, ?_, rfl⟩, h.spaced⟩, ⟨trivial, h.answered⟩⟩
        · rcases List.mem_cons.1 hm with heq | hm
          · cases heq
            exact ⟨clock.now, if_pos rfl, Nat.le_refl _⟩
          · exact hask next t f hm
        · exact absurd (h0.symm.trans hdev) nofun
        · exact (h.arp _).symm.trans hnone
        · exact h.lease ▸ hp
      · exact ⟨h.lease, h.arp, hask, h.setUp, h.delivered, h.spaced, h.answered⟩
    · exact h

/-- What comes in, and what is learned of it. -/
theorem Tables.recv (h : Tables mac s) (f : List UInt8) :
    Tables mac
      (match content mac f with
      | some (.arp _ sha spa _) =>
        if spa.isUnspecified then { s with log := .recv f :: s.log }
        else ({ s with log := .recv f :: s.log } : Link).learn spa sha
      | _ => { s with log := .recv f :: s.log }) := by
  have hlog : ∀ arp' : Addr → Option Mac, (∀ a, arp' a = learned mac a (.recv f :: s.log)) →
      Tables mac { s with arp := arp', log := .recv f :: s.log } := fun arp' harp =>
    ⟨h.lease, harp, fun _ _ _ hm => h.asked _ _ _ ((List.mem_cons.1 hm).resolve_left nofun),
      fun hdev _ _ _ hm => h.setUp hdev _ _ _ ((List.mem_cons.1 hm).resolve_left nofun),
      ⟨trivial, h.delivered⟩, ⟨trivial, h.spaced⟩, ⟨trivial, h.answered⟩⟩
  cases hc : content mac f with
  | none => exact hlog s.arp fun a => by rw [learned, hc]; exact h.arp a
  | some c =>
    cases c with
    | dhcp m => exact hlog s.arp fun a => by rw [learned, hc]; exact h.arp a
    | packet p => exact hlog s.arp fun a => by rw [learned, hc]; exact h.arp a
    | arp op sha spa tpa =>
      dsimp only
      split
      · rename_i hu
        refine hlog s.arp fun a => ?_
        rw [learned, hc]
        simp only [hu, Bool.true_eq_false, and_false, if_false]
        exact h.arp a
      · rename_i hu
        refine hlog _ fun a => ?_
        rw [learned, hc]
        simp only [Bool.not_eq_true] at hu
        simp only [hu, and_true]
        by_cases ha : a = spa
        · rw [if_pos ha, if_pos ha.symm]
        · rw [if_neg ha, if_neg fun h => ha h.symm]
          exact h.arp a

/-- An event that is neither sent nor a reason to ask. -/
theorem Tables.pass (h : Tables mac s) {e : LinkEv} (he : (∃ m, e = .toDhcp m) ∨ ∃ p, e = .toDevice p) :
    Tables mac { s with log := e :: s.log } := by
  rcases he with ⟨m, rfl⟩ | ⟨p, rfl⟩
  all_goals
    exact ⟨h.lease, h.arp, fun _ _ _ hm => h.asked _ _ _ ((List.mem_cons.1 hm).resolve_left nofun),
      fun hdev _ _ _ hm => h.setUp hdev _ _ _ ((List.mem_cons.1 hm).resolve_left nofun),
      ⟨trivial, h.delivered⟩, ⟨trivial, h.spaced⟩, ⟨trivial, h.answered⟩⟩

theorem Tables.handleFrame (h : Tables mac s) (f : List UInt8) :
    Tables mac (handleFrame mac s f) := by
  have hr := h.recv f
  unfold Softether.handleFrame
  cases hc : content mac f with
  | none =>
    rw [hc] at hr
    exact hr
  | some c =>
    rw [hc] at hr
    cases c with
    | dhcp m => exact hr.pass (.inl ⟨m, rfl⟩)
    | packet p =>
      dsimp only
      split
      · exact hr.pass (.inr ⟨p, rfl⟩)
      · exact hr
    | arp op sha spa tpa =>
      dsimp only at hr ⊢
      have hlog : ∀ t : Link, t = (if spa.isUnspecified then { s with log := .recv f :: s.log }
          else ({ s with log := .recv f :: s.log } : Link).learn spa sha) →
          t.log = .recv f :: s.log := by
        rintro t rfl
        split <;> rfl
      generalize (if spa.isUnspecified then { s with log := .recv f :: s.log }
        else ({ s with log := .recv f :: s.log } : Link).learn spa sha) = t at hr hlog ⊢
      have ht := hlog t rfl
      split
      · rename_i hreq
        refine hr.sendARP fun q _ _ => ⟨f, s.log, sha, spa, tpa, ht, ?_, ?_⟩
        · rw [hc, hreq.1]
        · rw [← hr.lease]
          exact hreq.2
      · exact hr

theorem sendARP_dev {t : Link} {dst src : Mac} {p : Option (List UInt8)} :
    (t.sendARP dst src p).dev = t.dev := by
  cases p <;> rfl

/-- Before the set-up no packet has caused a request. -/
theorem Tables.ask (h : Tables mac s) (hdev : s.dev = false) (a : Addr) (now : Nat) :
    Tables mac (s.ask a now) :=
  ⟨h.lease, h.arp, fun _ _ _ hm => absurd hm (h.setUp hdev _ _ _), h.setUp, h.delivered, h.spaced,
    h.answered⟩

theorem Tables.ready (h : Tables mac s) : Tables mac { s with dev := true } :=
  ⟨h.lease, h.arp, h.asked, nofun, h.delivered, h.spaced, h.answered⟩

theorem Tables.announce (h : Tables mac s) (hdev : s.dev = false) (l : Lease) (now : Nat) :
    Tables mac (Softether.setUp mac s l now) := by
  have hreq : ∀ {t : Link} {a : Option Addr}, Tables mac t →
      Tables mac (t.sendARP bcastMAC mac (arpPacket 1 mac l.addr zeroMAC a)) := fun ht =>
    ht.sendARP fun q hq h2 => absurd ((arpPacket_op hq).symm.trans h2) (by decide)
  have hnone : ∀ next t f, .asked next t f ∉ s.log := h.setUp hdev
  have hl : Tables mac { s with lease := l, log := .lease l :: s.log } :=
    ⟨rfl, h.arp, fun _ _ _ hm => absurd ((List.mem_cons.1 hm).resolve_left nofun) (hnone _ _ _),
      fun _ _ _ _ hm => absurd ((List.mem_cons.1 hm).resolve_left nofun) (hnone _ _ _),
      ⟨trivial, h.delivered⟩, ⟨trivial, h.spaced⟩, ⟨trivial, h.answered⟩⟩
  unfold Softether.setUp
  dsimp only
  split
  · exact (hreq ((hreq hl).ask (sendARP_dev.trans hdev) _ now)).ready
  · exact (hreq hl).ready

theorem linkStep_tables (h : Tables mac s) (e : LinkEvent) : Tables mac (linkStep mac s e) := by
  unfold linkStep
  split
  · exact h
  · cases e with
    | frame f => exact h.handleFrame f
    | leased l now =>
      dsimp only
      split
      · exact h
      · rename_i hdev
        exact h.announce (Bool.not_eq_true _ ▸ hdev) l now
    | outgoing pkt clock =>
      dsimp only
      split
      · rename_i hc
        exact h.sendIP hc.1 clock pkt
      · exact h

theorem linkRun_tables (es : List LinkEvent) : Tables mac (linkRun mac es) := by
  have hstart : Tables mac linkStart :=
    ⟨rfl, fun _ => rfl, fun _ _ _ hm => absurd hm List.not_mem_nil,
      fun _ _ _ _ => List.not_mem_nil, trivial, trivial, trivial⟩
  unfold linkRun
  generalize linkStart = s at hstart
  induction es generalizing s with
  | nil => exact hstart
  | cons e es ih => exact ih (linkStep mac s e) (linkStep_tables hstart e)

theorem IsHop.unique {l : Lease} {dst hop hop' : Addr} (h : IsHop l dst hop)
    (h' : IsHop l dst hop') : hop = hop' := by
  by_cases hp : InPrefix l dst
  · rw [h.1 hp, h'.1 hp]
  · rw [h.2 hp, h'.2 hp]

/-- A unicast packet whose next hop has been learned is put on the wire; another one is dropped,
with or without a request. -/
theorem sendIP_log (h : Tables mac s) {clock : Clock} {pkt : List UInt8} {hop : Addr}
    (hb : addrAt pkt 16 ≠ .broadcast) (hhop : IsHop (lastLease s.log) (addrAt pkt 16) hop) :
    match learned mac hop s.log with
    | some hw => (sendIP mac s clock (addrAt pkt 16) pkt).log =
        .sent (ethFrame hw mac 0x0800 pkt) :: s.log
    | none => (sendIP mac s clock (addrAt pkt 16) pkt).log = s.log ∨
        ∃ f, (sendIP mac s clock (addrAt pkt 16) pkt).log = .asked hop clock.now f :: s.log := by
  have hnext : nextHop s.lease (addrAt pkt 16) = hop := by
    rw [h.lease]
    exact (nextHop_isHop (lastLease s.log) (rd32 ((pkt.drop 16).take 4))).unique hhop
  unfold sendIP
  rw [if_neg hb, hnext, h.arp hop]
  cases learned mac hop s.log with
  | some hw => rfl
  | none =>
    dsimp only
    split
    · unfold askFor
      split
      · exact .inr ⟨_, rfl⟩
      · exact .inl rfl
    · exact .inl rfl

end

/-- What a packet of the device leads to. -/
def Forwards (mac : Mac) (es : List LinkEvent) : Prop :=
  ∀ (pkt : List UInt8) clock hop, (linkRun mac es).dev = true → (linkRun mac es).crashed = false →
    20 ≤ pkt.length → pkt.getD 0 0 >>> 4 = 4 → addrAt pkt 16 ≠ .broadcast →
    IsHop (lastLease (linkRun mac es).log) (addrAt pkt 16) hop →
    match learned mac hop (linkRun mac es).log with
    | some hw => (linkRun mac (es ++ [.outgoing pkt clock])).log =
        .sent (ethFrame hw mac 0x0800 pkt) :: (linkRun mac es).log
    | none => (linkRun mac (es ++ [.outgoing pkt clock])).log = (linkRun mac es).log ∨
        ∃ f, (linkRun mac (es ++ [.outgoing pkt clock])).log =
          .asked hop clock.now f :: (linkRun mac es).log

def gatewayMAC : Mac := ⟨[2, 0, 0, 0, 0, 1], rfl⟩

def gatewayLease : Lease := ⟨some (.v4 0x0a000002), some (.v4 0x0a000001), none, 24, [], 0⟩

/-- The gateway answers our question for its address. -/
def gatewayKnown : List LinkEvent :=
  [.leased gatewayLease 0,
   .frame (ethFrame hostMAC gatewayMAC 0x0806 ((arpPacket 2 gatewayMAC (some (.v4 0x0a000001))
     hostMAC (some (.v4 0x0a000002))).getD []))]

/-- A packet to 1.1.1.1. -/
def outPacket : List UInt8 := 0x45 :: List.replicate 15 0 ++ [1, 1, 1, 1]

end Ghajar.Softether
