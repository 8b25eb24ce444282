import Ghajar.Ppp.MsChap

/-!
# Bringing the link up

`pppNegotiate` (`native/ghajar-helper/ppp.go`) as a reactive machine: `settle`
is the head of its loop, `react` one round of its `select` and the protocol
switch behind it. The state holds the local variables of the function, and
`out` what went past it, newest first: the frames it received, the packets it
handed to `send` and its calls of `onAuth`.

The random bytes, the outcome of every `send` and of `onAuth` are parameters
(`Host`); the events are the frames in whatever order the peer sends them, the
retransmission tick, the deadline and the end of the transport.
-/

namespace Ghajar.Ppp

open Reactive

/-- What went past the function. -/
inductive Ev where
  | recv (frame : Bytes)
  | sent (proto : Nat) (payload : Bytes)
  | auth (hlak : Bytes) (ok : Bool)
  deriving DecidableEq, Repr

inductive Event where
  | frame (f : Bytes)
  | closed
  | tick
  | deadline
  deriving DecidableEq, Repr

/-- The policy in the `auth` field of the configuration; any other text is `auto`. -/
inductive Policy where
  | auto
  | pap
  | mschapv2
  deriving DecidableEq, Repr

structure PppConfig where
  user : Bytes
  pass : Bytes
  auth : Policy
  mtu : Int

/-- Everything the function reads from outside: random bytes, whether `send`
and `onAuth` return nil (given what went before), the library functions. -/
structure Host where
  mb : Bytes
  peerChal : Bytes
  sendOK : List Ev → Nat → Bytes → Bool
  onAuth : Option (List Ev → Bytes → Bool)
  crypto : Crypto

/-- `netip.Addr`: four or sixteen bytes, `none` when invalid. -/
def addrFromSlice (v : Bytes) : Option Bytes := if v.length = 4 ∨ v.length = 16 then some v else none

def isUnspecified (a : Option Bytes) : Bool := a.any fun v => v.all (· == 0)

structure PppLink where
  localAddr : Option Bytes
  dns : List (Option Bytes)
  magic : Bytes
  deriving DecidableEq, Repr

/-- What the function returns: a link, or an error (its text, and the peer's part of it). -/
inductive Result where
  | link (l : PppLink)
  | err (msg : String) (detail : Bytes)
  deriving DecidableEq, Repr

structure St where
  lcpOurs : List PppOpt
  lcpOurOK : Bool
  lcpPeerOK : Bool
  authProto : Nat
  authOK : Bool
  papSent : Bool
  ipcpOurs : List PppOpt
  ipcpOurOK : Bool
  ipcpPeerOK : Bool
  ipcpSent : Bool
  id : UInt8
  lcpID : UInt8
  ipcpID : UInt8
  papID : UInt8
  nt : Bytes
  authChal : Bytes
  hlak : Bytes
  out : List Ev
  deriving DecidableEq, Repr

abbrev Out := Next St Result

section
variable (h : Host) (o : PppConfig)

def mru : Nat := if o.mtu ≤ 0 then 1400 else o.mtu.toNat

/-- The variables in front of the loop; the identifiers are 2, 3 and 4. -/
def initial : St where
  lcpOurs := [⟨lcpMRU, be16 (mru o)⟩, ⟨lcpMagic, h.mb⟩]
  lcpOurOK := false
  lcpPeerOK := false
  authProto := 0
  authOK := false
  papSent := false
  ipcpOurs := [⟨ipcpAddr, [0, 0, 0, 0]⟩, ⟨ipcpDNS1, [0, 0, 0, 0]⟩, ⟨ipcpDNS2, [0, 0, 0, 0]⟩]
  ipcpOurOK := false
  ipcpPeerOK := false
  ipcpSent := false
  id := 4
  lcpID := 2
  ipcpID := 3
  papID := 4
  nt := []
  authChal := []
  hlak := []
  out := []

namespace St

/-- `send` with its error dropped. -/
def send (s : St) (proto : Nat) (payload : Bytes) : St :=
  { s with out := .sent proto payload :: s.out }

/-- `if err := send(…); err != nil { return nil, err }`. -/
def sendOr (s : St) (proto : Nat) (payload : Bytes) (k : St → Out) : Out :=
  if h.sendOK s.out proto payload then k (s.send proto payload)
  else .ret (s.send proto payload) (.err "send" [])

def lcpReq (s : St) : Bytes := cp confReq s.lcpID (packOpts s.lcpOurs)
def ipcpReq (s : St) : Bytes := cp confReq s.ipcpID (packOpts s.ipcpOurs)

/-- The Authenticate-Request: user and password, each after its length byte. -/
def papReq (s : St) : Bytes :=
  cp 1 s.papID (UInt8.ofNat o.user.length :: o.user ++ UInt8.ofNat o.pass.length :: o.pass)

end St

/-! ## The head of the loop -/

/-- The address and the DNS servers of the options we got acknowledged. -/
def linkOf (s : St) : PppLink :=
  s.ipcpOurs.foldl (fun l x =>
    if x.t = ipcpAddr then { l with localAddr := addrFromSlice x.v }
    else if x.t = ipcpDNS1 ∨ x.t = ipcpDNS2 then
      if isUnspecified (addrFromSlice x.v) then l else { l with dns := l.dns ++ [addrFromSlice x.v] }
    else l) ⟨none, [], h.mb⟩

/-- `if ipcpOurOK && ipcpPeerOK`. -/
def settleLink (s : St) : Out :=
  if s.ipcpOurOK && s.ipcpPeerOK then
    let l := linkOf h s
    if l.localAddr.isNone || isUnspecified l.localAddr then
      .ret s (.err "ipcp: server gave no address" [])
    else .ret s (.link l)
  else .go s

/-- `if authOK && !ipcpSent`. -/
def settleAuth (s : St) : Out :=
  if s.authOK && !s.ipcpSent then
    let s := { s with ipcpSent := true }
    match h.onAuth with
    | none => s.sendOr h pppIPCP s.ipcpReq (settleLink h)
    | some f =>
      let ok := f s.out s.hlak
      let s := { s with out := .auth s.hlak ok :: s.out }
      if ok then s.sendOr h pppIPCP s.ipcpReq (settleLink h)
      else .ret s (.err "onAuth" [])
  else settleLink h s

def settle (s : St) : Out :=
  if s.lcpOurOK && s.lcpPeerOK && s.authProto == pppPAP && !s.papSent then
    let s := { s with papSent := true }
    s.sendOr h pppPAP (s.papReq o) (settleAuth h)
  else settleAuth h s

/-! ## LCP -/

def wantAuth (p : Nat) (algo : UInt8) : Bool :=
  match o.auth with
  | .pap => p == pppPAP
  | .mschapv2 => p == pppCHAP && algo == chapMSv2
  | .auto => p == pppPAP || (p == pppCHAP && algo == chapMSv2)

def preferred : Bytes := if o.auth = .pap then [0xc0, 0x23] else [0xc2, 0x23, chapMSv2]

/-- What the loop over a Configure-Request collects. -/
structure LcpScan where
  rej : List PppOpt
  nak : List PppOpt
  auth : Nat
  deriving DecidableEq, Repr

def scanOpt (r : LcpScan) (x : PppOpt) : LcpScan :=
  if x.t = lcpMRU ∨ x.t = lcpACCM ∨ x.t = lcpMagic then r
  else if x.t = lcpAuth then
    match x.v with
    | a :: b :: rest =>
      if wantAuth o (rd16 a b) (rest.headD 0) then { r with auth := rd16 a b }
      else { r with nak := r.nak ++ [⟨lcpAuth, preferred o⟩] }
    | _ => { r with rej := r.rej ++ [x] }
  else { r with rej := r.rej ++ [x] }

def scanOpts (opts : List PppOpt) : LcpScan := opts.foldl (scanOpt o) ⟨[], [], 0⟩

def lcpConfReq (s : St) (pid : UInt8) (data : Bytes) : St :=
  match parseOpts data with
  | none => s
  | some opts =>
    let r := scanOpts o opts
    if r.rej ≠ [] then s.send pppLCP (cp confRej pid (packOpts r.rej))
    else if r.nak ≠ [] then s.send pppLCP (cp confNak pid (packOpts r.nak))
    else
      { s with authProto := r.auth, authOK := s.authOK || r.auth == 0, lcpPeerOK := true }.send
        pppLCP (cp confAck pid data)

/-- The inner loop over `lcpOurs`: drop or change the first option of the type. -/
def adjust (rej : Bool) (x : PppOpt) : List PppOpt → List PppOpt
  | [] => []
  | y :: ys => if y.t = x.t then (if rej then ys else { y with v := x.v } :: ys) else y :: adjust rej x ys

def lcpConfNak (s : St) (rej : Bool) (pid : UInt8) (data : Bytes) : St :=
  if pid ≠ s.lcpID then s
  else
    let ours := ((parseOpts data).getD []).foldl (fun l x => adjust rej x l) s.lcpOurs
    let s := { s with lcpOurs := ours, id := s.id + 1, lcpID := s.id + 1 }
    s.send pppLCP s.lcpReq

def handleLCP (s : St) (p : Packet) : Out :=
  if p.code = confReq then .go (lcpConfReq o s p.pid p.data)
  else if p.code = confAck then .go (if p.pid = s.lcpID then { s with lcpOurOK := true } else s)
  else if p.code = confNak then .go (lcpConfNak s false p.pid p.data)
  else if p.code = confRej then .go (lcpConfNak s true p.pid p.data)
  else if p.code = echoReq then .go (s.send pppLCP (cp echoReply p.pid h.mb))
  else if p.code = termReq then
    .ret (s.send pppLCP (cp termAck p.pid [])) (.err "lcp: server terminated the link" [])
  else .go s

/-! ## PAP and CHAP -/

def handlePAP (s : St) (p : Packet) : Out :=
  if p.pid ≠ s.papID then .go s
  else if p.code = 2 then .go { s with authOK := true }
  else if p.code = 3 then .ret s (.err "authentication failed (PAP): " (p.data.drop 1))
  else .go s

/-- The Response packet to a challenge: value size, peer challenge, NT response, user. -/
def chapResponse (pid : UInt8) (nt : Bytes) : Bytes :=
  cp 2 pid (49 :: copyAt (copyAt (List.replicate 49 0) 0 h.peerChal) 24 nt ++ o.user)

/-- `len(data) < 17 || data[0] != 16` is an error. -/
def goodChallenge (data : Bytes) : Bool := 17 ≤ data.length && data.headD 0 == 16

/-- `data[1:17]`. -/
def challengeOf (data : Bytes) : Bytes := (data.drop 1).take 16

def chapChallenge (s : St) (p : Packet) : Out :=
  if goodChallenge p.data then
    let chal := challengeOf p.data
    let nt := h.crypto.ntResponse chal h.peerChal o.user o.pass
    .go ({ s with authProto := pppCHAP, authChal := chal, nt := nt }.send pppCHAP
      (chapResponse h o p.pid nt))
  else .ret s (.err "chap: bad challenge" [])

/-- The Success message starts with the authenticator response for this challenge and response. -/
def provesPassword (chal nt data : Bytes) : Bool :=
  (h.crypto.authenticatorResponse o.pass nt h.peerChal chal o.user).isPrefixOf (h.crypto.toUpper data)

def handleCHAP (s : St) (p : Packet) : Out :=
  if p.code = 1 then chapChallenge h o s p
  else if p.code = 3 then
    if provesPassword h o s.authChal s.nt p.data then
      .go { s with hlak := h.crypto.clientHLAK o.pass s.nt, authOK := true }
    else .ret s (.err ("chap: server did not prove it knows the password " ++
      "(bad authenticator response)") [])
  else if p.code = 4 then .ret s (.err "authentication failed (MS-CHAPv2): " p.data)
  else .go s

/-! ## IPCP -/

def ipcpConfReq (s : St) (pid : UInt8) (data : Bytes) : St :=
  match parseOpts data with
  | none => s
  | some opts =>
    let rej := opts.filter fun x => x.t ≠ ipcpAddr
    if rej ≠ [] then s.send pppIPCP (cp confRej pid (packOpts rej))
    else { s with ipcpPeerOK := true }.send pppIPCP (cp confAck pid data)

/-- The inner loop over `ipcpOurs`; `none` when the server rejects the address option. -/
def adjustIPCP (rej : Bool) (x : PppOpt) : List PppOpt → Option (List PppOpt)
  | [] => some []
  | y :: ys =>
    if y.t = x.t then
      if rej then if x.t = ipcpAddr then none else some ys
      else if x.v.length = 4 then some ({ y with v := x.v } :: ys) else some (y :: ys)
    else (adjustIPCP rej x ys).map (y :: ·)

def ipcpConfNak (s : St) (rej : Bool) (pid : UInt8) (data : Bytes) : Out :=
  if pid ≠ s.ipcpID then .go s
  else
    match ((parseOpts data).getD []).foldl (fun l x => l.bind (adjustIPCP rej x)) (some s.ipcpOurs) with
    | none => .ret s (.err "ipcp: server rejected address negotiation" [])
    | some ours =>
      let s := { s with ipcpOurs := ours, id := s.id + 1, ipcpID := s.id + 1 }
      .go (s.send pppIPCP s.ipcpReq)

def handleIPCP (s : St) (p : Packet) : Out :=
  if p.code = confReq then .go (ipcpConfReq s p.pid p.data)
  else if p.code = confAck then .go (if p.pid = s.ipcpID then { s with ipcpOurOK := true } else s)
  else if p.code = confNak then ipcpConfNak s false p.pid p.data
  else if p.code = confRej then ipcpConfNak s true p.pid p.data
  else .go s

/-! ## The loop -/

/-- A protocol we do not run: Protocol-Reject. -/
def handleOther (s : St) (p : Packet) : Out :=
  .go ({ s with id := s.id + 1 }.send pppLCP (cp protoRej (s.id + 1) (be16 p.pr ++ p.pl)))

def handle (s : St) (p : Packet) : Out :=
  if p.pr = pppLCP then handleLCP h o s p
  else if p.pr = pppPAP then handlePAP s p
  else if p.pr = pppCHAP then handleCHAP h o s p
  else if p.pr = pppIPCP then handleIPCP s p
  else handleOther s p

def handleTick (s : St) : St :=
  if !s.lcpOurOK then s.send pppLCP s.lcpReq
  else if s.authProto == pppPAP && !s.authOK then s.send pppPAP (s.papReq o)
  else if s.ipcpSent && !s.ipcpOurOK then s.send pppIPCP s.ipcpReq
  else s

/-- The phase a timeout is reported in. -/
def stage (s : St) : String :=
  if s.lcpOurOK && s.lcpPeerOK && !s.authOK then "authentication"
  else if s.authOK then "ipcp" else "lcp"

def react (s : St) : Event → Out
  | .closed => .ret s (.err "connection closed during PPP setup" [])
  | .tick => .go (handleTick o s)
  | .deadline => .ret s (.err ("timeout during " ++ stage s) [])
  | .frame f =>
    let s := { s with out := .recv f :: s.out }
    match packet f with
    | none => .go s
    | some p => handle h o s p

def machine : Machine St Event Result := ⟨settle h o, react h o⟩

/-- The state in which the loop is entered, after the first Configure-Request. -/
def started : St := (initial h o).send pppLCP (initial h o).lcpReq

/-- The function, fed a sequence of events: where it stands after them, and
what it returned if it has. -/
def pppNegotiate (es : List Event) : St × Option Result :=
  if h.sendOK [] pppLCP (initial h o).lcpReq then (machine h o).run (started h o) es
  else (started h o, some (.err "send" []))

/-! ## A host for concrete runs -/

/-- Every `send` and `onAuth` succeeds; the library functions are constants of the right length. -/
def Host.plain : Host where
  mb := [1, 2, 3, 4]
  peerChal := List.replicate 16 7
  sendOK := fun _ _ _ => true
  onAuth := some fun _ _ => true
  crypto := ⟨fun _ => List.replicate 16 0, fun _ => List.replicate 20 0,
    fun _ _ => List.replicate 8 0, id⟩

/-- A user `u` with the password `p`. -/
def PppConfig.plain (auth : Policy) : PppConfig := ⟨[117], [112], auth, 1400⟩

/-- The frame of a control packet. -/
def Event.cp (proto : Nat) (code id : UInt8) (data : Bytes) : Event :=
  .frame (be16 proto ++ Ppp.cp code id data)

end

end Ghajar.Ppp
