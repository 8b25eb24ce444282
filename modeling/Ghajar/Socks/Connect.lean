import Mathlib
import Ghajar.Lib.ByteReader
import Ghajar.Socks.Udp

/-!
# SOCKS5 connections

`handleSocks` of `native/ghajar-helper/socks5.go` over everything the client sends: the greeting,
the request with its address, and what is answered, dialled and relayed. `Opens` is a stream that
begins with a greeting and a request; `connect_exact` says that nothing else is ever dialled, and
that the relay begins exactly behind the request.
-/

namespace Ghajar.Socks

open Bytes ByteReader

inductive ConnErr
  | eof
  | unexpectedEof
  | notSocks5
  | addressType (t : UInt8)
  | connect
  | command (c : UInt8)
  | noUDP
  | listen
  | write
  deriving DecidableEq, Repr

section Reading

/- `net.IP.String` -/
variable (ipString : List UInt8 → List UInt8)

/-- The methods a client offers. None of them is looked at. -/
def readGreeting : ByteReader ConnErr (List UInt8) := do
  let h ← readFull .eof .unexpectedEof 2
  if h.getD 0 0 ≠ 5 then fail .notSocks5
  else readFull .eof .unexpectedEof (h.getD 1 0).toNat

def readPort (host : List UInt8) : ByteReader ConnErr (List UInt8 × Nat) := do
  let p ← readFull .eof .unexpectedEof 2
  pure (host, (rd16 p).toNat)

def readAddr (atyp : UInt8) : ByteReader ConnErr (List UInt8 × Nat) :=
  if atyp = 1 then do
    let b ← readFull .eof .unexpectedEof 4
    readPort (ipString b)
  else if atyp = 4 then do
    let b ← readFull .eof .unexpectedEof 16
    readPort (ipString b)
  else if atyp = 3 then do
    let l ← readFull .eof .unexpectedEof 1
    let b ← readFull .eof .unexpectedEof (l.getD 0 0).toNat
    readPort b
  else fail (.addressType atyp)

/-- Command, host and port. -/
def readRequest : ByteReader ConnErr (UInt8 × List UInt8 × Nat) := do
  let req ← readFull .eof .unexpectedEof 4
  let a ← readAddr ipString (req.getD 3 0)
  pure (req.getD 1 0, a)

end Reading

/-! ## The connection -/

/-- `strconv.Itoa` -/
def itoa (n : Nat) : List UInt8 := (Nat.toDigits 10 n).map fun c => UInt8.ofNat c.toNat

/-- `net.JoinHostPort`: brackets around a host with a colon. -/
def joinHostPort (host : List UInt8) (port : Nat) : List UInt8 :=
  if host.contains 58 then 91 :: host ++ [93, 58] ++ itoa port else host ++ 58 :: itoa port

def answer (code : UInt8) : List UInt8 := [5, code, 0, 1, 0, 0, 0, 0, 0, 0]

/-- The engine behind the connection, and which writes to the client succeed. -/
structure Backend where
  /-- `DialTCP` -/
  dialTCP : List UInt8 → Bool
  /-- `ListenUDP` -/
  listenUDP : Bool
  /-- The port of the local socket. -/
  localUDP : Option UInt16
  writes : Nat → Bool

/-- What a connection comes to. -/
structure Session where
  written : List UInt8 := []
  /-- The address that `DialTCP` is called with. -/
  dialled : Option (List UInt8) := none
  /-- What of the client's stream is left to the relay. -/
  relayed : Option (List UInt8) := none
  /-- The local socket of the datagrams. -/
  associated : Option UInt16 := none
  err : Option ConnErr := none
  deriving DecidableEq, Repr

section Session

variable (ipString : List UInt8 → List UInt8) (b : Backend)

/-- An answer to the request, which is the second write. -/
def Backend.answered (code : UInt8) : List UInt8 :=
  [5, 0] ++ if b.writes 1 then answer code else []

def connect (host : List UInt8) (port : Nat) (rest : List UInt8) : Session :=
  let addr := joinHostPort host port
  if b.dialTCP addr then
    if b.writes 1 then { written := b.answered 0, dialled := some addr, relayed := some rest }
    else { written := b.answered 0, dialled := some addr, err := some .write }
  else { written := b.answered 5, dialled := some addr, err := some .connect }

def udpAssociate : Session :=
  if b.listenUDP then
    match b.localUDP with
    | none => { written := [5, 0], err := some .listen }
    | some port =>
      if b.writes 1 then
        { written := [5, 0] ++ ([5, 0, 0, 1, 127, 0, 0, 1] ++ be16 port), associated := some port }
      else { written := [5, 0], err := some .write }
  else { written := b.answered 7, err := some .noUDP }

def handleSocks (s : List UInt8) : Session :=
  match readGreeting s with
  | .error e => { err := some e }
  | .ok (_, s) =>
    if b.writes 0 then
      match readRequest ipString s with
      | .error e => { written := [5, 0], err := some e }
      | .ok ((command, host, port), rest) =>
        if command = 1 then connect b host port rest
        else if command = 3 then udpAssociate b
        else { written := b.answered 7, err := some (.command command) }
    else { err := some .write }

end Session

/-! ## What is read -/

section Words

variable {ipString : List UInt8 → List UInt8}

def greeting (methods : List UInt8) : List UInt8 := 5 :: UInt8.ofNat methods.length :: methods

/-- The version of a request and its reserved byte may be any. -/
def tcpRequest (version command reserved : UInt8) (t : Target) (port : UInt16) : List UInt8 :=
  version :: command :: reserved :: (t.bytes ++ be16 port)

theorem reads_greeting :
    Reads readGreeting fun methods w => methods.length < 256 ∧ w = greeting methods := by
  have hread := reads_bind (reads_readFull ConnErr.eof .unexpectedEof 2) fun h =>
    reads_ite (c := h.getD 0 0 ≠ 5) (fun _ => reads_fail ConnErr.notSocks5) fun _ =>
      reads_readFull ConnErr.eof .unexpectedEof (h.getD 1 0).toNat
  refine hread.congr fun methods w => ?_
  constructor
  · rintro ⟨h, v, u, ⟨hl, rfl⟩, hu, rfl⟩
    match v, hl with
    | [x, y], _ =>
      split at hu
      · exact hu.elim
      · next hx =>
        obtain ⟨hy, rfl⟩ := hu
        have hx : x = 5 := not_not.1 hx
        have hy : u.length = y.toNat := hy
        refine ⟨hy ▸ y.toNat_lt, ?_⟩
        rw [greeting, hy, UInt8.ofNat_toNat, hx]
        rfl
  · rintro ⟨hl, rfl⟩
    refine ⟨[5, UInt8.ofNat methods.length], _, methods, ⟨rfl, rfl⟩, ?_, rfl⟩
    rw [if_neg (by simp)]
    refine ⟨?_, rfl⟩
    change methods.length = (UInt8.ofNat methods.length).toNat
    rw [UInt8.toNat_ofNat']
    omega

theorem reads_port (host : List UInt8) :
    Reads (readPort host) fun a w => ∃ port : UInt16, a = (host, port.toNat) ∧ w = be16 port := by
  refine (reads_bind (reads_readFull ConnErr.eof .unexpectedEof 2) fun p =>
    reads_pure (host, (rd16 p).toNat)).congr fun a w => ?_
  constructor
  · rintro ⟨p, v, u, ⟨hl, rfl⟩, ⟨rfl, rfl⟩, rfl⟩
    exact ⟨rd16 v, rfl, by rw [List.append_nil, be16_rd16 hl]⟩
  · rintro ⟨port, rfl, rfl⟩
    exact ⟨be16 port, be16 port, [], ⟨be16_length port, rfl⟩, ⟨by rw [rd16_be16], rfl⟩, by simp⟩

/-- The bytes behind the address type `atyp` that stand for a host and a port. -/
def AddrBytes (ipString : List UInt8 → List UInt8) (atyp : UInt8) (a : List UInt8 × Nat)
    (w : List UInt8) : Prop :=
  ∃ (t : Target) (port : UInt16),
    atyp :: w = t.bytes ++ be16 port ∧ a = (t.host ipString, port.toNat)

theorem reads_addr (atyp : UInt8) : Reads (readAddr ipString atyp) (AddrBytes ipString atyp) := by
  have hraw := fun n (f : List UInt8 → List UInt8) =>
    reads_bind (reads_readFull ConnErr.eof .unexpectedEof n) fun b => reads_port (f b)
  unfold readAddr
  by_cases h1 : atyp = 1
  · subst h1
    refine (hraw 4 ipString).congr fun a w => ?_
    constructor
    · rintro ⟨b, v, u, ⟨hl, rfl⟩, ⟨port, rfl, rfl⟩, rfl⟩
      exact ⟨.ip4 v hl, port, rfl, rfl⟩
    · rintro ⟨t, port, hw, rfl⟩
      cases t with
      | ip4 b h => exact ⟨b, b, be16 port, ⟨h, rfl⟩, ⟨port, rfl, rfl⟩, (List.cons.inj hw).2⟩
      | ip6 b h => exact absurd (List.cons.inj hw).1 (by decide)
      | domain n h => exact absurd (List.cons.inj hw).1 (by decide)
  rw [if_neg h1]
  by_cases h4 : atyp = 4
  · subst h4
    refine (hraw 16 ipString).congr fun a w => ?_
    constructor
    · rintro ⟨b, v, u, ⟨hl, rfl⟩, ⟨port, rfl, rfl⟩, rfl⟩
      exact ⟨.ip6 v hl, port, rfl, rfl⟩
    · rintro ⟨t, port, hw, rfl⟩
      cases t with
      | ip4 b h => exact absurd (List.cons.inj hw).1 (by decide)
      | ip6 b h => exact ⟨b, b, be16 port, ⟨h, rfl⟩, ⟨port, rfl, rfl⟩, (List.cons.inj hw).2⟩
      | domain n h => exact absurd (List.cons.inj hw).1 (by decide)
  rw [if_neg h4]
  by_cases h3 : atyp = 3
  · subst h3
    refine (reads_bind (reads_readFull ConnErr.eof .unexpectedEof 1) fun l =>
      hraw (l.getD 0 0).toNat id).congr fun a w => ?_
    constructor
    · rintro ⟨l, v, u, ⟨hl, rfl⟩, ⟨b, v', u', ⟨hb, rfl⟩, ⟨port, rfl, rfl⟩, rfl⟩, rfl⟩
      match v, hl with
      | [x], _ =>
        have hb : v'.length = x.toNat := hb
        refine ⟨.domain v' (hb ▸ x.toNat_lt), port, ?_, rfl⟩
        rw [Target.bytes, hb, UInt8.ofNat_toNat]
        rfl
    · rintro ⟨t, port, hw, rfl⟩
      cases t with
      | ip4 b h => exact absurd (List.cons.inj hw).1 (by decide)
      | ip6 b h => exact absurd (List.cons.inj hw).1 (by decide)
      | domain n h =>
        refine ⟨[UInt8.ofNat n.length], _, n ++ be16 port, ⟨rfl, rfl⟩,
          ⟨n, n, be16 port, ⟨?_, rfl⟩, ⟨port, rfl, rfl⟩, rfl⟩, (List.cons.inj hw).2⟩
        change n.length = (UInt8.ofNat n.length).toNat
        rw [UInt8.toNat_ofNat']
        omega
  rw [if_neg h3]
  refine (reads_fail _).congr fun a w => ?_
  refine ⟨False.elim, ?_⟩
  rintro ⟨t, port, hw, -⟩
  cases t with
  | ip4 b h => exact h1 (List.cons.inj hw).1
  | ip6 b h => exact h4 (List.cons.inj hw).1
  | domain n h => exact h3 (List.cons.inj hw).1

theorem reads_request :
    Reads (readRequest ipString) fun q w => ∃ version reserved t port,
      w = tcpRequest version q.1 reserved t port ∧ q.2 = (t.host ipString, port.toNat) := by
  refine (reads_bind (reads_readFull ConnErr.eof .unexpectedEof 4) fun req =>
    reads_bind (reads_addr (req.getD 3 0)) fun a => reads_pure (req.getD 1 0, a)).congr
      fun q w => ?_
  constructor
  · rintro ⟨req, v, u, ⟨hl, rfl⟩, ⟨a, v', u', ⟨t, port, hw, rfl⟩, ⟨rfl, rfl⟩, rfl⟩, rfl⟩
    match v, hl with
    | [version, command, reserved, atyp], _ =>
      refine ⟨version, reserved, t, port, ?_, rfl⟩
      have hw : atyp :: v' = t.bytes ++ be16 port := hw
      change version :: command :: reserved :: atyp :: (v' ++ []) = _
      rw [List.append_nil, hw]
      rfl
  · rintro ⟨version, reserved, t, port, rfl, ha⟩
    obtain ⟨command, host, n⟩ := q
    obtain ⟨atyp, tail, ht⟩ : ∃ atyp tail, t.bytes ++ be16 port = atyp :: tail := by
      cases t with
      | ip4 b h => exact ⟨1, _, rfl⟩
      | ip6 b h => exact ⟨4, _, rfl⟩
      | domain n h => exact ⟨3, _, rfl⟩
    refine ⟨[version, command, reserved, atyp], _, tail, ⟨rfl, rfl⟩,
      ⟨(host, n), tail, [], ⟨t, port, ht.symm, ha⟩, ⟨rfl, rfl⟩, by simp⟩, ?_⟩
    rw [tcpRequest, ht]
    rfl

end Words

/-! ## What is done with it -/

/-- A stream that begins with a greeting and a request for `command`, before `rest`. -/
def Opens (command : UInt8) (t : Target) (port : UInt16) (s rest : List UInt8) : Prop :=
  ∃ methods version reserved, methods.length < 256 ∧
    s = greeting methods ++ (tcpRequest version command reserved t port ++ rest)

section Handle

variable {ipString : List UInt8 → List UInt8} {b : Backend} {s rest addr : List UInt8}
  {t : Target} {port : UInt16}

/-- Either the client's stream opens with a request, which is then what is handled, or it is given
up, with at most the method answered. -/
theorem handle_cases (ipString : List UInt8 → List UInt8) (b : Backend) (s : List UInt8) :
    (∃ command t port rest, b.writes 0 = true ∧ Opens command t port s rest ∧
      handleSocks ipString b s =
        if command = 1 then connect b (t.host ipString) port.toNat rest
        else if command = 3 then udpAssociate b
        else { written := b.answered 7, err := some (.command command) }) ∨
    ((b.writes 0 = true → ∀ command t port rest, ¬Opens command t port s rest) ∧
      ∃ e, handleSocks ipString b s = { err := some e } ∨
        handleSocks ipString b s = { written := [5, 0], err := some e }) := by
  unfold handleSocks
  cases hg : readGreeting s with
  | error e =>
    refine .inr ⟨?_, e, .inl rfl⟩
    rintro - command t port rest ⟨methods, version, reserved, hl, rfl⟩
    rw [reads_greeting.ok ⟨hl, rfl⟩] at hg
    cases hg
  | ok p =>
    obtain ⟨methods, s'⟩ := p
    obtain ⟨w, ⟨hl, rfl⟩, rfl⟩ := (reads_greeting _ _ _).1 hg
    dsimp only
    split
    · next hw =>
      cases hr : readRequest ipString s' with
      | error e =>
        refine .inr ⟨?_, e, .inr rfl⟩
        rintro - command t port rest ⟨methods', version, reserved, hl', heq⟩
        have hg' : readGreeting (greeting methods' ++
            (tcpRequest version command reserved t port ++ rest)) =
              .ok (methods', tcpRequest version command reserved t port ++ rest) :=
          reads_greeting.ok ⟨hl', rfl⟩
        rw [← heq, hg] at hg'
        cases hg'
        rw [reads_request.ok (a := (command, t.host ipString, port.toNat))
          ⟨version, reserved, t, port, rfl, rfl⟩] at hr
        cases hr
      | ok q =>
        obtain ⟨⟨command, host, n⟩, rest⟩ := q
        obtain ⟨w, ⟨version, reserved, t, port, rfl, ha⟩, rfl⟩ := (reads_request _ _ _).1 hr
        cases ha
        exact .inl ⟨command, t, port, rest, hw, ⟨methods, version, reserved, hl, rfl⟩, rfl⟩
    · next hw =>
      exact .inr ⟨fun h => absurd h hw, .write, .inl rfl⟩

theorem opens_unique {command command' : UInt8} {t' : Target} {port' : UInt16} {rest' : List UInt8}
    (h : Opens command t port s rest) (h' : Opens command' t' port' s rest') :
    command = command' ∧ rest = rest' ∧
      (t.host ipString, port.toNat) = (t'.host ipString, port'.toNat) := by
  obtain ⟨m, v, r, hl, rfl⟩ := h
  obtain ⟨m', v', r', hl', heq⟩ := h'
  have hg : readGreeting (greeting m ++ (tcpRequest v command r t port ++ rest)) =
      .ok (m, tcpRequest v command r t port ++ rest) := reads_greeting.ok ⟨hl, rfl⟩
  have hg' : readGreeting (greeting m' ++ (tcpRequest v' command' r' t' port' ++ rest')) =
      .ok (m', tcpRequest v' command' r' t' port' ++ rest') := reads_greeting.ok ⟨hl', rfl⟩
  rw [heq, hg'] at hg
  have hs : tcpRequest v command r t port ++ rest = tcpRequest v' command' r' t' port' ++ rest' :=
    congrArg Prod.snd (Except.ok.inj hg).symm
  have hr : readRequest ipString (tcpRequest v command r t port ++ rest) =
      .ok ((command, t.host ipString, port.toNat), rest) :=
    reads_request.ok ⟨v, r, t, port, rfl, rfl⟩
  have hr' : readRequest ipString (tcpRequest v' command' r' t' port' ++ rest') =
      .ok ((command', t'.host ipString, port'.toNat), rest') :=
    reads_request.ok ⟨v', r', t', port', rfl, rfl⟩
  rw [hs, hr'] at hr
  have he := Except.ok.inj hr
  exact ⟨congrArg (fun p => p.1.1) he.symm, congrArg Prod.snd he.symm,
    congrArg (fun p => p.1.2) he.symm⟩

/-! ## Tunnels -/

theorem connect_dialled (host : List UInt8) (n : Nat) (rest : List UInt8) :
    (connect b host n rest).dialled = some (joinHostPort host n) := by
  unfold connect
  dsimp only
  split
  · split
    · rfl
    · rfl
  · rfl

theorem connect_relayed (host : List UInt8) (n : Nat) (rest rest' : List UInt8) :
    (connect b host n rest).relayed = some rest' ↔
      b.dialTCP (joinHostPort host n) = true ∧ b.writes 1 = true ∧ rest = rest' := by
  unfold connect
  dsimp only
  split
  · next hd =>
    split
    · next hw => simp [hd, hw]
    · next hw => simp [hw]
  · next hd => simp [hd]

theorem connect_granted (host : List UInt8) (n : Nat) (rest : List UInt8) :
    (connect b host n rest).written = [5, 0] ++ answer 0 ↔
      (connect b host n rest).relayed.isSome := by
  unfold connect Backend.answered
  dsimp only
  split
  · split
    · simp
    · simp [answer]
  · split
    · simp [answer]
    · simp [answer]

/-- A session without a tunnel: nothing is dialled, and the client is not told otherwise. -/
structure Session.NoTunnel (x : Session) : Prop where
  dialled : x.dialled = none
  relayed : x.relayed = none
  written : x.written ≠ [5, 0] ++ answer 0

theorem noTunnel_answered (e : ConnErr) :
    Session.NoTunnel { written := b.answered 7, err := some e } := by
  refine ⟨rfl, rfl, ?_⟩
  unfold Backend.answered
  split
  · simp [answer]
  · simp [answer]

theorem noTunnel_udpAssociate : (udpAssociate b).NoTunnel := by
  unfold udpAssociate
  split
  · split
    · exact ⟨rfl, rfl, by simp [answer]⟩
    · split
      · exact ⟨rfl, rfl, by simp [answer]⟩
      · exact ⟨rfl, rfl, by simp [answer]⟩
  · exact noTunnel_answered .noUDP

/-- A tunnel is asked for and its first answer is written, or there is none. -/
theorem tunnel_cases (ipString : List UInt8 → List UInt8) (b : Backend) (s : List UInt8) :
    (∃ t port rest, b.writes 0 = true ∧ Opens 1 t port s rest ∧
      handleSocks ipString b s = connect b (t.host ipString) port.toNat rest) ∨
    (b.writes 0 = true → ∀ t port rest, ¬Opens 1 t port s rest) ∧
      (handleSocks ipString b s).NoTunnel := by
  rcases handle_cases ipString b s with ⟨command, t, port, rest, hw, ho, he⟩ | ⟨hno, e, he⟩
  · by_cases h1 : command = 1
    · subst h1
      exact .inl ⟨t, port, rest, hw, ho, by rw [he, if_pos rfl]⟩
    · refine .inr ⟨fun _ t' port' rest' ho' =>
        h1 (@opens_unique id _ _ _ _ _ _ _ _ _ ho ho').1, ?_⟩
      rw [he, if_neg h1]
      split
      · exact noTunnel_udpAssociate
      · exact noTunnel_answered _
  · refine .inr ⟨fun hw t port rest => hno hw 1 t port rest, ?_⟩
    rcases he with he | he
    · rw [he]
      exact ⟨rfl, rfl, by simp [answer]⟩
    · rw [he]
      exact ⟨rfl, rfl, by simp [answer]⟩

theorem dialled_iff : (handleSocks ipString b s).dialled = some addr ↔
    b.writes 0 = true ∧ ∃ t port rest, Opens 1 t port s rest ∧
      addr = joinHostPort (t.host ipString) port.toNat := by
  rcases tunnel_cases ipString b s with ⟨t, port, rest, hw, ho, he⟩ | ⟨hno, hnone⟩
  · rw [he, connect_dialled, Option.some.injEq]
    constructor
    · rintro rfl
      exact ⟨hw, t, port, rest, ho, rfl⟩
    · rintro ⟨-, t', port', rest', ho', rfl⟩
      obtain ⟨-, -, hp⟩ := @opens_unique ipString _ _ _ _ _ _ _ _ _ ho ho'
      obtain ⟨hhost, hport⟩ := Prod.mk.inj hp
      rw [hhost, hport]
  · rw [hnone.dialled]
    refine iff_of_false (by simp) ?_
    rintro ⟨hw, t, port, rest, ho, -⟩
    exact hno hw t port rest ho

theorem relayed_iff : (handleSocks ipString b s).relayed = some rest ↔
    b.writes 0 = true ∧ b.writes 1 = true ∧ ∃ t port, Opens 1 t port s rest ∧
      b.dialTCP (joinHostPort (t.host ipString) port.toNat) = true := by
  rcases tunnel_cases ipString b s with ⟨t, port, rest', hw, ho, he⟩ | ⟨hno, hnone⟩
  · rw [he, connect_relayed]
    constructor
    · rintro ⟨hd, hw1, rfl⟩
      exact ⟨hw, hw1, t, port, ho, hd⟩
    · rintro ⟨-, hw1, t', port', ho', hd⟩
      obtain ⟨-, hrest, hp⟩ := @opens_unique ipString _ _ _ _ _ _ _ _ _ ho ho'
      obtain ⟨hhost, hport⟩ := Prod.mk.inj hp
      rw [hhost, hport]
      exact ⟨hd, hw1, hrest⟩
  · rw [hnone.relayed]
    refine iff_of_false (by simp) ?_
    rintro ⟨hw, -, t, port, ho, -⟩
    exact hno hw t port rest ho

theorem granted_iff : (handleSocks ipString b s).written = [5, 0] ++ answer 0 ↔
    (handleSocks ipString b s).relayed.isSome := by
  rcases tunnel_cases ipString b s with ⟨t, port, rest, -, -, he⟩ | ⟨-, hnone⟩
  · rw [he]
    exact connect_granted _ _ _
  · rw [hnone.relayed]
    exact iff_of_false hnone.written (by simp)

/-- **The tunnel that was asked for.** An address is dialled if and only if the stream opens with a
request to connect to it, the relay then gets what stands behind the request and nothing else, and
the client is told of a connection exactly when there is one. -/
theorem connect_exact (ipString : List UInt8 → List UInt8) (b : Backend) (s : List UInt8) :
    (∀ addr, (handleSocks ipString b s).dialled = some addr ↔
      b.writes 0 = true ∧ ∃ t port rest, Opens 1 t port s rest ∧
        addr = joinHostPort (t.host ipString) port.toNat) ∧
    (∀ rest, (handleSocks ipString b s).relayed = some rest ↔
      b.writes 0 = true ∧ b.writes 1 = true ∧ ∃ t port, Opens 1 t port s rest ∧
        b.dialTCP (joinHostPort (t.host ipString) port.toNat) = true) ∧
    ((handleSocks ipString b s).written = [5, 0] ++ answer 0 ↔
      (handleSocks ipString b s).relayed.isSome) :=
  ⟨fun _ => dialled_iff, fun _ => relayed_iff, granted_iff⟩

end Handle

end Ghajar.Socks
