import Ghajar.Lib.Bytes

/-!
# SOCKS5 datagrams

The UDP relay of `native/ghajar-helper/socks5.go`. `parseUDPAddr` reads the header of a client's
datagram, `socksUDPHeader` writes the one of an answer, and `fromClient` is what the relay does
with a datagram. A request is dropped when the whole datagram has fewer than ten bytes, which one
for a domain may have.
-/

namespace Ghajar.Socks

open Bytes

/-! ## Addresses -/

def v4InV6Prefix : List UInt8 := [0, 0, 0, 0, 0, 0, 0, 0, 0, 0, 0xff, 0xff]

/-- `net.IP.To4`. -/
def to4 (ip : List UInt8) : Option (List UInt8) :=
  if ip.length = 4 then some ip
  else if ip.length = 16 ∧ ip.take 12 = v4InV6Prefix then some (ip.drop 12)
  else none

/-- `net.IP.To16`. -/
def to16 (ip : List UInt8) : Option (List UInt8) :=
  if ip.length = 4 then some (v4InV6Prefix ++ ip) else if ip.length = 16 then some ip else none

/-- The source address of a packet: a `*net.UDPAddr`, or another one that is known by its text. -/
inductive Addr
  | udp (ip : List UInt8) (port : Nat)
  | other (text : String)
  deriving DecidableEq, Repr

section
/- `net.IP.String`, and the IP and port that `net.SplitHostPort`, `net.ParseIP` and
`strconv.Atoi` find in a text. -/
variable (ipString : List UInt8 → List UInt8) (hostPort : String → List UInt8 × Nat)

namespace Addr

def ip : Addr → List UInt8
  | udp ip _ => ip
  | other text => (hostPort text).1

def port : Addr → Nat
  | udp _ port => port
  | other text => (hostPort text).2

/-- An IP address of either family and a port. -/
def Reported (a : Addr) : Prop :=
  ((a.ip hostPort).length = 4 ∨ (a.ip hostPort).length = 16) ∧ a.port hostPort < 65536

end Addr

def socksUDPHeader (a : Addr) : List UInt8 :=
  match to4 (a.ip hostPort) with
  | some ip4 => [0, 0, 0, 1] ++ ip4 ++ be16 (UInt16.ofNat (a.port hostPort))
  | none =>
    [0, 0, 0, 4] ++ (to16 (a.ip hostPort)).getD [] ++ be16 (UInt16.ofNat (a.port hostPort))

/-! ## Datagrams of the client -/

inductive Parsed
  | addr (host : List UInt8) (port off : Nat)
  | err (msg : String)
  /-- An index out of range. -/
  | crash
  deriving DecidableEq, Repr

def parseUDPAddr (p : List UInt8) : Parsed :=
  match p[3]? with
  | none => .crash
  | some t =>
    if t = 1 then
      if p.length < 10 then .err "short"
      else .addr (ipString ((p.drop 4).take 4)) (rd16 ((p.drop 8).take 2)).toNat 10
    else if t = 4 then
      if p.length < 22 then .err "short"
      else .addr (ipString ((p.drop 4).take 16)) (rd16 ((p.drop 20).take 2)).toNat 22
    else if t = 3 then
      match p[4]? with
      | none => .crash
      | some l =>
        if p.length < 7 + l.toNat then .err "short"
        else .addr ((p.drop 5).take l.toNat) (rd16 ((p.drop (5 + l.toNat)).take 2)).toNat
          (7 + l.toNat)
    else .err "atyp"

inductive Relayed
  | dropped
  | crash
  /-- `ResolveUDP(host, port)`, and the bytes that are written to what it finds. -/
  | forward (host : List UInt8) (port : Nat) (data : List UInt8)
  deriving DecidableEq, Repr

/-- A datagram of the client. -/
def fromClient (d : List UInt8) : Relayed :=
  if d.length < 10 ∨ d.getD 2 0 ≠ 0 then .dropped -- fragmentation unsupported
  else
    match parseUDPAddr ipString d with
    | .crash => .crash
    | .err _ => .dropped
    | .addr host port off => .forward host port (d.drop off)

end

/-! ## What a request is -/

/-- The destination of a request: an address of one of three forms. -/
inductive Target
  | ip4 (b : List UInt8) (h : b.length = 4)
  | ip6 (b : List UInt8) (h : b.length = 16)
  | domain (name : List UInt8) (h : name.length < 256)

namespace Target

/-- The address type and the address. -/
def bytes : Target → List UInt8
  | ip4 b _ => 1 :: b
  | ip6 b _ => 4 :: b
  | domain name _ => 3 :: UInt8.ofNat name.length :: name

def host (ipString : List UInt8 → List UInt8) : Target → List UInt8
  | ip4 b _ => ipString b
  | ip6 b _ => ipString b
  | domain name _ => name

end Target

/-- A UDP request of RFC 1928 that is no fragment: two reserved bytes, the fragment number, the
destination, the data. -/
def request (r0 r1 : UInt8) (t : Target) (port : UInt16) (data : List UInt8) : List UInt8 :=
  r0 :: r1 :: 0 :: (t.bytes ++ (be16 port ++ data))

def IsRequest (d : List UInt8) : Prop := ∃ r0 r1 t port data, d = request r0 r1 t port data

/-! ## What is parsed -/

section
variable {ipString : List UInt8 → List UInt8}

theorem request_length (r0 r1 : UInt8) (t : Target) (port : UInt16) (data : List UInt8) :
    (request r0 r1 t port data).length = 5 + t.bytes.length + data.length := by
  simp only [request, List.length_cons, List.length_append, be16_length]
  omega

theorem parseUDPAddr_request (r0 r1 : UInt8) (t : Target) (port : UInt16) (data : List UInt8) :
    parseUDPAddr ipString (request r0 r1 t port data) =
      .addr (t.host ipString) port.toNat (5 + t.bytes.length) := by
  have hlen := request_length r0 r1 t port data
  cases t with
  | ip4 b h =>
    have hport : ((request r0 r1 (.ip4 b h) port data).drop 8).take 2 = be16 port := by
      match b, h with
      | [_, _, _, _], _ => exact List.take_left' (be16_length port)
    have hhost : ((request r0 r1 (.ip4 b h) port data).drop 4).take 4 = b := List.take_left' h
    have hl : ¬(request r0 r1 (.ip4 b h) port data).length < 10 := by
      rw [hlen, Target.bytes, List.length_cons, h]
      omega
    rw [parseUDPAddr]
    show (if (1 : UInt8) = 1 then _ else _) = _
    rw [if_pos rfl, if_neg hl, hport, hhost, rd16_be16, Target.bytes, List.length_cons, h]
    rfl
  | ip6 b h =>
    have hhost : ((request r0 r1 (.ip6 b h) port data).drop 4).take 16 = b := List.take_left' h
    have hport : ((request r0 r1 (.ip6 b h) port data).drop 20).take 2 = be16 port := by
      have hd : (request r0 r1 (.ip6 b h) port data).drop 20 = be16 port ++ data := by
        show (b ++ (be16 port ++ data)).drop 16 = _
        rw [← h, List.drop_left]
      rw [hd]
      exact List.take_left' (be16_length port)
    have hl : ¬(request r0 r1 (.ip6 b h) port data).length < 22 := by
      rw [hlen, Target.bytes, List.length_cons, h]
      omega
    rw [parseUDPAddr]
    show (if (4 : UInt8) = 1 then _ else if (4 : UInt8) = 4 then _ else _) = _
    rw [if_neg (by decide), if_pos rfl, if_neg hl, hport, hhost, rd16_be16, Target.bytes,
      List.length_cons, h]
    rfl
  | domain name h =>
    have hn : (UInt8.ofNat name.length).toNat = name.length := by
      rw [UInt8.toNat_ofNat']
      omega
    have hhost : ((request r0 r1 (.domain name h) port data).drop 5).take name.length = name :=
      List.take_left
    have hport : ((request r0 r1 (.domain name h) port data).drop (5 + name.length)).take 2 =
        be16 port := by
      have hd : (request r0 r1 (.domain name h) port data).drop (5 + name.length) =
          be16 port ++ data := by
        rw [Nat.add_comm]
        show (name ++ (be16 port ++ data)).drop name.length = _
        rw [List.drop_left]
      rw [hd]
      exact List.take_left' (be16_length port)
    have hl : ¬(request r0 r1 (.domain name h) port data).length < 7 + name.length := by
      rw [hlen, Target.bytes, List.length_cons, List.length_cons]
      omega
    rw [parseUDPAddr]
    show (if (3 : UInt8) = 1 then _ else if (3 : UInt8) = 4 then _ else
      if (3 : UInt8) = 3 then _ else _) = _
    rw [if_neg (by decide), if_neg (by decide), if_pos rfl]
    show (if _ < 7 + (UInt8.ofNat name.length).toNat then _ else _) = _
    rw [hn, if_neg hl, hport, hhost, rd16_be16, Target.bytes, List.length_cons, List.length_cons]
    congr 1
    omega

/-- Only a request is parsed. -/
theorem isRequest_of_parse {d host : List UInt8} {port off : Nat} (hfrag : d.getD 2 0 = 0)
    (h : parseUDPAddr ipString d = .addr host port off) : IsRequest d := by
  match d, hfrag with
  | r0 :: r1 :: frag :: t :: rest, hfrag =>
    obtain rfl : frag = 0 := hfrag
    have hport : ∀ n, n + 2 ≤ rest.length → (rest.drop n).take 2 ++ rest.drop (n + 2) =
        rest.drop n := by
      intro n _
      rw [← List.drop_drop, List.take_append_drop]
    have hword : ∀ n, n + 2 ≤ rest.length →
        be16 (rd16 ((rest.drop n).take 2)) = (rest.drop n).take 2 := by
      intro n hn
      exact be16_rd16 (by rw [List.length_take, List.length_drop]; omega)
    rw [parseUDPAddr] at h
    change (if t = 1 then _ else if t = 4 then _ else if t = 3 then _ else _) = _ at h
    by_cases h1 : t = 1
    · rw [if_pos h1] at h
      split at h
      · cases h
      · rename_i hl
        simp only [List.length_cons] at hl
        refine ⟨r0, r1, .ip4 (rest.take 4) (by rw [List.length_take]; omega),
          rd16 ((rest.drop 4).take 2), rest.drop 6, ?_⟩
        rw [request, Target.bytes, hword 4 (by omega), hport 4 (by omega), List.cons_append,
          List.take_append_drop, h1]
    · rw [if_neg h1] at h
      by_cases h4 : t = 4
      · rw [if_pos h4] at h
        split at h
        · cases h
        · rename_i hl
          simp only [List.length_cons] at hl
          refine ⟨r0, r1, .ip6 (rest.take 16) (by rw [List.length_take]; omega),
            rd16 ((rest.drop 16).take 2), rest.drop 18, ?_⟩
          rw [request, Target.bytes, hword 16 (by omega), hport 16 (by omega), List.cons_append,
            List.take_append_drop, h4]
      · rw [if_neg h4] at h
        by_cases h3 : t = 3
        · rw [if_pos h3] at h
          match rest with
          | [] => cases h
          | l :: rest =>
            change (if _ < 7 + l.toNat then _ else _) = _ at h
            split at h
            · cases h
            · rename_i hl
              simp only [List.length_cons] at hl
              have hname : (rest.take l.toNat).length = l.toNat := by
                rw [List.length_take]
                omega
              have hw := hword (l.toNat + 1) (by rw [List.length_cons]; omega)
              have hp := hport (l.toNat + 1) (by rw [List.length_cons]; omega)
              rw [List.drop_succ_cons] at hw hp
              rw [show l.toNat + 1 + 2 = l.toNat + 2 + 1 by omega, List.drop_succ_cons] at hp
              refine ⟨r0, r1, .domain (rest.take l.toNat) (by rw [hname]; exact l.toNat_lt),
                rd16 ((rest.drop l.toNat).take 2), rest.drop (l.toNat + 2), ?_⟩
              rw [request, Target.bytes, hw, hp, hname, UInt8.ofNat_toNat, List.cons_append,
                List.cons_append, List.take_append_drop, h3]
        · rw [if_neg h3] at h
          cases h

/-- With ten bytes there is nothing to be read out of range. -/
theorem parse_ne_crash {d : List UInt8} (hd : 10 ≤ d.length) :
    parseUDPAddr ipString d ≠ .crash := by
  intro h
  match d, hd with
  | _ :: _ :: _ :: t :: l :: rest, _ =>
    rw [parseUDPAddr] at h
    change (if t = 1 then _ else if t = 4 then _ else if t = 3 then
      (if _ < 7 + l.toNat then _ else _) else _) = _ at h
    repeat' split at h
    all_goals cases h

end

/-! ## The two directions -/

section
variable (ipString : List UInt8 → List UInt8) (hostPort : String → List UInt8 × Nat)

/-- The address a header is written for: four bytes for an IPv4 address in either form. -/
def Addr.canonical (a : Addr) : List UInt8 := (to4 (a.ip hostPort)).getD (a.ip hostPort)

variable {hostPort}

theorem to4_length {ip b : List UInt8} (h : to4 ip = some b) : b.length = 4 := by
  unfold to4 at h
  split at h
  · rename_i hl
    obtain rfl := Option.some.inj h
    exact hl
  split at h
  · rename_i hl
    obtain rfl := Option.some.inj h
    rw [List.length_drop, hl.1]
  · cases h

/-- The header is that of a request to the source address. -/
theorem socksUDPHeader_request {a : Addr} (ha : a.Reported hostPort) (payload : List UInt8) :
    ∃ t : Target, t.host ipString = ipString (a.canonical hostPort) ∧
      socksUDPHeader hostPort a ++ payload =
        request 0 0 t (UInt16.ofNat (a.port hostPort)) payload ∧
      (socksUDPHeader hostPort a).length = 5 + t.bytes.length := by
  unfold socksUDPHeader Addr.canonical
  cases h4 : to4 (a.ip hostPort) with
  | some b =>
    have hb := to4_length h4
    refine ⟨.ip4 b hb, rfl, ?_, ?_⟩
    · simp [request, Target.bytes]
    · simp [Target.bytes, hb]
  | none =>
    have hlen : (a.ip hostPort).length = 16 := by
      refine ha.1.resolve_left fun hl => ?_
      rw [to4, if_pos hl] at h4
      cases h4
    have h16 : to16 (a.ip hostPort) = some (a.ip hostPort) := by
      rw [to16, if_neg (by omega), if_pos hlen]
    refine ⟨.ip6 (a.ip hostPort) hlen, rfl, ?_, ?_⟩
    · simp [h16, request, Target.bytes]
    · simp [h16, Target.bytes, hlen]

variable (hostPort)

/-- What is written for a source address is read back: the IP, the port, the size. -/
def ReadsBack : Prop :=
  ∀ a payload, Addr.Reported hostPort a →
    parseUDPAddr ipString (socksUDPHeader hostPort a ++ payload) =
      .addr (ipString (a.canonical hostPort)) (a.port hostPort) (socksUDPHeader hostPort a).length ∧
    (socksUDPHeader hostPort a ++ payload).drop (socksUDPHeader hostPort a).length = payload

/-- A request is forwarded with the bytes behind its header, anything else is dropped. -/
def RelaysWell (d : List UInt8) : Prop :=
  (∀ r0 r1 t port data, d = request r0 r1 t port data →
    fromClient ipString d = .forward (t.host ipString) port.toNat data) ∧
  (¬IsRequest d → fromClient ipString d = .dropped)

theorem readsBack : ReadsBack ipString hostPort := by
  intro a payload ha
  obtain ⟨t, hhost, hreq, hlen⟩ := socksUDPHeader_request ipString ha payload
  refine ⟨?_, List.drop_left⟩
  rw [hreq, parseUDPAddr_request, hhost, hlen, UInt16.toNat_ofNat_of_lt' ha.2]

variable {ipString}

/-- What is no request is dropped, and nothing is read out of range. -/
theorem fromClient_dropped {d : List UInt8} (hn : ¬IsRequest d) :
    fromClient ipString d = .dropped := by
  unfold fromClient
  split
  · rfl
  · rename_i hc
    simp only [not_or, not_lt, not_not] at hc
    split
    · rename_i hp
      exact absurd hp (parse_ne_crash hc.1)
    · rfl
    · rename_i hp
      exact absurd (isRequest_of_parse hc.2 hp) hn

theorem fromClient_request {r0 r1 : UInt8} {t : Target} {port : UInt16} {data : List UInt8}
    (hd : 10 ≤ (request r0 r1 t port data).length) :
    fromClient ipString (request r0 r1 t port data) =
      .forward (t.host ipString) port.toNat data := by
  have hdrop : (request r0 r1 t port data).drop (5 + t.bytes.length) = data := by
    have hsplit : request r0 r1 t port data =
        (r0 :: r1 :: 0 :: (t.bytes ++ be16 port)) ++ data := by simp [request]
    rw [hsplit]
    exact List.drop_left' (by simp; omega)
  rw [fromClient, if_neg (by rintro (h | h); exacts [absurd h (by omega), h rfl]),
    parseUDPAddr_request]
  simp only [hdrop]

theorem relaysWell_iff {d : List UInt8} :
    RelaysWell ipString d ↔ 10 ≤ d.length ∨ ¬IsRequest d := by
  constructor
  · intro h
    by_contra hc
    simp only [not_or, not_le, not_not] at hc
    obtain ⟨hlt, r0, r1, t, port, data, rfl⟩ := hc
    have hf := h.1 r0 r1 t port data rfl
    rw [fromClient, if_pos (.inl hlt)] at hf
    cases hf
  · refine fun hc => ⟨?_, fromClient_dropped⟩
    rintro r0 r1 t port data rfl
    exact fromClient_request (hc.resolve_right fun h => h ⟨r0, r1, t, port, data, rfl⟩)

end

/-- **The relay.** Every header of ours is read back, and a datagram of the client is relayed as it
should be unless it is a request of fewer than ten bytes. -/
theorem relay_exact (ipString : List UInt8 → List UInt8) (hostPort : String → List UInt8 × Nat) :
    ReadsBack ipString hostPort ∧
      ∀ d, RelaysWell ipString d ↔ 10 ≤ d.length ∨ ¬IsRequest d :=
  ⟨readsBack ipString hostPort, fun _ => relaysWell_iff⟩

/-- One byte for the host `a`, port 53. -/
def shortRequest : List UInt8 := [0, 0, 0, 3, 1, 97, 0, 53, 120]

theorem shortRequest_dropped : ¬RelaysWell id shortRequest := by
  intro h
  have hf := h.1 0 0 (.domain [97] (by decide)) 53 [120] rfl
  exact absurd hf (by decide)

end Ghajar.Socks
