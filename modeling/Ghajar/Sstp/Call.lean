import Mathlib
import Ghajar.Ppp.Acked
import Ghajar.Ssh.Handshake
import Ghajar.Sstp.Framing

/-!
# The SSTP call

What `dialSSTP` and `sstpCall` (`native/ghajar-helper/sstp.go`) make of everything the server sends:
the answer to the HTTP request, the packets up to the acknowledgement of the call, and behind it the
reader that passes on the frames and answers what is asked of it. `pppPump` (`ppp.go`) takes the
frames to the device and the packets of the device to `sendPPP`. `call_taken` is the exact account
of the call, `link_carries` that of both directions of the link. A stream that ends stands for one
on which the deadline passes as well.
-/

namespace Ghajar.Sstp

open Bytes ByteReader

def sstpMsgConnectRequest : UInt16 := 1
def sstpMsgConnectAck : UInt16 := 2
def sstpMsgConnectNak : UInt16 := 3
def sstpMsgAbort : UInt16 := 5
def sstpMsgDisconnect : UInt16 := 6
def sstpMsgDisconnectAck : UInt16 := 7
def sstpMsgEchoRequest : UInt16 := 8
def sstpMsgEchoResponse : UInt16 := 9
def sstpAttrEncapsulatedProtocol : UInt8 := 1
def sstpAttrCryptoBindingReq : UInt8 := 4

inductive CallErr
  | http
  /-- `server answered … (not an SSTP endpoint?)` -/
  | notEndpoint
  | write
  | packet (e : ReadError)
  /-- `ack without crypto binding request` -/
  | noBinding
  /-- `unsupported hash bitmask` -/
  | hash (mask : UInt8)
  | refused
  | aborted
  deriving DecidableEq, Repr

/-! ## The HTTP answer -/

/-- `200`. -/
def ok200 : List UInt8 := [50, 48, 48]

/-- `strings.TrimSpace(line) == ""` -/
def isBlankLine (line : List UInt8) : Bool := Ssh.fields line = []

/-- The headers, with as many rounds as there are bytes. -/
def skipHeaders : Nat → List UInt8 → Option (List UInt8)
  | 0, _ => none
  | n + 1, s =>
    match Ssh.cutLine s with
    | none => none
    | some (line, s) => if isBlankLine line then some s else skipHeaders n s

/-- What is left of the stream behind the answer. -/
def readAnswer (s : List UInt8) : Except CallErr (List UInt8) :=
  match Ssh.cutLine s with
  | none => .error .http
  | some (status, s) =>
    if (Ssh.fields status)[1]? = some ok200 then
      match skipHeaders (s.length + 1) s with
      | none => .error .http
      | some s => .ok s
    else .error .notEndpoint

/-! ## The call -/

def sendControl (msgType : UInt16) (attrs : List (List UInt8)) : List UInt8 :=
  packet true (sstpControl msgType attrs)

def connectRequest : List UInt8 :=
  sendControl sstpMsgConnectRequest [sstpAttr sstpAttrEncapsulatedProtocol [0, 1]]

def echoResponse : List UInt8 := sendControl sstpMsgEchoResponse []

/-- The type of a control message with at least two bytes. -/
def msgType (body : List UInt8) : UInt16 := rd16 (body.take 2)

/-- The hash protocol and the nonce of an acknowledgement. -/
def readAck (body : List UInt8) : Except CallErr (UInt8 × List UInt8) :=
  let attrs := body.drop 4
  if attrs.length < 40 ∨ attrs.getD 1 0 ≠ sstpAttrCryptoBindingReq then .error .noBinding
  else
    let mask := attrs.getD 7 0
    let nonce := (attrs.drop 8).take 32
    if mask &&& 2 ≠ 0 then .ok (2, nonce)
    else if mask &&& 1 ≠ 0 then .ok (1, nonce)
    else .error (.hash mask)

structure Call where
  hashProto : UInt8
  nonce : List UInt8
  /-- What the reader begins with. -/
  rest : List UInt8
  deriving DecidableEq, Repr

/-- The loop up to the acknowledgement, with what it gives to the connection to write. -/
def awaitAck : Nat → List UInt8 → Except CallErr Call × List (List UInt8)
  | 0, _ => (.error (.packet .eof), [])
  | n + 1, s =>
    let failed (e : CallErr) : Except CallErr Call × List (List UInt8) :=
      (.error e, [sendControl sstpMsgAbort []])
    match readPacket s with
    | .error e => failed (.packet e)
    | .ok ((control, body), s) =>
      if control = false ∨ body.length < 4 then awaitAck n s
      else if msgType body = sstpMsgConnectAck then
        match readAck body with
        | .error e => failed e
        | .ok (hashProto, nonce) => (.ok ⟨hashProto, nonce, s⟩, [])
      else if msgType body = sstpMsgConnectNak then failed .refused
      else if msgType body = sstpMsgAbort ∨ msgType body = sstpMsgDisconnect then failed .aborted
      else if msgType body = sstpMsgEchoRequest then
        ((awaitAck n s).1, echoResponse :: (awaitAck n s).2)
      else awaitAck n s

/-- `sstpCall`; `sent` is whether the request can be written. -/
def sstpCall (sent : Bool) (s : List UInt8) : Except CallErr Call × List (List UInt8) :=
  match readAnswer s with
  | .error e => (.error e, [])
  | .ok s =>
    if sent then ((awaitAck (s.length + 1) s).1, connectRequest :: (awaitAck (s.length + 1) s).2)
    else (.error .write, [connectRequest, sendControl sstpMsgAbort []])

/-! ## The reader -/

/-- What the reader passes on, and what it writes. -/
structure Received where
  frames : List (List UInt8)
  written : List (List UInt8)
  deriving DecidableEq, Repr

namespace Received

def none : Received := ⟨[], []⟩

def frame (f : List UInt8) (r : Received) : Received := { r with frames := f :: r.frames }

/-- A write, which a closed connection does not take. -/
def write (opened : Bool) (w : List UInt8) (r : Received) : Received :=
  { r with written := (if opened then [w] else []) ++ r.written }

end Received

section Reader

/- How much of the stream `bufio` already holds when the connection is closed. -/
variable (held : List UInt8 → Nat)

/-- What is left to read when the connection is closed. -/
def left (opened : Bool) (s : List UInt8) : List UInt8 := if opened then s.take (held s) else s

def receiveN : Nat → Bool → List UInt8 → Received
  | 0, _, _ => .none
  | n + 1, opened, s =>
    match readPacket s with
    | .error _ => .none
    | .ok ((false, body), s) => .frame body (receiveN n opened s)
    | .ok ((true, body), s) =>
      if body.length < 2 then receiveN n opened s
      else if msgType body = sstpMsgEchoRequest then
        .write opened echoResponse (receiveN n opened s)
      else if msgType body = sstpMsgDisconnect then
        .write opened (sendControl sstpMsgDisconnectAck [])
          (receiveN n false (left held opened s))
      else if msgType body = sstpMsgAbort then receiveN n false (left held opened s)
      else receiveN n opened s

def receive (s : List UInt8) : Received := receiveN held (s.length + 1) true s

end Reader

/-- `sendPPP` -/
def sendPPP (proto : Nat) (payload : List UInt8) : Except String (List UInt8) :=
  writePacket false ([0xff, 0x03] ++ Ppp.be16 proto ++ payload)

/-! ## The answer -/

def IsHeader (h : List UInt8) : Prop := Ssh.Line h ∧ isBlankLine (h ++ [10]) = false

/-- The answer of a server that takes the call. -/
def Answer (w : List UInt8) : Prop :=
  ∃ (status : List UInt8) (headers : List (List UInt8)) (last : List UInt8),
    Ssh.Line status ∧ (Ssh.fields (status ++ [10]))[1]? = some ok200 ∧
    (∀ h ∈ headers, IsHeader h) ∧ Ssh.Line last ∧ isBlankLine (last ++ [10]) = true ∧
    w = (status ++ [10]) ++ ((headers.flatMap fun h => h ++ [10]) ++ (last ++ [10]))

section Reading

variable {n m : Nat} {s rest w : List UInt8} {c : Call} {opened : Bool}

theorem cutLine_line (hw : Ssh.Line w) :
    Ssh.cutLine (w ++ [10] ++ rest) = some (w ++ [10], rest) :=
  Ssh.cutLine_some.2 ⟨w, hw, rfl, rfl⟩

theorem skipHeaders_some (hn : s.length < n) : skipHeaders n s = some rest ↔
    ∃ (headers : List (List UInt8)) (last : List UInt8), (∀ h ∈ headers, IsHeader h) ∧
      Ssh.Line last ∧ isBlankLine (last ++ [10]) = true ∧
      s = (headers.flatMap fun h => h ++ [10]) ++ (last ++ [10]) ++ rest := by
  induction n generalizing s with
  | zero => omega
  | succ n ih =>
    rw [skipHeaders]
    constructor
    · intro h
      cases hc : Ssh.cutLine s with
      | none =>
        rw [hc] at h
        cases h
      | some p =>
        obtain ⟨line, mid⟩ := p
        rw [hc] at h
        dsimp only at h
        obtain ⟨w, hw, rfl, rfl⟩ := Ssh.cutLine_some.1 hc
        split at h
        · next hb =>
          cases h
          exact ⟨[], w, by simp, hw, hb, rfl⟩
        · next hb =>
          simp only [List.length_append, List.length_singleton] at hn
          obtain ⟨headers, last, hh, hl, hlast, rfl⟩ := (ih (by omega)).1 h
          refine ⟨w :: headers, last, List.forall_mem_cons.2 ⟨⟨hw, ?_⟩, hh⟩, hl, hlast, ?_⟩
          · exact Bool.eq_false_iff.2 hb
          · simp only [List.flatMap_cons, List.append_assoc]
    · rintro ⟨headers, last, hh, hl, hlast, rfl⟩
      cases headers with
      | nil => simp only [List.flatMap_nil, List.nil_append, cutLine_line hl, hlast, if_true]
      | cons w headers =>
        obtain ⟨⟨hw, hb⟩, hh⟩ := List.forall_mem_cons.1 hh
        have he : ((w :: headers).flatMap fun h => h ++ [10]) ++ (last ++ [10]) ++ rest =
            w ++ [10] ++ ((headers.flatMap fun h => h ++ [10]) ++ (last ++ [10]) ++ rest) := by
          simp only [List.flatMap_cons, List.append_assoc]
        rw [he] at hn ⊢
        simp only [List.length_append, List.length_singleton] at hn
        rw [cutLine_line hw]
        dsimp only
        rw [hb, if_neg (by simp)]
        refine (ih ?_).2 ⟨headers, last, hh, hl, hlast, rfl⟩
        simp only [List.length_append, List.length_singleton]
        omega

theorem readAnswer_ok : readAnswer s = .ok rest ↔ ∃ w, Answer w ∧ s = w ++ rest := by
  rw [readAnswer]
  constructor
  · intro h
    cases hc : Ssh.cutLine s with
    | none =>
      rw [hc] at h
      cases h
    | some p =>
      obtain ⟨line, mid⟩ := p
      rw [hc] at h
      dsimp only at h
      obtain ⟨status, hw, rfl, rfl⟩ := Ssh.cutLine_some.1 hc
      split at h
      · next hs =>
        cases hh : skipHeaders (mid.length + 1) mid with
        | none =>
          rw [hh] at h
          cases h
        | some r =>
          rw [hh] at h
          cases h
          obtain ⟨headers, last, hall, hl, hb, rfl⟩ := (skipHeaders_some (Nat.lt_succ_self _)).1 hh
          exact ⟨_, ⟨status, headers, last, hw, hs, hall, hl, hb, rfl⟩,
            by simp only [List.append_assoc]⟩
      · cases h
  · rintro ⟨w, ⟨status, headers, last, hw, hs, hall, hl, hb, rfl⟩, rfl⟩
    rw [List.append_assoc (status ++ [10]), cutLine_line hw]
    dsimp only
    rw [if_pos hs, (skipHeaders_some (Nat.lt_succ_self _)).2 ⟨headers, last, hall, hl, hb, rfl⟩]

/-! ## Up to the acknowledgement -/

/-- A packet that asks for an echo; `k` bytes are asked of it. -/
def asksEcho (k : Nat) (p : Bool × List UInt8) : Bool :=
  p.1 && decide (k ≤ p.2.length) && decide (msgType p.2 = sstpMsgEchoRequest)

/-- One answer for each. -/
def echoes (k : Nat) (ps : List (Bool × List UInt8)) : List (List UInt8) :=
  List.replicate (ps.countP (asksEcho k)) echoResponse

theorem echoes_cons (k : Nat) (p : Bool × List UInt8) (ps : List (Bool × List UInt8)) :
    echoes k (p :: ps) = (if asksEcho k p then [echoResponse] else []) ++ echoes k ps := by
  rw [echoes, List.countP_cons]
  split
  · rw [List.replicate_succ]
    rfl
  · rfl

/-- A packet that leaves the call where it is. -/
def Waits (p : Bool × List UInt8) : Prop :=
  p.1 = true → 4 ≤ p.2.length → msgType p.2 ≠ sstpMsgConnectAck ∧ msgType p.2 ≠ sstpMsgConnectNak ∧
    msgType p.2 ≠ sstpMsgAbort ∧ msgType p.2 ≠ sstpMsgDisconnect

/-- An acknowledgement with a crypto binding request: the stronger hash of the mask, the nonce. -/
def Acks (body : List UInt8) (hashProto : UInt8) (nonce : List UInt8) : Prop :=
  msgType body = sstpMsgConnectAck ∧ 44 ≤ body.length ∧
    body.getD 5 0 = sstpAttrCryptoBindingReq ∧ nonce = (body.drop 12).take 32 ∧
    (hashProto = 2 ∧ body.getD 11 0 &&& 2 ≠ 0 ∨
      hashProto = 1 ∧ body.getD 11 0 &&& 2 = 0 ∧ body.getD 11 0 &&& 1 ≠ 0)

theorem readAck_ok {body nonce : List UInt8} {hashProto : UInt8}
    (ht : msgType body = sstpMsgConnectAck) (hl : 4 ≤ body.length) :
    readAck body = .ok (hashProto, nonce) ↔ Acks body hashProto nonce := by
  have h1 : (body.drop 4).getD 1 0 = body.getD 5 0 := by simp [List.getD_eq_getElem?_getD]
  have h7 : (body.drop 4).getD 7 0 = body.getD 11 0 := by simp [List.getD_eq_getElem?_getD]
  have h8 : (body.drop 4).drop 8 = body.drop 12 := by rw [List.drop_drop]
  rw [readAck]
  simp only [h1, h7, h8, List.length_drop]
  constructor
  · intro h
    split at h
    · cases h
    · next hb =>
      rw [not_or, not_lt, not_not] at hb
      split at h
      · next hm =>
        cases h
        exact ⟨ht, by omega, hb.2, rfl, .inl ⟨rfl, hm⟩⟩
      · next hm =>
        split at h
        · next hm' =>
          cases h
          exact ⟨ht, by omega, hb.2, rfl, .inr ⟨rfl, not_not.1 hm, hm'⟩⟩
        · cases h
  · rintro ⟨-, hlen, hreq, rfl, ⟨rfl, hm⟩ | ⟨rfl, hm, hm'⟩⟩
    · rw [if_neg (by rw [not_or, not_lt, not_not]; exact ⟨by omega, hreq⟩), if_pos hm]
    · rw [if_neg (by rw [not_or, not_lt, not_not]; exact ⟨by omega, hreq⟩),
        if_neg (not_not.2 hm), if_pos hm']

theorem packet_length {p : Bool × List UInt8} (h : Packet p w) : 4 ≤ w.length := by
  obtain ⟨flags, field, -, -, rfl⟩ := h
  simp only [List.length_append, List.length_cons, List.length_nil, be16_length]
  omega

theorem awaitAck_waits {p : Bool × List UInt8} (hr : readPacket s = .ok (p, rest))
    (hp : Waits p) : awaitAck (n + 1) s = ((awaitAck n rest).1,
      (if asksEcho 4 p then [echoResponse] else []) ++ (awaitAck n rest).2) := by
  obtain ⟨control, body⟩ := p
  rw [awaitAck, hr]
  dsimp only
  by_cases hd : control = false ∨ body.length < 4
  · rw [if_pos hd, if_neg]
    · rfl
    · rw [asksEcho, Bool.and_eq_true, Bool.and_eq_true, decide_eq_true_eq]
      rcases hd with h | h
      · rintro ⟨⟨hc, -⟩, -⟩
        rw [h] at hc
        cases hc
      · exact fun hc => absurd hc.1.2 (Nat.not_le.2 h)
  · rw [if_neg hd]
    rw [not_or, Bool.not_eq_false, not_lt] at hd
    obtain ⟨hack, hnak, habort, hdis⟩ := hp hd.1 hd.2
    rw [if_neg hack, if_neg hnak, if_neg (not_or.2 ⟨habort, hdis⟩)]
    by_cases he : msgType body = sstpMsgEchoRequest
    · rw [if_pos he, if_pos]
      · rfl
      · simp [asksEcho, hd, he]
    · rw [if_neg he, if_neg]
      · rfl
      · simp [asksEcho, he]

/-- What ends the waiting is an acknowledgement, or fails. -/
theorem awaitAck_ends {p : Bool × List UInt8} {ws : List (List UInt8)}
    (hr : readPacket s = .ok (p, rest)) (hp : ¬Waits p) : awaitAck (n + 1) s = (.ok c, ws) ↔
      p.1 = true ∧ Acks p.2 c.hashProto c.nonce ∧ c.rest = rest ∧ ws = [] := by
  obtain ⟨control, body⟩ := p
  rw [Waits, Classical.not_imp, Classical.not_imp] at hp
  obtain ⟨hc, hl, hend⟩ := hp
  dsimp only at hc hl hend
  rw [awaitAck, hr]
  dsimp only
  rw [if_neg (by rw [not_or, Bool.not_eq_false, not_lt]; exact ⟨hc, hl⟩)]
  by_cases hack : msgType body = sstpMsgConnectAck
  · rw [if_pos hack]
    cases ha : readAck body with
    | error e =>
      refine iff_of_false (fun h => by cases h) ?_
      rintro ⟨-, h, -⟩
      rw [(readAck_ok hack hl).2 h] at ha
      cases ha
    | ok q =>
      obtain ⟨hashProto, nonce⟩ := q
      constructor
      · intro h
        cases h
        exact ⟨hc, (readAck_ok hack hl).1 ha, rfl, rfl⟩
      · rintro ⟨-, h, rfl, rfl⟩
        rw [(readAck_ok hack hl).2 h] at ha
        cases ha
        rfl
  · rw [if_neg hack]
    refine iff_of_false ?_ fun h => hack h.2.1.1
    split
    · exact fun h => by cases h
    · next hnak =>
      rw [if_pos]
      · exact fun h => by cases h
      · by_contra hno
        rw [not_or] at hno
        exact hend ⟨hack, hnak, hno⟩

/-- What stands in front of the stream of the reader. -/
def Awaited (s : List UInt8) (c : Call) (ws : List (List UInt8)) : Prop :=
  ∃ (ps : List (Bool × List UInt8)) (w ack a : List UInt8), Words Packet ps w ∧
    (∀ p ∈ ps, Waits p) ∧ Packet (true, ack) a ∧ Acks ack c.hashProto c.nonce ∧
    s = w ++ a ++ c.rest ∧ ws = echoes 4 ps

theorem acks_not_waits {ack nonce : List UInt8} {hashProto : UInt8}
    (h : Acks ack hashProto nonce) : ¬Waits (true, ack) :=
  fun hw => (hw rfl (Nat.le_trans (by omega) h.2.1)).1 h.1

theorem awaitAck_ok {ws : List (List UInt8)} (hn : s.length < n) :
    awaitAck n s = (.ok c, ws) ↔ Awaited s c ws := by
  induction n generalizing s ws with
  | zero => omega
  | succ n ih =>
    cases hr : readPacket s with
    | error e =>
      rw [awaitAck, hr]
      refine iff_of_false (fun h => by cases h) ?_
      rintro ⟨ps, w, ack, a, hw, -, ha, -, rfl, -⟩
      have hread : ∃ q, readPacket (w ++ a ++ c.rest) = .ok q := by
        cases ps with
        | nil =>
          obtain rfl : w = [] := hw
          exact ⟨_, packet_reads.ok ha⟩
        | cons p ps =>
          obtain ⟨v, u, hv, -, rfl⟩ := hw
          rw [List.append_assoc, List.append_assoc]
          exact ⟨_, packet_reads.ok hv⟩
      obtain ⟨q, hq⟩ := hread
      rw [hq] at hr
      cases hr
    | ok q =>
      obtain ⟨p, mid⟩ := q
      obtain ⟨v, hv, rfl⟩ := (packet_reads _ _ _).1 hr
      have hlen := packet_length hv
      rw [List.length_append] at hn
      by_cases hp : Waits p
      · rw [awaitAck_waits hr hp]
        constructor
        · intro h
          obtain ⟨hc, hws⟩ := Prod.mk.inj h
          have hmid : awaitAck n mid = (.ok c, (awaitAck n mid).2) := Prod.ext hc rfl
          obtain ⟨ps, w, ack, a, hw, hps, ha, hacks, rfl, hecho⟩ := (ih (by omega)).1 hmid
          refine ⟨p :: ps, v ++ w, ack, a, ⟨v, w, hv, hw, rfl⟩,
            List.forall_mem_cons.2 ⟨hp, hps⟩, ha, hacks, by simp only [List.append_assoc], ?_⟩
          rw [← hws, hecho, echoes_cons]
        · rintro ⟨ps, w, ack, a, hw, hps, ha, hacks, hs, rfl⟩
          cases ps with
          | nil =>
            obtain rfl : w = [] := hw
            rw [List.nil_append] at hs
            rw [hs, packet_reads.ok ha] at hr
            cases hr
            exact absurd hp (acks_not_waits hacks)
          | cons q ps =>
            obtain ⟨v', u, hv', hu, rfl⟩ := hw
            rw [List.append_assoc, List.append_assoc] at hs
            rw [hs, packet_reads.ok hv'] at hr
            cases hr
            have hrest : awaitAck n (u ++ (a ++ c.rest)) = (.ok c, echoes 4 ps) :=
              (ih (by omega)).2 ⟨ps, u, ack, a, hu, (List.forall_mem_cons.1 hps).2, ha, hacks,
                by rw [List.append_assoc], rfl⟩
            rw [hrest, echoes_cons]
      · rw [awaitAck_ends hr hp]
        constructor
        · rintro ⟨hc, hacks, rfl, rfl⟩
          refine ⟨[], [], p.2, v, rfl, by simp, ?_, hacks, rfl, rfl⟩
          rw [← hc]
          exact hv
        · rintro ⟨ps, w, ack, a, hw, hps, ha, hacks, hs, rfl⟩
          cases ps with
          | nil =>
            obtain rfl : w = [] := hw
            rw [List.nil_append] at hs
            rw [hs, packet_reads.ok ha] at hr
            cases hr
            exact ⟨rfl, hacks, rfl, rfl⟩
          | cons q ps =>
            obtain ⟨v', u, hv', hu, rfl⟩ := hw
            rw [List.append_assoc, List.append_assoc] at hs
            rw [hs, packet_reads.ok hv'] at hr
            cases hr
            exact absurd (hps _ List.mem_cons_self) hp

end Reading

/-- **The call.** It is taken if and only if the server answered 200 and sent an acknowledgement
with a binding request, whatever stood in between that did not end the call; each echo asked for by
then has been answered, the reader begins behind the acknowledgement, and the nonce is one a Call
Connected message can be sent with. -/
theorem call_taken (s : List UInt8) (c : Call) (ws : List (List UInt8)) :
    (sstpCall true s = (.ok c, ws) ↔ ∃ answer mid echoed, Answer answer ∧ Awaited mid c echoed ∧
      s = answer ++ mid ∧ ws = connectRequest :: echoed) ∧
    (sstpCall true s = (.ok c, ws) → ∀ D certDER hlak, ∃ sent,
      writePacket true (callConnected D c.hashProto c.nonce certDER hlak) = .ok sent) := by
  have hiff : sstpCall true s = (.ok c, ws) ↔ ∃ answer mid echoed, Answer answer ∧
      Awaited mid c echoed ∧ s = answer ++ mid ∧ ws = connectRequest :: echoed := by
    rw [sstpCall]
    constructor
    · intro h
      cases hr : readAnswer s with
      | error e =>
        rw [hr] at h
        cases h
      | ok mid =>
        rw [hr] at h
        dsimp only at h
        rw [if_pos rfl] at h
        obtain ⟨hc, rfl⟩ := Prod.mk.inj h
        obtain ⟨w, hw, rfl⟩ := readAnswer_ok.1 hr
        exact ⟨w, mid, _, hw, (awaitAck_ok (Nat.lt_succ_self _)).1 (Prod.ext hc rfl), rfl, rfl⟩
    · rintro ⟨answer, mid, echoed, hw, ha, rfl, rfl⟩
      rw [readAnswer_ok.2 ⟨answer, hw, rfl⟩]
      dsimp only
      rw [if_pos rfl, (awaitAck_ok (Nat.lt_succ_self _)).2 ha]
  refine ⟨hiff, fun h D certDER hlak => ?_⟩
  obtain ⟨-, -, -, -, ⟨-, -, ack, -, -, -, -, ⟨-, hlen, -, hn, -⟩, -, -⟩, -, -⟩ := hiff.1 h
  refine ⟨_, callConnected_sent ?_⟩
  rw [hn, List.length_take, List.length_drop]
  omega

/-! ## The reader -/

/-- The connection is closed after it. -/
def closes (p : Bool × List UInt8) : Bool :=
  p.1 && decide (2 ≤ p.2.length) &&
    (decide (msgType p.2 = sstpMsgDisconnect) || decide (msgType p.2 = sstpMsgAbort))

def framesOf (ps : List (Bool × List UInt8)) : List (List UInt8) :=
  ps.filterMap fun p => if p.1 then none else some p.2

/-- The answer to the packet that closes the connection. -/
def farewell : List (Bool × List UInt8) → List (List UInt8)
  | [] => []
  | p :: _ => if msgType p.2 = sstpMsgDisconnect then [sendControl sstpMsgDisconnectAck []] else []

/-- The packets of a stream, up to where no packet can be read. -/
def Parsed (s : List UInt8) (ps : List (Bool × List UInt8)) : Prop :=
  ∃ w rest e, Words Packet ps w ∧ s = w ++ rest ∧ readPacket rest = .error e

section Receive

variable {held : List UInt8 → Nat} {n : Nat} {s rest : List UInt8} {opened : Bool}
  {p : Bool × List UInt8} {ps qs : List (Bool × List UInt8)}

theorem parsed_cons : Parsed s (p :: ps) ↔
    ∃ rest, readPacket s = .ok (p, rest) ∧ Parsed rest ps := by
  constructor
  · rintro ⟨w, rest, e, ⟨v, u, hv, hu, rfl⟩, rfl, he⟩
    rw [List.append_assoc]
    exact ⟨u ++ rest, packet_reads.ok hv, u, rest, e, hu, rfl, he⟩
  · rintro ⟨rest, hr, u, rest', e, hu, rfl, he⟩
    obtain ⟨v, hv, rfl⟩ := (packet_reads _ _ _).1 hr
    exact ⟨v ++ u, rest', e, ⟨v, u, hv, hu, rfl⟩, by rw [List.append_assoc], he⟩

theorem parsed_nil : Parsed s [] ↔ ∃ e, readPacket s = .error e := by
  constructor
  · rintro ⟨w, rest, e, rfl, rfl, he⟩
    exact ⟨e, he⟩
  · rintro ⟨e, he⟩
    exact ⟨[], s, e, rfl, rfl, he⟩

/-- A stream cut off has the first packets of the stream. -/
theorem parsed_take {k : Nat} (hs : Parsed s ps) (hq : Parsed (s.take k) qs) : qs <+: ps := by
  induction qs generalizing s ps k with
  | nil => exact List.nil_prefix
  | cons q qs ih =>
    obtain ⟨mid, hr, hmid⟩ := parsed_cons.1 hq
    obtain ⟨v, hv, he⟩ := (packet_reads _ _ _).1 hr
    have hread : readPacket s = .ok (q, mid ++ s.drop k) := by
      conv_lhs => rw [← List.take_append_drop k s, he, List.append_assoc]
      exact packet_reads.ok hv
    cases ps with
    | nil =>
      obtain ⟨e, herr⟩ := parsed_nil.1 hs
      rw [hread] at herr
      cases herr
    | cons p ps =>
      obtain ⟨rest, hr', hrest⟩ := parsed_cons.1 hs
      rw [hread] at hr'
      cases hr'
      refine List.cons_prefix_cons.2 ⟨rfl, ih (k := mid.length) hrest ?_⟩
      rwa [List.take_left]

theorem exists_parsed (s : List UInt8) : ∃ ps, Parsed s ps := by
  induction hn : s.length using Nat.strong_induction_on generalizing s with
  | _ n ih =>
    cases hr : readPacket s with
    | error e => exact ⟨[], parsed_nil.2 ⟨e, hr⟩⟩
    | ok q =>
      obtain ⟨p, rest⟩ := q
      obtain ⟨v, hv, rfl⟩ := (packet_reads _ _ _).1 hr
      have hlen := packet_length hv
      rw [List.length_append] at hn
      obtain ⟨ps, hps⟩ := ih rest.length (by omega) rest rfl
      exact ⟨p :: ps, parsed_cons.2 ⟨rest, hr, hps⟩⟩

/-- What a packet that leaves the connection open makes of what comes after it. -/
def step (opened : Bool) (p : Bool × List UInt8) (r : Received) : Received :=
  ⟨framesOf [p] ++ r.frames, (if opened then echoes 2 [p] else []) ++ r.written⟩

theorem receiveN_step (hr : readPacket s = .ok (p, rest)) (hc : closes p = false) :
    receiveN held (n + 1) opened s = step opened p (receiveN held n opened rest) := by
  obtain ⟨control, body⟩ := p
  rw [receiveN, hr]
  cases control with
  | false =>
    dsimp only
    cases opened <;> rfl
  | true =>
    dsimp only
    by_cases hl : body.length < 2
    · have he : echoes 2 [(true, body)] = [] := by
        simp [echoes, asksEcho, Nat.not_le.2 hl]
      rw [if_pos hl, step, he, ite_self]
      rfl
    · rw [if_neg hl]
      by_cases hecho : msgType body = sstpMsgEchoRequest
      · have he : echoes 2 [(true, body)] = [echoResponse] := by
          simp [echoes, asksEcho, Nat.not_lt.1 hl, hecho]
        rw [if_pos hecho, step, he]
        rfl
      · have he : echoes 2 [(true, body)] = [] := by simp [echoes, asksEcho, hecho]
        have hno : ¬msgType body = sstpMsgDisconnect ∧ ¬msgType body = sstpMsgAbort := by
          simpa [closes, Nat.not_lt.1 hl] using hc
        rw [if_neg hecho, if_neg hno.1, if_neg hno.2, step, he, ite_self]
        rfl

theorem receiveN_closes (hr : readPacket s = .ok (p, rest)) (hc : closes p = true) :
    receiveN held (n + 1) opened s =
      ⟨(receiveN held n false (left held opened rest)).frames,
        (if opened then farewell [p] else []) ++
          (receiveN held n false (left held opened rest)).written⟩ := by
  obtain ⟨control, body⟩ := p
  simp only [closes, Bool.and_eq_true, Bool.or_eq_true, decide_eq_true_eq] at hc
  obtain ⟨⟨rfl, hl⟩, ht⟩ := hc
  have hdis : sstpMsgDisconnect ≠ sstpMsgEchoRequest := by decide
  have habort : sstpMsgAbort ≠ sstpMsgEchoRequest := by decide
  have hne : sstpMsgAbort ≠ sstpMsgDisconnect := by decide
  rw [receiveN, hr]
  dsimp only
  rw [if_neg (Nat.not_lt.2 hl)]
  rcases ht with ht | ht
  · rw [if_neg (by rw [ht]; exact hdis), if_pos ht, farewell, if_pos ht]
    rfl
  · have hf : farewell [(true, body)] = [] := if_neg (by rw [ht]; exact hne)
    rw [if_neg (by rw [ht]; exact habort), if_neg (by rw [ht]; exact hne), if_pos ht, hf, ite_self]
    rfl

/-- On a closed connection all packets are still passed on, and nothing is written. -/
theorem receiveN_closed (hn : s.length < n) (hs : Parsed s ps) :
    receiveN held n false s = ⟨framesOf ps, []⟩ := by
  induction n generalizing s ps with
  | zero => omega
  | succ n ih =>
    cases ps with
    | nil =>
      obtain ⟨e, he⟩ := parsed_nil.1 hs
      rw [receiveN, he]
      rfl
    | cons p ps =>
      obtain ⟨rest, hr, hrest⟩ := parsed_cons.1 hs
      obtain ⟨v, hv, rfl⟩ := (packet_reads _ _ _).1 hr
      have hlen := packet_length hv
      rw [List.length_append] at hn
      have htail := ih (by omega) hrest
      cases hc : closes p with
      | false =>
        rw [receiveN_step hr hc, htail, step, framesOf, framesOf, framesOf, ← List.filterMap_append]
        rfl
      | true =>
        have hp : p.1 = true := by
          rw [closes, Bool.and_eq_true, Bool.and_eq_true] at hc
          exact hc.1.1
        rw [receiveN_closes hr hc, left, if_neg (by simp), htail, framesOf, framesOf,
          List.filterMap_cons, if_pos hp]
        rfl

/-- The reader passes on the frames up to the packet that closes the connection, and behind it no
more than there are; it answers each echo, and that packet, and writes no more. -/
structure Receives (r : Received) (ps : List (Bool × List UInt8)) : Prop where
  written : r.written = echoes 2 (ps.takeWhile fun p => !closes p) ++
    farewell (ps.dropWhile fun p => !closes p)
  first : framesOf (ps.takeWhile fun p => !closes p) <+: r.frames
  all : r.frames <+: framesOf ps

theorem receiveN_receives (hn : s.length < n) (hs : Parsed s ps) :
    Receives (receiveN held n true s) ps := by
  induction n generalizing s ps with
  | zero => omega
  | succ n ih =>
    cases ps with
    | nil =>
      obtain ⟨e, he⟩ := parsed_nil.1 hs
      rw [receiveN, he]
      exact ⟨rfl, List.prefix_refl _, List.prefix_refl _⟩
    | cons p ps =>
      obtain ⟨rest, hr, hrest⟩ := parsed_cons.1 hs
      obtain ⟨v, hv, rfl⟩ := (packet_reads _ _ _).1 hr
      have hlen := packet_length hv
      rw [List.length_append] at hn
      cases hc : closes p with
      | false =>
        have h := ih (by omega) hrest
        have hcons (l : List (Bool × List UInt8)) :
            framesOf (p :: l) = framesOf [p] ++ framesOf l := List.filterMap_append (l := [p])
        rw [receiveN_step hr hc]
        constructor
        · rw [List.takeWhile_cons_of_pos (by rw [hc]; rfl),
            List.dropWhile_cons_of_pos (by rw [hc]; rfl), echoes_cons, List.append_assoc,
            ← h.written, step, echoes_cons]
          simp [echoes]
        · rw [List.takeWhile_cons_of_pos (by rw [hc]; rfl), hcons]
          exact (List.prefix_append_right_inj _).2 h.first
        · rw [hcons]
          exact (List.prefix_append_right_inj _).2 h.all
      | true =>
        obtain ⟨qs, hqs⟩ := exists_parsed (rest.take (held rest))
        have hlt : (rest.take (held rest)).length < n := by
          rw [List.length_take]
          omega
        have hp : framesOf (p :: ps) = framesOf ps := by
          rw [closes, Bool.and_eq_true, Bool.and_eq_true] at hc
          rw [framesOf, List.filterMap_cons, if_pos hc.1.1]
          rfl
        rw [receiveN_closes hr hc, left, if_pos rfl, receiveN_closed hlt hqs]
        constructor
        · rw [List.takeWhile_cons_of_neg (by rw [hc]; simp),
            List.dropWhile_cons_of_neg (by rw [hc]; simp)]
          simp [echoes, farewell]
        · rw [List.takeWhile_cons_of_neg (by rw [hc]; simp)]
          exact List.nil_prefix
        · rw [hp]
          exact (parsed_take hrest hqs).filterMap _

theorem receive_receives (hs : Parsed s ps) : Receives (receive held s) ps :=
  receiveN_receives (Nat.lt_succ_self _) hs

end Receive

/-! ## The pump -/

section Link

open Ppp (Ev Pump PumpEvent splitPPP)

/-- A request of the peer that ends the link. -/
def terminates (pr : Nat) (pl : List UInt8) : Bool :=
  decide (pr = Ppp.pppLCP) && decide (4 ≤ pl.length) && decide (pl.getD 0 0 = Ppp.termReq)

/-- What of the frames is for the device. -/
def delivered : List (List UInt8) → List (List UInt8)
  | [] => []
  | f :: fs =>
    match splitPPP f with
    | none => delivered fs
    | some (pr, pl) =>
      if pr = Ppp.pppIPv4 then pl :: delivered fs
      else if terminates pr pl then [] else delivered fs

/-- What LCP answers to the frames. -/
def answers (magic : List UInt8) : List (List UInt8) → List (List UInt8)
  | [] => []
  | f :: fs =>
    match splitPPP f with
    | none => answers magic fs
    | some (pr, pl) =>
      if terminates pr pl then [Ppp.cp Ppp.termAck (pl.getD 1 0) []]
      else if pr = Ppp.pppLCP ∧ 4 ≤ pl.length ∧ pl.getD 0 0 = Ppp.echoReq then
        Ppp.cp Ppp.echoReply (pl.getD 1 0) magic :: answers magic fs
      else answers magic fs

/-- The frames that came before the channel was closed. -/
def heard : List PumpEvent → List (List UInt8)
  | [] => []
  | .frame f :: es => f :: heard es
  | .closed :: _ => []
  | _ :: es => heard es

/-- The packets of the device, up to the first that could not be sent. -/
def offered : List PumpEvent → List (List UInt8)
  | [] => []
  | .outgoing b ok :: es => b :: if ok then offered es else []
  | .deviceFailed :: _ => []
  | _ :: es => offered es

/-- What was sent, the oldest first. -/
def sends (out : List Ev) : List (Nat × List UInt8) :=
  out.reverse.filterMap fun
    | .sent pr pl => some (pr, pl)
    | _ => none

def sentOn (pr : Nat) (out : List Ev) : List (List UInt8) :=
  (sends out).filterMap fun q => if q.1 = pr then some q.2 else none

section Lemmas

variable {magic : List UInt8} {s : Pump} {es : List PumpEvent} {out : List Ev} {pr : Nat}
  {pl f : List UInt8} {fs gs : List (List UInt8)}

theorem delivered_mono (h : fs <+: gs) : delivered fs <+: delivered gs := by
  induction fs generalizing gs with
  | nil => exact List.nil_prefix
  | cons f fs ih =>
    cases gs with
    | nil => exact absurd (List.prefix_nil.1 h) (by simp)
    | cons g gs =>
      obtain ⟨rfl, htail⟩ := List.cons_prefix_cons.1 h
      have hrest := ih htail
      rw [delivered, delivered]
      cases splitPPP f with
      | none => exact hrest
      | some q =>
        dsimp only
        split
        · exact List.cons_prefix_cons.2 ⟨rfl, hrest⟩
        split
        · exact List.prefix_refl _
        · exact hrest

@[simp] theorem sends_recv : sends (.recv f :: out) = sends out := by simp [sends]

@[simp] theorem sends_sent : sends (.sent pr pl :: out) = sends out ++ [(pr, pl)] := by
  simp [sends]

@[simp] theorem sentOn_recv : sentOn pr (.recv f :: out) = sentOn pr out := by simp [sentOn]

@[simp] theorem sentOn_sent {q : Nat} : sentOn pr (.sent q pl :: out) =
    sentOn pr out ++ if q = pr then [pl] else [] := by
  rw [sentOn, sends_sent, List.filterMap_append, sentOn]
  split <;> simp [*]

/-- What a frame does. -/
inductive Handled (magic : List UInt8) (s : Pump) : Nat → List UInt8 → Pump → Prop
  | ipv4 {pl : List UInt8} : Handled magic s Ppp.pppIPv4 pl { s with wrote := pl :: s.wrote }
  | echo {pl : List UInt8} (hl : 4 ≤ pl.length) (hc : pl.getD 0 0 = Ppp.echoReq) :
      Handled magic s Ppp.pppLCP pl (s.send Ppp.pppLCP (Ppp.cp Ppp.echoReply (pl.getD 1 0) magic))
  | term {pl : List UInt8} (ht : terminates Ppp.pppLCP pl = true) :
      Handled magic s Ppp.pppLCP pl
        { (s.send Ppp.pppLCP (Ppp.cp Ppp.termAck (pl.getD 1 0) [])).fail
          "lcp: server terminated the link" with reading := false }
  | other {pr : Nat} {pl : List UInt8} (hi : pr ≠ Ppp.pppIPv4) (ht : terminates pr pl = false)
      (he : ¬(pr = Ppp.pppLCP ∧ 4 ≤ pl.length ∧ pl.getD 0 0 = Ppp.echoReq)) :
      Handled magic s pr pl s

theorem handle_handled (s : Pump) (pr : Nat) (pl : List UInt8) :
    Handled magic s pr pl (s.handle magic pr pl) := by
  unfold Pump.handle
  split
  · next h =>
    subst h
    exact .ipv4
  · next hi =>
    split
    · next h =>
      subst h
      split
      · next code pid a b rest =>
        have hl : 4 ≤ (code :: pid :: a :: b :: rest).length := by simp
        split
        · next hc => exact .echo hl hc
        · next hc =>
          split
          · next ht =>
            refine .term ?_
            simp [terminates, ht]
          · next ht =>
            refine .other hi ?_ fun h => hc h.2.2
            simp [terminates, ht]
      · next hno =>
        have hl : ¬4 ≤ pl.length := by
          intro h
          match pl, h with
          | a :: b :: c :: d :: r, _ => exact hno a b c d r rfl
        refine .other hi ?_ fun h => hl h.2.1
        simp [terminates, hl]
    · next hn =>
      refine .other hi ?_ fun h => hn h.1
      simp [terminates, hn]

/-- What a direction does after a step is what it does with the rest. -/
structure Moves (magic : List UInt8) (s t : Pump) (es : List PumpEvent) : Prop where
  wrote : t.wrote.reverse = s.wrote.reverse ++ bif s.reading then delivered (heard es) else []
  replies : sentOn Ppp.pppLCP t.out =
    sentOn Ppp.pppLCP s.out ++ bif s.reading then answers magic (heard es) else []
  packets : sentOn Ppp.pppIPv4 t.out =
    sentOn Ppp.pppIPv4 s.out ++ bif s.writing then offered es else []

theorem pppIPv4_ne : Ppp.pppIPv4 ≠ Ppp.pppLCP := by decide

theorem echo_not_terminates (hc : pl.getD 0 0 = Ppp.echoReq) : terminates pr pl = false := by
  have hne : Ppp.echoReq ≠ Ppp.termReq := by decide
  rw [terminates, hc, decide_eq_false hne, Bool.and_false]

theorem moves_handled {t u : Pump} (hs : s.reading = true) (hf : splitPPP f = some (pr, pl))
    (hd : Handled magic { s with out := .recv f :: s.out } pr pl u) (h : Moves magic u t es) :
    Moves magic s t (.frame f :: es) := by
  obtain ⟨hw, hr, hp⟩ := h
  have hdel : delivered (heard (.frame f :: es)) =
      if pr = Ppp.pppIPv4 then pl :: delivered (heard es)
      else if terminates pr pl then [] else delivered (heard es) := by
    rw [heard, delivered, hf]
  have hans : answers magic (heard (.frame f :: es)) =
      if terminates pr pl then [Ppp.cp Ppp.termAck (pl.getD 1 0) []]
      else if pr = Ppp.pppLCP ∧ 4 ≤ pl.length ∧ pl.getD 0 0 = Ppp.echoReq then
        Ppp.cp Ppp.echoReply (pl.getD 1 0) magic :: answers magic (heard es)
      else answers magic (heard es) := by
    rw [heard, answers, hf]
  cases hd with
  | ipv4 =>
    have ht : terminates Ppp.pppIPv4 pl = false := by
      rw [terminates, decide_eq_false pppIPv4_ne, Bool.false_and, Bool.false_and]
    dsimp only at hw hr hp
    rw [sentOn_recv] at hr hp
    refine ⟨?_, ?_, hp⟩
    · rw [hw, hdel, hs, cond_true, cond_true, if_pos rfl, List.reverse_cons, List.append_assoc]
      rfl
    · rw [hr, hans, ht, if_neg (by simp), if_neg fun h => pppIPv4_ne h.1]
  | echo hl hc =>
    have ht := @echo_not_terminates Ppp.pppLCP _ hc
    simp only [Pump.send, sentOn_sent, sentOn_recv, if_true, if_neg pppIPv4_ne.symm,
      List.append_nil] at hw hr hp
    refine ⟨?_, ?_, hp⟩
    · rw [hw, hdel, if_neg pppIPv4_ne.symm, ht, if_neg (by simp)]
    · rw [hr, hans, hs, cond_true, cond_true, ht, if_neg (by simp), if_pos ⟨rfl, hl, hc⟩,
        List.append_assoc]
      rfl
  | term ht =>
    simp only [Pump.send, Pump.fail, sentOn_sent, sentOn_recv, if_true, if_neg pppIPv4_ne.symm,
      cond_false, List.append_nil] at hw hr hp
    refine ⟨?_, ?_, hp⟩
    · rw [hw, hdel, hs, cond_true, if_neg pppIPv4_ne.symm, ht, if_pos rfl, List.append_nil]
    · rw [hr, hans, hs, cond_true, ht, if_pos rfl]
  | other hi ht he =>
    dsimp only at hw hr hp
    rw [sentOn_recv] at hr hp
    refine ⟨?_, ?_, hp⟩
    · rw [hw, hdel, if_neg hi, ht, if_neg (by simp)]
    · rw [hr, hans, ht, if_neg (by simp), if_neg he]

theorem moves_frame {t : Pump} (h : Moves magic (s.step magic (.frame f)) t es) :
    Moves magic s t (.frame f :: es) := by
  cases hs : s.reading with
  | false =>
    rw [Pump.step, if_neg (by rw [hs]; simp)] at h
    exact ⟨by simpa [hs] using h.wrote, by simpa [hs] using h.replies, h.packets⟩
  | true =>
    rw [Pump.step, if_pos hs] at h
    dsimp only at h
    cases hf : splitPPP f with
    | none =>
      rw [hf] at h
      obtain ⟨hw, hr, hp⟩ := h
      dsimp only at hw hr hp
      rw [sentOn_recv] at hr hp
      refine ⟨?_, ?_, hp⟩
      · rw [hw, heard, delivered, hf]
      · rw [hr, heard, answers, hf]
    | some q =>
      obtain ⟨pr, pl⟩ := q
      rw [hf] at h
      exact moves_handled hs hf (handle_handled _ pr pl) h

theorem moves_closed {t : Pump} (h : Moves magic (s.step magic .closed) t es) :
    Moves magic s t (.closed :: es) := by
  cases hs : s.reading with
  | false =>
    rw [Pump.step, if_neg (by rw [hs]; simp)] at h
    exact ⟨by simpa [hs] using h.wrote, by simpa [hs] using h.replies, h.packets⟩
  | true =>
    rw [Pump.step, if_pos hs] at h
    exact ⟨by simpa [hs, heard, delivered, Pump.fail] using h.wrote,
      by simpa [hs, heard, answers, Pump.fail] using h.replies, h.packets⟩

theorem moves_outgoing {t : Pump} {b : List UInt8} {ok : Bool}
    (h : Moves magic (s.step magic (.outgoing b ok)) t es) :
    Moves magic s t (.outgoing b ok :: es) := by
  cases hs : s.writing with
  | false =>
    rw [Pump.step, if_neg (by rw [hs]; simp)] at h
    exact ⟨h.wrote, h.replies, by simpa [hs] using h.packets⟩
  | true =>
    rw [Pump.step, if_pos hs] at h
    cases ok with
    | true =>
      rw [if_pos rfl] at h
      obtain ⟨hw, hr, hp⟩ := h
      simp only [Pump.send, sentOn_sent, if_true, if_neg pppIPv4_ne, List.append_nil] at hw hr hp
      refine ⟨hw, hr, ?_⟩
      rw [hp, hs, cond_true, cond_true, offered, if_pos rfl, List.append_assoc]
      rfl
    | false =>
      rw [if_neg (by simp)] at h
      obtain ⟨hw, hr, hp⟩ := h
      simp only [Pump.send, Pump.fail, sentOn_sent, if_true, if_neg pppIPv4_ne, cond_false,
        List.append_nil] at hw hr hp
      refine ⟨hw, hr, ?_⟩
      rw [hp, hs, cond_true, offered, if_neg (by simp)]

theorem moves_deviceFailed {t : Pump} (h : Moves magic (s.step magic .deviceFailed) t es) :
    Moves magic s t (.deviceFailed :: es) := by
  cases hs : s.writing with
  | false =>
    rw [Pump.step, if_neg (by rw [hs]; simp)] at h
    exact ⟨h.wrote, h.replies, by simpa [hs] using h.packets⟩
  | true =>
    rw [Pump.step, if_pos hs] at h
    exact ⟨h.wrote, h.replies, by simpa [hs, offered, Pump.fail] using h.packets⟩

theorem run_moves (s : Pump) (es : List PumpEvent) :
    Moves magic s (es.foldl (Pump.step magic) s) es := by
  induction es generalizing s with
  | nil => exact ⟨by simp [delivered, heard], by simp [answers, heard], by simp [offered]⟩
  | cons e es ih =>
    cases e with
    | frame f => exact moves_frame (ih _)
    | closed => exact moves_closed (ih _)
    | outgoing b ok => exact moves_outgoing (ih _)
    | deviceFailed => exact moves_deviceFailed (ih _)

/-! ## What the server reads -/

/-- A protocol whose number has an even first byte and an odd second one. -/
def Proto (pr : Nat) : Prop := pr < 65536 ∧ pr / 256 % 2 = 0 ∧ pr % 2 = 1

theorem splitPPP_sent (hp : Proto pr) :
    splitPPP ([0xff, 0x03] ++ Ppp.be16 pr ++ pl) = some (pr, pl) := by
  obtain ⟨hlt, heven, -⟩ := hp
  have h1 : (UInt8.ofNat (pr / 256)).toNat = pr / 256 := by
    rw [UInt8.toNat_ofNat']
    omega
  have h2 : (UInt8.ofNat pr).toNat = pr % 256 := UInt8.toNat_ofNat'
  change (if (UInt8.ofNat (pr / 256)).toNat % 2 = 1 then _ else some
    (Ppp.rd16 (UInt8.ofNat (pr / 256)) (UInt8.ofNat pr), pl)) = _
  rw [if_neg (by rw [h1]; omega), Ppp.rd16, h1, h2]
  congr 2
  omega

/-- What was sent is IPv4 or LCP. -/
def OnLink (out : List Ev) : Prop := ∀ q ∈ sends out, q.1 = Ppp.pppIPv4 ∨ q.1 = Ppp.pppLCP

theorem OnLink.recv (h : OnLink out) : OnLink (.recv f :: out) := by
  rw [OnLink, sends_recv]
  exact h

theorem OnLink.sent (h : OnLink out) (hp : pr = Ppp.pppIPv4 ∨ pr = Ppp.pppLCP) :
    OnLink (.sent pr pl :: out) := by
  rw [OnLink, sends_sent]
  intro q hq
  rcases List.mem_append.1 hq with hq | hq
  · exact h q hq
  · rw [List.mem_singleton.1 hq]
    exact hp

theorem step_onLink {e : PumpEvent} (h : OnLink s.out) : OnLink (s.step magic e).out := by
  unfold Pump.step
  split
  · next f =>
    split
    · dsimp only
      split
      · next pr pl _ =>
        have hd := @handle_handled magic { s with out := .recv f :: s.out } pr pl
        generalize Pump.handle magic { s with out := .recv f :: s.out } pr pl = u at hd ⊢
        cases hd with
        | ipv4 => exact h.recv
        | echo => exact h.recv.sent (.inr rfl)
        | term => exact h.recv.sent (.inr rfl)
        | other => exact h.recv
      · exact h.recv
    · exact h
  · split <;> exact h
  · split
    · split <;> exact h.sent (.inl rfl)
    · exact h
  · split <;> exact h

theorem run_onLink (h : OnLink s.out) : OnLink (es.foldl (Pump.step magic) s).out := by
  induction es generalizing s with
  | nil => exact h
  | cons e es ih => exact ih (step_onLink h)

theorem proto_onLink (hp : pr = Ppp.pppIPv4 ∨ pr = Ppp.pppLCP) : Proto pr := by
  unfold Proto
  rcases hp with rfl | rfl <;> decide

/-- The frame of a payload. -/
def frame (q : Nat × List UInt8) : List UInt8 := [0xff, 0x03] ++ Ppp.be16 q.1 ++ q.2

/-- What is sent is read off the stream in its order, and splits into what was sent. -/
theorem sent_reads {qs : List (Nat × List UInt8)} {us : List (List UInt8)}
    (h : qs.mapM (fun q => sendPPP q.1 q.2) = .ok us) (rest : List UInt8) :
    times qs.length readPacket (us.flatten ++ rest) =
      .ok (qs.map fun q => (false, frame q), rest) := by
  have hw : writePackets (qs.map fun q => (false, frame q)) = .ok us := by
    rw [writePackets, List.mapM_map]
    exact h
  exact (reads_times packet_reads qs.length).ok ⟨List.length_map _, written_words hw⟩

end Lemmas

variable {held : List UInt8 → Nat} {magic rest : List UInt8} {ps : List (Bool × List UInt8)}
  {ws : List (List UInt8)} {e : ReadError} {es : List PumpEvent}

/-- **The link.** Whatever order the two directions go in, the device gets the IPv4 packets of what
the server wrote, in order and no others, all of them up to a request to end the link if the
connection is not closed before; each echo is answered then. What is sent is what the device gave,
in order, and the replies; the server reads all of it back as it was sent. -/
theorem link_carries (hw : writePackets ps = .ok ws) (he : readPacket rest = .error e)
    (hes : heard es <+: (receive held (ws.flatten ++ rest)).frames) :
    let run := Ppp.pppPump magic [] es
    let received := receive held (ws.flatten ++ rest)
    run.wrote.reverse <+: delivered (framesOf ps) ∧
    ((∀ p ∈ ps, closes p = false) → received.written = echoes 2 ps ∧
      (heard es = received.frames → run.wrote.reverse = delivered (framesOf ps) ∧
        sentOn Ppp.pppLCP run.out = answers magic (framesOf ps))) ∧
    sentOn Ppp.pppIPv4 run.out = offered es ∧
    ∀ us, (sends run.out).mapM (fun q => sendPPP q.1 q.2) = .ok us →
      ∃ fs : List (List UInt8), fs.map splitPPP = (sends run.out).map some ∧ ∀ after,
        times fs.length readPacket (us.flatten ++ after) =
          .ok (fs.map fun f => (false, f), after) := by
  intro run received
  have hparsed : Parsed (ws.flatten ++ rest) ps := ⟨_, _, e, written_words hw, rfl, he⟩
  have hreceives : Receives received ps := receive_receives hparsed
  have hmoves : Moves magic ⟨[], [], true, true, none⟩ run es := run_moves _ es
  have hlink : OnLink run.out := run_onLink fun q hq => by cases hq
  have hwrote : run.wrote.reverse = delivered (heard es) := hmoves.wrote
  refine ⟨?_, fun hc => ?_, hmoves.packets, fun us hus => ?_⟩
  · rw [hwrote]
    exact delivered_mono (hes.trans hreceives.all)
  · have hopen : ∀ p ∈ ps, (!closes p) = true := fun p hp => by rw [hc p hp]; rfl
    have htake : ps.takeWhile (fun p => !closes p) = ps := List.takeWhile_eq_self_iff.2 hopen
    have hdrop : ps.dropWhile (fun p => !closes p) = [] := List.dropWhile_eq_nil_iff.2 hopen
    have hwritten := hreceives.written
    rw [htake, hdrop, farewell, List.append_nil] at hwritten
    refine ⟨hwritten, fun hall => ?_⟩
    have hfirst := hreceives.first
    rw [htake] at hfirst
    have hframes : received.frames = framesOf ps :=
      hreceives.all.eq_of_length (Nat.le_antisymm hreceives.all.length_le hfirst.length_le)
    rw [hwrote, hall, hframes]
    refine ⟨rfl, ?_⟩
    have hreplies := hmoves.replies
    rw [hall, hframes] at hreplies
    exact hreplies
  · refine ⟨(sends run.out).map frame, ?_, fun after => ?_⟩
    · rw [List.map_map]
      exact List.map_congr_left fun q hq => splitPPP_sent (proto_onLink (hlink q hq))
    · have h := sent_reads hus after
      rw [List.length_map, List.map_map]
      exact h

theorem link_carries_one :
    let run := Ppp.pppPump [1, 2, 3, 4] []
      [.frame [0xff, 0x03, 0, 0x21, 0x45], .outgoing [0x46] true, .closed]
    run.wrote.reverse <+: delivered (framesOf [(false, [0xff, 0x03, 0, 0x21, 0x45])]) :=
  (@link_carries (fun _ => 0) [1, 2, 3, 4] [] [(false, [0xff, 0x03, 0, 0x21, 0x45])]
    [[0x10, 0, 0, 9, 0xff, 0x03, 0, 0x21, 0x45]] .eof
    [.frame [0xff, 0x03, 0, 0x21, 0x45], .outgoing [0x46] true, .closed] (by decide) (by decide)
    (by decide)).1

end Link

end Ghajar.Sstp
