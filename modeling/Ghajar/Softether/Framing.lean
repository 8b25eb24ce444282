import Ghajar.Lib.ByteReader

/-!
# SoftEther blocks

The stream of an established session (`native/ghajar-helper/softether.go`). A
write is a batch of Ethernet frames, counted and each with its length, or a
keep-alive: the count `0xffffffff` and a length of random padding. `recv` reads
one write. `recv_reads` says which streams it accepts, and the rest follows from
that: writes are read one by one, and a stream cut inside a write is an error.
-/

namespace Ghajar.Softether

open ByteReader Bytes

/-- What `recv` may return instead of frames. -/
inductive RecvErr
  | eof
  | unexpectedEof
  | badKeepAlive
  | badBlockCount
  | oversizedBlock
  deriving DecidableEq, Repr

def RecvErr.text : RecvErr → String
  | .eof => "EOF"
  | .unexpectedEof => "unexpected EOF"
  | .badKeepAlive => "softether: bad keep-alive"
  | .badBlockCount => "softether: bad block count"
  | .oversizedBlock => "softether: oversized block"

/-- The bytes `send` writes for its frames. -/
def send (frames : List (List UInt8)) : List UInt8 :=
  be32 (UInt32.ofNat frames.length) ++
    frames.flatMap fun f => be32 (UInt32.ofNat f.length) ++ f

/-- The bytes `keepAlive` writes, with its `randN(512)` random ones. -/
def keepAlive (pad : List UInt8) : List UInt8 :=
  be32 0xffffffff ++ (be32 (UInt32.ofNat pad.length) ++ pad)

def readHdr : ByteReader RecvErr UInt32 := word32 .eof .unexpectedEof

/-- `io.CopyN` to nowhere. -/
def discard (n : UInt32) : ByteReader RecvErr Unit := do
  let _ ← readFull .eof .eof n.toNat
  pure ()

def recvBlock : ByteReader RecvErr (List UInt8) := do
  let n ← readHdr
  if n > 3200 then fail .oversizedBlock
  else readFull .eof .unexpectedEof n.toNat

/-- The next batch of frames, none for a keep-alive. -/
def recv : ByteReader RecvErr (List (List UInt8)) := do
  let num ← readHdr
  if num = 0xffffffff then do
    let n ← readHdr
    if n > 4096 then fail .badKeepAlive
    else do
      discard n
      pure []
  else if num > 8192 then fail .badBlockCount
  else times num.toNat recvBlock

/-- One write on a connection. The connection's lock keeps it in one piece. -/
inductive Write
  | send (frames : List (List UInt8))
  | keepAlive (pad : List UInt8)
  deriving DecidableEq, Repr

namespace Write

def bytes : Write → List UInt8
  | send frames => Softether.send frames
  | keepAlive pad => Softether.keepAlive pad

/-- The frames the other side is to get. -/
def batch : Write → List (List UInt8)
  | send frames => frames
  | keepAlive _ => []

/-- At most 8192 frames of at most 3200 bytes, or what `randN(512)` allows. -/
def Sendable : Write → Prop
  | send frames => frames.length ≤ 8192 ∧ ∀ f ∈ frames, f.length ≤ 3200
  | keepAlive pad => pad.length < 512

/-- What the reader lets pass: the sender's limits on frames, more padding. -/
def Readable : Write → Prop
  | send frames => frames.length ≤ 8192 ∧ ∀ f ∈ frames, f.length ≤ 3200
  | keepAlive pad => pad.length ≤ 4096

instance : DecidablePred Sendable := fun w => by
  cases w <;> unfold Sendable <;> infer_instance

theorem Sendable.readable {w : Write} (h : w.Sendable) : w.Readable := by
  cases w with
  | send frames => exact h
  | keepAlive pad =>
    have : pad.length < 512 := h
    show pad.length ≤ 4096
    omega

end Write

/-! ## What is read -/

theorem u32_toNat {n : Nat} (h : n ≤ 8192) : (UInt32.ofNat n).toNat = n :=
  UInt32.toNat_ofNat_of_lt' (by show n < 4294967296; omega)

theorem ofNat_eq {v : UInt32} {n : Nat} (h : v.toNat = n) : v = UInt32.ofNat n := by
  rw [← h, UInt32.ofNat_toNat]

theorem readHdr_reads : Reads readHdr fun v w => w = be32 v := reads_word32 _ _

theorem discard_reads (n : UInt32) :
    Reads (discard n) fun _ w => w.length = n.toNat := by
  refine (reads_bind (reads_readFull _ _ n.toNat) fun _ => reads_pure ()).congr ?_
  intro u w
  constructor
  · rintro ⟨bs, v, t, ⟨hl, rfl⟩, ⟨-, rfl⟩, rfl⟩
    rw [List.append_nil, hl]
  · intro hw
    exact ⟨w, w, [], ⟨hw, rfl⟩, ⟨rfl, rfl⟩, (List.append_nil w).symm⟩

theorem recvBlock_reads :
    Reads recvBlock fun f w => f.length ≤ 3200 ∧ w = be32 (UInt32.ofNat f.length) ++ f := by
  refine (reads_bind readHdr_reads fun n => reads_ite (fun _ => reads_fail _)
    fun _ => reads_readFull _ _ n.toNat).congr ?_
  intro f w
  constructor
  · rintro ⟨n, v, u, rfl, hu, rfl⟩
    split at hu
    · exact hu.elim
    · rename_i hn
      obtain ⟨hl, rfl⟩ := hu
      have hle : n.toNat ≤ 3200 := UInt32.not_lt.1 hn
      exact ⟨by omega, by rw [ofNat_eq hl.symm]⟩
  · rintro ⟨hf, rfl⟩
    have hn : (UInt32.ofNat f.length).toNat = f.length := u32_toNat (by omega)
    refine ⟨_, _, f, rfl, ?_, rfl⟩
    rw [if_neg]
    · exact ⟨hn.symm, rfl⟩
    · rw [gt_iff_lt, UInt32.lt_iff_toNat_lt, hn]
      show ¬3200 < f.length
      omega

/-- `recv` accepts the writes within the reader's limits and nothing else. -/
theorem recv_reads : Reads recv fun b s => ∃ w : Write, w.Readable ∧ w.batch = b ∧ s = w.bytes := by
  refine (reads_bind readHdr_reads fun num => reads_ite
    (fun _ => reads_bind readHdr_reads fun n => reads_ite (fun _ => reads_fail _)
      fun _ => reads_bind (discard_reads n) fun _ => reads_pure [])
    fun _ => reads_ite (fun _ => reads_fail _)
      fun _ => reads_times recvBlock_reads num.toNat).congr ?_
  intro b s
  constructor
  · rintro ⟨num, v, u, rfl, hu, rfl⟩
    split at hu
    · -- the sentinel: a keep-alive
      rename_i hnum
      obtain ⟨n, v, t, rfl, ht, rfl⟩ := hu
      split at ht
      · exact ht.elim
      · rename_i hn
        obtain ⟨-, pad, z, hp, ⟨rfl, rfl⟩, rfl⟩ := ht
        have hle : n.toNat ≤ 4096 := UInt32.not_lt.1 hn
        refine ⟨.keepAlive pad, ?_, rfl, ?_⟩
        · show pad.length ≤ 4096
          omega
        · rw [hnum, List.append_nil, ofNat_eq hp.symm]
          rfl
    · split at hu
      · exact hu.elim
      · rename_i hn
        obtain ⟨hl, hw⟩ := hu
        obtain ⟨hf, rfl⟩ := words_fun.1 hw
        have hle : num.toNat ≤ 8192 := UInt32.not_lt.1 hn
        exact ⟨.send b, ⟨by omega, hf⟩, rfl, by rw [ofNat_eq hl.symm]; rfl⟩
  · rintro ⟨w, hw, rfl, rfl⟩
    cases w with
    | keepAlive pad =>
      have hp : pad.length ≤ 4096 := hw
      have hn : (UInt32.ofNat pad.length).toNat = pad.length := u32_toNat (by omega)
      refine ⟨_, _, be32 (UInt32.ofNat pad.length) ++ pad, rfl, ?_, rfl⟩
      rw [if_pos rfl]
      refine ⟨_, _, pad, rfl, ?_, rfl⟩
      rw [if_neg]
      · exact ⟨(), pad, [], hn.symm, ⟨rfl, rfl⟩, (List.append_nil pad).symm⟩
      · rw [gt_iff_lt, UInt32.lt_iff_toNat_lt, hn]
        show ¬4096 < pad.length
        omega
    | send frames =>
      obtain ⟨hc, hf⟩ : frames.length ≤ 8192 ∧ ∀ f ∈ frames, f.length ≤ 3200 := hw
      have hn : (UInt32.ofNat frames.length).toNat = frames.length := u32_toNat hc
      refine ⟨_, _, _, rfl, ?_, rfl⟩
      rw [if_neg, if_neg]
      · exact ⟨hn.symm, words_fun.2 ⟨hf, rfl⟩⟩
      · rw [gt_iff_lt, UInt32.lt_iff_toNat_lt, hn]
        show ¬8192 < frames.length
        omega
      · intro he
        have : (UInt32.ofNat frames.length).toNat = 4294967295 := by rw [he]; rfl
        omega

/-! ## Any sequence of writes -/

/-- What the writes of a connection put on the wire. -/
def stream (ws : List Write) : List UInt8 := ws.flatMap Write.bytes

theorem recv_write {w : Write} (h : w.Readable) (rest : List UInt8) :
    recv (w.bytes ++ rest) = .ok (w.batch, rest) :=
  recv_reads.ok ⟨w, h, rfl, rfl⟩

theorem recv_writes {ws : List Write} (h : ∀ w ∈ ws, w.Readable) (tail : List UInt8) :
    times ws.length recv (stream ws ++ tail) = .ok (ws.map Write.batch, tail) := by
  apply (reads_times recv_reads ws.length).ok
  refine ⟨List.length_map _, ?_⟩
  clear tail
  induction ws with
  | nil => rfl
  | cons w ws ih =>
    rw [List.forall_mem_cons] at h
    exact ⟨w.bytes, stream ws, ⟨w, h.1, rfl, rfl⟩, ih h.2, rfl⟩

/-- A cut of the stream falls inside one of its writes, or just before it. -/
theorem cut_inside {ws : List Write} {cut : List UInt8} (hp : cut <+: stream ws)
    (hne : cut ≠ stream ws) :
    ∃ pre w post part, ws = pre ++ w :: post ∧ cut = stream pre ++ part ∧
      part <+: w.bytes ∧ part ≠ w.bytes := by
  induction ws generalizing cut with
  | nil => exact absurd (List.prefix_nil.1 hp) hne
  | cons w ws ih =>
    have hs : stream (w :: ws) = w.bytes ++ stream ws := rfl
    rw [hs] at hp hne
    rcases List.prefix_or_prefix_of_prefix hp (List.prefix_append w.bytes (stream ws))
      with hl | ⟨more, rfl⟩
    · by_cases he : cut = w.bytes
      · -- the cut is at the end of this write: the next one is missing all of its bytes
        subst he
        have hws : stream ws ≠ [] := fun h => hne (by rw [h, List.append_nil])
        obtain ⟨pre, v, post, part, rfl, hc, hpart⟩ := ih (List.nil_prefix) (Ne.symm hws)
        exact ⟨w :: pre, v, post, part, rfl,
          by rw [show stream (w :: pre) = w.bytes ++ stream pre from rfl, List.append_assoc, ← hc,
            List.append_nil], hpart⟩
      · exact ⟨[], w, ws, cut, rfl, rfl, hl, he⟩
    · have hm : more <+: stream ws := (List.prefix_append_right_inj w.bytes).1 hp
      obtain ⟨pre, v, post, part, rfl, rfl, hpart⟩ :=
        ih hm fun h => hne (by rw [h])
      exact ⟨w :: pre, v, post, part, rfl, (List.append_assoc _ _ _).symm, hpart⟩

/-- The reader returns the batches of the writes one by one, each call taking the bytes of one
write; what is cut short or is no write at all is an error, and whatever it does return stood on
the stream as the frames of a write. -/
theorem blocks_framed (ws : List Write) (hw : ∀ w ∈ ws, w.Sendable) (tail : List UInt8) :
    times ws.length recv (stream ws ++ tail) = .ok (ws.map Write.batch, tail) ∧
    (∀ pre w post, ws = pre ++ w :: post →
      recv (w.bytes ++ (stream post ++ tail)) = .ok (w.batch, stream post ++ tail)) ∧
    (∀ cut, cut <+: stream ws → cut ≠ stream ws →
      ∃ pre w post part, ws = pre ++ w :: post ∧ cut = stream pre ++ part ∧
        times pre.length recv cut = .ok (pre.map Write.batch, part) ∧
        ∃ e, recv part = .error e) ∧
    (∀ s b rest, recv s = .ok (b, rest) ↔
      ∃ w : Write, w.Readable ∧ w.batch = b ∧ s = w.bytes ++ rest) ∧
    (∀ s, (∀ (w : Write) rest, w.Readable → s ≠ w.bytes ++ rest) → ∃ e, recv s = .error e) := by
  have hr : ∀ w ∈ ws, w.Readable := fun w h => (hw w h).readable
  refine ⟨recv_writes hr tail, ?_, ?_, ?_, ?_⟩
  · rintro pre w post rfl
    exact recv_write (hr w (by simp)) _
  · intro cut hp hne
    obtain ⟨pre, w, post, part, rfl, rfl, hpart, hpne⟩ := cut_inside hp hne
    refine ⟨pre, w, post, part, rfl, rfl, ?_, ?_⟩
    · exact recv_writes (fun v hv => hr v (List.mem_append_left _ hv)) part
    · exact recv_reads.cut ⟨w, hr w (by simp), rfl, rfl⟩ hpart hpne
  · intro s b rest
    rw [recv_reads s b rest]
    constructor
    · rintro ⟨v, ⟨w, h, hb, rfl⟩, rfl⟩
      exact ⟨w, h, hb, rfl⟩
    · rintro ⟨w, h, hb, rfl⟩
      exact ⟨w.bytes, ⟨w, h, hb, rfl⟩, rfl⟩
  · intro s hs
    apply recv_reads.error
    rintro b v rest ⟨w, h, -, rfl⟩
    exact hs w rest h

/-- Two frames, a keep-alive of one byte and a batch of no frames, with a byte of the next write
behind them. -/
theorem three_writes :
    times 3 recv (stream [.send [[1, 2], []], .keepAlive [7], .send []] ++ [0]) =
      .ok ([[[1, 2], []], [], []], [0]) :=
  (blocks_framed [.send [[1, 2], []], .keepAlive [7], .send []] (by decide) [0]).1

end Ghajar.Softether
