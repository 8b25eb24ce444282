import Mathlib
import Ghajar.Ssh.WsConn

/-!
# The WebSocket writer

`wsConn.Write` (`native/ghajar-helper/sshtransport.go`): the header with one of three forms of the
length, the mask key, and the payload under the mask. `decodeFrame` reads a client's frame as
RFC 6455 has it and refuses a length that is not in its shortest form; what a call hands to the
connection is one such frame (`write_exact`), and call after call is read back in order
(`writeAll_frames`).
-/

namespace Ghajar.Ssh

open ByteReader Bytes

/-! ## Writing -/

/-- `[]byte`, whose length is an `int`. -/
structure Slice where
  bytes : List UInt8
  length_lt : bytes.length < 2 ^ 63

/-- `make([]byte, 4)`, filled by `rand.Read`. -/
structure MaskKey where
  bytes : List UInt8
  length_eq : bytes.length = 4

/-- `p[i] ^ mask[i%4]` for each `i`. -/
def masked (mask p : List UInt8) : List UInt8 := p.mapIdx fun i b => b ^^^ mask.getD (i % 4) 0

/-- The header without the mask key, of a payload of `n` bytes. -/
def writeHeader (n : Nat) : List UInt8 :=
  0x82 ::
    if n < 126 then [UInt8.ofNat (0x80 ||| n)]
    else if n < 65536 then [0x80 ||| 126, UInt8.ofNat (n >>> 8), UInt8.ofNat n]
    else (0x80 ||| 127) :: be64 (UInt64.ofNat n)

/-- What a call hands to the connection, and what it returns: the length, or the error that the
connection has for these bytes. -/
def write (connWrite : List UInt8 → Option NetErr) (mask : MaskKey) (p : Slice) :
    List UInt8 × Except NetErr Nat :=
  let h := writeHeader p.bytes.length ++ mask.bytes
  let body := masked mask.bytes p.bytes
  (h ++ body, match connWrite (h ++ body) with
    | some e => .error e
    | none => .ok p.bytes.length)

/-! ## Frames of a client -/

inductive FrameErr
  | short
  | unmasked
  | length
  deriving DecidableEq, Repr

structure ClientFrame where
  fin : Bool
  rsv : UInt8
  opcode : UInt8
  /-- How many bytes its length takes behind the first seven bits. -/
  ext : Nat
  key : List UInt8
  payload : List UInt8
  deriving DecidableEq, Repr

/-- The bytes that a length takes in its shortest form. -/
def shortest (n : Nat) : Nat := if n ≤ 125 then 0 else if n ≤ 65535 then 2 else 8

/-- The length that the second byte says, or the bytes behind it. -/
def lengthOf (second : UInt8) (ext : List UInt8) : Nat :=
  if extSize second = 0 then (second &&& 0x7f).toNat else beNat ext

/-- A frame of a client: it masks, its length is in the shortest form and has the top bit clear. -/
def decodeFrame : ByteReader FrameErr ClientFrame := do
  let h ← readFull .short .short 2
  let first := h.getD 0 0
  let second := h.getD 1 0
  let ext ← readFull .short .short (extSize second)
  let n := lengthOf second ext
  if second &&& 0x80 = 0 then fail .unmasked
  else if ext.length ≠ shortest n ∨ 2 ^ 63 ≤ n then fail .length
  else do
    let key ← readFull .short .short 4
    let payload ← readFull .short .short n
    pure
      { fin := first &&& 0x80 ≠ 0
        rsv := first &&& 0x70
        opcode := first &&& 0x0f
        ext := ext.length
        key
        payload := masked key payload }

/-- The header is one that a client may send. -/
structure Head.Client (h : Head) : Prop where
  masks : h.second &&& 0x80 ≠ 0
  shortest : h.ext.length = shortest h.len
  top : h.len < 2 ^ 63

/-- What a frame with this header and this data behind it says. -/
def Head.frame (h : Head) (data : List UInt8) : ClientFrame :=
  { fin := h.first &&& 0x80 ≠ 0
    rsv := h.first &&& 0x70
    opcode := h.first &&& 0x0f
    ext := h.ext.length
    key := h.key
    payload := masked h.key data }

/-- **The words of `decodeFrame`**: a header of a client and as many bytes as it says. -/
theorem decodeFrame_reads : Reads decodeFrame fun f w =>
    ∃ (h : Head) (data : List UInt8), h.Client ∧ data.length = h.len ∧ w = h.bytes ++ data ∧
      f = h.frame data := by
  refine (reads_bind (reads_readFull _ _ 2) fun h => reads_bind (reads_readFull _ _ _) fun ext =>
    reads_ite (fun _ => reads_fail _) fun _ => reads_ite (fun _ => reads_fail _) fun _ =>
      reads_bind (reads_readFull _ _ 4) fun key => reads_bind (reads_readFull _ _ _) fun data =>
        reads_pure _).congr ?_
  intro f w
  constructor
  · rintro ⟨_, hh, _, ⟨hl, rfl⟩, ⟨_, ext, _, ⟨hext, rfl⟩, hrest, rfl⟩, rfl⟩
    match hh, hl with
    | [first, second], _ =>
      split at hrest
      · exact hrest.elim
      rename_i hmask
      split at hrest
      · exact hrest.elim
      rename_i hform
      obtain ⟨_, key, _, ⟨hkey, rfl⟩, ⟨_, data, _, ⟨hdata, rfl⟩, ⟨rfl, rfl⟩, rfl⟩, rfl⟩ := hrest
      rw [not_or, not_not, not_le] at hform
      have hsize : keySize second = 4 := if_pos hmask
      refine ⟨⟨first, second, ext, key, hext, hkey.trans hsize.symm⟩, data,
        ⟨hmask, hform.1, hform.2⟩, hdata, ?_, rfl⟩
      simp [Head.bytes]
  · rintro ⟨⟨first, second, ext, key, hext, hkey⟩, data, hc, hdata, rfl, rfl⟩
    have hsize : keySize second = 4 := if_pos hc.masks
    refine ⟨[first, second], _, ext ++ (key ++ data), ⟨rfl, rfl⟩, ⟨ext, _, key ++ data,
      ⟨hext, rfl⟩, ?_, rfl⟩, by simp [Head.bytes]⟩
    change if second &&& 0x80 = 0 then _ else _
    rw [if_neg hc.masks]
    refine (iff_of_eq (if_neg ?_)).2 ?_
    · exact not_or.2 ⟨not_not.2 hc.shortest, not_le.2 hc.top⟩
    exact ⟨key, key, data, ⟨hkey.trans hsize, rfl⟩, ⟨data, data, [], ⟨hdata, rfl⟩, ⟨rfl, rfl⟩,
      (List.append_nil data).symm⟩, rfl⟩

/-! ## What is written -/

/-- A short length in the second byte, behind the mask bit. -/
theorem short_second : ∀ n < 126, UInt8.ofNat (0x80 ||| n) &&& 0x80 ≠ 0 ∧
    extSize (UInt8.ofNat (0x80 ||| n)) = 0 ∧ (UInt8.ofNat (0x80 ||| n) &&& 0x7f).toNat = n := by
  decide

theorem beNat_two {n : Nat} (h : n < 65536) :
    beNat [UInt8.ofNat (n >>> 8), UInt8.ofNat n] = n := by
  have hr : ([UInt8.ofNat (n >>> 8), UInt8.ofNat n] : List UInt8).reverse = leBytes 2 n := by
    rw [Nat.shiftRight_eq_div_pow]
    rfl
  rw [beNat, hr, leNat_leBytes]
  exact Nat.mod_eq_of_lt h

theorem beNat_be64 {n : Nat} (h : n < 2 ^ 63) : beNat (be64 (UInt64.ofNat n)) = n := by
  have h64 : n < 2 ^ 64 := h.trans (by decide)
  rw [beNat, be64, List.reverse_reverse, leNat_leBytes, UInt64.toNat_ofNat_of_lt' h64]
  exact Nat.mod_eq_of_lt h64

/-- What a header written for `n` bytes is to a reader. -/
structure Head.Writes (h : Head) (mask : MaskKey) (n : Nat) : Prop where
  bytes : h.bytes = writeHeader n ++ mask.bytes
  first : h.first = 0x82
  masks : h.second &&& 0x80 ≠ 0
  ext : h.ext.length = Ssh.shortest n
  len : h.len = n
  key : h.key = mask.bytes

/-- Each of the three forms is the shortest where it is chosen. -/
theorem exists_written (mask : MaskKey) {n : Nat} (hn : n < 2 ^ 63) :
    ∃ h : Head, h.Writes mask n := by
  have hkey (second : UInt8) (h : second &&& 0x80 ≠ 0) : mask.bytes.length = keySize second :=
    mask.length_eq.trans (if_pos h).symm
  by_cases hshort : n < 126
  · obtain ⟨hmask, hsize, hlow⟩ := short_second n hshort
    refine ⟨⟨0x82, UInt8.ofNat (0x80 ||| n), [], mask.bytes, hsize.symm, hkey _ hmask⟩, ?_⟩
    constructor
    case bytes => rw [writeHeader, if_pos hshort]; rfl
    case first => rfl
    case masks => exact hmask
    case ext => exact (if_pos (Nat.le_of_lt_succ hshort)).symm
    case len => rw [Head.len, if_pos hsize, hlow]
    case key => rfl
  by_cases hword : n < 65536
  · have hmask : (0x80 ||| 126 : UInt8) &&& 0x80 ≠ 0 := by decide
    refine ⟨⟨0x82, 0x80 ||| 126, [UInt8.ofNat (n >>> 8), UInt8.ofNat n], mask.bytes, rfl,
      hkey _ hmask⟩, ?_⟩
    constructor
    case bytes => rw [writeHeader, if_neg hshort, if_pos hword]; rfl
    case first => rfl
    case masks => exact hmask
    case ext => rw [shortest, if_neg (by omega), if_pos (by omega)]; rfl
    case len => exact (if_neg (show ¬extSize (0x80 ||| 126) = 0 by decide)).trans (beNat_two hword)
    case key => rfl
  · have hmask : (0x80 ||| 127 : UInt8) &&& 0x80 ≠ 0 := by decide
    refine ⟨⟨0x82, 0x80 ||| 127, be64 (UInt64.ofNat n), mask.bytes,
      (be64_length _).trans (by decide), hkey _ hmask⟩, ?_⟩
    constructor
    case bytes => rw [writeHeader, if_neg hshort, if_neg hword]; rfl
    case first => rfl
    case masks => exact hmask
    case ext => rw [shortest, if_neg (by omega), if_neg (by omega), be64_length]
    case len => exact (if_neg (show ¬extSize (0x80 ||| 127) = 0 by decide)).trans (beNat_be64 hn)
    case key => rfl

@[simp] theorem masked_length (mask p : List UInt8) : (masked mask p).length = p.length :=
  List.length_mapIdx

/-- The mask comes off where it is put on again. -/
theorem masked_masked (mask p : List UInt8) : masked mask (masked mask p) = p := by
  refine List.ext_getElem (by simp) fun i h₁ h₂ => ?_
  simp only [masked, List.getElem_mapIdx]
  rw [UInt8.xor_assoc, UInt8.xor_self, UInt8.xor_zero]

variable (connWrite : List UInt8 → Option NetErr) (mask : MaskKey) (p : Slice)

/-- The frame that a payload is put into. -/
def binary : ClientFrame :=
  { fin := true
    rsv := 0
    opcode := 0x2
    ext := shortest p.bytes.length
    key := mask.bytes
    payload := p.bytes }

/-- What a call hands over is a word of `decodeFrame`. -/
theorem write_word : ∃ (h : Head) (data : List UInt8), h.Client ∧ data.length = h.len ∧
    (write connWrite mask p).1 = h.bytes ++ data ∧ binary mask p = h.frame data := by
  obtain ⟨h, hw⟩ := exists_written mask p.length_lt
  have hclient : h.Client :=
    ⟨hw.masks, by rw [hw.ext, hw.len], by rw [hw.len]; exact p.length_lt⟩
  refine ⟨h, masked mask.bytes p.bytes, hclient, ?_, ?_, ?_⟩
  · rw [masked_length, hw.len]
  · rw [hw.bytes]
    rfl
  · rw [Head.frame, hw.first, hw.ext, hw.key, masked_masked]
    rfl

/-- **What a call hands to the connection is exactly one frame**, whatever stands behind it. -/
theorem write_exact : (∀ rest, decodeFrame ((write connWrite mask p).1 ++ rest) =
      .ok (binary mask p, rest)) ∧
    (write connWrite mask p).2 = match connWrite (write connWrite mask p).1 with
      | some e => .error e
      | none => .ok p.bytes.length :=
  ⟨fun _ => decodeFrame_reads.ok (write_word connWrite mask p), rfl⟩

/-- A call that the connection cuts short leaves no frame. -/
theorem write_cut {sent : List UInt8} (h : sent <+: (write connWrite mask p).1)
    (hne : sent ≠ (write connWrite mask p).1) : ∃ e, decodeFrame sent = .error e :=
  decodeFrame_reads.cut (write_word connWrite mask p) h hne

/-- Call after call, each with the lock. -/
def writeAll (calls : List (MaskKey × Slice)) : List UInt8 :=
  calls.flatMap fun c => (write connWrite c.1 c.2).1

/-- A frame for each call, one after the other. -/
theorem writeAll_words (calls : List (MaskKey × Slice)) :
    Words (fun f w => ∃ (h : Head) (data : List UInt8), h.Client ∧ data.length = h.len ∧
      w = h.bytes ++ data ∧ f = h.frame data) (calls.map fun c => binary c.1 c.2)
      (writeAll connWrite calls) := by
  induction calls with
  | nil => rfl
  | cons c calls ih => exact ⟨_, _, write_word connWrite c.1 c.2, ih, rfl⟩

/-- **Call after call is read back in order.** -/
theorem writeAll_frames (calls : List (MaskKey × Slice)) (rest : List UInt8) :
    times calls.length decodeFrame (writeAll connWrite calls ++ rest) =
      .ok (calls.map fun c => binary c.1 c.2, rest) :=
  (reads_times decodeFrame_reads calls.length).ok
    ⟨List.length_map _, writeAll_words connWrite calls⟩

/-- **Wherever the connection breaks off, the frames before are those of the first calls**, and what
is left is no frame. -/
theorem frames_cut (calls : List (MaskKey × Slice)) {sent : List UInt8}
    (h : sent <+: writeAll connWrite calls) : ∃ k rest, k ≤ calls.length ∧
      times k decodeFrame sent = .ok ((calls.take k).map fun c => binary c.1 c.2, rest) ∧
      (k = calls.length → rest = []) ∧
      (k < calls.length → ∃ e, decodeFrame rest = .error e) := by
  obtain ⟨k, rest, hk, hread, hall, herr⟩ :=
    words_cut decodeFrame_reads (writeAll_words connWrite calls) h
  rw [List.length_map] at hk hall herr
  rw [← List.map_take] at hread
  exact ⟨k, rest, hk, hread, hall, herr⟩

/-- Two calls of one byte each, of which all but the last byte is there. -/
def twoCalls : List (MaskKey × Slice) :=
  [(⟨[1, 2, 3, 4], rfl⟩, ⟨[7], by decide⟩), (⟨[5, 6, 7, 8], rfl⟩, ⟨[9], by decide⟩)]

theorem frames_cut_two : ∃ k rest, k ≤ 2 ∧
    times k decodeFrame ((writeAll (fun _ => none) twoCalls).take 13) =
      .ok ((twoCalls.take k).map fun c => binary c.1 c.2, rest) ∧
    (k = 2 → rest = []) ∧ (k < 2 → ∃ e, decodeFrame rest = .error e) :=
  frames_cut (fun _ => none) twoCalls (List.take_prefix 13 _)

end Ghajar.Ssh
