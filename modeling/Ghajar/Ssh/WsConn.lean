import Ghajar.Lib.ByteReader

/-!
# The WebSocket reader

`wsConn.Read` (`native/ghajar-helper/sshtransport.go`) over a stream of bytes: the header of a
frame, the loop to the next data frame, and the slice of the caller's buffer. A length of 64 bits
becomes signed; `Huge` are the streams in which it turns negative, and only these are not read
as they should be.
-/

namespace Ghajar.Ssh

open ByteReader Bytes

inductive NetErr
  | eof
  | unexpectedEof
  deriving DecidableEq, Repr

/-- What one round of the loop reads of a frame before it looks at the opcode. -/
structure Header where
  op : UInt8
  ln : Int
  deriving DecidableEq, Repr

/-- `int64` of a number of at most 64 bits. -/
def int64 (n : Nat) : Int := if n < 2 ^ 63 then n else n - 2 ^ 64

def beNat (b : List UInt8) : Nat := leNat b.reverse

/-- `switch ln`: the length, in the two or eight bytes that follow where it says so. -/
def readLength (ln : UInt8) : ByteReader NetErr Int :=
  if ln = 126 then do
    let b ← readFull .eof .unexpectedEof 2
    pure (beNat b : Int)
  else if ln = 127 then do
    let b ← readFull .eof .unexpectedEof 8
    pure (int64 (beNat b))
  else pure (ln.toNat : Int)

def readHeader : ByteReader NetErr Header := do
  let h ← readFull .eof .unexpectedEof 2
  let ln ← readLength (h.getD 1 0 &&& 0x7f)
  -- servers must not mask; tolerate by skipping the key
  let _ ← readFull .eof .unexpectedEof (if h.getD 1 0 &&& 0x80 ≠ 0 then 4 else 0)
  pure ⟨h.getD 0 0 &&& 0x0f, ln⟩

/-- `io.CopyN` to nowhere; nothing is read for a negative count. -/
def discard (ln : Int) : ByteReader NetErr Unit := do
  let _ ← readFull .eof .eof ln.toNat
  pure ()

/-- The connection: the bytes that are still to come, and what is left of the data frame. -/
structure WsConn where
  rest : List UInt8
  left : Int
  deriving DecidableEq, Repr

/-- What the loop `for w.left == 0` ends with. -/
inductive Next
  | data (ln : Int) (rest : List UInt8)
  | err (e : NetErr) (rest : List UInt8)
  deriving DecidableEq, Repr

/-- The loop, with as many rounds as there are bytes; each takes at least two. -/
def nextN : Nat → List UInt8 → Next
  | 0, s => .err .eof s
  | n + 1, s =>
    match readHeader s with
    | .error e => .err e []
    | .ok (h, s) =>
      if h.op = 0x8 then .err .eof s
      else if h.op = 0x9 ∨ h.op = 0xA then
        match discard h.ln s with
        | .error e => .err e []
        | .ok (_, s) => nextN n s
      else if h.ln = 0 then nextN n s
      else .data h.ln s

def next (s : List UInt8) : Next := nextN s.length s

/-- A call: the size of the caller's buffer, and how much the transport has ready. -/
structure Call where
  size : Nat
  ready : Nat
  deriving DecidableEq, Repr

/-- What a call returns; `crash` is the panic of a slice out of range. -/
inductive Ret
  | ok (p : List UInt8)
  | err (e : NetErr)
  | crash
  deriving DecidableEq, Repr

/-- `w.Conn.Read` into a buffer of `size` bytes. -/
def connRead (size ready : Nat) (s : List UInt8) : Ret × Nat :=
  if size = 0 then (.ok [], 0)
  else if s = [] then (.err .eof, 0)
  else (.ok (s.take (min size ready)), min (min size ready) s.length)

/-- Behind the loop: `p = p[:w.left]` and the read. -/
def readData (c : WsConn) (call : Call) : Ret × WsConn :=
  if (call.size : Int) > c.left ∧ c.left < 0 then (.crash, c)
  else
    let size := if (call.size : Int) > c.left then c.left.toNat else call.size
    let (r, n) := connRead size call.ready c.rest
    (r, ⟨c.rest.drop n, c.left - n⟩)

def WsConn.read (c : WsConn) (call : Call) : Ret × WsConn :=
  if c.left = 0 then
    match next c.rest with
    | .err e rest => (.err e, ⟨rest, 0⟩)
    | .data ln rest => readData ⟨rest, ln⟩ call
  else readData c call

/-- Call after call, until one panics. -/
def run : WsConn → List Call → List Ret
  | _, [] => []
  | c, call :: calls =>
    match c.read call with
    | (.crash, _) => [.crash]
    | (r, c) => r :: run c calls

def Ret.bytes : Ret → List UInt8
  | .ok p => p
  | _ => []

def returned (rs : List Ret) : List UInt8 := rs.flatMap Ret.bytes

/-! ## Frames -/

/-- The bytes the short length asks for. -/
def extSize (second : UInt8) : Nat :=
  if second &&& 0x7f = 126 then 2 else if second &&& 0x7f = 127 then 8 else 0

def keySize (second : UInt8) : Nat := if second &&& 0x80 ≠ 0 then 4 else 0

/-- The bytes in front of a payload. -/
structure Head where
  first : UInt8
  second : UInt8
  ext : List UInt8
  key : List UInt8
  ext_length : ext.length = extSize second
  key_length : key.length = keySize second

namespace Head

def bytes (h : Head) : List UInt8 := h.first :: h.second :: (h.ext ++ h.key)

def op (h : Head) : UInt8 := h.first &&& 0x0f

/-- The length of the payload, as the header says it. -/
def len (h : Head) : Nat :=
  if extSize h.second = 0 then (h.second &&& 0x7f).toNat else beNat h.ext

/-- A ping or a pong. -/
def Control (h : Head) : Prop := h.op = 0x9 ∨ h.op = 0xA

end Head

/-- A frame that a server may send: it does not mask, its length has the top bit clear, and it is
data or a short ping or pong. -/
structure Frame where
  head : Head
  payload : List UInt8
  length : payload.length = head.len
  top : head.len < 2 ^ 63
  unmasked : keySize head.second = 0
  kind : head.op = 0x0 ∨ head.op = 0x1 ∨ head.op = 0x2 ∨ head.Control ∧ payload.length ≤ 125

namespace Frame

def encode (fs : List Frame) : List UInt8 := fs.flatMap fun f => f.head.bytes ++ f.payload

instance (h : Head) : Decidable h.Control := inferInstanceAs (Decidable (_ ∨ _))

/-- What is to be delivered. -/
def data (fs : List Frame) : List UInt8 :=
  fs.flatMap fun f => if f.head.Control then [] else f.payload

end Frame

/-- The stream has a data frame whose length does not fit 63 bits, where a reader that follows
the headers comes to it. -/
inductive Huge : List UInt8 → Prop
  | here {h : Head} {rest : List UInt8} (ho : h.op ≠ 0x8) (hc : ¬h.Control)
      (hl : 2 ^ 63 ≤ h.len) : Huge (h.bytes ++ rest)
  | payload {h : Head} {p rest : List UInt8} (ho : h.op ≠ 0x8) (hl : h.len < 2 ^ 63)
      (hp : p.length = h.len) (hr : Huge rest) : Huge (h.bytes ++ (p ++ rest))
  /-- Nothing is skipped behind a close, and behind a ping whose length turns negative. -/
  | bare {h : Head} {rest : List UInt8} (hh : h.op = 0x8 ∨ h.Control ∧ 2 ^ 63 ≤ h.len)
      (hr : Huge rest) : Huge (h.bytes ++ rest)

/-! ## What a header is -/

theorem int64_of_lt {n : Nat} (h : n < 2 ^ 63) : int64 n = n := if_pos h

theorem int64_neg {n : Nat} (h : 2 ^ 63 ≤ n) (h64 : n < 2 ^ 64) : int64 n < 0 := by
  rw [int64, if_neg (Nat.not_lt.2 h)]
  omega

theorem beNat_lt {b : List UInt8} : beNat b < 256 ^ b.length := by
  have h := leNat_lt b.reverse
  rwa [List.length_reverse] at h

theorem readLength_reads (ln : UInt8) (hln : ln.toNat < 128) :
    Reads (readLength ln) fun v w =>
      w.length = (if ln = 126 then 2 else if ln = 127 then 8 else 0) ∧
        v = int64 (if ln = 126 ∨ ln = 127 then beNat w else ln.toNat) := by
  refine (reads_ite (fun _ => reads_bind (reads_readFull _ _ 2) fun b => reads_pure _) fun _ =>
    reads_ite (fun _ => reads_bind (reads_readFull _ _ 8) fun b => reads_pure _)
      fun _ => reads_pure _).congr ?_
  intro v w
  by_cases h2 : ln = 126
  · simp only [h2, if_true, true_or]
    constructor
    · rintro ⟨_, b, _, ⟨hl, rfl⟩, ⟨rfl, rfl⟩, rfl⟩
      rw [List.append_nil]
      have hb := beNat_lt (b := b)
      rw [hl] at hb
      exact ⟨hl, (int64_of_lt (by omega)).symm⟩
    · rintro ⟨hl, rfl⟩
      have hb := beNat_lt (b := w)
      rw [hl] at hb
      exact ⟨w, w, [], ⟨hl, rfl⟩, ⟨int64_of_lt (by omega), rfl⟩, (List.append_nil w).symm⟩
  · by_cases h8 : ln = 127
    · simp only [h8, if_true, or_true, show ¬(127 : UInt8) = 126 by decide, if_false]
      constructor
      · rintro ⟨b, _, _, ⟨hl, rfl⟩, ⟨rfl, rfl⟩, rfl⟩
        rw [List.append_nil]
        exact ⟨hl, rfl⟩
      · rintro ⟨hl, rfl⟩
        exact ⟨w, w, [], ⟨hl, rfl⟩, ⟨rfl, rfl⟩, (List.append_nil w).symm⟩
    · simp only [h2, h8, if_false, or_self]
      rw [int64_of_lt (by omega)]
      constructor
      · rintro ⟨rfl, rfl⟩
        exact ⟨rfl, rfl⟩
      · rintro ⟨hl, rfl⟩
        exact ⟨rfl, List.eq_nil_of_length_eq_zero hl⟩

theorem extSize_eq_zero {second : UInt8} :
    extSize second = 0 ↔ ¬(second &&& 0x7f = 126 ∨ second &&& 0x7f = 127) := by
  unfold extSize
  split
  · simp [*]
  · split <;> simp [*]

theorem Head.len_eq (h : Head) :
    h.len = if h.second &&& 0x7f = 126 ∨ h.second &&& 0x7f = 127 then beNat h.ext
      else (h.second &&& 0x7f).toNat := by
  unfold Head.len
  by_cases hz : h.second &&& 0x7f = 126 ∨ h.second &&& 0x7f = 127
  · rw [if_pos hz, if_neg fun h0 => extSize_eq_zero.1 h0 hz]
  · rw [if_neg hz, if_pos (extSize_eq_zero.2 hz)]

theorem low_lt (b : UInt8) : (b &&& 0x7f).toNat < 128 := by
  rw [UInt8.toNat_and]
  exact Nat.lt_of_le_of_lt Nat.and_le_right (by decide)

/-- **The words of `readHeader`**: the bytes in front of a payload. -/
theorem readHeader_reads : Reads readHeader fun hd w =>
    ∃ h : Head, w = h.bytes ∧ hd = ⟨h.op, int64 h.len⟩ := by
  refine (reads_bind (reads_readFull _ _ 2) fun h => reads_bind
    (readLength_reads _ (low_lt _)) fun ln => reads_bind (reads_readFull _ _ _)
      fun _ => reads_pure _).congr ?_
  intro hd w
  constructor
  · rintro ⟨_, hh, _, ⟨hl, rfl⟩, ⟨ln, ext, _, ⟨hext, rfl⟩,
      ⟨_, key, _, ⟨hkey, rfl⟩, ⟨rfl, rfl⟩, rfl⟩, rfl⟩, rfl⟩
    match hh, hl with
    | [first, second], _ =>
      refine ⟨⟨first, second, ext, key, hext, hkey⟩, ?_, ?_⟩
      · simp [Head.bytes]
      · rw [Head.len_eq]
        rfl
  · rintro ⟨⟨first, second, ext, key, hext, hkey⟩, rfl, rfl⟩
    refine ⟨[first, second], _, _, ⟨rfl, rfl⟩, ⟨_, ext, _, ⟨hext, rfl⟩,
      ⟨key, key, [], ⟨hkey, rfl⟩, ⟨?_, rfl⟩, rfl⟩, rfl⟩, ?_⟩
    · rw [Head.len_eq]
      rfl
    · simp [Head.bytes]

theorem Head.len_lt (h : Head) : h.len < 2 ^ 64 := by
  have hlow := low_lt h.second
  have hext := beNat_lt (b := h.ext)
  have hsize : extSize h.second ≤ 8 := by
    unfold extSize
    split
    · decide
    · split <;> decide
  have hpow : 256 ^ h.ext.length ≤ 256 ^ 8 :=
    Nat.pow_le_pow_right (by decide) (h.ext_length ▸ hsize)
  rw [Head.len_eq]
  split <;> omega

/-! ## The loop to the next data frame -/

theorem discard_eq (ln : Int) (s : List UInt8) :
    discard ln s = if ln.toNat ≤ s.length then .ok ((), s.drop ln.toNat) else .error .eof := by
  by_cases hl : ln.toNat ≤ s.length
  · have hr : readFull NetErr.eof .eof ln.toNat s = .ok (s.take ln.toNat, s.drop ln.toNat) :=
      if_pos hl
    simp only [discard, bind, hr, if_pos hl]
    rfl
  · have hr : readFull NetErr.eof .eof ln.toNat s = .error .eof := by
      rw [readFull, if_neg hl, ite_self]
    simp only [discard, bind, hr, if_neg hl]

/-- A stream starts with a header, or cannot be read. -/
theorem header_cases (s : List UInt8) :
    (∃ (h : Head) (rest : List UInt8), s = h.bytes ++ rest) ∨ ∃ e, readHeader s = .error e := by
  cases hr : readHeader s with
  | error e => exact .inr ⟨e, rfl⟩
  | ok x =>
    obtain ⟨w, ⟨h, rfl, -⟩, hs⟩ := (readHeader_reads s x.1 x.2).1 hr
    exact .inl ⟨h, x.2, hs⟩

theorem readHeader_head (h : Head) (rest : List UInt8) :
    readHeader (h.bytes ++ rest) = .ok (⟨h.op, int64 h.len⟩, rest) :=
  readHeader_reads.ok ⟨h, rfl, rfl⟩

theorem Head.bytes_length (h : Head) : 2 ≤ h.bytes.length := by
  unfold Head.bytes
  simp only [List.length_cons]
  omega

/-- The number of rounds that are allowed does not matter. -/
theorem nextN_fuel {n m : Nat} {s : List UInt8} (hn : s.length ≤ n) (hm : s.length ≤ m) :
    nextN n s = nextN m s := by
  induction n generalizing m s with
  | zero =>
    obtain rfl := List.eq_nil_of_length_eq_zero (Nat.le_zero.1 hn)
    cases m <;> rfl
  | succ n ih =>
    cases m with
    | zero =>
      obtain rfl := List.eq_nil_of_length_eq_zero (Nat.le_zero.1 hm)
      rfl
    | succ m =>
      rcases header_cases s with ⟨h, rest, rfl⟩ | ⟨e, he⟩
      · have hb := h.bytes_length
        rw [List.length_append] at hn hm
        simp only [nextN, readHeader_head, discard_eq]
        have hrest : nextN n rest = nextN m rest := ih (by omega) (by omega)
        have hdrop : nextN n (rest.drop (int64 h.len).toNat) =
            nextN m (rest.drop (int64 h.len).toNat) :=
          ih (by rw [List.length_drop]; omega) (by rw [List.length_drop]; omega)
        by_cases hl : (int64 h.len).toNat ≤ rest.length
        · simp only [hl, if_true, hrest, hdrop]
        · simp only [hl, if_false, hrest]
      · simp only [nextN, he]

theorem next_error {s : List UInt8} {e : NetErr} (he : readHeader s = .error e) :
    ∃ e', next s = .err e' [] := by
  cases s with
  | nil => exact ⟨.eof, rfl⟩
  | cons b s =>
    refine ⟨e, ?_⟩
    show nextN (s.length + 1) (b :: s) = _
    simp only [nextN, he]

theorem nextN_eq {n : Nat} {s : List UInt8} (hn : s.length ≤ n) : nextN n s = next s :=
  nextN_fuel hn (Nat.le_refl _)

/-- One round. -/
theorem next_head (h : Head) (rest : List UInt8) :
    next (h.bytes ++ rest) =
      if h.op = 0x8 then .err .eof rest
      else if h.Control then
        if (int64 h.len).toNat ≤ rest.length then next (rest.drop (int64 h.len).toNat)
        else .err .eof []
      else if int64 h.len = 0 then next rest
      else .data (int64 h.len) rest := by
  have hb := h.bytes_length
  obtain ⟨n, hn⟩ := Nat.exists_eq_add_of_le'
    (show 1 ≤ (h.bytes ++ rest).length by rw [List.length_append]; omega)
  have hrest : rest.length ≤ n := by
    rw [List.length_append] at hn
    omega
  have hdrop : (rest.drop (int64 h.len).toNat).length ≤ n := by
    rw [List.length_drop]
    omega
  rw [next, hn]
  simp only [nextN, readHeader_head, discard_eq]
  by_cases hl : (int64 h.len).toNat ≤ rest.length
  · simp only [hl, if_true, nextN_eq hrest, nextN_eq hdrop]
    rfl
  · simp only [hl, if_false, nextN_eq hrest]
    rfl

/-! ## A length that fits -/

theorem not_huge_nil : ¬Huge [] := by
  intro h
  generalize hs : ([] : List UInt8) = s at h
  cases h <;> cases hs

/-- The loop neither comes to a negative length nor past one. -/
def Next.Fine : Next → Prop
  | .err _ rest => ¬Huge rest
  | .data ln rest => 0 < ln ∧ ¬Huge (rest.drop ln.toNat)

/-- Behind a payload that fits. -/
theorem not_huge_drop {h : Head} {rest : List UInt8} (ho : h.op ≠ 0x8) (hl : h.len < 2 ^ 63)
    (hn : ¬Huge (h.bytes ++ rest)) : ¬Huge (rest.drop h.len) := by
  by_cases hlen : h.len ≤ rest.length
  · intro hr
    have hp : (rest.take h.len).length = h.len := by rw [List.length_take]; omega
    have hhuge := Huge.payload ho hl hp hr
    rw [List.take_append_drop] at hhuge
    exact hn hhuge
  · rw [List.drop_eq_nil_of_le (by omega)]
    exact not_huge_nil

theorem next_fine (n : Nat) {s : List UInt8} (hlen : s.length ≤ n) (hs : ¬Huge s) :
    (next s).Fine := by
  induction n generalizing s with
  | zero =>
    obtain rfl := List.eq_nil_of_length_eq_zero (Nat.le_zero.1 hlen)
    exact not_huge_nil
  | succ n ih =>
    rcases header_cases s with ⟨h, rest, rfl⟩ | ⟨e, he⟩
    · have hb := h.bytes_length
      rw [List.length_append] at hlen
      rw [next_head]
      split
      · rename_i ho
        exact fun hr => hs (.bare (.inl ho) hr)
      · rename_i ho
        rcases Nat.lt_or_ge h.len (2 ^ 63) with hl | hl
        · rw [int64_of_lt hl, Int.toNat_natCast]
          have hdrop := not_huge_drop ho hl hs
          split
          · split
            · exact ih (by rw [List.length_drop]; omega) hdrop
            · exact not_huge_nil
          · split
            · rename_i hz
              rw [Int.natCast_eq_zero.1 hz, List.drop_zero] at hdrop
              exact ih (by omega) hdrop
            · rename_i hz
              exact ⟨by omega, hdrop⟩
        · have hneg := int64_neg hl h.len_lt
          have hzero : (int64 h.len).toNat = 0 := by omega
          rw [hzero, List.drop_zero]
          split
          · rename_i hc
            rw [if_pos (Nat.zero_le _)]
            exact ih (by omega) fun hr => hs (.bare (.inr ⟨hc, hl⟩) hr)
          · rename_i hc
            exact absurd (.here ho hc hl) hs
    · obtain ⟨e', he'⟩ := next_error he
      rw [he']
      exact not_huge_nil

/-! ## One call -/

/-- What the transport gives. -/
inductive Given (size ready : Nat) (s : List UInt8) : Ret → Nat → Prop
  | some {n : Nat} (hn : n ≤ size) (hs : n ≤ s.length)
      (hpos : 0 < size → 0 < ready → 0 < n) : Given size ready s (.ok (s.take n)) n
  | closed (hs : s = []) : Given size ready s (.err .eof) 0

theorem connRead_given (size ready : Nat) (s : List UInt8) :
    Given size ready s (connRead size ready s).1 (connRead size ready s).2 := by
  unfold connRead
  split
  · rename_i hz
    exact .some (n := 0) (Nat.zero_le _) (Nat.zero_le _) fun h => absurd hz (by omega)
  split
  · exact .closed ‹_›
  · rename_i hs
    have hpos : 0 < s.length := List.length_pos_iff.2 hs
    rw [List.take_eq_take_min]
    exact .some (by omega) (by omega) (by omega)

/-- The slice is in range, and the connection is left behind what was read. -/
theorem readData_eq {c : WsConn} (hc : 0 ≤ c.left) (call : Call) :
    ∃ size r n, size = min call.size c.left.toNat ∧ Given size call.ready c.rest r n ∧
      readData c call = (r, ⟨c.rest.drop n, c.left - n⟩) := by
  refine ⟨_, _, _, rfl, connRead_given _ _ _, ?_⟩
  unfold readData
  rw [if_neg fun h => absurd h.2 (by omega)]
  have hsize : (if (call.size : Int) > c.left then c.left.toNat else call.size) =
      min call.size c.left.toNat := by
    split <;> omega
  rw [hsize]

/-- No call from here can panic. -/
structure WsConn.Fine (c : WsConn) : Prop where
  left : 0 ≤ c.left
  ahead : ¬Huge (c.rest.drop c.left.toNat)

theorem readData_fine {c : WsConn} (hc : c.Fine) (call : Call) :
    (readData c call).1 ≠ .crash ∧ (readData c call).2.Fine := by
  obtain ⟨size, r, n, hsize, hg, heq⟩ := readData_eq hc.left call
  have hleft := hc.left
  rw [heq]
  cases hg with
  | some hn hs hpos =>
    refine ⟨nofun, by dsimp only; omega, ?_⟩
    have hsum : n + (c.left - n).toNat = c.left.toNat := by omega
    rw [List.drop_drop, hsum]
    exact hc.ahead
  | closed hs =>
    refine ⟨nofun, by dsimp only; omega, ?_⟩
    rw [hs, List.drop_nil, List.drop_nil]
    exact not_huge_nil

theorem read_fine {c : WsConn} (hc : c.Fine) (call : Call) :
    (c.read call).1 ≠ .crash ∧ (c.read call).2.Fine := by
  unfold WsConn.read
  split
  · rename_i hz
    have hahead := hc.ahead
    rw [hz] at hahead
    have hn := next_fine _ (Nat.le_refl _) hahead
    cases hnext : next c.rest with
    | err e rest =>
      rw [show next (c.rest.drop (0 : Int).toNat) = .err e rest from hnext] at hn
      exact ⟨nofun, Int.le_refl 0, hn⟩
    | data ln rest =>
      rw [show next (c.rest.drop (0 : Int).toNat) = .data ln rest from hnext] at hn
      exact readData_fine ⟨by have := hn.1; dsimp only; omega, hn.2⟩ call
  · exact readData_fine hc call

theorem run_fine {c : WsConn} (hc : c.Fine) (calls : List Call) : .crash ∉ run c calls := by
  induction calls generalizing c with
  | nil => exact List.not_mem_nil
  | cons call calls ih =>
    obtain ⟨hr, hc'⟩ := read_fine hc call
    unfold run
    cases hread : c.read call with
    | mk r c' =>
      rw [hread] at hr hc'
      cases r with
      | crash => exact absurd rfl hr
      | ok p => exact List.not_mem_cons_of_ne_of_not_mem nofun (ih hc')
      | err e => exact List.not_mem_cons_of_ne_of_not_mem nofun (ih hc')

/-! ## A length that does not fit -/

theorem run_congr {s t : List UInt8} (h : next s = next t) (call : Call) (calls : List Call) :
    run ⟨s, 0⟩ (call :: calls) = run ⟨t, 0⟩ (call :: calls) := by
  have hread : (WsConn.mk s 0).read call = (WsConn.mk t 0).read call := by
    simp [WsConn.read, h]
  rw [run, run, hread]

theorem huge_crash {s : List UInt8} (hs : Huge s) :
    ∃ call calls, .crash ∈ run ⟨s, 0⟩ (call :: calls) := by
  induction hs with
  | @here h rest ho hc hl =>
    have hneg := int64_neg hl h.len_lt
    refine ⟨⟨0, 0⟩, [], ?_⟩
    have hnext : next (h.bytes ++ rest) = .data (int64 h.len) rest := by
      rw [next_head, if_neg ho, if_neg hc, if_neg (by omega)]
    have hread : (WsConn.mk (h.bytes ++ rest) 0).read ⟨0, 0⟩ =
        (.crash, ⟨rest, int64 h.len⟩) := by
      simp only [WsConn.read, hnext, if_true, readData]
      exact if_pos ⟨by omega, hneg⟩
    rw [run, hread]
    exact List.mem_singleton_self _
  | @payload h p rest ho hl hp hr ih =>
    obtain ⟨call, calls, ih⟩ := ih
    by_cases hc : h.Control
    · refine ⟨call, calls, ?_⟩
      have hnext : next (h.bytes ++ (p ++ rest)) = next rest := by
        rw [next_head, if_neg ho, if_pos hc, int64_of_lt hl, Int.toNat_natCast, ← hp,
          if_pos (by rw [List.length_append]; omega), List.drop_left]
      rwa [run_congr hnext]
    by_cases hz : h.len = 0
    · refine ⟨call, calls, ?_⟩
      obtain rfl := List.eq_nil_of_length_eq_zero (hp.trans hz)
      have hnext : next (h.bytes ++ ([] ++ rest)) = next rest := by
        rw [next_head, if_neg ho, if_neg hc, int64_of_lt hl, hz]
        rfl
      rwa [run_congr hnext]
    · refine ⟨⟨h.len, h.len⟩, call :: calls, ?_⟩
      have hnext : next (h.bytes ++ (p ++ rest)) = .data h.len (p ++ rest) := by
        rw [next_head, if_neg ho, if_neg hc, int64_of_lt hl, if_neg (by omega)]
      have hread : (WsConn.mk (h.bytes ++ (p ++ rest)) 0).read ⟨h.len, h.len⟩ =
          (.ok p, ⟨rest, 0⟩) := by
        rw [← hp] at hz
        have hne : p ++ rest ≠ [] := fun h0 => hz (by
          rw [(List.append_eq_nil_iff.1 h0).1, List.length_nil])
        simp only [WsConn.read, hnext, if_true, readData, gt_iff_lt, Int.lt_irrefl, false_and,
          if_false, connRead, hne, Nat.min_self, ← hp, List.take_left, hz, List.length_append,
          Nat.min_eq_left (Nat.le_add_right _ _), List.drop_left, Int.sub_self]
      rw [run, hread]
      exact List.mem_cons_of_mem _ ih
  | @bare h rest hh hr ih =>
    obtain ⟨call, calls, ih⟩ := ih
    by_cases ho : h.op = 0x8
    · refine ⟨⟨0, 0⟩, call :: calls, ?_⟩
      have hread : (WsConn.mk (h.bytes ++ rest) 0).read ⟨0, 0⟩ = (.err .eof, ⟨rest, 0⟩) := by
        simp only [WsConn.read, next_head, ho, if_true]
      rw [run, hread]
      exact List.mem_cons_of_mem _ ih
    · obtain ⟨hc, hl⟩ := hh.resolve_left ho
      have hneg := int64_neg hl h.len_lt
      refine ⟨call, calls, ?_⟩
      have hnext : next (h.bytes ++ rest) = next rest := by
        have hzero : (int64 h.len).toNat = 0 := by omega
        rw [next_head, if_neg ho, if_pos hc, hzero, if_pos (Nat.zero_le _), List.drop_zero]
      rwa [run_congr hnext]

/-! ## A conforming stream -/

theorem Frame.encode_cons (f : Frame) (fs : List Frame) :
    encode (f :: fs) = f.head.bytes ++ (f.payload ++ encode fs) := by
  rw [encode, List.flatMap_cons, List.append_assoc]
  rfl

theorem Frame.data_cons (f : Frame) (fs : List Frame) :
    data (f :: fs) = (if f.head.Control then [] else f.payload) ++ data fs := List.flatMap_cons

theorem Frame.op_ne_close (f : Frame) : f.head.op ≠ 0x8 := by
  rcases f.kind with h | h | h | ⟨h | h, -⟩ <;> rw [h] <;> decide

/-- The connection is to deliver exactly `bs`: what is left of a frame, and then frames. -/
def Owes (c : WsConn) (bs : List UInt8) : Prop :=
  ∃ p fs, c.rest = p ++ Frame.encode fs ∧ c.left = p.length ∧ bs = p ++ Frame.data fs

/-- The loop comes to the next payload that is not empty, or to the end. -/
theorem next_encode (fs : List Frame) :
    (∃ p fs', p ≠ [] ∧ next (Frame.encode fs) = .data p.length (p ++ Frame.encode fs') ∧
      Frame.data fs = p ++ Frame.data fs') ∨
    next (Frame.encode fs) = .err .eof [] ∧ Frame.data fs = [] := by
  induction fs with
  | nil => exact .inr ⟨rfl, rfl⟩
  | cons f fs ih =>
    have hln : int64 f.head.len = (f.payload.length : Int) := by
      rw [int64_of_lt f.top, f.length]
    rw [Frame.encode_cons, next_head, if_neg f.op_ne_close, Frame.data_cons, hln]
    by_cases hc : f.head.Control
    · rw [if_pos hc, if_pos hc, Int.toNat_natCast,
        if_pos (by rw [List.length_append]; omega), List.drop_left]
      exact ih
    · rw [if_neg hc, if_neg hc]
      by_cases hp : f.payload = []
      · rw [hp]
        exact ih
      · rw [if_neg (by have := List.length_pos_iff.2 hp; omega)]
        exact .inl ⟨f.payload, fs, hp, rfl, rfl⟩

/-- What a call does to what is to be delivered. -/
def Delivers (call : Call) (bs : List UInt8) : Ret × WsConn → Prop
  | (.ok d, c) => ∃ bs', bs = d ++ bs' ∧ Owes c bs' ∧ (0 < call.size → 0 < call.ready → d ≠ [])
  | (.err _, c) => bs = [] ∧ Owes c []
  | (.crash, _) => False

theorem readData_delivers {p : List UInt8} {fs : List Frame} (call : Call) (hp : p ≠ []) :
    Delivers call (p ++ Frame.data fs) (readData ⟨p ++ Frame.encode fs, p.length⟩ call) := by
  obtain ⟨size, r, n, hsize, hg, heq⟩ := readData_eq
    (c := ⟨p ++ Frame.encode fs, p.length⟩) (Int.natCast_nonneg _) call
  have hpos := List.length_pos_iff.2 hp
  rw [Int.toNat_natCast] at hsize
  rw [heq]
  cases hg with
  | closed hs => exact absurd (List.append_eq_nil_iff.1 hs).1 hp
  | some hn hs hgiven =>
    have hnp : n ≤ p.length := by omega
    refine ⟨p.drop n ++ Frame.data fs, ?_, ⟨p.drop n, fs, ?_, ?_, rfl⟩, fun h1 h2 hnil => ?_⟩
    · rw [List.take_append_of_le_length hnp, ← List.append_assoc, List.take_append_drop]
    · exact List.drop_append_of_le_length hnp
    · rw [List.length_drop]
      dsimp only
      omega
    · have hn0 : 0 < n := hgiven (by omega) h2
      have hlen := congrArg List.length hnil
      rw [List.length_take, List.length_nil] at hlen
      dsimp only at hs hlen
      omega

theorem read_delivers {c : WsConn} {bs : List UInt8} (hc : Owes c bs) (call : Call) :
    Delivers call bs (c.read call) := by
  obtain ⟨p, fs, hrest, hleft, rfl⟩ := hc
  obtain ⟨rest, left⟩ := c
  obtain rfl : rest = p ++ Frame.encode fs := hrest
  obtain rfl : left = p.length := hleft
  unfold WsConn.read
  dsimp only
  by_cases hp : p = []
  · subst hp
    rw [if_pos (by rfl)]
    rcases next_encode fs with ⟨q, fs', hq, hnext, hdata⟩ | ⟨hnext, hdata⟩
    · rw [show next ([] ++ Frame.encode fs) = _ from hnext, hdata]
      exact readData_delivers call hq
    · rw [show next ([] ++ Frame.encode fs) = _ from hnext, hdata]
      exact ⟨rfl, [], [], rfl, rfl, rfl⟩
  · rw [if_neg (by have := List.length_pos_iff.2 hp; omega)]
    exact readData_delivers call hp

/-- All the calls: what they return is what is owed, up to something that is still owed, and to
the end once one of them fails or enough of them had room. -/
theorem run_delivers {c : WsConn} {bs : List UInt8} (hc : Owes c bs) (calls : List Call) :
    returned (run c calls) <+: bs ∧
      ((∃ e, .err e ∈ run c calls) ∨
        bs.length < calls.length ∧ (∀ call ∈ calls, 0 < call.size ∧ 0 < call.ready) →
          returned (run c calls) = bs) := by
  induction calls generalizing c bs with
  | nil =>
    refine ⟨List.nil_prefix, ?_⟩
    rintro (⟨e, he⟩ | ⟨hlt, -⟩)
    · exact absurd he List.not_mem_nil
    · exact absurd hlt (Nat.not_lt_zero _)
  | cons call calls ih =>
    have hr := read_delivers hc call
    unfold run
    cases hread : c.read call with
    | mk r c' =>
      rw [hread] at hr
      cases r with
      | crash => exact hr.elim
      | err e =>
        obtain ⟨rfl, hc'⟩ := hr
        have hnil : returned (.err e :: run c' calls) = [] :=
          List.prefix_nil.1 (ih hc').1
        exact ⟨hnil ▸ List.nil_prefix, fun _ => hnil⟩
      | ok d =>
        obtain ⟨bs', rfl, hc', hd⟩ := hr
        obtain ⟨hpre, hend⟩ := ih hc'
        have hcons : returned (.ok d :: run c' calls) = d ++ returned (run c' calls) :=
          List.flatMap_cons
        rw [hcons]
        refine ⟨(List.prefix_append_right_inj d).2 hpre, fun h => ?_⟩
        rw [hend]
        rcases h with ⟨e, he⟩ | ⟨hlt, hall⟩
        · exact .inl ⟨e, (List.mem_cons.1 he).resolve_left nofun⟩
        · have hfirst := hall call (List.mem_cons_self ..)
          have hpos := List.length_pos_iff.2 (hd hfirst.1 hfirst.2)
          rw [List.length_append, List.length_cons] at hlt
          exact .inr ⟨by omega, fun call hcall => hall call (List.mem_cons_of_mem _ hcall)⟩

/-- No call returns more than it was asked for. -/
theorem run_bounded (c : WsConn) (calls : List Call) :
    ∀ x ∈ calls.zip (run c calls), x.2.bytes.length ≤ x.1.size := by
  have hdata : ∀ c call, (readData c call).1.bytes.length ≤ call.size := by
    intro c call
    rcases Int.lt_or_le c.left 0 with hneg | hpos
    · unfold readData
      rw [if_pos ⟨by omega, hneg⟩]
      exact Nat.zero_le _
    · obtain ⟨size, r, n, hsize, hg, heq⟩ := readData_eq hpos call
      rw [heq]
      cases hg with
      | some hn hs _ =>
        refine Nat.le_trans (List.length_take_le n _) ?_
        omega
      | closed => exact Nat.zero_le _
  have hread : ∀ (c : WsConn) call, (c.read call).1.bytes.length ≤ call.size := by
    intro c call
    unfold WsConn.read
    split
    · split
      · exact Nat.zero_le _
      · exact hdata _ _
    · exact hdata _ _
  induction calls generalizing c with
  | nil => exact fun x hx => absurd hx List.not_mem_nil
  | cons call calls ih =>
    have h := hread c call
    unfold run
    cases hr : c.read call with
    | mk r c' =>
      rw [hr] at h
      cases r with
      | crash =>
        rw [List.zip_cons_cons, List.zip_nil_right]
        exact List.forall_mem_singleton.2 h
      | ok d => exact List.forall_mem_cons.2 ⟨h, ih c'⟩
      | err e => exact List.forall_mem_cons.2 ⟨h, ih c'⟩

/-- The reader on a stream, over a sequence of calls: it does not panic, it returns no more than
it is asked for, and of a conforming stream it returns the payloads of the data frames. -/
structure ReadsWell (stream : List UInt8) (calls : List Call) : Prop where
  safe : .crash ∉ run ⟨stream, 0⟩ calls
  bounded : ∀ x ∈ calls.zip (run ⟨stream, 0⟩ calls), x.2.bytes.length ≤ x.1.size
  exact : ∀ fs, stream = Frame.encode fs →
    returned (run ⟨stream, 0⟩ calls) <+: Frame.data fs ∧
      ((∃ e, .err e ∈ run ⟨stream, 0⟩ calls) ∨
        (Frame.data fs).length < calls.length ∧ (∀ c ∈ calls, 0 < c.size ∧ 0 < c.ready) →
          returned (run ⟨stream, 0⟩ calls) = Frame.data fs)

/-- **The reader is safe and exact** on just the streams that have no data frame of 2^63 bytes or
more. -/
theorem readsWell_iff (stream : List UInt8) :
    (∀ calls, ReadsWell stream calls) ↔ ¬Huge stream := by
  constructor
  · intro h hs
    obtain ⟨call, calls, hcrash⟩ := huge_crash hs
    exact (h (call :: calls)).safe hcrash
  · intro hs calls
    refine ⟨run_fine (c := ⟨stream, 0⟩) ⟨Int.le_refl 0, hs⟩ calls, run_bounded _ calls, fun fs hfs => ?_⟩
    exact run_delivers ⟨[], fs, hfs, rfl, rfl⟩ calls

/-- A binary frame that claims 2^64 - 1 bytes. -/
def allOnes : List UInt8 := [0x82, 0x7f, 0xff, 0xff, 0xff, 0xff, 0xff, 0xff, 0xff, 0xff]

theorem allOnes_panics : ¬ReadsWell allOnes [⟨512, 512⟩] := by
  intro h
  exact absurd h.safe (by decide)

end Ghajar.Ssh
