import Ghajar.Lib.ByteReader
import Ghajar.Lib.Utf8
import Ghajar.Lib.Varint

/-!
# sing-box profile files

`SingBoxProfileFile.decode`. Two bytes of header are followed by a compressed stream of strings
and integers; `Content.Laid` is the grammar of the stream as the comment on the format has it.
`decode_ok_iff` says what is accepted, `profile_iff` when no more than that is.
-/

namespace Ghajar.SingBoxProfileFile

open Bytes ByteReader

structure Content where
  name : String
  type : Int32
  config : String
  remotePath : String
  autoUpdate : Bool
  autoUpdateInterval : Int32
  lastUpdated : Int64
  deriving DecidableEq

inductive Thrown where
  | eof
  | zip
  | invalidConfig (message : String)
  deriving DecidableEq

/-- What comes after the last byte that is unpacked: the end, a file that stops, or one that is
damaged. -/
inductive Ending where
  | finished
  | truncated
  | corrupt
  deriving DecidableEq

structure Unzipped where
  data : List UInt8
  ending : Ending
  deriving DecidableEq

/-- `GZIPInputStream`: nothing where it throws on the header; it gives as many bytes at once as it
has `ready`. And how many bytes a malformed character takes. -/
structure Platform where
  gunzip : List UInt8 → Option Unzipped
  ready : List UInt8 → Nat
  replaced : List UInt8 → Nat

def messageTypeProfileContent : UInt8 := 3

def maxVersion : UInt8 := 1

def maxDecompressed : Nat := 4 * 1024 * 1024

def badHeader : Thrown := .invalidConfig "سرآیند فایل BPF معتبر نیست."

def unsupportedVersion (v : UInt8) : Thrown :=
  .invalidConfig s!"نسخهٔ {v} فایل BPF پشتیبانی نمی‌شود."

def corrupt (why : String) : Thrown := .invalidConfig s!"محتوای فایل BPF خراب است ({why})."

/-! ## Reading -/

/-- The bytes up to the limit. -/
def bounded (u : Unzipped) : List UInt8 := u.data.take maxDecompressed

/-- What is thrown behind them. -/
def bounded.end (u : Unzipped) : Thrown :=
  if maxDecompressed < u.data.length then corrupt "too large"
  else if u.ending = .corrupt then .zip else .eof

section Readers

variable (e : Thrown) (p : Platform)

def byte : ByteReader Thrown UInt8
  | [] => .error e
  | b :: s => .ok (b, s)

/-- `repeat(n)` in `uvarint`, with `x` and `s` as they are then. -/
def uvarintFrom : (n s : Nat) → (x : UInt64) → ByteReader Thrown UInt64
  | 0, _, _ => fail (corrupt "varint")
  | n + 1, s, x => do
    let b ← byte e
    if b < 0x80 then pure (x ||| b.toUInt64 <<< .ofNat s)
    else uvarintFrom n (s + 7) (x ||| (b &&& 0x7f).toUInt64 <<< .ofNat s)

def uvarint : ByteReader Thrown UInt64 := uvarintFrom e 10 0 0

/-- `i.read(out, off, len)`: at least one byte, and at most `len`. -/
def read (len : Nat) : ByteReader Thrown (List UInt8) := fun s =>
  if s.isEmpty then .error e
  else .ok (s.take (min len (max 1 (p.ready s))), s.drop (min len (max 1 (p.ready s))))

/-- `while (off < out.size)`, with `len` bytes still to come. -/
def fill : (rounds len : Nat) → ByteReader Thrown (List UInt8)
  | _, 0 => pure []
  | 0, _ + 1 => fail e
  | rounds + 1, len + 1 => do
    let r ← read e p (len + 1)
    let rest ← fill rounds (len + 1 - r.length)
    pure (r ++ rest)

def text (bs : List UInt8) : String := String.ofList (Utf8.decode p.replaced bs)

def string : ByteReader Thrown String := do
  let n ← uvarint e
  if n.toInt64 < 0 ∨ .ofNat maxDecompressed < n.toInt64 then fail (corrupt "length")
  else
    let out ← fill e p n.toNat n.toNat
    pure (text p out)

def int32 : ByteReader Thrown Int32 := do
  let a ← byte e
  let b ← byte e
  let c ← byte e
  let d ← byte e
  pure (a.toUInt32 <<< 24 ||| b.toUInt32 <<< 16 ||| c.toUInt32 <<< 8 ||| d.toUInt32).toInt32

def int64 : ByteReader Thrown Int64 := do
  let high ← int32 e
  let low ← int32 e
  pure (high.toInt64 <<< 32 ||| low.toInt64 &&& 0xffffffff)

/-- Whether the fields of the update are there. -/
def Updates (version : UInt8) (type : Int32) : Prop := type = 2 ∨ version = 0 ∧ type ≠ 0

instance (version : UInt8) (type : Int32) : Decidable (Updates version type) :=
  inferInstanceAs (Decidable (_ ∨ _))

/-- `autoUpdate`, `interval` and `last` -/
def updates (version : UInt8) (type : Int32) : ByteReader Thrown (Bool × Int32 × Int64) :=
  if Updates version type then do
    let autoUpdate ← byte e
    let interval ← (if 1 ≤ version then int32 e else pure 0)
    let last ← int64 e
    pure (autoUpdate ≠ 0, interval, last)
  else pure (false, 0, 0)

/-- `decode`, from the stream on. -/
def content (version : UInt8) : ByteReader Thrown Content := do
  let name ← string e p
  let type ← int32 e
  if type < 0 ∨ 2 < type then fail (corrupt s!"type {type}")
  else
    let config ← string e p
    let remotePath ← (if type ≠ 0 then string e p else pure "")
    let (autoUpdate, interval, last) ← updates e version type
    pure ⟨name, type, config, remotePath, autoUpdate, interval, last⟩

end Readers

def decode (p : Platform) (bytes : List UInt8) : Except Thrown Content :=
  if bytes.length < 4 ∨ bytes.getD 0 0 ≠ messageTypeProfileContent then .error badHeader
  else if maxVersion < bytes.getD 1 0 then .error (unsupportedVersion (bytes.getD 1 0))
  else
    match p.gunzip (bytes.drop 2) with
    | none => .error (corrupt "gzip")
    | some u =>
      match content (bounded.end u) p (bytes.getD 1 0) (bounded u) with
      | .ok (c, _) => .ok c
      | .error .eof => .error (corrupt "truncated")
      | .error .zip => .error (corrupt "gzip")
      | .error (.invalidConfig m) => .error (.invalidConfig m)

/-! ## The grammar -/

section Grammar

variable (p : Platform)

/-- A length and as many bytes; `m` is what is made of the length. -/
def Spells (m : Nat → Nat) (s : String) (w : List UInt8) : Prop :=
  ∃ v bs, Varint.Spelled v ∧ v.length ≤ 10 ∧ m (Varint.value v) = bs.length ∧
    bs.length ≤ maxDecompressed ∧ s = text p bs ∧ w = v ++ bs

def SpellsPath (m : Nat → Nat) (type : Int32) (s : String) (w : List UInt8) : Prop :=
  if type ≠ 0 then Spells p m s w else s = "" ∧ w = []

/-- The fields of the update, which are left at nothing where they are not there. -/
def SpellsUpdates (version : UInt8) (type : Int32) (u : Bool × Int32 × Int64) (w : List UInt8) :
    Prop :=
  if Updates version type then
    ∃ b : UInt8, u.1 = (b ≠ 0 : Bool) ∧
      if 1 ≤ version then w = b :: (be32 u.2.1.toUInt32 ++ be64 u.2.2.toUInt64)
      else u.2.1 = 0 ∧ w = b :: be64 u.2.2.toUInt64
  else u = (false, 0, 0) ∧ w = []

/-- How a content is laid out in the stream. -/
def Content.Laid (m : Nat → Nat) (version : UInt8) (c : Content) (w : List UInt8) : Prop :=
  ∃ name config path updates, Spells p m c.name name ∧ ¬(c.type < 0 ∨ 2 < c.type) ∧
    Spells p m c.config config ∧ SpellsPath p m c.type c.remotePath path ∧
    SpellsUpdates version c.type (c.autoUpdate, c.autoUpdateInterval, c.lastUpdated) updates ∧
    w = name ++ (be32 c.type.toUInt32 ++ (config ++ (path ++ updates)))

end Grammar

section Words

theorem or_eq {a b i : Nat} (h : b < 2 ^ i) : a * 2 ^ i ||| b = a * 2 ^ i + b := by
  rw [Nat.mul_comm, Nat.two_pow_add_eq_or_of_lt h]

/-- Four bytes shifted to their places. -/
theorem word_eq (a b c d : UInt8) :
    a.toUInt32 <<< 24 ||| b.toUInt32 <<< 16 ||| c.toUInt32 <<< 8 ||| d.toUInt32 =
      rd32 [a, b, c, d] := by
  have ha := a.toNat_lt
  have hb := b.toNat_lt
  have hc := c.toNat_lt
  have hd := d.toNat_lt
  have hshift (x : UInt8) (n : Nat) (hn : n ≤ 24) :
      (x.toUInt32 <<< UInt32.ofNat n).toNat = x.toNat * 2 ^ n := by
    have hx := x.toNat_lt
    rw [UInt32.toNat_shiftLeft, UInt8.toNat_toUInt32, UInt32.toNat_ofNat', Nat.shiftLeft_eq,
      Nat.mod_eq_of_lt (by omega : n < 2 ^ 32), Nat.mod_eq_of_lt (by omega : n < 32),
      Nat.mod_eq_of_lt]
    calc x.toNat * 2 ^ n ≤ 255 * 2 ^ 24 :=
          Nat.mul_le_mul (by omega) (Nat.pow_le_pow_right (by decide) hn)
      _ < 2 ^ 32 := by decide
  have h24 := hshift a 24 (by decide)
  have h16 := hshift b 16 (by decide)
  have h8 := hshift c 8 (by decide)
  rw [← UInt32.toNat_inj, UInt32.toNat_or, UInt32.toNat_or, UInt32.toNat_or,
    show (24 : UInt32) = .ofNat 24 from rfl, show (16 : UInt32) = .ofNat 16 from rfl,
    show (8 : UInt32) = .ofNat 8 from rfl, h24, h16, h8, UInt8.toNat_toUInt32, rd32,
    UInt32.toNat_ofNat']
  have e1 : a.toNat * 2 ^ 24 ||| b.toNat * 2 ^ 16 = (a.toNat * 2 ^ 8 + b.toNat) * 2 ^ 16 := by
    rw [or_eq (by omega)]
    omega
  have e2 : (a.toNat * 2 ^ 8 + b.toNat) * 2 ^ 16 ||| c.toNat * 2 ^ 8 =
      ((a.toNat * 2 ^ 8 + b.toNat) * 2 ^ 8 + c.toNat) * 2 ^ 8 := by
    rw [or_eq (by omega)]
    omega
  rw [e1, e2, or_eq (by omega)]
  simp only [leNat, List.reverse_cons, List.reverse_nil, List.nil_append, List.cons_append]
  omega

theorem be64_halves {v : UInt64} {high low : UInt32}
    (h : v.toNat = high.toNat * 2 ^ 32 + low.toNat) : be64 v = be32 high ++ be32 low := by
  have hh := high.toNat_lt
  have hl := low.toNat_lt
  have hlen : (leBytes 4 low.toNat ++ leBytes 4 high.toNat).length = 8 := by simp
  have hnat : leNat (leBytes 4 low.toNat ++ leBytes 4 high.toNat) = v.toNat := by
    rw [leNat_append, leNat_leBytes, leNat_leBytes, leBytes_length, h]
    omega
  rw [be64, be32, be32, ← List.reverse_append, ← hnat, ← hlen, leBytes_leNat]

/-- The sign of the lower half is masked away, that of the higher one shifted out. -/
theorem long_toNat (high low : Int32) :
    (high.toInt64 <<< 32 ||| low.toInt64 &&& 0xffffffff).toUInt64.toNat =
      high.toUInt32.toNat * 2 ^ 32 + low.toUInt32.toNat := by
  have hlow : (low.toInt64 &&& 0xffffffff).toUInt64.toNat = low.toUInt32.toNat := by
    change (BitVec.signExtend 64 low.toBitVec &&& 0xffffffff#64).toNat = low.toBitVec.toNat
    have hl := low.toBitVec.isLt
    rw [BitVec.toNat_and, BitVec.toNat_signExtend, show (0xffffffff#64).toNat = 2 ^ 32 - 1 from rfl,
      Nat.and_two_pow_sub_one_eq_mod, BitVec.toNat_setWidth]
    split <;> omega
  have hhigh : (high.toInt64 <<< 32).toUInt64.toNat = high.toUInt32.toNat * 2 ^ 32 := by
    change (BitVec.signExtend 64 high.toBitVec <<< (32 : Nat)).toNat = high.toBitVec.toNat * 2 ^ 32
    have hh := high.toBitVec.isLt
    rw [BitVec.toNat_shiftLeft, BitVec.toNat_signExtend, Nat.shiftLeft_eq, BitVec.toNat_setWidth]
    split <;> omega
  have hlt := low.toUInt32.toNat_lt
  change ((high.toInt64 <<< 32).toUInt64 ||| (low.toInt64 &&& 0xffffffff).toUInt64).toNat = _
  rw [UInt64.toNat_or, hlow, hhigh, or_eq hlt]

/-- A length that is refused, which may be one below zero. -/
theorem tooLong_iff (n : UInt64) {m : Nat} (hm : m < 2 ^ 63) :
    n.toInt64 < 0 ∨ .ofNat m < n.toInt64 ↔ m < n.toNat := by
  rw [Int64.lt_iff_toInt_lt, Int64.lt_iff_toInt_lt, Int64.toInt_ofNat_of_lt hm]
  have hn : n.toInt64.toInt = if n.toNat < 2 ^ 63 then (n.toNat : Int) else n.toNat - 2 ^ 64 := by
    change n.toBitVec.toInt = _
    rw [BitVec.toInt_eq_toNat_cond]
    change (if 2 * n.toNat < 2 ^ 64 then _ else _) = _
    split <;> split <;> first | omega | rfl
  have := n.toNat_lt
  rw [hn]
  change _ < (0 : Int) ∨ _ ↔ _
  split <;> omega

end Words

section Readers

variable {e : Thrown} {p : Platform}

theorem reads_byte : Reads (byte e) fun b w => w = [b] := by
  intro s b rest
  constructor
  · intro h
    cases s with
    | nil => cases h
    | cons c s =>
      cases h
      exact ⟨[b], rfl, rfl⟩
  · rintro ⟨_, rfl, rfl⟩
    rfl

theorem toUInt64_eq (b : UInt8) : b.toUInt64 = .ofNat b.toNat := by
  rw [← UInt64.toNat_inj, UInt8.toNat_toUInt64, UInt64.toNat_ofNat']
  have := b.toNat_lt
  omega

theorem and_0x7f (b : UInt8) : (b &&& 0x7f).toNat = b.toNat % 128 := by
  rw [UInt8.toNat_and]
  exact Nat.and_two_pow_sub_one_eq_mod b.toNat 7

/-- The loop reads a number of at most `n` bytes modulo `2 ^ 64`. -/
theorem reads_uvarintFrom {n s : Nat} {x : UInt64} (hs : s + 7 * n = 70) (hx : x.toNat < 2 ^ s) :
    Reads (uvarintFrom e n s x) fun r w => Varint.Spelled w ∧ w.length ≤ n ∧
      r.toNat = (x.toNat + 2 ^ s * Varint.value w) % 2 ^ 64 := by
  induction n generalizing s x with
  | zero =>
    refine (reads_fail _).congr fun r w => ⟨False.elim, ?_⟩
    rintro ⟨hw, hl, -⟩
    rw [List.eq_nil_of_length_eq_zero (Nat.le_zero.1 hl)] at hw
    exact hw
  | succ n ih =>
    have hs64 : s < 64 := by omega
    have hsum (c rest : Nat) : (x.toNat + c * 2 ^ s % 2 ^ 64 + 2 ^ (s + 7) * rest) % 2 ^ 64 =
        (x.toNat + 2 ^ s * (c + 128 * rest)) % 2 ^ 64 := by
      rw [show x.toNat + 2 ^ s * (c + 128 * rest) =
        x.toNat + c * 2 ^ s + 2 ^ (s + 7) * rest by rw [Nat.pow_add]; ring]
      omega
    have hor (c : Nat) (hc : c < 256) := Varint.or_shiftLeft hx hs64 hc
    have hlast (b : UInt8) (hb : b < 0x80) :
        Reads (pure (x ||| b.toUInt64 <<< .ofNat s) : ByteReader Thrown UInt64) fun r w =>
          w = [] ∧ r.toNat = (x.toNat + 2 ^ s * Varint.value [b]) % 2 ^ 64 := by
      refine (reads_pure _).congr fun r w => ?_
      have hb' : b.toNat < 128 := hb
      have hval : (x ||| b.toUInt64 <<< .ofNat s).toNat =
          (x.toNat + 2 ^ s * Varint.value [b]) % 2 ^ 64 := by
        have hmod := hsum b.toNat 0
        rw [toUInt64_eq, hor _ b.toNat_lt, Varint.value, Varint.value, Nat.mod_eq_of_lt hb']
        rw [← hmod, Nat.mul_zero, Nat.add_zero, ← hor _ b.toNat_lt,
          Nat.mod_eq_of_lt (UInt64.toNat_lt _)]
      rw [← hval, UInt64.toNat_inj]
      exact and_comm
    have hmore (b : UInt8) :
        Reads (uvarintFrom e n (s + 7) (x ||| (b &&& 0x7f).toUInt64 <<< .ofNat s)) fun r w =>
          Varint.Spelled w ∧ w.length ≤ n ∧
            r.toNat = (x.toNat + 2 ^ s * Varint.value (b :: w)) % 2 ^ 64 := by
      have hc := hor (b &&& 0x7f).toNat (UInt8.toNat_lt _)
      rw [← toUInt64_eq] at hc
      refine (ih (by omega) ?_).congr fun r w => ?_
      · have hle := Nat.mod_le ((b &&& 0x7f).toNat * 2 ^ s) (2 ^ 64)
        have hmul := Nat.mul_le_mul_right (2 ^ s)
          (Nat.le_of_lt_succ ((and_0x7f b).trans_lt (Nat.mod_lt _ (by decide)) : _ < 127 + 1))
        rw [hc, Nat.pow_add]
        omega
      · rw [hc, hsum, and_0x7f, Varint.value]
    refine (reads_bind reads_byte fun b => reads_ite (hlast b) fun _ => hmore b).congr ?_
    intro r w
    constructor
    · rintro ⟨b, _, u, rfl, hu, rfl⟩
      rw [List.singleton_append, Varint.Spelled]
      split at hu
      case isTrue hb =>
        obtain ⟨rfl, hr⟩ := hu
        rw [if_pos (show b.toNat < 128 from hb)]
        exact ⟨rfl, Nat.succ_le_succ (Nat.zero_le n), hr⟩
      case isFalse hb =>
        rw [if_neg (show ¬b.toNat < 128 from hb)]
        exact ⟨hu.1, Nat.succ_le_succ hu.2.1, hu.2.2⟩
    · rintro ⟨hw, hl, hr⟩
      cases w with
      | nil => exact hw.elim
      | cons b u =>
        refine ⟨b, [b], u, rfl, ?_, rfl⟩
        rw [Varint.Spelled] at hw
        split at hw
        case isTrue hb =>
          rw [if_pos (show b < 0x80 from hb)]
          subst hw
          exact ⟨rfl, hr⟩
        case isFalse hb =>
          rw [if_neg (show ¬b < 0x80 from hb)]
          exact ⟨hw, Nat.le_of_succ_le_succ hl, hr⟩

theorem reads_uvarint : Reads (uvarint e) fun r w => Varint.Spelled w ∧ w.length ≤ 10 ∧
    r.toNat = Varint.value w % 2 ^ 64 := by
  refine (reads_uvarintFrom (n := 10) (s := 0) (x := 0) rfl (by decide)).congr fun r w => ?_
  rw [UInt64.toNat_zero, Nat.zero_add, Nat.pow_zero, Nat.one_mul]

/-- The loop reads `len` bytes however many come at once. -/
theorem fill_eq {rounds len : Nat} (h : len ≤ rounds) : fill e p rounds len = readFull e e len := by
  induction rounds generalizing len with
  | zero =>
    rw [Nat.le_zero.1 h, fill]
    rfl
  | succ rounds ih =>
    cases len with
    | zero => rw [fill]; rfl
    | succ len =>
      funext s
      rw [fill]
      cases s with
      | nil =>
        rw [bind_of_error (e := e) (by rw [read]; rfl)]
        rfl
      | cons b s =>
        generalize hk : min (len + 1) (max 1 (p.ready (b :: s))) = k
        have hread : read e p (len + 1) (b :: s) = .ok ((b :: s).take k, (b :: s).drop k) := by
          rw [read, hk]
          rfl
        rw [bind_of_ok hread]
        by_cases hlen : len + 1 ≤ (b :: s).length
        · have htake : ((b :: s).take k).length = k := List.length_take_of_le (by omega)
          rw [ih (by omega), htake]
          have hrest : readFull e e (len + 1 - k) ((b :: s).drop k) =
              .ok (((b :: s).drop k).take (len + 1 - k), ((b :: s).drop k).drop (len + 1 - k)) := by
            rw [readFull, if_pos (by rw [List.length_drop]; omega)]
          have hmore : k + (len + 1 - k) = len + 1 := by omega
          rw [bind_of_ok hrest, readFull, if_pos hlen, List.drop_drop, hmore]
          have hsplit := List.take_add (l := b :: s) (i := k) (j := len + 1 - k)
          rw [hmore] at hsplit
          rw [hsplit]
          rfl
        · have htake : ((b :: s).take k).length ≤ k := List.length_take_le k _
          have hshort : readFull e e (len + 1 - ((b :: s).take k).length) ((b :: s).drop k) =
              .error e := by
            rw [readFull, if_neg (by rw [List.length_take, List.length_drop]; omega), ite_self]
          rw [ih (by rw [List.length_take, List.length_cons]; omega), bind_of_error hshort,
            readFull, if_neg hlen, ite_self]

theorem reads_string : Reads (string e p) (Spells p (· % 2 ^ 64)) := by
  have hpart (n : UInt64) : Reads (if n.toInt64 < 0 ∨ .ofNat maxDecompressed < n.toInt64 then
      fail (corrupt "length")
    else do
      let out ← fill e p n.toNat n.toNat
      pure (text p out)) fun s w => w.length = n.toNat ∧ w.length ≤ maxDecompressed ∧
        s = text p w := by
    have htoo := tooLong_iff n (m := maxDecompressed) (by decide)
    refine (reads_ite (fun _ => reads_fail _) fun _ => reads_bind (by
      rw [fill_eq le_rfl]
      exact reads_readFull e e n.toNat) fun out => reads_pure (text p out)).congr fun s w => ?_
    constructor
    · intro h
      split at h
      · exact h.elim
      · obtain ⟨out, _, _, ⟨hl, rfl⟩, ⟨rfl, rfl⟩, rfl⟩ := h
        rw [List.append_nil]
        exact ⟨hl, hl ▸ not_lt.1 (mt htoo.2 ‹_›), rfl⟩
    · rintro ⟨hl, hmax, rfl⟩
      rw [if_neg (mt htoo.1 (not_lt.2 (hl ▸ hmax)))]
      exact ⟨w, w, [], ⟨hl, rfl⟩, ⟨rfl, rfl⟩, (List.append_nil w).symm⟩
  refine (reads_bind reads_uvarint hpart).congr fun s w => ?_
  constructor
  · rintro ⟨n, v, bs, ⟨hv, hl, hn⟩, ⟨hlen, hmax, rfl⟩, rfl⟩
    exact ⟨v, bs, hv, hl, hn.symm.trans hlen.symm, hmax, rfl, rfl⟩
  · rintro ⟨v, bs, hv, hl, hn, hmax, rfl, rfl⟩
    have hlt : Varint.value v % 2 ^ 64 < 2 ^ 64 := Nat.mod_lt _ (by decide)
    have hof : (UInt64.ofNat (Varint.value v % 2 ^ 64)).toNat = Varint.value v % 2 ^ 64 :=
      UInt64.toNat_ofNat_of_lt' hlt
    exact ⟨.ofNat (Varint.value v % 2 ^ 64), v, bs, ⟨hv, hl, hof⟩,
      ⟨by rw [hof]; exact hn.symm, hmax, rfl⟩, rfl⟩

theorem reads_int32 : Reads (int32 e) fun v w => w = be32 v.toUInt32 := by
  refine (reads_bind reads_byte fun a => reads_bind reads_byte fun b => reads_bind reads_byte
    fun c => reads_bind reads_byte fun d => reads_pure _).congr fun v w => ?_
  constructor
  · rintro ⟨a, _, _, rfl, ⟨b, _, _, rfl, ⟨c, _, _, rfl, ⟨d, _, _, rfl, ⟨rfl, rfl⟩, rfl⟩, rfl⟩,
      rfl⟩, rfl⟩
    rw [word_eq, UInt32.toUInt32_toInt32, be32_rd32 rfl]
    rfl
  · intro h
    have hl : w.length = 4 := by rw [h, be32_length]
    obtain ⟨a, b, c, d, rfl⟩ := List.length_eq_four.1 hl
    refine ⟨a, [a], [b, c, d], rfl, ⟨b, [b], [c, d], rfl, ⟨c, [c], [d], rfl,
      ⟨d, [d], [], rfl, ⟨?_, rfl⟩, rfl⟩, rfl⟩, rfl⟩, rfl⟩
    rw [word_eq, h, rd32_be32]
    rfl

theorem reads_int64 : Reads (int64 e) fun v w => w = be64 v.toUInt64 := by
  refine (reads_bind reads_int32 fun high => reads_bind reads_int32 fun low =>
    reads_pure _).congr fun v w => ?_
  constructor
  · rintro ⟨high, _, _, rfl, ⟨low, _, _, rfl, ⟨rfl, rfl⟩, rfl⟩, rfl⟩
    rw [be64_halves (long_toNat high low), List.append_nil]
  · rintro rfl
    have hv := v.toUInt64.toNat_lt
    obtain ⟨high, hhigh⟩ : ∃ high : Int32, high.toUInt32.toNat = v.toUInt64.toNat / 2 ^ 32 :=
      ⟨(UInt32.ofNat (v.toUInt64.toNat / 2 ^ 32)).toInt32, by
        rw [UInt32.toUInt32_toInt32, UInt32.toNat_ofNat_of_lt']
        show _ < 4294967296
        omega⟩
    obtain ⟨low, hlow⟩ : ∃ low : Int32, low.toUInt32.toNat = v.toUInt64.toNat % 2 ^ 32 :=
      ⟨(UInt32.ofNat (v.toUInt64.toNat % 2 ^ 32)).toInt32, by
        rw [UInt32.toUInt32_toInt32, UInt32.toNat_ofNat_of_lt']
        show _ < 4294967296
        omega⟩
    have hnat : v.toUInt64.toNat = high.toUInt32.toNat * 2 ^ 32 + low.toUInt32.toNat := by omega
    refine ⟨high, _, _, rfl, ⟨low, _, [], rfl, ⟨?_, rfl⟩, rfl⟩, by
      rw [be64_halves hnat, List.append_nil]⟩
    rw [← long_toNat] at hnat
    exact congrArg UInt64.toInt64 (UInt64.toNat_inj.1 hnat)

theorem reads_path (type : Int32) :
    Reads (if type ≠ 0 then string e p else pure "") (SpellsPath p (· % 2 ^ 64) type) :=
  reads_ite (fun _ => reads_string) fun _ => reads_pure ""

theorem reads_updates (version : UInt8) (type : Int32) :
    Reads (updates e version type) (SpellsUpdates version type) := by
  refine reads_ite (fun _ => ?_) fun _ => reads_pure _
  refine (reads_bind reads_byte fun b => reads_bind (reads_ite (c := 1 ≤ version)
    (fun _ => reads_int32) fun _ => reads_pure 0) fun interval => reads_bind reads_int64 fun last => reads_pure _).congr ?_
  intro u w
  constructor
  · rintro ⟨b, _, _, rfl, ⟨interval, v, _, hv, ⟨last, _, _, rfl, ⟨rfl, rfl⟩, rfl⟩, rfl⟩, rfl⟩
    refine ⟨b, rfl, ?_⟩
    rw [List.append_nil]
    split at hv
    · rw [if_pos ‹_›, hv]
      rfl
    · obtain ⟨rfl, rfl⟩ := hv
      rw [if_neg ‹_›]
      exact ⟨rfl, rfl⟩
  · rintro ⟨b, hb, hw⟩
    refine ⟨b, [b], _, rfl, ⟨u.2.1, if 1 ≤ version then be32 u.2.1.toUInt32 else [], _, ?_,
      ⟨u.2.2, _, [], rfl, ⟨Prod.ext hb rfl, rfl⟩, rfl⟩, rfl⟩, ?_⟩
    · split
      · rfl
      · rw [if_neg ‹_›] at hw
        exact ⟨hw.1, rfl⟩
    · rw [List.append_nil]
      split at hw
      · rw [if_pos ‹_›, hw]
        rfl
      · rw [if_neg ‹_›, hw.2]
        rfl

/-- The grammar whose lengths are taken modulo `2 ^ 64` is what is read. -/
theorem reads_content (version : UInt8) :
    Reads (content e p version) (Content.Laid p (· % 2 ^ 64) version) := by
  unfold content
  refine (reads_bind reads_string fun name => reads_bind reads_int32 fun type => reads_ite
    (c := type < 0 ∨ 2 < type) (fun _ => reads_fail _) fun _ => reads_bind reads_string fun config => reads_bind
    (reads_path type) fun path => reads_bind (reads_updates version type) fun u =>
      reads_pure (⟨name, type, config, path, u.1, u.2.1, u.2.2⟩ : Content)).congr fun c w => ?_
  constructor
  · rintro ⟨name, v1, _, hname, ⟨type, _, _, rfl, htype, rfl⟩, rfl⟩
    split at htype
    · exact htype.elim
    · obtain ⟨config, v2, _, hconfig, ⟨path, v3, _, hpath, ⟨u, v4, _, hu, ⟨rfl, rfl⟩, rfl⟩, rfl⟩,
        rfl⟩ := htype
      rw [List.append_nil]
      exact ⟨v1, v2, v3, v4, hname, ‹_›, hconfig, hpath, hu, rfl⟩
  · rintro ⟨v1, v2, v3, v4, hname, htype, hconfig, hpath, hu, rfl⟩
    refine ⟨c.name, v1, _, hname, ⟨c.type, _, _, rfl, ?_, rfl⟩, rfl⟩
    rw [if_neg htype]
    exact ⟨c.config, v2, _, hconfig, ⟨c.remotePath, v3, _, hpath, ⟨_, v4, [], hu, ⟨rfl, rfl⟩,
      by rw [List.append_nil]⟩, rfl⟩, rfl⟩

end Readers

/-! ## What is accepted -/

section Decode

variable {p : Platform} {bytes : List UInt8} {c : Content}

/-- The header of a profile file, and what is packed behind it. -/
def Header (bytes : List UInt8) : Prop :=
  4 ≤ bytes.length ∧ bytes.getD 0 0 = messageTypeProfileContent ∧ bytes.getD 1 0 ≤ maxVersion

theorem take_bounded {head rest : List UInt8} {u : Unzipped} :
    bounded u = head ++ rest → ∃ rest', u.data = head ++ rest' ∧ head.length ≤ maxDecompressed := by
  intro h
  refine ⟨rest ++ u.data.drop maxDecompressed, ?_, ?_⟩
  · rw [← List.append_assoc, ← h]
    exact (List.take_append_drop _ _).symm
  · have hlen := congrArg List.length h
    rw [bounded, List.length_take, List.length_append] at hlen
    omega

theorem bounded_append {head rest : List UInt8} {u : Unzipped} (h : u.data = head ++ rest)
    (hmax : head.length ≤ maxDecompressed) :
    bounded u = head ++ rest.take (maxDecompressed - head.length) := by
  rw [bounded, h, List.take_append, List.take_of_length_le hmax]

theorem decode_header (h : ¬Header bytes) :
    ∃ m, decode p bytes = .error (.invalidConfig m) := by
  unfold decode
  by_cases hhead : bytes.length < 4 ∨ bytes.getD 0 0 ≠ messageTypeProfileContent
  · exact ⟨_, if_pos hhead⟩
  · rw [if_neg hhead]
    rw [not_or, not_lt, not_not] at hhead
    by_cases hversion : maxVersion < bytes.getD 1 0
    · exact ⟨_, if_pos hversion⟩
    · exact absurd ⟨hhead.1, hhead.2, UInt8.not_lt.1 hversion⟩ h

theorem decode_of_header (h : Header bytes) : decode p bytes =
    match p.gunzip (bytes.drop 2) with
    | none => .error (corrupt "gzip")
    | some u =>
      match content (bounded.end u) p (bytes.getD 1 0) (bounded u) with
      | .ok (c, _) => .ok c
      | .error .eof => .error (corrupt "truncated")
      | .error .zip => .error (corrupt "gzip")
      | .error (.invalidConfig m) => .error (.invalidConfig m) := by
  unfold decode
  rw [if_neg (not_or.2 ⟨not_lt.2 h.1, not_not.2 h.2.1⟩), if_neg (UInt8.not_lt.2 h.2.2)]

/-- Nothing else is thrown. -/
theorem decode_throws : (∃ c, decode p bytes = .ok c) ∨
    ∃ m, decode p bytes = .error (.invalidConfig m) := by
  by_cases h : Header bytes
  · rw [decode_of_header h]
    split
    · exact .inr ⟨_, rfl⟩
    · split
      · exact .inl ⟨_, rfl⟩
      · exact .inr ⟨_, rfl⟩
      · exact .inr ⟨_, rfl⟩
      · exact .inr ⟨_, rfl⟩
  · exact .inr (decode_header h)

/-- A content that stands at the head of what is unpacked, within the limit. -/
def Stands (p : Platform) (m : Nat → Nat) (bytes : List UInt8) (u : Unzipped) (c : Content) : Prop :=
  ∃ head rest, u.data = head ++ rest ∧ head.length ≤ maxDecompressed ∧
    c.Laid p m (bytes.getD 1 0) head

/-- **What is accepted**: a content at the head, with its lengths modulo `2 ^ 64`. -/
theorem decode_ok_iff : decode p bytes = .ok c ↔
    Header bytes ∧ ∃ u, p.gunzip (bytes.drop 2) = some u ∧ Stands p (· % 2 ^ 64) bytes u c := by
  constructor
  · intro hok
    have hheader : Header bytes := by
      by_contra hn
      obtain ⟨m, hm⟩ := decode_header (p := p) hn
      rw [hm] at hok
      cases hok
    rw [decode_of_header hheader] at hok
    split at hok
    · cases hok
    · rename_i u hu
      split at hok
      · rename_i c' rest hc
        cases hok
        obtain ⟨head, hlaid, hhead⟩ := (reads_content _ _ _ _).1 hc
        obtain ⟨rest', hdata, hmax⟩ := take_bounded hhead
        exact ⟨hheader, u, hu, head, rest', hdata, hmax, hlaid⟩
      all_goals cases hok
  · rintro ⟨hheader, u, hu, head, rest, hdata, hmax, hlaid⟩
    have hc : content (bounded.end u) p (bytes.getD 1 0) (bounded u) =
        .ok (c, rest.take (maxDecompressed - head.length)) := by
      rw [bounded_append hdata hmax]
      exact (reads_content _).ok hlaid
    rw [decode_of_header hheader, hu]
    dsimp only
    rw [hc]

end Decode

/-! ## Encoding -/

section Encode

/-- A length and the bytes of the text. -/
def encodeString (s : String) : List UInt8 :=
  Varint.encode (Utf8.encode s.toList).length ++ Utf8.encode s.toList

def encodeUpdates (version : UInt8) (c : Content) : List UInt8 :=
  if Updates version c.type then
    (if c.autoUpdate then 1 else 0) ::
      ((if 1 ≤ version then be32 c.autoUpdateInterval.toUInt32 else []) ++
        be64 c.lastUpdated.toUInt64)
  else []

/-- A content as the comment on the format has it. -/
def Content.encode (version : UInt8) (c : Content) : List UInt8 :=
  encodeString c.name ++ (be32 c.type.toUInt32 ++ (encodeString c.config ++
    ((if c.type ≠ 0 then encodeString c.remotePath else []) ++ encodeUpdates version c)))

/-- A content of one of the three types, with nothing in the fields that it does not have. -/
structure Content.Fits (version : UInt8) (c : Content) : Prop where
  type : ¬(c.type < 0 ∨ 2 < c.type)
  path : c.type = 0 → c.remotePath = ""
  interval : ¬(Updates version c.type ∧ 1 ≤ version) → c.autoUpdateInterval = 0
  updates : ¬Updates version c.type → c.autoUpdate = false ∧ c.lastUpdated = 0

variable {p : Platform} {version : UInt8} {c : Content}

theorem spells_encodeString {s : String}
    (h : (Utf8.encode s.toList).length ≤ maxDecompressed) : Spells p id s (encodeString s) := by
  refine ⟨_, _, Varint.encode_spelled _, ?_, Varint.value_encode _, h, ?_, rfl⟩
  · have hlt : (Utf8.encode s.toList).length < 128 ^ (3 + 1) := h.trans_lt (by decide)
    exact (Varint.encode_length hlt).trans (by decide)
  · rw [text, Utf8.decode_encode, String.ofList_toList]

theorem spellsUpdates_encode (h : c.Fits version) :
    SpellsUpdates version c.type (c.autoUpdate, c.autoUpdateInterval, c.lastUpdated)
      (encodeUpdates version c) := by
  unfold SpellsUpdates encodeUpdates
  by_cases hu : Updates version c.type
  · rw [if_pos hu, if_pos hu]
    refine ⟨if c.autoUpdate then 1 else 0, by cases c.autoUpdate <;> rfl, ?_⟩
    by_cases hv : 1 ≤ version
    · rw [if_pos hv, if_pos hv]
    · rw [if_neg hv, if_neg hv]
      exact ⟨h.interval fun hn => hv hn.2, rfl⟩
  · obtain ⟨hauto, hlast⟩ := h.updates hu
    rw [if_neg hu, if_neg hu, hauto, hlast, h.interval fun hn => hu hn.1]
    exact ⟨rfl, rfl⟩

/-- What is written is laid out by the grammar, with every length as it is. -/
theorem laid_encode (h : c.Fits version) (hmax : (c.encode version).length ≤ maxDecompressed) :
    c.Laid p id version (c.encode version) := by
  have hname : (Utf8.encode c.name.toList).length ≤ maxDecompressed := by
    simp only [Content.encode, encodeString, List.length_append] at hmax
    omega
  have hconfig : (Utf8.encode c.config.toList).length ≤ maxDecompressed := by
    simp only [Content.encode, encodeString, List.length_append] at hmax
    omega
  refine ⟨_, _, _, _, spells_encodeString hname, h.type, spells_encodeString hconfig, ?_,
    spellsUpdates_encode h, rfl⟩
  unfold SpellsPath
  by_cases ht : c.type ≠ 0
  · simp only [Content.encode, encodeString, List.length_append, if_pos ht] at hmax
    rw [if_pos ht, if_pos ht]
    exact spells_encodeString (by omega)
  · rw [if_neg ht, if_neg ht]
    exact ⟨h.path (not_not.1 ht), rfl⟩

/-- A length as it is is one modulo `2 ^ 64`, as no text is that long. -/
theorem Spells.mod {s : String} {w : List UInt8} (h : Spells p id s w) :
    Spells p (· % 2 ^ 64) s w := by
  obtain ⟨v, bs, hv, hl, hn, hmax, hs, rfl⟩ := h
  have hmod : Varint.value v % 2 ^ 64 = Varint.value v :=
    Nat.mod_eq_of_lt (hn.trans_lt (hmax.trans_lt (by decide)))
  exact ⟨v, bs, hv, hl, hmod.trans hn, hmax, hs, rfl⟩

theorem Content.Laid.mod {w : List UInt8} (h : c.Laid p id version w) :
    c.Laid p (· % 2 ^ 64) version w := by
  obtain ⟨name, config, path, updates, hname, ht, hconfig, hpath, hu, rfl⟩ := h
  refine ⟨name, config, path, updates, hname.mod, ht, hconfig.mod, ?_, hu, rfl⟩
  unfold SpellsPath at hpath ⊢
  split at hpath
  · rw [if_pos ‹_›]
    exact hpath.mod
  · rw [if_neg ‹_›]
    exact hpath

end Encode

/-! ## What is to be refused -/

/-- The file is cut short or of another kind, or has more in it than the limit, or what is unpacked
does not begin with a content. -/
def Faulty (p : Platform) (bytes : List UInt8) : Prop :=
  ¬Header bytes ∨ ∀ u, p.gunzip (bytes.drop 2) = some u →
    u.ending = .truncated ∨ maxDecompressed < u.data.length ∨ ¬∃ c, Stands p id bytes u c

/-- Such a file throws `InvalidConfig` and nothing else does, and what is returned is all there. -/
def Refuses (p : Platform) (bytes : List UInt8) : Prop :=
  (Faulty p bytes → ∃ m, decode p bytes = .error (.invalidConfig m)) ∧
  (∀ e, decode p bytes = .error e → ∃ m, e = .invalidConfig m) ∧
  ∀ c, decode p bytes = .ok c →
    ∃ u, p.gunzip (bytes.drop 2) = some u ∧ Stands p id bytes u c

/-- A content stands at the head of a file that is cut short behind it, or that unpacks to more than
the limit; or a length in it has lost bits above the sixty-fourth. -/
def Slips (p : Platform) (bytes : List UInt8) : Prop :=
  Header bytes ∧ ∃ u head rest, ∃ c : Content, p.gunzip (bytes.drop 2) = some u ∧ u.data = head ++ rest ∧
    head.length ≤ maxDecompressed ∧ c.Laid p (· % 2 ^ 64) (bytes.getD 1 0) head ∧
    (u.ending = .truncated ∨ maxDecompressed < u.data.length ∨
      ¬c.Laid p id (bytes.getD 1 0) head)

section Refuses

variable {p : Platform} {bytes : List UInt8} {c c' : Content}

/-- Only one content stands at the head. -/
theorem laid_unique {version : UInt8} {head head' rest rest' : List UInt8}
    (h : c.Laid p (· % 2 ^ 64) version head) (h' : c'.Laid p (· % 2 ^ 64) version head')
    (he : head ++ rest = head' ++ rest') : c = c' ∧ head = head' := by
  have hreads : Reads (content .eof p version) _ := reads_content version
  have hread : content .eof p version (head ++ rest) = _ := hreads.ok h
  have hread' : content .eof p version (head' ++ rest') = _ := hreads.ok h'
  rw [he, hread'] at hread
  cases hread
  exact ⟨rfl, List.append_cancel_right he⟩

theorem refuses_iff : Refuses p bytes ↔ ¬Slips p bytes := by
  constructor
  · rintro ⟨hfaulty, -, hwhole⟩ ⟨hheader, u, head, rest, c, hu, hdata, hmax, hlaid, hslip⟩
    have hok : decode p bytes = .ok c :=
      decode_ok_iff.2 ⟨hheader, u, hu, head, rest, hdata, hmax, hlaid⟩
    have hnot : ¬Faulty p bytes := fun hf => by
      obtain ⟨m, hm⟩ := hfaulty hf
      rw [hok] at hm
      cases hm
    apply hnot
    refine .inr fun u' hu' => ?_
    obtain rfl : u = u' := Option.some.inj (hu.symm.trans hu')
    refine hslip.imp_right (Or.imp_right fun hlost => ?_)
    rintro ⟨c', head', rest', hdata', -, hlaid'⟩
    obtain ⟨rfl, rfl⟩ := laid_unique hlaid hlaid'.mod (hdata.symm.trans hdata')
    exact hlost hlaid'
  · intro hslips
    have hstands (c : Content) (hok : decode p bytes = .ok c) : Header bytes ∧
        ∃ u, p.gunzip (bytes.drop 2) = some u ∧ u.ending ≠ .truncated ∧
          u.data.length ≤ maxDecompressed ∧ Stands p id bytes u c := by
      obtain ⟨hheader, u, hu, head, rest, hdata, hmax, hlaid⟩ := decode_ok_iff.1 hok
      by_contra hn
      refine hslips ⟨hheader, u, head, rest, c, hu, hdata, hmax, hlaid, ?_⟩
      by_contra hslip
      rw [not_or, not_or, not_lt, not_not] at hslip
      exact hn ⟨hheader, u, hu, hslip.1, hslip.2.1, head, rest, hdata, hmax, hslip.2.2⟩
    refine ⟨fun hfaulty => ?_, fun e he => ?_, fun c hok => ?_⟩
    · rcases @decode_throws p bytes with ⟨c, hok⟩ | hthrown
      · obtain ⟨hheader, u, hu, hend, hlen, hc⟩ := hstands c hok
        rcases hfaulty with hn | hfaulty
        · exact absurd hheader hn
        · rcases hfaulty u hu with h | h | h
          · exact absurd h hend
          · exact absurd h (not_lt.2 hlen)
          · exact absurd ⟨c, hc⟩ h
      · exact hthrown
    · rcases @decode_throws p bytes with ⟨c, hok⟩ | ⟨m, hm⟩
      · rw [hok] at he
        cases he
      · rw [hm] at he
        cases he
        exact ⟨m, rfl⟩
    · obtain ⟨-, u, hu, -, -, hc⟩ := hstands c hok
      exact ⟨u, hu, hc⟩

end Refuses

/-- **Profiles come back** from their files, and every faulty file is refused exactly when it is not
one of the three kinds that slip through. -/
theorem profile_iff (p : Platform) (hlong : ∀ z u, p.gunzip z = some u → 10 ≤ z.length) :
    (∀ version ≤ maxVersion, ∀ c : Content, c.Fits version →
      (c.encode version).length ≤ maxDecompressed → ∀ zipped,
        p.gunzip zipped = some ⟨c.encode version, .finished⟩ →
          decode p (messageTypeProfileContent :: version :: zipped) = .ok c) ∧
    ∀ bytes, Refuses p bytes ↔ ¬Slips p bytes := by
  refine ⟨fun version hversion c hfits hmax zipped hz => ?_, fun bytes => refuses_iff⟩
  have hlen := hlong _ _ hz
  refine decode_ok_iff.2 ⟨⟨?_, rfl, hversion⟩, _, hz, c.encode version, [], ?_, hmax,
    (laid_encode hfits hmax).mod⟩
  · rw [List.length_cons, List.length_cons]
    omega
  · rw [List.append_nil]

/-! ## A small profile -/

def crcStep (c : UInt32) : UInt32 := if c &&& 1 = 1 then c >>> 1 ^^^ 0xedb88320 else c >>> 1

def crc32 (bs : List UInt8) : UInt32 :=
  bs.foldl (fun c b => crcStep^[8] (c ^^^ b.toUInt32)) 0xffffffff ^^^ 0xffffffff

/-- A gzip stream of one block that is stored as it is, without a name or a comment. -/
def stored (z : List UInt8) : Option Unzipped :=
  if z.length < 10 ∨ z.take 4 ≠ [0x1f, 0x8b, 8, 0] then none
  else
    match z.drop 10 with
    | 1 :: a :: b :: c :: d :: rest =>
      let len := a.toNat + 256 * b.toNat
      if c ≠ ~~~a ∨ d ≠ ~~~b then some ⟨[], .corrupt⟩
      else if rest.length < len + 8 then some ⟨rest.take len, .truncated⟩
      else if (rest.drop len).take 8 = leBytes 4 (crc32 (rest.take len)).toNat ++ leBytes 4 len then
        some ⟨rest.take len, .finished⟩
      else some ⟨rest.take len, .corrupt⟩
    | 1 :: _ => some ⟨[], .truncated⟩
    | [] => some ⟨[], .truncated⟩
    | _ => some ⟨[], .corrupt⟩

def storedPlatform : Platform := ⟨stored, fun _ => 1, fun _ => 1⟩

theorem stored_long (z : List UInt8) (u : Unzipped) (h : storedPlatform.gunzip z = some u) :
    10 ≤ z.length := by
  change stored z = some u at h
  unfold stored at h
  split at h
  · cases h
  · rename_i hn
    exact not_lt.1 (not_or.1 hn).1

def small : Content := ⟨"p", 0, "\x7b\x7d", "", false, 0, 0⟩

theorem small_fits : small.Fits 1 where
  type := by decide
  path _ := rfl
  interval _ := rfl
  updates _ := ⟨rfl, rfl⟩

def smallZipped : List UInt8 :=
  [0x1f, 0x8b, 8, 0, 0, 0, 0, 0, 0, 0xff, 1, 9, 0, 0xf6, 0xff,
    1, 0x70, 0, 0, 0, 0, 2, 0x7b, 0x7d, 0xaf, 0xe8, 0xd9, 0xbc, 9, 0, 0, 0]

theorem small_encode : small.encode 1 = [1, 0x70, 0, 0, 0, 0, 2, 0x7b, 0x7d] := by
  decide +kernel

theorem small_profile_returns : decode storedPlatform (3 :: 1 :: smallZipped) = .ok small := by
  have hmax : (small.encode 1).length ≤ maxDecompressed := by rw [small_encode]; decide
  have hz : storedPlatform.gunzip smallZipped = some ⟨small.encode 1, .finished⟩ := by
    rw [small_encode]
    decide +kernel
  exact (profile_iff storedPlatform stored_long).1 1 (by decide) small small_fits hmax _ hz

/-- The same file without its last byte: the content is returned before the end is seen. -/
theorem cut_returns : ¬Refuses storedPlatform (3 :: 1 :: smallZipped.dropLast) := by
  have hz : stored smallZipped.dropLast = some ⟨small.encode 1, .truncated⟩ := by
    rw [small_encode]
    decide +kernel
  refine fun h => refuses_iff.1 h ⟨⟨by decide, rfl, by decide⟩, _, small.encode 1, [], small, hz,
    (List.append_nil _).symm, ?_, (laid_encode small_fits ?_).mod, .inl rfl⟩
  all_goals
    rw [small_encode]
    decide

end Ghajar.SingBoxProfileFile
