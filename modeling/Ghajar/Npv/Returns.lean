import Mathlib.Data.List.TakeDrop
import Ghajar.Npv.Container

/-!
# When opening a container returns

`Breaks` lists what `open` throws on: a length that its offset wraps around with, in the body of a
first generation container and in the header, the metadata and the body of a second generation
one; and a list of configurations that leaves one out. `open_returns_iff` says that these are all.
-/

namespace Ghajar.Npv

open Exits JavaArray

/-- The length `n` that stands behind `off` bytes is no negative number, and wraps with them. -/
def Wraps (off n : Nat) : Prop := n < 2 ^ 31 ∧ 2 ^ 31 ≤ off + n

/-! ## Lengths -/

section Lengths

variable {b : List UInt8} {l o n : Nat}

theorem size_lt (hb : b.length ≤ maxBytes) (hn : n < 2 ^ 31) :
    size b < .ofNat n ↔ b.length < n := ofNat_lt (by unfold maxBytes at hb; omega) hn

/-- What the check of a length lets pass: the range is there, or the sum has wrapped. -/
theorem passes (hb : b.length ≤ maxBytes) (hoff : o + l < 2 ^ 31) (hn : n < 2 ^ 32) :
    ¬(Int32.ofNat n < .ofNat l ∨ size b < .ofNat (o + n)) ↔
      l ≤ n ∧ o + n ≤ b.length ∨ Wraps o n := by
  have hb' : b.length < 2 ^ 31 := by unfold maxBytes at hb; omega
  by_cases hhigh : n < 2 ^ 31
  · rw [not_or, ofNat_lt hhigh (by omega), Wraps]
    by_cases hsum : o + n < 2 ^ 31
    · rw [size_lt hb hsum]
      omega
    · have hneg : ¬size b < .ofNat (o + n) := not_lt_high (by omega) (by omega) hb'
      constructor
      · intro _
        exact .inr ⟨hhigh, by omega⟩
      · intro _
        exact ⟨by omega, hneg⟩
  · refine iff_of_false (fun h => h (.inl (high_lt (by omega) hn (by omega)))) ?_
    rintro (h | h)
    · unfold maxBytes at hb
      omega
    · exact hhigh h.1

/-- The first byte of a number is its highest. -/
theorem u32_high (h : o + 4 ≤ b.length) : u32 b o / 2 ^ 24 = (b.getD o 0).toNat := by
  obtain ⟨x, y, z, w, hx⟩ : ∃ x y z w, (b.drop o).take 4 = [x, y, z, w] := by
    have hlen : ((b.drop o).take 4).length = 4 := by
      rw [List.length_take, List.length_drop]
      omega
    match hm : (b.drop o).take 4 with
    | [x, y, z, w] => exact ⟨x, y, z, w, rfl⟩
    | [] | [_] | [_, _] | [_, _, _] | _ :: _ :: _ :: _ :: _ :: _ => simp [hm] at hlen
  have hget : b.getD o 0 = x := by
    have h0 : ((b.drop o).take 4)[0]? = some x := by rw [hx]; rfl
    rw [List.getElem?_take_of_lt (by omega), List.getElem?_drop, Nat.add_zero] at h0
    rw [List.getD_eq_getElem?_getD, h0]
    rfl
  have := x.toNat_lt
  have := y.toNat_lt
  have := z.toNat_lt
  have := w.toNat_lt
  rw [u32, hx, hget, Bytes.rd32, UInt32.toNat_ofNat']
  simp only [List.reverse_cons, List.reverse_nil, List.nil_append, List.cons_append, Bytes.leNat]
  omega

end Lengths

theorem add_ofNat (m n : Nat) : Int32.ofNat m + Int32.ofNat n = .ofNat (m + n) :=
  (Int32.ofNat_add m n).symm

/-! ## The body behind a header -/

section Body

variable {b : List UInt8} {i l : Nat}

/-- The length of the body that begins with its nonce at `i`. -/
def bodyLenAt (b : List UInt8) (i : Nat) : Nat := u32 b (i + 12)

/-- The body is in the file, with the 64 bytes behind it. -/
structure BodyAt (b : List UInt8) (i l : Nat) : Prop where
  head : i + 16 ≤ b.length
  long : l ≤ bodyLenAt b i
  fits : i + 80 + bodyLenAt b i ≤ b.length

def BodyWraps (b : List UInt8) (i : Nat) : Prop :=
  i + 16 ≤ b.length ∧ Wraps (i + 80) (bodyLenAt b i)

/-- How both generations read it: it throws where its length wraps around. -/
theorem body_settles {α : Type} {f : List UInt8 → List UInt8 → α} {r q : Result}
    (hb : b.length ≤ maxBytes) (hi : i ≤ b.length) (hl : l ≤ 32) :
    Settles (do
        leaveIf (size b < .ofNat i + 16) r
        let nonce ← copyOfRange b (.ofNat i) (.ofNat i + 12)
        let bodyLen ← getInt b (.ofNat i + 12)
        leaveIf (bodyLen < .ofNat l ∨ size b < .ofNat i + 16 + bodyLen + 64) q
        let body ← copyOfRange b (.ofNat i + 16) (.ofNat i + 16 + bodyLen)
        pure (f nonce body) : Step α)
      (BodyWraps b i)
      (fun a => BodyAt b i l ∧
        a = f ((b.drop i).take 12) ((b.drop (i + 16)).take (bodyLenAt b i))) := by
  have hmax : b.length ≤ 8388608 := hb
  have hb' : b.length < 2 ^ 31 := by omega
  have hm : bodyLenAt b i < 2 ^ 32 := u32_lt b _
  have h12 : Int32.ofNat i + 12 = .ofNat (i + 12) := add_ofNat i 12
  have h16 : Int32.ofNat i + 16 = .ofNat (i + 16) := add_ofNat i 16
  have hlen : Int32.ofNat (i + 16) + .ofNat (bodyLenAt b i) = .ofNat (i + 16 + bodyLenAt b i) :=
    add_ofNat _ _
  have h64 : Int32.ofNat (i + 16 + bodyLenAt b i) + 64 = .ofNat (i + 80 + bodyLenAt b i) := by
    rw [show i + 80 + bodyLenAt b i = i + 16 + bodyLenAt b i + 64 by omega]
    exact add_ofNat _ 64
  rw [h12, h16]
  refine Settles.check (fun hc => ?_) fun hhead => ?_
  · have hshort := (size_lt hb (by omega)).1 hc
    exact ⟨fun h => by have := h.1; omega, fun _ h => by have := h.1.head; omega⟩
  have hhead : i + 16 ≤ b.length := Nat.not_lt.1 fun h => hhead ((size_lt hb (by omega)).2 h)
  refine Settles.read (copyOfRange_eq hb' (by omega) (by omega)) ?_
  refine Settles.read (getInt_eq hb' (by omega)) ?_
  rw [← bodyLenAt, hlen, h64]
  have hpass := passes (l := l) (o := i + 80) hb (by omega) hm
  refine Settles.check (fun hc => ?_) fun hc => ?_
  · have hnone := fun h => hpass.2 h hc
    exact ⟨fun h => hnone (.inr h.2), fun _ h => hnone (.inl ⟨h.1.long, h.1.fits⟩)⟩
  rcases hpass.1 hc with hfits | hwraps
  · refine Settles.read (copyOfRange_eq hb' (by omega) (by omega)) ?_
    rw [Nat.add_sub_cancel_left, Nat.add_sub_cancel_left]
    refine Settles.done (fun h => ?_) fun a => ?_
    · have := h.2.2
      omega
    · exact and_iff_right ⟨hhead, hfits.1, hfits.2⟩
  · have hlow := hwraps.1
    have hhigh := hwraps.2
    refine Settles.fails (not_safe_copyOfRange hb' hhead hlow (by omega)) ⟨hhead, hwraps⟩
      fun a h => ?_
    have := h.1.fits
    omega

end Body

/-! ## Lists of configurations -/

section

variable (p : Platform)

theorem safe_links {f : Value → Value} {configs : List Value} :
    Safe (links p f configs) ↔ .missing ∉ configs := by
  rw [links, safe_mapM]
  · constructor
    · intro h hm
      exact not_safe_throws (h _ hm)
    · intro h v hv
      cases v with
      | missing => exact absurd hv h
      | _ => exact safe_ok
  · intro v _ r
    cases v <;> exact nofun

theorem safe_linesFromPayload {t : String} :
    Safe (linesFromPayload p t) ↔ ∀ configs, payloadConfigs p t.trimmed = some configs →
      .missing ∉ configs := by
  unfold linesFromPayload
  dsimp only
  cases hc : payloadConfigs p t.trimmed with
  | none => exact iff_of_true safe_pure nofun
  | some configs =>
    have hsafe : Safe (links p (decodeValue p) configs) ↔ .missing ∉ configs := safe_links p
    constructor
    · intro h cs hcs
      cases hcs
      exact hsafe.1 (safe_bind.1 h).1
    · intro h
      exact safe_bind.2 ⟨hsafe.2 (h configs rfl), fun _ _ => safe_pure⟩

/-! ## The first generation -/

/-- A header of the first generation that is read. -/
structure V1Header (b : List UInt8) (hdr : Fields) : Prop where
  long : 89 ≤ b.length
  version : ¬1 < (b.getD 5 0).toInt8
  fits : 9 + u32 b 5 ≤ b.length
  parsed : p.readObject (p.utf8 ((b.drop 9).take (u32 b 5))) = some hdr

/-- The parts of a file with this header. -/
def v1PartsOf (b : List UInt8) (hdr : Fields) : V1Parts where
  headerRaw := (b.drop 9).take (u32 b 5)
  hdr := hdr
  nonce := (b.drop (9 + u32 b 5)).take 12
  body := (b.drop (9 + u32 b 5 + 16)).take (bodyLenAt b (9 + u32 b 5))

/-- The check of the version is one of the highest byte of the length, which cannot wrap then. -/
theorem v1_not_wraps {b : List UInt8} (hlong : 89 ≤ b.length)
    (hversion : ¬1 < (b.getD 5 0).toInt8) : ¬Wraps 9 (u32 b 5) := by
  intro hw
  have hhigh := u32_high (b := b) (o := 5) (by omega)
  have h127 : (b.getD 5 0).toNat = 127 := by
    have := hw.1
    have := hw.2
    omega
  refine hversion ?_
  rw [show b.getD 5 0 = 127 from UInt8.toNat_inj.1 h127]
  decide

theorem v1Parts_settles {b : List UInt8} (hb : b.length ≤ maxBytes) :
    Settles (v1Parts p b)
      (∃ hdr, V1Header p b hdr ∧ BodyWraps b (9 + u32 b 5))
      (fun parts => ∃ hdr, V1Header p b hdr ∧ BodyAt b (9 + u32 b 5) 16 ∧
        parts = v1PartsOf b hdr) := by
  have hmax : b.length ≤ 8388608 := hb
  have hb' : b.length < 2 ^ 31 := by omega
  have hnone (h : ∀ hdr, ¬V1Header p b hdr) :
      (¬∃ hdr, V1Header p b hdr ∧ BodyWraps b (9 + u32 b 5)) ∧
      ∀ parts, ¬∃ hdr, V1Header p b hdr ∧ BodyAt b (9 + u32 b 5) 16 ∧ parts = v1PartsOf b hdr :=
    ⟨fun ⟨hdr, hh, _⟩ => h hdr hh, fun _ ⟨hdr, hh, _⟩ => h hdr hh⟩
  unfold v1Parts
  refine Settles.check (fun hc => hnone fun _ h => ?_) fun hc => ?_
  · exact Nat.not_lt.2 h.long ((size_lt (n := 89) hb (by omega)).1 hc)
  have hlong : 89 ≤ b.length := Nat.not_lt.1 fun h => hc ((size_lt (n := 89) hb (by omega)).2 h)
  refine Settles.read (get_eq (i := 5) hb' (by omega)) ?_
  refine Settles.check (fun hc => hnone fun _ h => h.version hc) fun hversion => ?_
  refine Settles.read (getInt_eq (i := 5) hb' (by omega)) ?_
  have hn := u32_lt b 5
  have hadd : (9 : Int32) + .ofNat (u32 b 5) = .ofNat (9 + u32 b 5) := add_ofNat 9 _
  have hpass := passes (l := 0) (o := 9) hb (by omega) hn
  rw [hadd]
  refine Settles.check (fun hc => hnone fun _ h => ?_) fun hc => ?_
  · exact hpass.2 (.inl ⟨Nat.zero_le _, h.fits⟩) hc
  have hfits : 9 + u32 b 5 ≤ b.length :=
    ((hpass.1 hc).resolve_right (v1_not_wraps hlong hversion)).2
  refine Settles.read (copyOfRange_eq (i := 9) hb' (by omega) hfits) ?_
  rw [Nat.add_sub_cancel_left]
  refine Settles.need (fun hc => hnone fun _ h => ?_) fun hdr hparsed => ?_
  · rw [h.parsed] at hc
    exact nomatch hc
  have hheader : V1Header p b hdr := ⟨hlong, hversion, hfits, hparsed⟩
  have hbody := body_settles (l := 16) (r := incomplete) (q := badBody)
    (f := fun nonce body => V1Parts.mk ((b.drop 9).take (u32 b 5)) hdr nonce body)
    hb hfits (by omega)
  refine hbody.congr ⟨fun h => ⟨hdr, hheader, h⟩, fun ⟨_, _, h⟩ => h⟩ fun parts => ?_
  constructor
  · rintro ⟨hat, rfl⟩
    exact ⟨hdr, hheader, hat, rfl⟩
  · rintro ⟨hdr', hh, hat, rfl⟩
    have hsame : hdr' = hdr := Option.some.inj (hh.parsed.symm.trans hparsed)
    exact ⟨hat, by rw [hsame]; rfl⟩

theorem toByteArray_ne_nil {s : String} (h : s ≠ "") : toByteArray s ≠ [] := by
  intro hnil
  refine h (String.toList_eq_nil_iff.1 ?_)
  cases hs : s.toList with
  | nil => rfl
  | cons c cs =>
    rw [toByteArray, hs, Utf8.encode_cons] at hnil
    exact absurd (List.append_eq_nil_iff.1 hnil).1 (Utf8.utf8EncodeChar_ne_nil c)

theorem pbkdf2_eq {password salt : List UInt8} {iterations : Int32} {dkLen : Nat}
    (h : password ≠ []) :
    pbkdf2 p password salt iterations dkLen =
      .ok (pbkdf2Loop p password salt iterations dkLen 0 1) := if_neg h

/-- The two parts that a sealed key is taken apart into. -/
theorem wrap_parts {wrap : List UInt8} (h : wrap.length = 60) :
    (copyOfRange wrap 0 12 : Step _) = .ok (wrap.take 12) ∧
      (copyOfRange wrap 12 (size wrap) : Step _) = .ok (wrap.drop 12) := by
  have hlt : wrap.length < 2 ^ 31 := by omega
  constructor
  · exact copyOfRange_eq (i := 0) (j := 12) hlt (by omega) (by omega)
  · have hread := copyOfRange_eq (ρ := Result) (i := 12) hlt (by omega) (Nat.le_refl wrap.length)
    rw [List.take_of_length_le (by rw [List.length_drop])] at hread
    exact hread

theorem v1Text_safe (parts : V1Parts) (passphrase : Option String) :
    Safe (v1Text p parts passphrase) := by
  unfold v1Text
  rw [safe_leaveIf_bind]
  intro _
  rw [safe_orLeave_bind]
  intro pass _
  rw [safe_leaveIf_bind]
  intro hpass
  rw [safe_leaveIf_bind]
  intro _
  rw [safe_leaveIf_bind]
  intro _
  rw [safe_orLeave_bind]
  intro salt _
  rw [safe_orLeave_bind]
  intro wrap _
  rw [safe_leaveIf_bind]
  intro hwrap
  have hparts := wrap_parts (Decidable.not_not.1 hwrap)
  rw [safe_ok_bind (pbkdf2_eq p (toByteArray_ne_nil hpass)), safe_ok_bind hparts.1,
    safe_ok_bind hparts.2, safe_orLeave_bind]
  intro dek _
  rw [safe_orLeave_bind]
  intro pt _
  exact safe_pure

/-- A list of configurations that the passphrase opens in a first generation file. -/
inductive V1Configs (b : List UInt8) (passphrase : Option String) : List Value → Prop
  | intro {hdr text configs} (header : V1Header p b hdr) (body : BodyAt b (9 + u32 b 5) 16)
      (unlocked : v1Text p (v1PartsOf b hdr) passphrase = .ok text)
      (found : payloadConfigs p text.trimmed = some configs) : V1Configs b passphrase configs

/-- What a first generation file breaks on. -/
inductive V1Breaks (b : List UInt8) (passphrase : Option String) : Prop
  | body {hdr} (header : V1Header p b hdr) (long : BodyWraps b (9 + u32 b 5)) :
      V1Breaks b passphrase
  | entry {configs} (found : V1Configs p b passphrase configs) (gap : .missing ∈ configs) :
      V1Breaks b passphrase

theorem safe_openV1 {b : List UInt8} {passphrase : Option String} (hb : b.length ≤ maxBytes) :
    Safe (openV1 p b passphrase) ↔ ¬V1Breaks p b passphrase := by
  rw [openV1, (v1Parts_settles p hb).safe_bind_iff]
  constructor
  · rintro ⟨hbody, hrest⟩ hbreaks
    cases hbreaks with
    | body header long => exact hbody ⟨_, header, long⟩
    | entry found gap =>
      obtain ⟨header, body, unlocked, found⟩ := found
      have hopen := hrest _ ⟨_, header, body, rfl⟩
      rw [safe_ok_bind unlocked] at hopen
      exact (safe_linesFromPayload p).1 (safe_bind.1 hopen).1 _ found gap
  · intro h
    refine ⟨fun ⟨hdr, header, long⟩ => h (.body header long), ?_⟩
    rintro _ ⟨hdr, header, body, rfl⟩
    refine safe_bind.2 ⟨v1Text_safe p _ _, fun text unlocked => ?_⟩
    refine safe_bind.2 ⟨(safe_linesFromPayload p).2 fun configs found gap => ?_,
      fun _ _ => safe_pure⟩
    exact h (.entry ⟨header, body, unlocked, found⟩ gap)

/-! ## The second generation -/

/-- Where the block of the passphrase begins, behind the recipients. -/
def keyOff (h : List UInt8) : Nat := 53 + u16 h 51 * 125

/-- The length of the metadata. -/
def metaLen (h : List UInt8) : Nat := u32 h (keyOff h + 80)

/-- A header under a passphrase, with its block in it. -/
structure Gen2Method (h : List UInt8) : Prop where
  version : h.getD 0 0 = 1
  recipients : u16 h 51 ≤ 0x400
  method : h.getD 50 0 = methodPass
  fits : keyOff h + 84 ≤ h.length
  iters : itersInRange (.ofNat (u32 h (keyOff h)))

/-- The metadata are in the header. -/
def MetaAt (h : List UInt8) : Prop := 16 ≤ metaLen h ∧ keyOff h + 84 + metaLen h ≤ h.length

def gen2KeyOf (h : List UInt8) : Gen2Key where
  iters := .ofNat (u32 h (keyOff h))
  salt := (h.drop (keyOff h + 4)).take 16
  wrap := (h.drop (keyOff h + 20)).take 60
  before := h.take (keyOff h + 80)
  metaBlob := (h.drop (keyOff h + 84)).take (metaLen h)

theorem gen2Key_settles {h : List UInt8} (hmax : h.length ≤ maxBytes) (hlong : 135 ≤ h.length) :
    Settles (gen2Key h) (Gen2Method h ∧ Wraps (keyOff h + 84) (metaLen h))
      (fun key => Gen2Method h ∧ MetaAt h ∧ key = gen2KeyOf h) := by
  have hlong' : h.length ≤ 8388608 := hmax
  have hlen : h.length < 2 ^ 31 := by omega
  have hnone (hm : ¬Gen2Method h) : (¬(Gen2Method h ∧ Wraps (keyOff h + 84) (metaLen h))) ∧
      ∀ key, ¬(Gen2Method h ∧ MetaAt h ∧ key = gen2KeyOf h) :=
    ⟨fun hw => hm hw.1, fun _ hk => hm hk.1⟩
  unfold gen2Key
  refine Settles.read (get_eq (i := 0) hlen (by omega)) ?_
  refine Settles.check (fun hc => hnone fun hm => hc hm.version) fun hversion => ?_
  have hversion : h.getD 0 0 = 1 := Decidable.not_not.1 hversion
  refine Settles.read (get_eq (i := 50) hlen (by omega)) ?_
  refine Settles.read (getShort_eq (i := 51) hlen (by omega)) ?_
  have hr := u16_lt h 51
  have hrecipients := ofNat_lt (m := 0x400) (n := u16 h 51) (by omega) (by omega)
  refine Settles.check (fun hc => hnone fun hm => ?_) fun hc => ?_
  · exact Nat.not_lt.2 hm.recipients (hrecipients.1 hc)
  have hrec : u16 h 51 ≤ 0x400 := Nat.not_lt.1 fun hlt => hc (hrecipients.2 hlt)
  refine Settles.check (fun hc => hnone fun hm => ?_) fun _ => ?_
  · exact absurd (hm.method.symm.trans hc) (by decide)
  refine Settles.check (fun hc => hnone fun hm => ?_) fun _ => ?_
  · exact absurd (hm.method.symm.trans hc) (by decide)
  refine Settles.check (fun hc => hnone fun hm => hc hm.method) fun hmethod => ?_
  have hmethod : h.getD 50 0 = methodPass := Decidable.not_not.1 hmethod
  have hkey : keyOff h ≤ 128053 := by
    unfold keyOff
    omega
  have hoff : gen2KeyBlockOffset + .ofNat (u16 h 51) * (gen2RecipientPk + gen2RecipientWrap) =
      .ofNat (keyOff h) := by
    have hmul := Int32.ofNat_mul (u16 h 51) 125
    have hadd := Int32.ofNat_add 53 (u16 h 51 * 125)
    rw [hmul] at hadd
    exact hadd.symm
  have h80 : Int32.ofNat (keyOff h) + gen2PassBlock = .ofNat (keyOff h + 80) := add_ofNat _ 80
  have h84 : Int32.ofNat (keyOff h + 80) + 4 = .ofNat (keyOff h + 84) := add_ofNat _ 4
  have h4 : Int32.ofNat (keyOff h) + 4 = .ofNat (keyOff h + 4) := add_ofNat _ 4
  have h20 : Int32.ofNat (keyOff h) + 20 = .ofNat (keyOff h + 20) := add_ofNat _ 20
  rw [hoff]
  dsimp only
  rw [h80, h84, h4, h20]
  refine Settles.check (fun hc => hnone fun hm => ?_) fun hc => ?_
  · exact Nat.not_lt.2 hm.fits ((size_lt hmax (by omega)).1 hc)
  have hfits : keyOff h + 84 ≤ h.length := Nat.not_lt.1 fun hlt =>
    hc ((size_lt hmax (by omega)).2 hlt)
  refine Settles.read (getInt_eq hlen (by omega)) ?_
  refine Settles.check (fun hc => hnone fun hm => hc hm.iters) fun hiters => ?_
  have hiters := Decidable.not_not.1 hiters
  have hm : Gen2Method h := ⟨hversion, hrec, hmethod, hfits, hiters⟩
  refine Settles.read (copyOfRange_eq hlen (by omega) (by omega)) ?_
  refine Settles.read (copyOfRange_eq hlen (by omega) (by omega)) ?_
  refine Settles.check (fun hc => absurd ((size_lt hmax (by omega)).1 hc) (by omega)) fun _ => ?_
  refine Settles.read (getInt_eq hlen (by omega)) ?_
  have hmeta : Int32.ofNat (keyOff h + 84) + .ofNat (metaLen h) =
      .ofNat (keyOff h + 84 + metaLen h) := add_ofNat _ _
  rw [← metaLen, hmeta]
  have hlow : metaLen h < 2 ^ 32 := u32_lt h _
  have hpass := passes (l := 16) (o := keyOff h + 84) hmax (by omega) hlow
  refine Settles.check (fun hc => ?_) fun hc => ?_
  · have hno := fun hp => hpass.2 hp hc
    exact ⟨fun hw => hno (.inr hw.2), fun _ hk => hno (.inl hk.2.1)⟩
  refine Settles.read (copyOfRange_eq (i := 0) hlen (by omega) (by omega)) ?_
  rcases hpass.1 hc with hmetaAt | hwraps
  · refine Settles.read (copyOfRange_eq hlen (by omega) hmetaAt.2) ?_
    refine Settles.done (fun hw => ?_) fun key => ?_
    · have hsum := hw.2.2
      have hend := hmetaAt.2
      omega
    · rw [and_iff_right hm, and_iff_right (show MetaAt h from hmetaAt), gen2KeyOf]
      simp only [Nat.add_sub_add_left, Nat.add_sub_cancel_left, List.drop_zero, Nat.sub_zero]
  · have hlow := hwraps.1
    have hhigh := hwraps.2
    refine Settles.fails (not_safe_copyOfRange hlen hfits hlow (by omega)) ⟨hm, hwraps⟩
      fun key hk => ?_
    have hend := hk.2.1.2
    omega

/-- No row of a body is read out of its range: the places of rows stay small. -/
theorem gen2Rows_safe {dek contentId body : List UInt8} (hb : body.length ≤ maxBytes) (count : Nat)
    {i : Nat} (fields : FieldTexts) (hi : i ≤ body.length) :
    Safe (gen2Rows p dek contentId body count (.ofNat i) fields) := by
  induction count generalizing i fields with
  | zero => exact safe_ok
  | succ count ih =>
    have hmax : body.length ≤ 8388608 := hb
    have hlen : body.length < 2 ^ 31 := by omega
    have hn := u16_lt body (i + 4)
    have h6 : Int32.ofNat i + 6 = .ofNat (i + 6) := add_ofNat i 6
    have h4 : Int32.ofNat i + 4 = .ofNat (i + 4) := add_ofNat i 4
    rw [gen2Rows, h6, h4, safe_leaveIf_bind, size_lt hb (by omega)]
    intro hrow
    rw [safe_ok_bind (getShort_eq hlen (by omega)), safe_ok_bind (getShort_eq hlen (by omega)),
      safe_leaveIf_bind, add_ofNat, size_lt hb (by omega)]
    intro hblob
    rw [safe_ok_bind (copyOfRange_eq hlen (by omega) (by omega))]
    exact ih _ (by omega)

theorem gen2Fields_safe {dek body : List UInt8} (hb : body.length ≤ maxBytes) :
    Safe (gen2Fields p dek body) := by
  have hmax : body.length ≤ 8388608 := hb
  have hlen : body.length < 2 ^ 31 := by omega
  rw [gen2Fields, safe_leaveIf_bind]
  intro hc
  have hlong : 66 ≤ body.length := Nat.not_lt.1 fun h =>
    hc (.inl ((size_lt (n := 66) hb (by omega)).2 h))
  have hid : (copyOfRange body 4 36 : Step _) = .ok ((body.drop 4).take (36 - 4)) :=
    copyOfRange_eq (i := 4) (j := 36) hlen (by omega) (by omega)
  have hcount : (getShort body 36 : Step _) = .ok (.ofNat (u16 body 36)) :=
    getShort_eq (i := 36) hlen (by omega)
  rw [safe_ok_bind hid, safe_ok_bind hcount]
  exact gen2Rows_safe p (i := 38) hb _ _ (by omega)

/-- A list of configurations that the passphrase opens in a second generation body. -/
inductive Gen2Configs (key : Gen2Key) (nonce body : List UInt8) (passphrase : Option String) :
    List Value → Prop
  | intro {dek metadata fields table configs} (given : passphrase.getD "" ≠ "")
      (unlocked : ChaCha20Poly1305.open
        (pbkdf2Loop p (toByteArray (passphrase.getD "")) key.salt key.iters 32 0 1)
        (key.wrap.take 12) (key.wrap.drop 12) key.salt = some dek)
      (sealed : ChaCha20Poly1305.open (hkdf p dek nonce "NPVS-v5/metadata" []) nonce key.metaBlob
        key.before = some metadata)
      (rows : gen2Fields p dek body = .ok fields)
      (listed : fields.lookup gen2SentinelSeq = some table)
      (found : ((p.readObject (p.utf8 table)).bind fun o => o.optJSONArray "configs") =
        some configs) : Gen2Configs key nonce body passphrase configs

theorem safe_gen2Open {key : Gen2Key} {nonce body : List UInt8} {passphrase : Option String}
    (hwrap : key.wrap.length = 60) (hb : body.length ≤ maxBytes) :
    Safe (gen2Open p key nonce body passphrase) ↔
      ∀ configs, Gen2Configs p key nonce body passphrase configs → .missing ∉ configs := by
  have hparts := wrap_parts hwrap
  rw [gen2Open, safe_leaveIf_bind]
  constructor
  · rintro h configs ⟨given, hdek, hmetadata, hfields, htable, hfound⟩
    have hopen := h given
    rw [safe_ok_bind (pbkdf2_eq p (toByteArray_ne_nil given)), safe_ok_bind hparts.1,
      safe_ok_bind hparts.2, safe_orLeave_bind] at hopen
    have hopen := hopen _ hdek
    rw [safe_orLeave_bind] at hopen
    have hopen := hopen _ hmetadata
    rw [safe_ok_bind hfields, safe_orLeave_bind] at hopen
    have hopen := hopen _ htable
    rw [safe_orLeave_bind] at hopen
    exact (safe_links p).1 (safe_bind.1 (hopen _ hfound)).1
  · intro h given
    rw [safe_ok_bind (pbkdf2_eq p (toByteArray_ne_nil given)), safe_ok_bind hparts.1,
      safe_ok_bind hparts.2, safe_orLeave_bind]
    intro dek hdek
    rw [safe_orLeave_bind]
    intro metadata hmetadata
    refine safe_bind.2 ⟨gen2Fields_safe p hb, fun fields hfields => ?_⟩
    rw [safe_orLeave_bind]
    intro table htable
    rw [safe_orLeave_bind]
    intro configs hfound
    have hall := h configs ⟨given, hdek, hmetadata, hfields, htable, hfound⟩
    exact safe_bind.2 ⟨(safe_links p).2 hall, fun _ _ => safe_pure⟩

theorem gen2Body_settles {b : List UInt8} {n : Nat} (hb : b.length ≤ maxBytes)
    (hn : 9 + n ≤ b.length) :
    Settles (gen2Body b (.ofNat n)) (BodyWraps b (9 + n))
      (fun r => BodyAt b (9 + n) 32 ∧
        r = ((b.drop (9 + n)).take 12, (b.drop (9 + n + 16)).take (bodyLenAt b (9 + n)))) := by
  have hadd : (9 : Int32) + .ofNat n = .ofNat (9 + n) := add_ofNat 9 n
  unfold gen2Body
  rw [hadd]
  exact body_settles (l := 32) (f := Prod.mk) hb hn (Nat.le_refl 32)

/-- The header of a second generation file. -/
def gen2HeaderOf (b : List UInt8) : List UInt8 := (b.drop 9).take (u32 b 5)

/-- A second generation file with this header in it. -/
structure Gen2Header (b : List UInt8) : Prop where
  long : 135 ≤ u32 b 5
  fits : 9 + u32 b 5 ≤ b.length

theorem gen2HeaderOf_length {b : List UInt8} (h : Gen2Header b) :
    (gen2HeaderOf b).length = u32 b 5 := by
  have := h.fits
  rw [gen2HeaderOf, List.length_take, List.length_drop]
  omega

/-- A header with its metadata, and the body behind it. -/
structure Gen2Sealed (b : List UInt8) : Prop where
  header : Gen2Header b
  method : Gen2Method (gen2HeaderOf b)
  metadata : MetaAt (gen2HeaderOf b)
  body : BodyAt b (9 + u32 b 5) 32

/-- What a second generation file breaks on. -/
inductive Gen2Breaks (b : List UInt8) (passphrase : Option String) : Prop
  | header (long : Wraps 9 (u32 b 5)) : Gen2Breaks b passphrase
  | metadata (header : Gen2Header b) (method : Gen2Method (gen2HeaderOf b))
      (long : Wraps (keyOff (gen2HeaderOf b) + 84) (metaLen (gen2HeaderOf b))) :
      Gen2Breaks b passphrase
  | body (header : Gen2Header b) (method : Gen2Method (gen2HeaderOf b))
      (metadata : MetaAt (gen2HeaderOf b)) (long : BodyWraps b (9 + u32 b 5)) :
      Gen2Breaks b passphrase
  | entry (parts : Gen2Sealed b) {configs}
      (found : Gen2Configs p (gen2KeyOf (gen2HeaderOf b)) ((b.drop (9 + u32 b 5)).take 12)
        ((b.drop (9 + u32 b 5 + 16)).take (bodyLenAt b (9 + u32 b 5))) passphrase configs)
      (gap : .missing ∈ configs) : Gen2Breaks b passphrase

theorem gen2KeyOf_wrap {h : List UInt8} (hm : Gen2Method h) : (gen2KeyOf h).wrap.length = 60 := by
  have := hm.fits
  rw [gen2KeyOf, List.length_take, List.length_drop]
  omega

theorem Gen2Breaks.of_header {b : List UInt8} {passphrase : Option String} (hh : Gen2Header b)
    (hb : b.length ≤ maxBytes) :
    Gen2Breaks p b passphrase ↔ ¬Safe (do
      let key ← gen2Key (gen2HeaderOf b)
      let sealed ← gen2Body b (.ofNat (u32 b 5))
      gen2Open p key sealed.1 sealed.2 passphrase) := by
  have hfits := hh.fits
  have hlength := gen2HeaderOf_length hh
  have hlong := hh.long
  have hkey := gen2Key_settles (h := gen2HeaderOf b) (by omega) (by omega)
  have hbody := gen2Body_settles hb hfits
  have hopen (hm : Gen2Method (gen2HeaderOf b)) := @safe_gen2Open p (gen2KeyOf (gen2HeaderOf b))
    ((b.drop (9 + u32 b 5)).take 12) ((b.drop (9 + u32 b 5 + 16)).take (bodyLenAt b (9 + u32 b 5)))
    passphrase (gen2KeyOf_wrap hm) (by rw [List.length_take, List.length_drop]; omega)
  rw [hkey.safe_bind_iff]
  constructor
  · rintro hbreaks ⟨hmeta, hrest⟩
    cases hbreaks with
    | header long =>
      have := long.2
      unfold maxBytes at hb
      omega
    | metadata _ method long => exact hmeta ⟨method, long⟩
    | body _ method metadata long =>
      have hsafe := hrest (gen2KeyOf (gen2HeaderOf b)) ⟨method, metadata, rfl⟩
      rw [hbody.safe_bind_iff] at hsafe
      exact hsafe.1 long
    | entry parts found gap =>
      have hsafe := hrest (gen2KeyOf (gen2HeaderOf b)) ⟨parts.method, parts.metadata, rfl⟩
      rw [hbody.safe_bind_iff] at hsafe
      have hsafe := hsafe.2 _ ⟨parts.body, rfl⟩
      exact (hopen parts.method).1 hsafe _ found gap
  · intro hsafe
    by_contra h
    refine hsafe ⟨fun hw => h (.metadata hh hw.1 hw.2), ?_⟩
    rintro _ ⟨method, metadata, rfl⟩
    rw [hbody.safe_bind_iff]
    refine ⟨fun long => h (.body hh method metadata long), ?_⟩
    rintro _ ⟨body, rfl⟩
    exact (hopen method).2 fun configs found gap =>
      h (.entry ⟨hh, method, metadata, body⟩ found gap)

theorem safe_openGen2 {b : List UInt8} {passphrase : Option String} (hb : b.length ≤ maxBytes)
    (hlong : 9 ≤ b.length) :
    Safe (openGen2 p b passphrase) ↔ ¬Gen2Breaks p b passphrase := by
  have hmax : b.length ≤ 8388608 := hb
  have hlen : b.length < 2 ^ 31 := by omega
  have hread : (getInt b 5 : Step _) = .ok (.ofNat (u32 b 5)) :=
    getInt_eq (i := 5) hlen (by omega)
  have hadd : (9 : Int32) + .ofNat (u32 b 5) = .ofNat (9 + u32 b 5) := add_ofNat 9 _
  have hfixed : gen2HeaderFixed = .ofNat 135 := rfl
  have hcopy (hfits : 9 + u32 b 5 ≤ b.length) :
      (copyOfRange b 9 (.ofNat (9 + u32 b 5)) : Step _) = .ok (gen2HeaderOf b) := by
    have h := copyOfRange_eq (ρ := Result) (i := 9) hlen (by omega) hfits
    rw [Nat.add_sub_cancel_left] at h
    exact h
  have hwrong (hw : Wraps 9 (u32 b 5)) :
      ¬Safe (copyOfRange b 9 (.ofNat (9 + u32 b 5)) : Step _) := by
    have hlow := hw.1
    have hhigh := hw.2
    exact not_safe_copyOfRange (i := 9) hlen hlong hlow (by omega)
  have hrest := @Gen2Breaks.of_header p b passphrase
  rw [openGen2, safe_ok_bind hread, safe_leaveIf_bind, hadd, hfixed,
    passes hb (by omega) (u32_lt b 5)]
  constructor
  · intro h hbreaks
    by_cases hh : Gen2Header b
    · have hsafe := h (.inl ⟨hh.long, hh.fits⟩)
      rw [safe_ok_bind (hcopy hh.fits)] at hsafe
      exact (hrest hh hb).1 hbreaks hsafe
    · cases hbreaks with
      | header long => exact not_safe_bind (hwrong long) (h (.inr long))
      | metadata header => exact hh header
      | body header => exact hh header
      | entry parts => exact hh parts.header
  · rintro h (⟨hl, hfits⟩ | long)
    · rw [safe_ok_bind (hcopy hfits)]
      exact Classical.not_not.1 fun hn => h ((hrest ⟨hl, hfits⟩ hb).2 hn)
    · exact absurd (.header long) h

/-! ## Containers -/

/-- The list of configurations of an open export. -/
def ExportConfigs (b : List UInt8) (configs : List Value) : Prop :=
  let body := replace openMarker "" (replace (openMarker ++ "\n") "" (p.utf8 b))
  body.blank = false ∧
    ((p.readObject body).bind fun o => o.optJSONArray "configs") = some configs

theorem safe_openExport {b : List UInt8} :
    Safe (openExport p b) ↔ ∀ configs, ExportConfigs p b configs → .missing ∉ configs := by
  unfold openExport ExportConfigs
  dsimp only
  rw [safe_leaveIf_bind, Bool.not_eq_true]
  constructor
  · rintro h configs ⟨hblank, hfound⟩ hgap
    have h := h hblank
    rw [safe_orLeave_bind] at h
    have h := h configs hfound
    rw [safe_leaveIf_bind] at h
    exact (safe_links p).1 (safe_bind.1 (h (List.ne_nil_of_mem hgap))).1 hgap
  · intro h hblank
    rw [safe_orLeave_bind]
    intro configs hfound
    rw [safe_leaveIf_bind]
    intro _
    exact safe_bind.2 ⟨(safe_links p).2 (h configs ⟨hblank, hfound⟩), fun _ _ => safe_pure⟩

/-- `NPVS`, which the containers begin with. -/
def npvs : List UInt8 := [0x4e, 0x50, 0x56, 0x53]

/-- What `open` breaks on. -/
inductive Breaks (b : List UInt8) (passphrase : Option String) : Prop
  | openExport (size : b.length ≤ maxBytes)
      (form : openMarker.toList <+: headText (b.take 16)) {configs}
      (found : ExportConfigs p b configs) (gap : .missing ∈ configs) : Breaks b passphrase
  | v1 (size : b.length ≤ maxBytes) (form : 9 ≤ b.length ∧ b.take 4 = npvs)
      (version : b.getD 4 0 ≠ gen2Version) (breaks : V1Breaks p b passphrase) :
      Breaks b passphrase
  | gen2 (size : b.length ≤ maxBytes) (form : 9 ≤ b.length ∧ b.take 4 = npvs)
      (version : b.getD 4 0 = gen2Version) (breaks : Gen2Breaks p b passphrase) :
      Breaks b passphrase

/-- A container begins with none of the words of the other forms. -/
theorem npvs_head {b : List UInt8} (h : b.take 4 = npvs) :
    ¬openMarker.toList <+: headText (b.take 16) ∧ ¬"NPVTSUB1".toList <+: headText (b.take 16) ∧
      ¬"NPVT1".toList <+: headText (b.take 16) := by
  have hb : b = npvs ++ b.drop 4 := by rw [← h, List.take_append_drop]
  have hhead : headText (b.take 16) =
      'N' :: 'P' :: 'V' :: 'S' :: ((b.drop 4).take 12).map fun x => Char.ofNat x.toNat := by
    rw [hb, npvs, headText]
    rfl
  rw [hhead]
  refine ⟨?_, ?_, ?_⟩ <;> intro hp <;> simp [openMarker, List.cons_prefix_cons] at hp

theorem head_eq {b : List UInt8} (hb : b.length ≤ maxBytes) :
    (copyOfRange b 0 (if size b ≤ 16 then size b else 16) : Step _) = .ok (b.take 16) := by
  have hmax : b.length ≤ 8388608 := hb
  have hle : size b ≤ 16 ↔ b.length ≤ 16 := ofNat_le (n := 16) (by omega) (by omega)
  have hread := copyOfRange_eq (ρ := Result) (b := b) (i := 0) (by omega) (Nat.zero_le _)
    (Nat.min_le_left b.length 16)
  rw [List.drop_zero, Nat.sub_zero, ← List.take_take,
    List.take_of_length_le (List.length_take_le' 16 b)] at hread
  by_cases h : b.length ≤ 16
  · rw [if_pos (hle.2 h)]
    rw [Nat.min_eq_left h] at hread
    exact hread
  · rw [if_neg (mt hle.1 h)]
    rw [Nat.min_eq_right (by omega)] at hread
    exact hread

/-- A container of one of the two generations. -/
theorem safe_container {b : List UInt8} {passphrase : Option String} (hb : b.length ≤ maxBytes)
    (hform : 9 ≤ b.length ∧ b.take 4 = npvs) :
    Safe (do
      let version ← get b 4
      if version = gen2Version then openGen2 p b passphrase else openV1 p b passphrase) ↔
    ¬Breaks p b passphrase := by
  have hmax : b.length ≤ 8388608 := hb
  have hget : (get b 4 : Step _) = .ok (b.getD 4 0) := get_eq (i := 4) (by omega) (by omega)
  rw [safe_ok_bind hget]
  split
  case isTrue hv =>
    rw [safe_openGen2 p hb hform.1, not_iff_not]
    constructor
    · exact .gen2 hb hform hv
    · rintro (⟨_, form, _, _⟩ | ⟨_, _, version, _⟩ | ⟨_, _, _, breaks⟩)
      · exact absurd form (npvs_head hform.2).1
      · exact absurd hv version
      · exact breaks
  case isFalse hv =>
    rw [safe_openV1 p hb, not_iff_not]
    constructor
    · exact .v1 hb hform hv
    · rintro (⟨_, form, _, _⟩ | ⟨_, _, _, breaks⟩ | ⟨_, _, version, _⟩)
      · exact absurd form (npvs_head hform.2).1
      · exact breaks
      · exact absurd version hv

/-- **When opening returns.** For every file and passphrase, `open` returns a result unless the file
is one that it breaks on. -/
theorem open_returns_iff (b : List UInt8) (passphrase : Option String) :
    (∃ r, «open» p b passphrase = .ok r) ↔ ¬Breaks p b passphrase := by
  rw [«open», result_returns, openStep, safe_leaveIf_bind]
  by_cases hb : b.length ≤ maxBytes
  case neg =>
    refine iff_of_true (fun h => absurd (Nat.not_lt.1 h) hb) ?_
    rintro (⟨size⟩ | ⟨size⟩ | ⟨size⟩) <;> exact hb size
  rw [imp_iff_right (Nat.not_lt.2 hb), safe_ok_bind (head_eq hb)]
  dsimp only
  by_cases hexport : openMarker.toList <+: headText (b.take 16)
  case pos =>
    rw [if_pos (List.isPrefixOf_iff_prefix.2 hexport), safe_openExport]
    constructor
    · rintro h (⟨_, _, found, gap⟩ | ⟨_, form⟩ | ⟨_, form⟩)
      · exact h _ found gap
      · exact (npvs_head form.2).1 hexport
      · exact (npvs_head form.2).1 hexport
    · exact fun h configs found gap => h (.openExport hb hexport found gap)
  rw [if_neg (mt List.isPrefixOf_iff_prefix.1 hexport)]
  by_cases hform : 9 ≤ b.length ∧ b.take 4 = npvs
  case pos =>
    have hhead := npvs_head hform.2
    have hmax : b.length ≤ 8388608 := hb
    have hsize : 9 ≤ size b := (ofNat_le (m := 9) (by omega) (by omega)).2 hform.1
    rw [if_neg (by
        rw [List.isPrefixOf_iff_prefix, List.isPrefixOf_iff_prefix]
        exact not_or.2 hhead.2), if_pos ⟨hsize, hform.2⟩]
    exact safe_container p hb hform
  have hnone : ¬Breaks p b passphrase := by
    rintro (⟨_, form⟩ | ⟨_, form⟩ | ⟨_, form⟩)
    · exact hexport form
    · exact hform form
    · exact hform form
  refine iff_of_true ?_ hnone
  split
  · exact safe_pure
  · rw [if_neg fun h => hform ⟨?_, h.2⟩]
    · exact safe_pure
    · have hmax : b.length ≤ 8388608 := hb
      exact (ofNat_le (m := 9) (by omega) (by omega)).1 h.1

end

/-! ## A header of nearly 2 GiB -/

/-- A platform for files that ask nothing of it. -/
def silentPlatform : Platform where
  readObject _ := none
  readArray _ := none
  print _ := ""
  parseInt _ := none
  hmac _ _ := ⟨List.replicate 32 0, rfl⟩
  uppercase s := s
  lowercase s := s
  replaced _ := 1

/-- `NPVS`, version 5 and the length `0x7fffffff`. -/
def hugeHeader : List UInt8 := npvs ++ [5, 0x7f, 0xff, 0xff, 0xff]

theorem hugeHeader_throws :
    ¬∀ (p : Platform) (b : List UInt8) (passphrase : Option String),
      ∃ r, «open» p b passphrase = .ok r := by
  intro h
  obtain ⟨r, hr⟩ := h silentPlatform hugeHeader none
  have hthrows : «open» silentPlatform hugeHeader none = .error .illegalArgument := rfl
  rw [hthrows] at hr
  exact nomatch hr

end Ghajar.Npv
