import Ghajar.Lib.Search
import Ghajar.Lib.Utf8

/-!
# Splitting a payload

`splitPayload` (`native/ghajar-helper/sshtransport.go`) cuts a payload at its `[split]` and
`[delay_split]`, in any letter case. The places are found in a lower-cased copy and used on the
payload itself, and the copy is not byte for byte: a byte that is no UTF-8 becomes three, and some
letters become shorter ones. `Aligned` is the condition under which the copy has its separators
where the payload has them.
-/

namespace Ghajar.Ssh

open Search

/-- `unicode.ToLower`; the table is used for what is not ASCII. -/
def runeLower (table : Char → Char) (c : Char) : Char :=
  if c.val ≤ 0x7f then c.toLower else table c

/-- `strings.ToLower`: bytes that are not UTF-8 are replaced one by one. -/
def toLower (table : Char → Char) (s : List UInt8) : List UInt8 :=
  Utf8.encode ((Utf8.decode (fun _ => 1) s).map (runeLower table))

structure PayloadPart where
  text : List UInt8
  delay : Bool
  deriving DecidableEq, Repr

/-- `[split]`, or `[delay_split]`. -/
def sep : Bool → List UInt8
  | false => [0x5b, 0x73, 0x70, 0x6c, 0x69, 0x74, 0x5d]
  | true => [0x5b, 0x64, 0x65, 0x6c, 0x61, 0x79, 0x5f, 0x73, 0x70, 0x6c, 0x69, 0x74, 0x5d]

/-- The separator that is cut at, and where it is: of two, the earlier one. -/
def firstSep (q : List UInt8) : Option (Nat × Bool) :=
  match index (sep false) q, index (sep true) q with
  | none, none => none
  | some i, none => some (i, false)
  | none, some j => some (j, true)
  | some i, some j => if j < i then some (j, true) else some (i, false)

section
variable (table : Char → Char)

/-- The loop, `none` when a slice is out of range. A round takes seven bytes at least. -/
def splitN : Nat → List UInt8 → Bool → Option (List PayloadPart)
  | 0, _, _ => none
  | n + 1, p, delay =>
    match firstSep (toLower table p) with
    | none => some [⟨p, delay⟩]
    | some (i, d) =>
      if i + (sep d).length ≤ p.length then
        (splitN n (p.drop (i + (sep d).length)) d).map (⟨p.take i, delay⟩ :: ·)
      else none

def splitPayload (p : List UInt8) : Option (List PayloadPart) := splitN table (p.length + 1) p false

/-! ## What a split is -/

def asciiLower (b : UInt8) : UInt8 := if 0x41 ≤ b ∧ b ≤ 0x5a then b + 0x20 else b

/-- A separator in any letter case. -/
def IsSep (s : List UInt8) (d : Bool) : Prop := s.map asciiLower = sep d

/-- Text without a separator. -/
def Free (x : List UInt8) : Prop := ∀ d, ¬sep d <:+: x.map asciiLower

/-- The parts with separators between them are `p`, no part has one, and a part is delayed if the
separator in front of it is the delayed one; `delay` is that of the first part. -/
inductive Joined : List UInt8 → Bool → List PayloadPart → Prop
  | last {p : List UInt8} (delay : Bool) (hp : Free p) : Joined p delay [⟨p, delay⟩]
  | cut {x s rest : List UInt8} {d : Bool} {parts : List PayloadPart} (delay : Bool) (hx : Free x)
      (hs : IsSep s d) (hr : Joined rest d parts) :
      Joined (x ++ (s ++ rest)) delay (⟨x, delay⟩ :: parts)

/-- The payload is split as it should be. -/
def SplitsWell (p : List UInt8) : Prop :=
  ∃ parts, splitPayload table p = some parts ∧ Joined p false parts

/-- The payload, or what is behind one of its separators. -/
def Behind (p r : List UInt8) : Prop :=
  r = p ∨ ∃ x s d, IsSep s d ∧ p = x ++ (s ++ r)

/-- The lower-cased copy has its first separator where the text has it. -/
def Aligned (p : List UInt8) : Prop :=
  ∀ r, Behind p r → firstSep (toLower table r) = firstSep (r.map asciiLower)

end

/-! ## Separators in a text -/

theorem sep_headed (d : Bool) : Headed 0x5b (sep d) := by
  cases d
  · exact ⟨_, rfl, by decide⟩
  · exact ⟨_, rfl, by decide⟩

/-- Two separators at one place are one. -/
theorem sep_same {q : List UInt8} {d d' : Bool} (h : sep d <+: q) (h' : sep d' <+: q) : d = d' := by
  obtain ⟨a, rfl⟩ := h
  cases d <;> cases d'
  · rfl
  · exact absurd (List.cons_prefix_cons.1 (List.cons_prefix_cons.1 h').2).1 (by decide)
  · exact absurd (List.cons_prefix_cons.1 (List.cons_prefix_cons.1 h').2).1 (by decide)
  · rfl

theorem firstSep_eq_none {q : List UInt8} : firstSep q = none ↔ ∀ d i, ¬At (sep d) q i := by
  have hf := index_eq_none (q := q) (sep_headed false).ne_nil
  have ht := index_eq_none (q := q) (sep_headed true).ne_nil
  rw [Bool.forall_bool, ← hf, ← ht]
  unfold firstSep
  cases index (sep false) q with
  | none => cases index (sep true) q <;> simp
  | some i =>
    cases index (sep true) q with
    | none => simp
    | some j =>
      simp only
      split <;> simp

theorem firstSep_eq_some {q : List UInt8} {i : Nat} {d : Bool} :
    firstSep q = some (i, d) ↔ At (sep d) q i ∧ ∀ d' j, j < i → ¬At (sep d') q j := by
  constructor
  · intro h
    have hearly : ∀ {w : List UInt8} {k : Option Nat}, w ≠ [] → index w q = k →
        (∀ n, k = some n → i ≤ n) → ∀ j, j < i → ¬At w q j := by
      intro w k hw hk hle j hj hat
      cases k with
      | none => exact (index_eq_none hw).1 hk j hat
      | some n => exact (index_eq_some.1 hk).2.2 j (Nat.lt_of_lt_of_le hj (hle n rfl)) hat
    have hboth : ∀ {k k' : Option Nat}, index (sep false) q = k → index (sep true) q = k' →
        (∀ n, k = some n → i ≤ n) → (∀ n, k' = some n → i ≤ n) →
        ∀ d' j, j < i → ¬At (sep d') q j := by
      intro k k' hk hk' hle hle' d'
      cases d'
      · exact hearly (sep_headed false).ne_nil hk hle
      · exact hearly (sep_headed true).ne_nil hk' hle'
    unfold firstSep at h
    split at h
    · cases h
    · rename_i hf ht
      cases h
      exact ⟨(index_eq_some.1 hf).2.1, hboth hf ht (fun n hn => by cases hn; omega) nofun⟩
    · rename_i hf ht
      cases h
      exact ⟨(index_eq_some.1 ht).2.1, hboth hf ht nofun (fun n hn => by cases hn; omega)⟩
    · rename_i hf ht
      split at h
      · rename_i hlt
        cases h
        exact ⟨(index_eq_some.1 ht).2.1, hboth hf ht (fun n hn => by cases hn; omega)
          fun n hn => by cases hn; omega⟩
      · rename_i hlt
        cases h
        exact ⟨(index_eq_some.1 hf).2.1, hboth hf ht (fun n hn => by cases hn; omega)
          fun n hn => by cases hn; omega⟩
  · rintro ⟨hat, hearly⟩
    have hle := hat.end_le (sep_headed d).ne_nil
    have hind : index (sep d) q = some i :=
      index_eq_some.2 ⟨by omega, hat, fun j hj => hearly d j hj⟩
    have hother : ∀ n, index (sep !d) q = some n → i < n := by
      intro n hn
      have hn := (index_eq_some.1 hn).2.1
      rcases Nat.lt_trichotomy i n with h | rfl | h
      · exact h
      · exact absurd (sep_same hat hn) (by cases d <;> decide)
      · exact absurd hn (hearly _ n h)
    unfold firstSep
    cases d
    · rw [hind]
      cases ht : index (sep true) q with
      | none => rfl
      | some n =>
        have := hother n ht
        simp only
        rw [if_neg (by omega)]
    · rw [hind]
      cases hf : index (sep false) q with
      | none => rfl
      | some n =>
        have := hother n hf
        simp only
        rw [if_pos this]

/-! ## The first separator of a text -/

theorem free_iff {p : List UInt8} : firstSep (p.map asciiLower) = none ↔ Free p := by
  rw [firstSep_eq_none]
  unfold Free
  simp only [infix_iff, not_exists]

theorem IsSep.length {s : List UInt8} {d : Bool} (h : IsSep s d) : s.length = (sep d).length := by
  rw [← h, List.length_map]

theorem IsSep.at {x s r : List UInt8} {d : Bool} (h : IsSep s d) :
    At (sep d) ((x ++ (s ++ r)).map asciiLower) x.length := by
  rw [List.map_append, ← List.length_map (f := asciiLower), ← Nat.add_zero (List.length _),
    at_append, List.map_append, show s.map asciiLower = sep d from h]
  exact List.prefix_append _ _

/-- Where a separator stands, the text can be taken apart. -/
theorem At.cut {p : List UInt8} {i : Nat} {d : Bool} (h : At (sep d) (p.map asciiLower) i) :
    ∃ x s r, p = x ++ (s ++ r) ∧ x.length = i ∧ IsSep s d := by
  have hle := h.end_le (sep_headed d).ne_nil
  rw [List.length_map] at hle
  refine ⟨p.take i, (p.drop i).take (sep d).length, (p.drop i).drop (sep d).length, ?_, ?_, ?_⟩
  · rw [List.take_append_drop, List.take_append_drop]
  · rw [List.length_take]
    omega
  · unfold IsSep
    rw [List.map_take, List.map_drop]
    exact (List.prefix_iff_eq_take.1 h).symm

/-- Text without separators in front of one: the first separator is that one. -/
theorem firstSep_cut {x s r : List UInt8} {d : Bool} (hx : Free x) (hs : IsSep s d) :
    firstSep ((x ++ (s ++ r)).map asciiLower) = some (x.length, d) := by
  refine firstSep_eq_some.2 ⟨hs.at, fun d' j hj hat => hx d' ?_⟩
  have hend := hat.apart (sep_headed d') (sep_headed d) hs.at hj
  rw [List.map_append] at hat
  exact infix_iff.2 ⟨j, hat.left (by rw [List.length_map]; omega)⟩

theorem firstSep_text {p : List UInt8} {i : Nat} {d : Bool}
    (h : firstSep (p.map asciiLower) = some (i, d)) :
    ∃ x s r, p = x ++ (s ++ r) ∧ x.length = i ∧ IsSep s d ∧ Free x := by
  obtain ⟨hat, hearly⟩ := firstSep_eq_some.1 h
  obtain ⟨x, s, r, rfl, rfl, hs⟩ := At.cut hat
  refine ⟨x, s, r, rfl, rfl, hs, fun d' hin => ?_⟩
  obtain ⟨j, hj⟩ := infix_iff.1 hin
  have hlen := hj.end_le (sep_headed d').ne_nil
  have hpos := List.length_pos_iff.2 (sep_headed d').ne_nil
  rw [List.length_map] at hlen
  refine hearly d' j (by omega) ?_
  rw [List.map_append]
  exact hj.append

/-- Behind a separator of the text: at its first one, or behind a separator of the rest. -/
theorem behind_cut {x s rest r : List UInt8} {d : Bool} (hx : Free x) (hs : IsSep s d) :
    Behind (x ++ (s ++ rest)) r ↔ r = x ++ (s ++ rest) ∨ Behind rest r := by
  unfold Behind
  refine or_congr_right ⟨?_, ?_⟩
  · rintro ⟨y, t, d', ht, heq⟩
    have hat : At (sep d') ((x ++ (s ++ rest)).map asciiLower) y.length := heq ▸ ht.at
    have hlen : s.length = (sep d).length := hs.length
    rcases Nat.lt_trichotomy y.length x.length with hlt | hyx | hlt
    · have hend := hat.apart (sep_headed d') (sep_headed d) hs.at hlt
      rw [List.map_append] at hat
      exact absurd (infix_iff.2 ⟨_, hat.left (by rw [List.length_map]; omega)⟩) (hx d')
    · obtain ⟨rfl, hrest⟩ := List.append_inj heq hyx.symm
      have hd : d = d' := sep_same hs.at (hyx ▸ hat)
      subst hd
      exact .inl (List.append_inj hrest (hs.length.trans ht.length.symm)).2.symm
    · have hend := (hs.at (x := x) (r := rest)).apart (sep_headed d) (sep_headed d') hat hlt
      have hlong : (x ++ s).length ≤ y.length := by
        rw [List.length_append]
        omega
      rw [← List.append_assoc] at heq
      obtain ⟨z, rfl⟩ : x ++ s <+: y := List.prefix_of_prefix_length_le
        ⟨rest, rfl⟩ ⟨t ++ r, heq.symm⟩ hlong
      rw [List.append_assoc (x ++ s)] at heq
      exact .inr ⟨z, t, d', ht, List.append_cancel_left heq⟩
  · rintro (rfl | ⟨z, t, d', ht, rfl⟩)
    · exact ⟨x, s, d, hs, rfl⟩
    · exact ⟨x ++ (s ++ z), t, d', ht, by simp⟩

/-! ## The loop -/

section
variable {table : Char → Char} {p : List UInt8} {parts : List PayloadPart} {n : Nat} {d : Bool}

/-- The flag a round is entered with is that of its first part. -/
theorem splitN_head (h : splitN table n p d = some parts) :
    ∃ x tail, parts = ⟨x, d⟩ :: tail := by
  cases n with
  | zero => cases h
  | succ n =>
    rw [splitN] at h
    split at h
    · cases h
      exact ⟨_, _, rfl⟩
    · split at h
      · obtain ⟨tail, -, rfl⟩ := Option.map_eq_some_iff.1 h
        exact ⟨_, _, rfl⟩
      · cases h

theorem Joined.inv (h : Joined p d parts) :
    parts = [⟨p, d⟩] ∧ Free p ∨ ∃ x s rest d' tail, p = x ++ (s ++ rest) ∧
      parts = ⟨x, d⟩ :: tail ∧ Free x ∧ IsSep s d' ∧ Joined rest d' tail := by
  cases h with
  | last _ hp => exact .inl ⟨rfl, hp⟩
  | cut _ hx hs hr => exact .inr ⟨_, _, _, _, _, rfl, rfl, hx, hs, hr⟩

theorem Joined.head (h : Joined p d parts) : ∃ x tail, parts = ⟨x, d⟩ :: tail := by
  cases h <;> exact ⟨_, _, rfl⟩

/-- There are always rounds enough. -/
theorem splitN_fuel {m : Nat} (hn : p.length < n) (hm : p.length < m) :
    splitN table n p d = splitN table m p d := by
  induction n generalizing m p d with
  | zero => exact absurd hn (Nat.not_lt_zero _)
  | succ n ih =>
    obtain ⟨m, rfl⟩ := Nat.exists_eq_add_of_lt (Nat.lt_of_le_of_lt (Nat.zero_le _) hm)
    rw [Nat.zero_add] at hm ⊢
    rw [splitN, splitN]
    split
    · rfl
    · rename_i i d' hf
      have hpos := List.length_pos_iff.2 (sep_headed d').ne_nil
      split
      · rw [ih (m := m) (by rw [List.length_drop]; omega) (by rw [List.length_drop]; omega)]
      · rfl

theorem Aligned.rest {x s rest : List UInt8} (h : Aligned table (x ++ (s ++ rest))) (hs : IsSep s d) :
    Aligned table rest := by
  intro r hr
  refine h r (.inr ?_)
  rcases hr with rfl | ⟨z, t, d', ht, rfl⟩
  · exact ⟨x, s, d, hs, rfl⟩
  · exact ⟨x ++ (s ++ z), t, d', ht, by simp⟩

theorem splitN_joined (hn : p.length < n) (ha : Aligned table p) :
    ∃ parts, splitN table n p d = some parts ∧ Joined p d parts := by
  induction n generalizing p d with
  | zero => exact absurd hn (Nat.not_lt_zero _)
  | succ n ih =>
    have hfirst := ha p (.inl rfl)
    rw [splitN]
    cases hf : firstSep (p.map asciiLower) with
    | none =>
      rw [hf] at hfirst
      rw [hfirst]
      exact ⟨_, rfl, .last d (free_iff.1 hf)⟩
    | some c =>
      obtain ⟨i, d'⟩ := c
      rw [hf] at hfirst
      rw [hfirst]
      obtain ⟨x, s, rest, rfl, rfl, hs, hx⟩ := firstSep_text hf
      have hpos := List.length_pos_iff.2 (sep_headed d').ne_nil
      have hlen := hs.length
      simp only [List.length_append] at hn ⊢
      obtain ⟨tail, htail, hj⟩ := ih (p := rest) (d := d') (by omega) (ha.rest hs)
      have hdrop : (x ++ (s ++ rest)).drop (x.length + (sep d').length) = rest := by
        rw [← hlen, ← List.length_append, ← List.append_assoc, List.drop_left]
      rw [if_pos (by omega), hdrop, htail, List.take_left]
      exact ⟨_, rfl, .cut d hx hs hj⟩

theorem aligned_of_joined (hs : splitN table n p d = some parts) (hj : Joined p d parts) :
    Aligned table p := by
  induction n generalizing p d parts with
  | zero => cases hs
  | succ n ih =>
    rw [splitN] at hs
    cases hf : firstSep (toLower table p) with
    | none =>
      rw [hf] at hs
      obtain rfl := Option.some.inj hs
      rcases hj.inv with ⟨-, hp⟩ | ⟨x, t, rest, d', tail, -, heq, -, -, hr⟩
      · rintro r (rfl | ⟨x, s, d', hsep, rfl⟩)
        · rw [hf, free_iff.2 hp]
        · exact absurd (infix_iff.2 ⟨_, hsep.at⟩) (hp d')
      · obtain ⟨_, _, rfl⟩ := hr.head
        cases heq
    | some c =>
      obtain ⟨i, d'⟩ := c
      rw [hf] at hs
      simp only at hs
      split at hs
      · rename_i hle
        obtain ⟨tail, htail, rfl⟩ := Option.map_eq_some_iff.1 hs
        obtain ⟨y, tail', rfl⟩ := splitN_head htail
        rcases hj.inv with ⟨heq, -⟩ | ⟨x, t, rest, d'', _, rfl, heq, hx, hsep, hr⟩
        · cases (List.cons.inj heq).2
        · obtain ⟨hpart, rfl⟩ := List.cons.inj heq
          obtain ⟨_, _, hhead⟩ := hr.head
          obtain rfl : d' = d'' := congrArg PayloadPart.delay (List.cons.inj hhead).1
          have hlen := hsep.length
          obtain rfl : i = x.length := by
            have hx := congrArg (fun z => z.text.length) hpart
            simp only [List.length_take, List.length_append] at hx hle
            omega
          have hdrop : (x ++ (t ++ rest)).drop (x.length + (sep d').length) = rest := by
            rw [← hlen, ← List.length_append, ← List.append_assoc, List.drop_left]
          rw [hdrop] at htail
          have ha := ih htail hr
          intro r hbehind
          rcases (behind_cut hx hsep).1 hbehind with rfl | hbehind
          · rw [hf, firstSep_cut hx hsep]
          · exact ha r hbehind
      · cases hs

end

theorem encode_ascii {n : Nat} (hn : n < 128) :
    Utf8.encode [Char.ofNat n] = [UInt8.ofNat n] ∧ (Char.ofNat n).val ≤ 0x7f ∧
      Utf8.encode [(Char.ofNat n).toLower] = [asciiLower (UInt8.ofNat n)] := by
  revert n
  decide

variable {table : Char → Char} {p : List UInt8}

theorem toLower_ascii (hp : ∀ b ∈ p, b < 0x80) : toLower table p = p.map asciiLower := by
  have hencode : Utf8.encode (p.map fun b => Char.ofNat b.toNat) = p := by
    induction p with
    | nil => rfl
    | cons b p ih =>
      have hb := encode_ascii (UInt8.lt_iff_toNat_lt.1 (hp b (.head _)))
      rw [List.map_cons, ← List.singleton_append, Utf8.encode_append, hb.1, UInt8.ofNat_toNat,
        ih fun x hx => hp x (.tail _ hx)]
      rfl
  have hlower : Utf8.encode ((p.map fun b => Char.ofNat b.toNat).map (runeLower table)) =
      p.map asciiLower := by
    clear hencode
    induction p with
    | nil => rfl
    | cons b p ih =>
      obtain ⟨-, hval, hb⟩ := encode_ascii (UInt8.lt_iff_toNat_lt.1 (hp b (.head _)))
      rw [UInt8.ofNat_toNat] at hb
      rw [List.map_cons, List.map_cons, List.map_cons, ← List.singleton_append,
        Utf8.encode_append, ih fun x hx => hp x (.tail _ hx), runeLower, if_pos hval, hb]
      rfl
  have hdecode := Utf8.decode_encode (fun _ => 1) (p.map fun b => Char.ofNat b.toNat)
  rw [hencode] at hdecode
  rw [toLower, hdecode, hlower]

/-- A payload of ASCII is split as it should be. -/
theorem ascii_aligned (hp : ∀ b ∈ p, b < 0x80) : Aligned table p := by
  rintro r (rfl | ⟨x, s, d, -, rfl⟩)
  · rw [toLower_ascii hp]
  · rw [toLower_ascii fun b hb => hp b (by simp [hb])]

/-- A byte that is no UTF-8, and then a separator. -/
def badByte : List UInt8 := 0xff :: sep false

end Ghajar.Ssh
