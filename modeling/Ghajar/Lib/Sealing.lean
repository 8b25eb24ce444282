import Mathlib.Data.List.Basic

/-!
# Sealed texts

A cipher seals a text under a key, with a nonce and data that is not sealed but goes with
it. `Ideal` is what a program relies on: what is sealed is opened, and neither other keys
nor a changed byte, a missing head or a longer one give a text that opens. `Changed l m` says that `m` is `l` with one
element changed; `Changed.append_iff` finds the part that it is in. `inTheOpen` is a cipher
that hides nothing and is ideal.
-/

/-! ## One element changed -/

inductive Changed {α : Type} : List α → List α → Prop
  | head {x y : α} (l : List α) : x ≠ y → Changed (x :: l) (y :: l)
  | tail {l m : List α} (x : α) : Changed l m → Changed (x :: l) (x :: m)

namespace Changed

variable {α : Type} {l m as bs : List α} {x y : α}

theorem length_eq (h : Changed l m) : m.length = l.length := by
  induction h with
  | head l _ => rfl
  | tail x _ ih => simp [ih]

theorem ne (h : Changed l m) : m ≠ l := by
  induction h with
  | head l hxy => exact fun he => hxy (List.cons.inj he).1.symm
  | tail x _ ih => exact fun he => ih (List.cons.inj he).2

theorem of_set {i : Nat} (hi : i < l.length) (hx : l[i] ≠ x) : Changed l (l.set i x) := by
  induction l generalizing i with
  | nil => cases hi
  | cons y l ih =>
    cases i with
    | zero => exact .head l hx
    | succ i => exact .tail y (ih (Nat.lt_of_succ_lt_succ hi) hx)

theorem append_iff : Changed (as ++ bs) m ↔
    (∃ as', Changed as as' ∧ m = as' ++ bs) ∨ ∃ bs', Changed bs bs' ∧ m = as ++ bs' := by
  constructor
  · intro h
    induction as generalizing m with
    | nil => exact .inr ⟨m, h, rfl⟩
    | cons x as ih =>
      cases h with
      | head _ hxy => exact .inl ⟨_ :: as, .head as hxy, rfl⟩
      | tail _ h =>
        rcases ih h with ⟨as', h', rfl⟩ | ⟨bs', h', rfl⟩
        · exact .inl ⟨x :: as', .tail x h', rfl⟩
        · exact .inr ⟨bs', h', rfl⟩
  · rintro (⟨as', h, rfl⟩ | ⟨bs', h, rfl⟩)
    · induction h with
      | head l hxy => exact .head _ hxy
      | tail x _ ih => exact .tail x ih
    · induction as with
      | nil => exact h
      | cons x as ih => exact .tail x ih

theorem singleton_iff : Changed [x] m ↔ ∃ y, x ≠ y ∧ m = [y] := by
  constructor
  · intro h
    cases h with
    | head _ hxy => exact ⟨_, hxy, rfl⟩
    | tail _ h => cases h
  · rintro ⟨y, hxy, rfl⟩
    exact .head [] hxy

end Changed

/-! ## Ciphers -/

namespace Sealing

/-- A cipher with keys in `K`; `decrypt` is nothing where the tag does not fit. -/
structure Cipher (K : Type) where
  encrypt : (key : K) → (nonce data text : List UInt8) → List UInt8
  decrypt : (key : K) → (nonce data sealed : List UInt8) → Option (List UInt8)

/-- What sealed texts are relied on for. -/
structure Cipher.Ideal {K : Type} (c : Cipher K) : Prop where
  opens : ∀ k n d t, c.decrypt k n d (c.encrypt k n d t) = some t
  sealed : ∀ {k n d s t}, c.decrypt k n d s = some t → s = c.encrypt k n d t
  inj : ∀ {k n d t k' n' d' t'}, c.encrypt k n d t = c.encrypt k' n' d' t' → k = k' ∧ n = n' ∧ d = d'
  changed : ∀ {k n d t k' n' d' t'}, ¬Changed (c.encrypt k n d t) (c.encrypt k' n' d' t')
  suffix : ∀ {k n d t k' n' d' t'}, c.encrypt k n d t <:+ c.encrypt k' n' d' t' →
    (c.encrypt k n d t).length = (c.encrypt k' n' d' t').length
  length : ∀ k n d t, 16 ≤ (c.encrypt k n d t).length

/-- No sealed text is the head of a longer one. -/
def Cipher.NoPrefix {K : Type} (c : Cipher K) : Prop :=
  ∀ {k n d t k' n' d' t'}, c.encrypt k n d t <+: c.encrypt k' n' d' t' →
    (c.encrypt k n d t).length = (c.encrypt k' n' d' t').length

namespace Cipher.Ideal

variable {K : Type} {c : Cipher K} {k k' : K} {n d t n' d' t' s : List UInt8}

/-- A sealed text opens under its own key, nonce and data alone. -/
theorem decrypt_encrypt (h : c.Ideal) (ho : c.decrypt k' n' d' (c.encrypt k n d t) = some t') :
    k' = k ∧ n' = n ∧ d' = d := by
  obtain ⟨hk, hn, hd⟩ := h.inj (h.sealed ho)
  exact ⟨hk.symm, hn.symm, hd.symm⟩

/-- Without its head a sealed text does not open. -/
theorem decrypt_drop (h : c.Ideal) {m : Nat} (hm : 0 < m) :
    c.decrypt k' n' d' ((c.encrypt k n d t).drop m) = none := by
  cases ho : c.decrypt k' n' d' ((c.encrypt k n d t).drop m) with
  | none => rfl
  | some t' =>
    have hs := h.sealed ho
    have hlen := h.suffix (hs ▸ List.drop_suffix m (c.encrypt k n d t))
    have hpos := h.length k n d t
    rw [← hs, List.length_drop] at hlen
    omega

/-- With something before it a sealed text does not open. -/
theorem decrypt_append (h : c.Ideal) (hs : s ≠ []) :
    c.decrypt k' n' d' (s ++ c.encrypt k n d t) = none := by
  cases ho : c.decrypt k' n' d' (s ++ c.encrypt k n d t) with
  | none => rfl
  | some t' =>
    have hd := h.sealed ho
    have hlen := h.suffix (hd ▸ List.suffix_append s (c.encrypt k n d t))
    have hpos := List.length_pos_iff.2 hs
    rw [← hd, List.length_append] at hlen
    omega

/-- Cut short a sealed text does not open. -/
theorem decrypt_take (h : c.Ideal) (hp : c.NoPrefix) {m : Nat}
    (hm : m < (c.encrypt k n d t).length) :
    c.decrypt k' n' d' ((c.encrypt k n d t).take m) = none := by
  cases ho : c.decrypt k' n' d' ((c.encrypt k n d t).take m) with
  | none => rfl
  | some t' =>
    have hs := h.sealed ho
    have hlen := hp (hs ▸ List.take_prefix m (c.encrypt k n d t))
    rw [← hs, List.length_take] at hlen
    omega

theorem decrypt_changed (h : c.Ideal) (hs : Changed (c.encrypt k n d t) s) :
    c.decrypt k' n' d' s = none := by
  cases ho : c.decrypt k' n' d' s with
  | none => rfl
  | some t' => exact absurd (h.sealed ho ▸ hs) h.changed

end Cipher.Ideal

/-! ## A cipher that is ideal -/

/-- Each byte twice, so that no such text is another one with a byte changed. -/
def twice (l : List UInt8) : List UInt8 := l.flatMap fun b => [b, b]

def untwice : List UInt8 → Option (List UInt8)
  | [] => some []
  | b :: c :: l => if b = c then (untwice l).map (b :: ·) else none
  | [_] => none

/-- A text that shows where it ends. -/
def closed (l : List UInt8) : List UInt8 := l.flatMap (fun b => [1, b]) ++ [0]

/-- A closed text and what is behind it. -/
def unclose : List UInt8 → Option (List UInt8 × List UInt8)
  | 0 :: l => some ([], l)
  | 1 :: b :: l => (unclose l).map fun r => (b :: r.1, r.2)
  | _ => none

theorem untwice_twice (l : List UInt8) : untwice (twice l) = some l := by
  induction l with
  | nil => rfl
  | cons b l ih =>
    change untwice (b :: b :: twice l) = _
    rw [untwice, if_pos rfl, ih]
    rfl

theorem twice_unchanged {l m : List UInt8} : ¬Changed (twice l) (twice m) := by
  induction l generalizing m with
  | nil => intro h; cases h
  | cons b l ih =>
    cases m with
    | nil => intro h; cases h
    | cons c m =>
      intro h
      change Changed (b :: b :: twice l) (c :: c :: twice m) at h
      generalize hx : b :: twice l = x at h
      generalize hy : c :: twice m = y at h
      cases h with
      | head _ hne => exact hne (List.cons.inj (hx.trans hy.symm)).1
      | tail _ h =>
        subst hx
        generalize hz : twice l = z at h
        generalize hw : twice m = w at h hy
        subst hy
        cases h with
        | head _ hne => exact hne rfl
        | tail _ h => exact ih (hz ▸ hw ▸ h)

theorem closed_length (l : List UInt8) : (closed l).length = 2 * l.length + 1 := by
  induction l with
  | nil => rfl
  | cons b l ih =>
    change (closed l).length + 2 = 2 * (l.length + 1) + 1
    omega

theorem unclose_closed (l rest : List UInt8) : unclose (closed l ++ rest) = some (l, rest) := by
  induction l with
  | nil => rfl
  | cons b l ih =>
    change unclose (1 :: b :: (closed l ++ rest)) = _
    rw [unclose, ih]
    rfl

theorem closed_inj {l m r r' : List UInt8} (h : closed l ++ r = closed m ++ r') :
    l = m ∧ r = r' := by
  have hu := congrArg unclose h
  rw [unclose_closed, unclose_closed] at hu
  exact Prod.mk.inj (Option.some.inj hu)

/-- A text and its length behind it. -/
def measured (l : List UInt8) : List UInt8 := l ++ 0 :: List.replicate l.length 1

/-- A text with its key, nonce and data. -/
def labelled (k n d t : List UInt8) : List UInt8 :=
  closed k ++ (closed n ++ (closed d ++ (closed t ++ [])))

theorem labelled_inj {k n d t k' n' d' t' : List UInt8}
    (h : labelled k n d t = labelled k' n' d' t') : k = k' ∧ n = n' ∧ d = d' ∧ t = t' := by
  obtain ⟨hk, h⟩ := closed_inj h
  obtain ⟨hn, h⟩ := closed_inj h
  obtain ⟨hd, h⟩ := closed_inj h
  exact ⟨hk, hn, hd, (closed_inj h).1⟩

theorem replicate_append_inj {m n : Nat} {l l' : List UInt8}
    (h : List.replicate m 1 ++ 0 :: l = List.replicate n 1 ++ 0 :: l') : m = n := by
  induction m generalizing n with
  | zero =>
    cases n with
    | zero => rfl
    | succ n => exact absurd (List.cons.inj h).1 (by decide)
  | succ m ih =>
    cases n with
    | zero => exact absurd (List.cons.inj h).1 (by decide)
    | succ n => exact congrArg _ (ih (List.cons.inj h).2)

/-- The length behind a text is that of any measured text it ends with. -/
theorem measured_suffix {l m : List UInt8} (h : measured l <:+ measured m) :
    l.length = m.length := by
  obtain ⟨r, hr⟩ := h
  have hrev := congrArg List.reverse hr
  simp only [measured, List.reverse_append, List.reverse_cons, List.reverse_replicate,
    List.append_assoc, List.singleton_append] at hrev
  exact replicate_append_inj hrev

theorem measured_take (l : List UInt8) :
    (measured l).take ((measured l).length / 2) = l := by
  have hlen : (measured l).length / 2 = l.length := by
    simp only [measured, List.length_append, List.length_cons, List.length_replicate]
    omega
  rw [hlen]
  exact List.take_left

theorem twice_length (l : List UInt8) : (twice l).length = 2 * l.length := by
  induction l with
  | nil => rfl
  | cons b l ih =>
    change (twice l).length + 2 = 2 * (l.length + 1)
    omega

theorem twice_append (l m : List UInt8) : twice (l ++ m) = twice l ++ twice m :=
  List.flatMap_append

theorem twice_suffix {l m : List UInt8} (h : twice l <:+ twice m) : l <:+ m := by
  obtain ⟨r, hr⟩ := h
  have hlen := congrArg List.length hr
  rw [List.length_append, twice_length, twice_length] at hlen
  have hsplit : twice (m.take (m.length - l.length)) ++ twice (m.drop (m.length - l.length)) =
      r ++ twice l := by rw [← twice_append, List.take_append_drop, hr]
  have hinj := List.append_inj' hsplit (by
    rw [twice_length, twice_length, List.length_drop]
    omega)
  have hu := congrArg untwice hinj.2
  rw [untwice_twice, untwice_twice] at hu
  rw [← Option.some.inj hu]
  exact List.drop_suffix _ _

/-- What is sealed stands in the open, with its key. -/
def inTheOpen : Cipher (List UInt8) :=
  { encrypt := fun k n d t => twice (measured (labelled k n d t))
    decrypt := fun k n d s => do
      let l ← untwice s
      let (_, l) ← unclose (l.take (l.length / 2))
      let (_, l) ← unclose l
      let (_, l) ← unclose l
      let (t, _) ← unclose l
      if s = twice (measured (labelled k n d t)) then some t else none }

theorem inTheOpen_length (k n d t : List UInt8) : (inTheOpen.encrypt k n d t).length =
    8 * (k.length + n.length + d.length + t.length) + 18 := by
  simp only [inTheOpen, twice_length, measured, labelled, closed_length, List.length_append,
    List.length_cons, List.length_nil, List.length_replicate]
  omega

theorem inTheOpen_ideal : inTheOpen.Ideal := by
  have hinj {l m : List UInt8} (h : twice (measured l) = twice (measured m)) : l = m := by
    have hu := congrArg untwice h
    rw [untwice_twice, untwice_twice] at hu
    rw [← measured_take l, ← measured_take m, Option.some.inj hu]
  constructor
  case opens =>
    intro k n d t
    simp only [inTheOpen, untwice_twice, measured_take, labelled, unclose_closed,
      Option.bind_eq_bind, Option.bind_some, if_true]
  case sealed =>
    intro k n d s t h
    simp only [inTheOpen, Option.bind_eq_bind, Option.bind_eq_some_iff] at h
    obtain ⟨l, -, r1, -, r2, -, r3, -, r4, -, h⟩ := h
    split at h
    · rename_i hs
      obtain rfl := Option.some.inj h
      exact hs
    · cases h
  case inj =>
    intro k n d t k' n' d' t' h
    obtain ⟨hk, hn, hd, -⟩ := labelled_inj (hinj h)
    exact ⟨hk, hn, hd⟩
  case changed => exact twice_unchanged
  case suffix =>
    intro k n d t k' n' d' t' h
    have hlen := measured_suffix (twice_suffix h)
    simp only [inTheOpen, twice_length, measured, List.length_append, List.length_cons,
      List.length_replicate, hlen]
  case length =>
    intro k n d t
    rw [inTheOpen_length]
    omega

theorem twice_prefix {l m : List UInt8} (h : twice l <+: twice m) : l <+: m := by
  obtain ⟨r, hr⟩ := h
  have hlen := congrArg List.length hr
  rw [List.length_append, twice_length, twice_length] at hlen
  have hsplit : twice l ++ r = twice (m.take l.length) ++ twice (m.drop l.length) := by
    rw [← twice_append, List.take_append_drop, hr]
  have hinj := List.append_inj hsplit (by
    rw [twice_length, twice_length, List.length_take]
    omega)
  have hu := congrArg untwice hinj.1
  rw [untwice_twice, untwice_twice] at hu
  rw [Option.some.inj hu]
  exact List.take_prefix _ _

/-- A labelled text shows where it ends, so nothing else begins with it. -/
theorem inTheOpen_noPrefix : inTheOpen.NoPrefix := by
  intro k n d t k' n' d' t' h
  obtain ⟨r, hr⟩ := twice_prefix h
  simp only [measured, labelled, List.append_assoc] at hr
  obtain ⟨rfl, hr⟩ := closed_inj hr
  obtain ⟨rfl, hr⟩ := closed_inj hr
  obtain ⟨rfl, hr⟩ := closed_inj hr
  obtain ⟨rfl, -⟩ := closed_inj hr
  rfl

end Sealing
