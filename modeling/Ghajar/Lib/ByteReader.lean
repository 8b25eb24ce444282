import Ghajar.Lib.Bytes

/-!
# Reading from a stream of bytes

A `ByteReader` takes its value off the front of the bytes there are, or stops
with an error. `Reads r W` is the exact account of one: it returns `a` and leaves
`rest` if and only if the stream is a word `W` has for `a`, followed by `rest`.
The rules below give the words of a sequence of reads and of a loop; whatever a
reader takes is then aligned for the next one, and a word cut short is an error.
-/

/-- A reader of a stream: a value and the bytes after it, or the error. -/
def ByteReader (ε α : Type) : Type := List UInt8 → Except ε (α × List UInt8)

namespace ByteReader

variable {ε α β σ : Type}

instance : Monad (ByteReader ε) where
  pure a := fun s => .ok (a, s)
  bind r k := fun s =>
    match r s with
    | .ok (a, rest) => k a rest
    | .error e => .error e

def fail (e : ε) : ByteReader ε α := fun _ => .error e

/-- `n` bytes; the error tells an empty stream from one that ends too early. -/
def readFull (eof short : ε) (n : Nat) : ByteReader ε (List UInt8) := fun s =>
  if n ≤ s.length then .ok (s.take n, s.drop n)
  else .error (if s.isEmpty then eof else short)

/-- A big-endian word of 32 bits, read with `readFull`. -/
def word32 (eof short : ε) : ByteReader ε UInt32 := do
  let bs ← readFull eof short 4
  pure (Bytes.rd32 bs)

def word64 (eof short : ε) : ByteReader ε UInt64 := do
  let bs ← readFull eof short 8
  pure (Bytes.rd64 bs)

/-- `r`, `n` times. -/
def times (n : Nat) (r : ByteReader ε α) : ByteReader ε (List α) :=
  match n with
  | 0 => pure []
  | n + 1 => do
    let a ← r
    let as ← times n r
    pure (a :: as)

/-- `n` rounds of a loop with an accumulator. -/
def loop (n : Nat) (body : σ → ByteReader ε σ) (s : σ) : ByteReader ε σ :=
  match n with
  | 0 => pure s
  | n + 1 => do
    let s ← body s
    loop n body s

section Run

variable {r : ByteReader ε α} {k : α → ByteReader ε β} {s rest : List UInt8}

theorem pure_ok {a b : α} : (pure a : ByteReader ε α) s = .ok (b, rest) ↔ b = a ∧ s = rest := by
  constructor
  · intro h
    cases h
    exact ⟨rfl, rfl⟩
  · rintro ⟨rfl, rfl⟩
    rfl

theorem bind_of_ok {a : α} (h : r s = .ok (a, rest)) : (r >>= k) s = k a rest := by
  change (match r s with
    | .ok (a, rest) => k a rest
    | .error e => .error e) = _
  rw [h]

theorem bind_of_error {e : ε} (h : r s = .error e) : (r >>= k) s = .error e := by
  change (match r s with
    | .ok (a, rest) => k a rest
    | .error e => .error e) = _
  rw [h]

theorem bind_ok {b : β} :
    (r >>= k) s = .ok (b, rest) ↔
      ∃ a mid, r s = .ok (a, mid) ∧ k a mid = .ok (b, rest) := by
  show (match r s with
    | .ok (a, rest) => k a rest
    | .error e => .error e) = _ ↔ _
  cases h : r s with
  | error e => simp
  | ok p =>
    constructor
    · intro hk
      exact ⟨p.1, p.2, rfl, hk⟩
    · rintro ⟨a, mid, he, hk⟩
      cases he
      exact hk

end Run

/-- `r` returns `a` exactly on the words of `a`, and leaves what follows the word. -/
def Reads (r : ByteReader ε α) (W : α → List UInt8 → Prop) : Prop :=
  ∀ s a rest, r s = .ok (a, rest) ↔ ∃ w, W a w ∧ s = w ++ rest

namespace Reads

variable {r : ByteReader ε α} {W V : α → List UInt8 → Prop} {a : α} {s w rest : List UInt8}

theorem ok (h : Reads r W) (hw : W a w) : r (w ++ rest) = .ok (a, rest) :=
  (h _ _ _).2 ⟨w, hw, rfl⟩

theorem congr (h : Reads r W) (hc : ∀ a w, W a w ↔ V a w) : Reads r V := by
  intro s a rest
  rw [h s a rest]
  exact exists_congr fun w => and_congr_left' (hc a w)

/-- What starts with no word is an error. -/
theorem error (h : Reads r W) (hs : ∀ a w rest, W a w → s ≠ w ++ rest) : ∃ e, r s = .error e := by
  cases hr : r s with
  | error e => exact ⟨e, rfl⟩
  | ok p =>
    obtain ⟨w, hw, he⟩ := (h s p.1 p.2).1 hr
    exact absurd he (hs p.1 w p.2 hw)

/-- No word is the beginning of another. -/
theorem prefix_free (h : Reads r W) {b : α} {v : List UInt8} (hw : W a w) (hv : W b v)
    (hp : v <+: w) : a = b ∧ w = v := by
  obtain ⟨t, rfl⟩ := hp
  have hab : r (v ++ t) = .ok (b, t) := h.ok hv
  have haa : r (v ++ t ++ []) = .ok (a, []) := h.ok hw
  rw [List.append_nil, hab] at haa
  cases haa
  exact ⟨rfl, List.append_nil v⟩

/-- A word cut short is an error. -/
theorem cut (h : Reads r W) (hw : W a w) (hp : s <+: w) (hne : s ≠ w) : ∃ e, r s = .error e := by
  apply h.error
  rintro b v rest hv rfl
  obtain ⟨-, rfl⟩ := h.prefix_free hw hv ((List.prefix_append v rest).trans hp)
  obtain ⟨t, ht⟩ := hp
  have : rest = [] := by
    have hl := congrArg List.length ht
    simp only [List.length_append] at hl
    exact List.eq_nil_of_length_eq_zero (by omega)
  exact hne (by rw [this, List.append_nil])

end Reads

variable {r : ByteReader ε α} {k : α → ByteReader ε β} {V : α → List UInt8 → Prop}
  {W : α → β → List UInt8 → Prop}

theorem reads_pure (a : α) : Reads (pure a : ByteReader ε α) fun b w => b = a ∧ w = [] := by
  intro s b rest
  rw [pure_ok]
  constructor
  · rintro ⟨rfl, rfl⟩
    exact ⟨[], ⟨rfl, rfl⟩, rfl⟩
  · rintro ⟨w, ⟨rfl, rfl⟩, rfl⟩
    exact ⟨rfl, rfl⟩

theorem reads_fail (e : ε) : Reads (fail e : ByteReader ε α) fun _ _ => False := by
  intro s a rest
  constructor
  · intro h
    cases h
  · rintro ⟨w, hw, -⟩
    exact hw.elim

theorem reads_bind (hr : Reads r V) (hk : ∀ a, Reads (k a) (W a)) :
    Reads (r >>= k) fun b w => ∃ a v u, V a v ∧ W a b u ∧ w = v ++ u := by
  intro s b rest
  rw [bind_ok]
  constructor
  · rintro ⟨a, mid, ha, hb⟩
    obtain ⟨v, hv, rfl⟩ := (hr _ _ _).1 ha
    obtain ⟨u, hu, rfl⟩ := (hk a _ _ _).1 hb
    exact ⟨v ++ u, ⟨a, v, u, hv, hu, rfl⟩, (List.append_assoc v u rest).symm⟩
  · rintro ⟨w, ⟨a, v, u, hv, hu, rfl⟩, rfl⟩
    refine ⟨a, u ++ rest, ?_, (hk a).ok hu⟩
    rw [List.append_assoc]
    exact hr.ok hv

theorem reads_ite {c : Prop} [Decidable c] {r r' : ByteReader ε α} {V V' : α → List UInt8 → Prop}
    (h : c → Reads r V) (h' : ¬c → Reads r' V') :
    Reads (if c then r else r') fun a w => if c then V a w else V' a w := by
  by_cases hc : c
  · simpa only [hc, if_true] using h hc
  · simpa only [hc, if_false] using h' hc

theorem reads_readFull (eof short : ε) (n : Nat) :
    Reads (readFull eof short n) fun a w => a.length = n ∧ w = a := by
  intro s a rest
  unfold readFull
  constructor
  · intro h
    split at h
    · cases h
      exact ⟨_, ⟨by simp; omega, rfl⟩, (List.take_append_drop n s).symm⟩
    · cases h
  · rintro ⟨w, ⟨rfl, rfl⟩, rfl⟩
    rw [if_pos (by simp), List.take_left, List.drop_left]

theorem reads_word32 (eof short : ε) : Reads (word32 eof short) fun v w => w = Bytes.be32 v := by
  refine (reads_bind (reads_readFull eof short 4) fun bs => reads_pure (Bytes.rd32 bs)).congr ?_
  intro v w
  constructor
  · rintro ⟨bs, v, u, ⟨hl, rfl⟩, ⟨rfl, rfl⟩, rfl⟩
    rw [List.append_nil, Bytes.be32_rd32 hl]
  · rintro rfl
    exact ⟨_, _, [], ⟨Bytes.be32_length v, rfl⟩, ⟨(Bytes.rd32_be32 v).symm, rfl⟩, by simp⟩

theorem reads_word64 (eof short : ε) : Reads (word64 eof short) fun v w => w = Bytes.be64 v := by
  refine (reads_bind (reads_readFull eof short 8) fun bs => reads_pure (Bytes.rd64 bs)).congr ?_
  intro v w
  constructor
  · rintro ⟨bs, v, u, ⟨hl, rfl⟩, ⟨rfl, rfl⟩, rfl⟩
    rw [List.append_nil, Bytes.be64_rd64 hl]
  · rintro rfl
    exact ⟨_, _, [], ⟨Bytes.be64_length v, rfl⟩, ⟨(Bytes.rd64_be64 v).symm, rfl⟩, by simp⟩

/-- The words of a list: one word for each element, in order. -/
def Words (V : α → List UInt8 → Prop) : List α → List UInt8 → Prop
  | [], w => w = []
  | a :: as, w => ∃ v u, V a v ∧ Words V as u ∧ w = v ++ u

theorem words_flatMap {f : α → List UInt8} {as : List α} (h : ∀ a ∈ as, V a (f a)) :
    Words V as (as.flatMap f) := by
  induction as with
  | nil => rfl
  | cons a as ih =>
    exact ⟨f a, as.flatMap f, h a List.mem_cons_self,
      ih fun b hb => h b (List.mem_cons_of_mem a hb), rfl⟩

theorem words_fun {P : α → Prop} {f : α → List UInt8} {as : List α} {w : List UInt8} :
    Words (fun a v => P a ∧ v = f a) as w ↔ (∀ a ∈ as, P a) ∧ w = as.flatMap f := by
  induction as generalizing w with
  | nil => simp [Words]
  | cons a as ih =>
    constructor
    · rintro ⟨-, u, ⟨hp, rfl⟩, hu, rfl⟩
      obtain ⟨hps, rfl⟩ := ih.1 hu
      exact ⟨List.forall_mem_cons.2 ⟨hp, hps⟩, rfl⟩
    · rintro ⟨hp, rfl⟩
      rw [List.forall_mem_cons] at hp
      exact ⟨f a, as.flatMap f, ⟨hp.1, rfl⟩, ih.2 ⟨hp.2, rfl⟩, rfl⟩

theorem reads_times (hr : Reads r V) (n : Nat) :
    Reads (times n r) fun as w => as.length = n ∧ Words V as w := by
  induction n with
  | zero =>
    refine (reads_pure []).congr ?_
    intro as w
    rw [List.length_eq_zero_iff]
    constructor
    · rintro ⟨rfl, rfl⟩
      exact ⟨rfl, rfl⟩
    · rintro ⟨rfl, hw⟩
      exact ⟨rfl, hw⟩
  | succ n ih =>
    refine (reads_bind hr fun a => reads_bind ih fun as => reads_pure (a :: as)).congr ?_
    intro as w
    constructor
    · rintro ⟨a, v, -, hv, ⟨bs, u, -, ⟨rfl, hu⟩, ⟨rfl, rfl⟩, rfl⟩, rfl⟩
      exact ⟨rfl, v, u, hv, hu, by rw [List.append_nil]⟩
    · rintro ⟨hl, hw⟩
      cases as with
      | nil => cases hl
      | cons a as =>
        obtain ⟨v, u, hv, hu, rfl⟩ := hw
        exact ⟨a, v, u, hv, ⟨as, u, [], ⟨Nat.succ.inj hl, hu⟩, ⟨rfl, rfl⟩, by simp⟩, rfl⟩

/-- Where words are cut short, those that are whole are read, and behind them is an error. -/
theorem words_cut (hr : Reads r V) {as : List α} {w s : List UInt8} (hw : Words V as w)
    (hp : s <+: w) : ∃ k rest, k ≤ as.length ∧ times k r s = .ok (as.take k, rest) ∧
      (k = as.length → rest = []) ∧ (k < as.length → ∃ e, r rest = .error e) := by
  induction as generalizing w s with
  | nil =>
    have hs : s = [] := List.prefix_nil.1 (by rwa [show w = [] from hw] at hp)
    exact ⟨0, s, Nat.le_refl 0, rfl, fun _ => hs, fun h => absurd h (Nat.lt_irrefl 0)⟩
  | cons a as ih =>
    obtain ⟨v, u, hv, hu, rfl⟩ := hw
    obtain ⟨t, ht⟩ := hp
    have hwhole : ∀ c, c <+: u → ∃ k rest, k ≤ (a :: as).length ∧
        times k r (v ++ c) = .ok ((a :: as).take k, rest) ∧
        (k = (a :: as).length → rest = []) ∧
        (k < (a :: as).length → ∃ e, r rest = .error e) := by
      intro c hc
      obtain ⟨k, rest, hk, hread, hall, herr⟩ := ih hu hc
      refine ⟨k + 1, rest, Nat.succ_le_succ hk, ?_, fun h => hall (Nat.succ.inj h),
        fun h => herr (Nat.lt_of_succ_lt_succ h)⟩
      rw [times, bind_of_ok (hr.ok hv), bind_of_ok hread]
      rfl
    rcases List.append_eq_append_iff.1 ht with ⟨x, hx, -⟩ | ⟨c, rfl, hc⟩
    · by_cases hs : s = v
      · rw [hs, ← List.append_nil v]
        exact hwhole [] List.nil_prefix
      · exact ⟨0, s, Nat.zero_le _, rfl, fun h => absurd h (by simp),
          fun _ => hr.cut hv ⟨x, hx.symm⟩ hs⟩
    · exact hwhole c ⟨t, hc.symm⟩

/-- A loop whose rounds each read a value into the accumulator reads the words of a list. -/
theorem reads_loop {body : σ → ByteReader ε σ} {f : σ → α → σ}
    (hb : ∀ s, Reads (body s) fun t w => ∃ a, V a w ∧ t = f s a) (n : Nat) (s : σ) :
    Reads (loop n body s)
      fun t w => ∃ as, as.length = n ∧ Words V as w ∧ t = as.foldl f s := by
  induction n generalizing s with
  | zero =>
    refine (reads_pure s).congr ?_
    intro t w
    constructor
    · rintro ⟨rfl, rfl⟩
      exact ⟨[], rfl, rfl, rfl⟩
    · rintro ⟨as, hl, hw, rfl⟩
      rw [List.length_eq_zero_iff] at hl
      subst hl
      exact ⟨rfl, hw⟩
  | succ n ih =>
    refine (reads_bind (hb s) ih).congr ?_
    intro t w
    constructor
    · rintro ⟨-, v, u, ⟨a, hv, rfl⟩, ⟨as, rfl, hw, rfl⟩, rfl⟩
      exact ⟨a :: as, rfl, ⟨v, u, hv, hw, rfl⟩, rfl⟩
    · rintro ⟨as, hl, hw, rfl⟩
      cases as with
      | nil => cases hl
      | cons a as =>
        obtain ⟨v, u, hv, hu, rfl⟩ := hw
        exact ⟨f s a, v, u, ⟨a, hv, rfl⟩, ⟨as, Nat.succ.inj hl, hu, rfl⟩, rfl⟩

end ByteReader
