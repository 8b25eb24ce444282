import Mathlib.Data.List.Infix

/-!
# Searching a text for words

`index w q` is the first place of the word `w` in `q`. Words that begin with a character they do
not have again (`Headed`) cannot overlap (`At.apart`), so between two of them the text can be
taken apart and read on from there.
-/

namespace Search

variable {α : Type} {c : α} {w u v x y q : List α} {i j : Nat}

def index [DecidableEq α] (w : List α) : List α → Option Nat
  | [] => if w = [] then some 0 else none
  | c :: q => if w.isPrefixOf (c :: q) then some 0 else (index w q).map (· + 1)

/-- The word stands in the text at this place. -/
def At (w q : List α) (i : Nat) : Prop := w <+: q.drop i

theorem at_nil : At w [] i ↔ w = [] := by
  rw [At, List.drop_nil, List.prefix_nil]

theorem index_eq_some [DecidableEq α] :
    index w q = some i ↔ i ≤ q.length ∧ At w q i ∧ ∀ j < i, ¬At w q j := by
  induction q generalizing i with
  | nil =>
    by_cases hw : w = []
    · subst hw
      constructor
      · rintro ⟨⟩
        exact ⟨Nat.le_refl 0, List.nil_prefix, fun j hj => absurd hj (Nat.not_lt_zero j)⟩
      · rintro ⟨hi, -⟩
        rw [Nat.le_zero.1 hi]
        rfl
    · rw [index, if_neg hw]
      exact ⟨nofun, fun ⟨_, h, _⟩ => absurd (at_nil.1 h) hw⟩
  | cons c q ih =>
    rw [index]
    by_cases hp : w <+: c :: q
    · rw [if_pos (List.isPrefixOf_iff_prefix.2 hp)]
      constructor
      · rintro ⟨⟩
        exact ⟨Nat.zero_le _, hp, fun j hj => absurd hj (Nat.not_lt_zero j)⟩
      · rintro ⟨-, -, hmin⟩
        cases i with
        | zero => rfl
        | succ i => exact absurd hp (hmin 0 (Nat.succ_pos i))
    · rw [if_neg fun h => hp (List.isPrefixOf_iff_prefix.1 h), Option.map_eq_some_iff]
      constructor
      · rintro ⟨k, hk, rfl⟩
        obtain ⟨hle, hat, hmin⟩ := ih.1 hk
        refine ⟨Nat.succ_le_succ hle, hat, fun j hj => ?_⟩
        cases j with
        | zero => exact hp
        | succ j => exact hmin j (Nat.lt_of_succ_lt_succ hj)
      · rintro ⟨hle, hat, hmin⟩
        cases i with
        | zero => exact absurd hat hp
        | succ i =>
          exact ⟨i, ih.2 ⟨Nat.le_of_succ_le_succ hle, hat,
            fun j hj => hmin (j + 1) (Nat.succ_lt_succ hj)⟩, rfl⟩

theorem At.end_le (h : At w q i) (hw : w ≠ []) : i + w.length ≤ q.length := by
  have hl : w.length ≤ (q.drop i).length := List.IsPrefix.length_le h
  have hpos := List.length_pos_iff.2 hw
  rw [List.length_drop] at hl
  omega

theorem index_eq_none [DecidableEq α] (hw : w ≠ []) : index w q = none ↔ ∀ i, ¬At w q i := by
  induction q with
  | nil =>
    rw [index, if_neg hw]
    exact ⟨fun _ i h => hw (at_nil.1 h), fun _ => rfl⟩
  | cons c q ih =>
    rw [index]
    by_cases hp : w <+: c :: q
    · rw [if_pos (List.isPrefixOf_iff_prefix.2 hp)]
      exact ⟨nofun, fun h => absurd hp (h 0)⟩
    · rw [if_neg fun h => hp (List.isPrefixOf_iff_prefix.1 h), Option.map_eq_none_iff, ih]
      constructor
      · intro h i
        cases i with
        | zero => exact hp
        | succ i => exact h i
      · exact fun h i => h (i + 1)

theorem infix_iff : w <:+: q ↔ ∃ i, At w q i := by
  constructor
  · rintro ⟨a, b, rfl⟩
    refine ⟨a.length, ?_⟩
    rw [At, List.append_assoc, List.drop_left]
    exact List.prefix_append w b
  · rintro ⟨i, hi⟩
    exact hi.isInfix.trans (List.drop_suffix i q).isInfix

theorem at_append : At w (x ++ y) (x.length + i) ↔ At w y i := by
  rw [At, List.drop_append, List.drop_eq_nil_of_le (Nat.le_add_right _ _), List.nil_append,
    Nat.add_sub_cancel_left, At]

theorem At.left (h : At w (x ++ y) i) (hi : i + w.length ≤ x.length) : At w x i := by
  rw [At, List.drop_append_of_le_length (by omega)] at h
  exact List.prefix_of_prefix_length_le h (List.prefix_append _ _)
    (by rw [List.length_drop]; omega)

theorem At.append (h : At w x i) : At w (x ++ y) i := by
  by_cases hi : i ≤ x.length
  · rw [At, List.drop_append_of_le_length hi]
    exact h.trans (List.prefix_append _ _)
  · rw [At, List.drop_eq_nil_of_le (by omega)] at h
    rw [List.prefix_nil.1 h]
    exact List.nil_prefix

/-! ## Words that cannot overlap -/

/-- The word begins with `c` and does not have it again. -/
def Headed (c : α) (w : List α) : Prop := ∃ t, w = c :: t ∧ c ∉ t

theorem Headed.ne_nil (h : Headed c w) : w ≠ [] := by
  obtain ⟨t, rfl, -⟩ := h
  exact List.cons_ne_nil c t

/-- Of two such words in a text, one ends before the other begins. -/
theorem At.apart (hu : Headed c u) (hv : Headed c v) (hi : At u q i) (hj : At v q j)
    (hij : i < j) : i + u.length ≤ j := by
  by_contra hlt
  obtain ⟨t, rfl, ht⟩ := hu
  obtain ⟨t', rfl, -⟩ := hv
  obtain ⟨a, ha⟩ := hi
  obtain ⟨b, hb⟩ := hj
  have hlast : q[j]? = some c := by
    have h := congrArg (·[0]?) hb
    simpa using h.symm
  have hin : q[j]? = (c :: t)[j - i]? := by
    have h := congrArg (·[j - i]?) ha
    simp only [List.getElem?_drop] at h
    rw [show i + (j - i) = j by omega, List.getElem?_append_left (by omega)] at h
    exact h.symm
  rw [hlast, show j - i = (j - i - 1) + 1 by omega, List.getElem?_cons_succ] at hin
  exact ht (List.mem_of_getElem? hin.symm)

end Search
