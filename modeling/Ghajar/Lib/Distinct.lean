import Mathlib

/-!
# The first of each key

`distinctBy` keeps of a list the first with each key. What stands under a cap of `n` is
what comes first with its key and has fewer than `n` keys before it.
-/

namespace Distinct

variable {α κ : Type} [DecidableEq κ] (key : α → κ)

/-- `seen` are the keys that came before the list. -/
def distinctFrom (seen : List κ) : List α → List α
  | [] => []
  | x :: l =>
    if key x ∈ seen then distinctFrom seen l else x :: distinctFrom (key x :: seen) l

def distinctBy (l : List α) : List α := distinctFrom key [] l

/-- Nothing with its key comes before it. -/
def First (l : List α) (x : α) : Prop := l.find? (fun y => key y = key x) = some x

/-- The keys that come before the first with this one. -/
def before (l : List α) (k : κ) : Finset κ := ((l.takeWhile fun y => key y ≠ k).map key).toFinset

/-- All keys. -/
def keys (l : List α) : Finset κ := (l.map key).toFinset

variable {key} {l : List α} {a x y : α} {k : κ} {seen : List κ} {n : ℕ}

theorem First.mem (h : First key l x) : x ∈ l := List.mem_of_find?_eq_some h

theorem First.eq (hx : First key l x) (hy : First key l y) (h : key x = key y) : x = y := by
  unfold First at hx hy
  rw [h, hy] at hx
  exact (Option.some.inj hx).symm

/-- Whatever is in the list has its key there for a first time. -/
theorem exists_first (hx : x ∈ l) : ∃ y, First key l y ∧ key y = key x := by
  cases hf : l.find? fun y => key y = key x with
  | none => exact absurd (decide_eq_true rfl) (List.find?_eq_none.1 hf x hx)
  | some y =>
    have hk : key y = key x := by simpa using List.find?_some hf
    refine ⟨y, ?_, hk⟩
    unfold First
    rw [hk, hf]

theorem first_cons_eq (h : key x = key a) : First key (a :: l) x ↔ x = a := by
  unfold First
  rw [List.find?_cons_of_pos (by simp [h]), Option.some.injEq, eq_comm]

theorem first_cons_ne (h : key x ≠ key a) : First key (a :: l) x ↔ First key l x := by
  unfold First
  rw [List.find?_cons_of_neg (by simpa using h.symm)]

theorem before_cons_eq : before key (a :: l) (key a) = ∅ := by
  simp [before]

theorem before_cons_ne (h : k ≠ key a) : before key (a :: l) k = insert (key a) (before key l k) := by
  simp [before, h.symm]

theorem before_subset : before key l k ⊆ keys key l := by
  intro i hi
  obtain ⟨y, hy, rfl⟩ := List.mem_map.1 (List.mem_toFinset.1 hi)
  exact List.mem_toFinset.2 (List.mem_map_of_mem (List.takeWhile_subset _ hy))

theorem not_mem_before : k ∉ before key l k := by
  intro h
  obtain ⟨y, hy, rfl⟩ := List.mem_map.1 (List.mem_toFinset.1 h)
  simpa using List.mem_takeWhile_imp hy

/-- The first of a key comes before all of them together. -/
theorem card_before_lt (hx : x ∈ l) : (before key l (key x)).card < (keys key l).card := by
  refine Finset.card_lt_card (Finset.ssubset_iff_of_subset before_subset |>.2 ⟨key x, ?_, ?_⟩)
  · exact List.mem_toFinset.2 (List.mem_map_of_mem hx)
  · exact not_mem_before

theorem mem_take_distinctFrom : x ∈ (distinctFrom key seen l).take n ↔
    key x ∉ seen ∧ First key l x ∧ (before key l (key x) \ seen.toFinset).card < n := by
  induction l generalizing seen n with
  | nil => simp [distinctFrom, First]
  | cons a l ih =>
    unfold distinctFrom
    split
    · rename_i ha
      rw [ih]
      refine and_congr_right fun hx => ?_
      have hne : key x ≠ key a := fun h => hx (h ▸ ha)
      rw [first_cons_ne hne, before_cons_ne hne,
        Finset.insert_sdiff_of_mem _ (List.mem_toFinset.2 ha)]
    · rename_i ha
      cases n with
      | zero => simp
      | succ n =>
        rw [List.take_succ_cons, List.mem_cons, ih, List.mem_cons, not_or, List.toFinset_cons]
        by_cases h : key x = key a
        · rw [first_cons_eq h, h, before_cons_eq]
          simp [ha]
        · have hx : x ≠ a := fun he => h (congrArg key he)
          have hcard : (before key (a :: l) (key x) \ seen.toFinset).card =
              (before key l (key x) \ insert (key a) seen.toFinset).card + 1 := by
            have heq : before key (a :: l) (key x) \ seen.toFinset =
                insert (key a) (before key l (key x) \ insert (key a) seen.toFinset) := by
              rw [before_cons_ne h]
              ext i
              simp only [Finset.mem_sdiff, Finset.mem_insert, List.mem_toFinset]
              by_cases hi : i = key a
              · simp [hi, ha]
              · simp [hi]
            rw [heq, Finset.card_insert_of_notMem (by simp)]
          rw [or_iff_right hx, first_cons_ne h, hcard, Nat.add_lt_add_iff_right]
          simp [h]

/-- What stands under a cap. -/
theorem mem_take_distinctBy : x ∈ (distinctBy key l).take n ↔
    First key l x ∧ (before key l (key x)).card < n := by
  rw [distinctBy, mem_take_distinctFrom]
  simp

theorem distinctFrom_map : ((distinctFrom key seen l).map key).Nodup ∧
    ∀ k ∈ (distinctFrom key seen l).map key, k ∉ seen := by
  induction l generalizing seen with
  | nil => simp [distinctFrom]
  | cons a l ih =>
    unfold distinctFrom
    split
    · exact ih
    · rename_i ha
      obtain ⟨hn, hout⟩ := @ih (key a :: seen)
      refine ⟨List.nodup_cons.2 ⟨fun h => hout _ h (.head _), hn⟩, fun k hk => ?_⟩
      rcases List.mem_cons.1 hk with rfl | hk
      · exact ha
      · exact fun h => hout k hk (.tail _ h)

theorem distinctBy_nodup : ((distinctBy key l).map key).Nodup := distinctFrom_map.1

theorem mem_distinctBy : x ∈ distinctBy key l ↔ First key l x := by
  constructor
  · intro h
    have hx := List.take_of_length_le (Nat.le_refl (distinctBy key l).length)
    exact (mem_take_distinctBy.1 (hx.symm ▸ h)).1
  · intro h
    exact List.mem_of_mem_take
      (mem_take_distinctBy.2 ⟨h, Nat.lt_succ_self (before key l (key x)).card⟩)

theorem length_distinctBy : (distinctBy key l).length = (keys key l).card := by
  rw [← List.length_map key, ← List.toFinset_card_of_nodup distinctBy_nodup]
  congr 1
  ext k
  simp only [keys, List.mem_toFinset, List.mem_map, mem_distinctBy]
  constructor
  · rintro ⟨x, hx, rfl⟩
    exact ⟨x, hx.mem, rfl⟩
  · rintro ⟨x, hx, rfl⟩
    obtain ⟨y, hy, hk⟩ := @exists_first _ _ _ key _ _ hx
    exact ⟨y, hy, hk⟩

theorem distinctFrom_of_nodup (hn : (l.map key).Nodup) (hs : ∀ x ∈ l, key x ∉ seen) :
    distinctFrom key seen l = l := by
  induction l generalizing seen with
  | nil => rfl
  | cons a l ih =>
    rw [List.map_cons, List.nodup_cons] at hn
    rw [distinctFrom, if_neg (hs a List.mem_cons_self), ih hn.2]
    intro x hx hmem
    rcases List.mem_cons.1 hmem with he | hmem
    · exact hn.1 (he ▸ List.mem_map_of_mem hx)
    · exact hs x (List.mem_cons_of_mem a hx) hmem

/-- Where keys are not repeated, nothing is left out. -/
theorem distinctBy_of_nodup (hn : (l.map key).Nodup) : distinctBy key l = l :=
  distinctFrom_of_nodup hn fun _ _ => List.not_mem_nil

theorem distinctFrom_append (h : key a ∈ seen ∨ key a ∈ l.map key) :
    distinctFrom key seen (l ++ [a]) = distinctFrom key seen l := by
  induction l generalizing seen with
  | nil => simpa [distinctFrom] using h
  | cons b l ih =>
    rw [List.map_cons, List.mem_cons] at h
    rw [List.cons_append, distinctFrom, distinctFrom]
    split
    case isTrue hb =>
      refine ih ?_
      rcases h with h | h | h
      · exact .inl h
      · exact .inl (h ▸ hb)
      · exact .inr h
    case isFalse hb =>
      rw [ih]
      rcases h with h | h | h
      · exact .inl (List.mem_cons_of_mem _ h)
      · exact .inl (h ▸ List.mem_cons_self)
      · exact .inr h

/-- What has its key in the list already is left out. -/
theorem distinctBy_append (h : key a ∈ l.map key) : distinctBy key (l ++ [a]) = distinctBy key l :=
  distinctFrom_append (.inr h)

end Distinct
