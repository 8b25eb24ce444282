import Mathlib.Data.List.AList
import Mathlib.Algebra.Group.Prod
import Mathlib.Algebra.Ring.Int.Defs
import Mathlib.Algebra.BigOperators.Group.List.Basic

/-!
# Tables of counts

A table has a value for some keys; a key it does not have counts as zero
(`Counts.at_`). Adding to a key and merging two tables add what they count.
-/

/-- A table of values by name. -/
abbrev Counts (V : Type) := AList fun _ : String => V

namespace Counts

variable {V : Type}

/-- `mem` into `disk`, key by key: `f` makes the new value of the one there is, if any. -/
def mergeWith (f : Option V → V → V) (disk mem : Counts V) : Counts V :=
  mem.entries.foldl (fun out e => out.insert e.1 (f (out.lookup e.1) e.2)) disk

theorem lookup_foldl (f : Option V → V → V) (es : List (Sigma fun _ : String => V))
    (hn : es.NodupKeys) (out : Counts V) (k : String) :
    (es.foldl (fun out e => out.insert e.1 (f (out.lookup e.1) e.2)) out).lookup k =
      (match es.dlookup k with
        | none => out.lookup k
        | some v => some (f (out.lookup k) v)) := by
  induction es generalizing out with
  | nil => rfl
  | cons e es ih =>
    obtain ⟨hne, hes⟩ := List.nodupKeys_cons.1 hn
    rw [List.foldl_cons, ih hes]
    by_cases hk : k = e.1
    · subst hk
      rw [List.dlookup_eq_none.2 hne]
      have hs : (e :: es).dlookup e.1 = some e.2 := List.dlookup_cons_eq es e.1 e.2
      rw [hs]
      exact AList.lookup_insert out
    · have hs : (e :: es).dlookup k = es.dlookup k := List.dlookup_cons_ne es e hk
      rw [hs, AList.lookup_insert_ne hk]

/-- A merge, key by key. -/
theorem lookup_mergeWith (f : Option V → V → V) (disk mem : Counts V) (k : String) :
    (mergeWith f disk mem).lookup k =
      (match mem.lookup k with
        | none => disk.lookup k
        | some v => some (f (disk.lookup k) v)) :=
  lookup_foldl f mem.entries mem.nodupKeys disk k

/-- The keys `p` keeps. -/
def keep (p : String → Bool) (t : Counts V) : Counts V where
  entries := t.entries.filter fun e => p e.1
  nodupKeys := t.nodupKeys.sublist List.filter_sublist

theorem keep_all {p : String → Bool} {t : Counts V} (h : ∀ k ∈ t.keys, p k = true) :
    t.keep p = t := by
  apply AList.ext
  apply List.filter_eq_self.2
  intro e he
  exact h e.1 (List.mem_map_of_mem he)

section Add

variable [AddCommMonoid V]

/-- What a table counts for a key. -/
def at_ (t : Counts V) (k : String) : V := (t.lookup k).getD 0

/-- `v` is added to what the table has for `k`. -/
def bump (t : Counts V) (k : String) (v : V) : Counts V := t.insert k (t.at_ k + v)

def merge (disk mem : Counts V) : Counts V :=
  mergeWith (fun cur v => match cur with
    | none => v
    | some c => c + v) disk mem

theorem at_empty (k : String) : at_ (∅ : Counts V) k = 0 := rfl

theorem at_bump (t : Counts V) (k j : String) (v : V) :
    (t.bump k v).at_ j = t.at_ j + if j = k then v else 0 := by
  unfold bump at_
  by_cases h : j = k
  · subst h
    rw [AList.lookup_insert, if_pos rfl]
    rfl
  · rw [AList.lookup_insert_ne h, if_neg h, add_zero]

theorem at_merge (disk mem : Counts V) (k : String) :
    (merge disk mem).at_ k = disk.at_ k + mem.at_ k := by
  unfold merge at_
  rw [lookup_mergeWith]
  cases mem.lookup k with
  | none => simp
  | some v => cases disk.lookup k <;> simp

end Add

/-! ## Keys -/

theorem mem_mergeWith {f : Option V → V → V} {disk mem : Counts V} {k : String} :
    k ∈ mergeWith f disk mem ↔ k ∈ disk ∨ k ∈ mem := by
  rw [← AList.lookup_isSome, ← AList.lookup_isSome, ← AList.lookup_isSome, lookup_mergeWith]
  cases mem.lookup k <;> simp

theorem lookup_keep (p : String → Bool) (t : Counts V) (k : String) :
    (t.keep p).lookup k = if p k then t.lookup k else none := by
  have h : ∀ es : List (Sigma fun _ : String => V),
      (es.filter fun e => p e.1).dlookup k = if p k then es.dlookup k else none := by
    intro es
    induction es with
    | nil => split <;> rfl
    | cons e es ih =>
      rw [List.filter_cons]
      by_cases hk : k = e.1
      · subst hk
        by_cases hp : p e.1 = true
        · rw [if_pos hp, if_pos hp, List.dlookup_cons_eq, List.dlookup_cons_eq]
        · rw [if_neg hp, ih, if_neg hp, if_neg hp]
      · rw [List.dlookup_cons_ne es e hk, ← ih]
        by_cases hp : p e.1 = true
        · rw [if_pos hp, List.dlookup_cons_ne _ e hk]
        · rw [if_neg hp]
  exact h t.entries

theorem mem_keep {p : String → Bool} {t : Counts V} {k : String} :
    k ∈ t.keep p ↔ k ∈ t ∧ p k = true := by
  rw [← AList.lookup_isSome, ← AList.lookup_isSome, lookup_keep]
  cases p k <;> simp

/-! ## Sums -/

section Sum

variable {M : Type} [AddCommMonoid M] (f : V → M)

/-- What `f` makes of the values, added up. -/
def sumOf (t : Counts V) : M := (t.entries.map fun e => f e.2).sum

variable {f} {t disk mem : Counts V} {k : String} {v : V} {m : M}

theorem sumOf_empty : sumOf f (∅ : Counts V) = 0 := rfl

theorem sum_kerase (es : List (Sigma fun _ : String => V)) (k : String) :
    (es.map fun e => f e.2).sum =
      (es.dlookup k).elim 0 f + ((es.kerase k).map fun e => f e.2).sum := by
  induction es with
  | nil => simp
  | cons e es ih =>
    by_cases hk : k = e.1
    · subst hk
      rw [List.dlookup_cons_eq, List.kerase_cons_eq rfl]
      simp
    · rw [List.dlookup_cons_ne es e hk, List.kerase_cons_ne hk, List.map_cons, List.sum_cons, ih,
        List.map_cons, List.sum_cons, add_left_comm]

/-- A value that is larger by `m` than what was there makes the sum larger by it. -/
theorem sumOf_insert (h : f v = (t.lookup k).elim 0 f + m) :
    sumOf f (t.insert k v) = sumOf f t + m := by
  unfold sumOf
  rw [AList.entries_insert, List.map_cons, List.sum_cons, sum_kerase t.entries k, h]
  exact add_right_comm _ m _

theorem sumOf_mergeWith {g : Option V → V → V} (hg : ∀ cur v, f (g cur v) = cur.elim 0 f + f v) :
    sumOf f (mergeWith g disk mem) = sumOf f disk + sumOf f mem := by
  have h : ∀ (es : List (Sigma fun _ : String => V)) (out : Counts V),
      sumOf f (es.foldl (fun out e => out.insert e.1 (g (out.lookup e.1) e.2)) out) =
        sumOf f out + (es.map fun e => f e.2).sum := by
    intro es
    induction es with
    | nil => exact fun out => (add_zero _).symm
    | cons e es ih =>
      intro out
      rw [List.foldl_cons, ih, sumOf_insert (hg _ _), List.map_cons, List.sum_cons, add_assoc]
  exact h mem.entries disk

theorem sumOf_congr {f' : V → M} (h : ∀ k v, t.lookup k = some v → f v = f' v) :
    sumOf f t = sumOf f' t := by
  unfold sumOf
  rw [List.map_congr_left fun e he => h e.1 e.2 (AList.mem_lookup_iff.2 he)]

end Sum

section SumOfCounts

variable {V : Type} [AddCommMonoid V] {t disk mem : Counts V}

theorem elim_id (o : Option V) : o.elim 0 id = o.getD 0 := by
  cases o <;> rfl

theorem sumOf_bump (k : String) (v : V) : sumOf id (t.bump k v) = sumOf id t + v :=
  sumOf_insert (by rw [elim_id]; rfl)

theorem sumOf_merge : sumOf id (disk.merge mem) = sumOf id disk + sumOf id mem :=
  sumOf_mergeWith fun cur v => by
    cases cur with
    | none => exact (zero_add v).symm
    | some c => rfl

end SumOfCounts

end Counts
