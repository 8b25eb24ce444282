import Mathlib.Data.List.Basic

/-!
# Grouping a list by a key

`groupBy key l` gathers the elements of each key in their order, the keys in the
order they are first met.
-/

namespace GroupBy

variable {α κ : Type} [DecidableEq κ]

def insert (gs : List (κ × List α)) (k : κ) (a : α) : List (κ × List α) :=
  match gs with
  | [] => [(k, [a])]
  | g :: gs => if g.1 = k then (k, g.2 ++ [a]) :: gs else g :: insert gs k a

def groupBy (key : α → κ) (l : List α) : List (κ × List α) :=
  l.foldl (fun gs a => insert gs (key a) a) []

/-- All elements of the groups. -/
def elements (gs : List (κ × List α)) : List α := gs.flatMap Prod.snd

/-- The keys are not repeated, and each element stands under its own. -/
structure Grouped (key : α → κ) (gs : List (κ × List α)) : Prop where
  nodup : (gs.map Prod.fst).Nodup
  key : ∀ g ∈ gs, ∀ a ∈ g.2, key a = g.1

variable {key : α → κ} {gs : List (κ × List α)} {k : κ} {a : α} {l : List α}

theorem insert_elements : (elements (insert gs k a)).Perm (elements gs ++ [a]) := by
  induction gs with
  | nil => exact .refl _
  | cons g gs ih =>
    unfold insert
    split
    · -- the element goes behind its group, before the groups that follow
      simp only [elements, List.flatMap_cons, List.append_assoc]
      exact List.Perm.append_left g.2 List.perm_append_comm
    · simp only [elements, List.flatMap_cons, List.append_assoc]
      exact ih.append_left g.2

theorem mem_insert_keys {k' : κ} :
    k' ∈ (insert gs k a).map Prod.fst ↔ k' ∈ gs.map Prod.fst ∨ k' = k := by
  induction gs with
  | nil => simp [insert]
  | cons g gs ih =>
    unfold insert
    split
    · rename_i h
      simp only [List.map_cons, List.mem_cons, h]
      tauto
    · simp only [List.map_cons, List.mem_cons, ih]
      tauto

theorem insert_grouped (h : Grouped key gs) : Grouped key (insert gs (key a) a) := by
  induction gs with
  | nil => exact ⟨by simp [insert], by simp [insert]⟩
  | cons g gs ih =>
    have hn := List.nodup_cons.1 h.nodup
    have hrest : Grouped key gs := ⟨hn.2, fun g' hg => h.key g' (.tail _ hg)⟩
    unfold insert
    split
    · rename_i hk
      refine ⟨by rw [List.map_cons, ← hk]; exact h.nodup, fun g' hg' b hb => ?_⟩
      rcases List.mem_cons.1 hg' with rfl | hg'
      · rcases List.mem_append.1 hb with hb | hb
        · exact (h.key g (.head _) b hb).trans hk
        · rw [List.mem_singleton.1 hb]
      · exact hrest.key g' hg' b hb
    · rename_i hk
      refine ⟨List.nodup_cons.2 ⟨?_, (ih hrest).nodup⟩, fun g' hg' => ?_⟩
      · rintro hm
        exact (mem_insert_keys.1 hm).elim hn.1 hk
      · rcases List.mem_cons.1 hg' with rfl | hg'
        · exact h.key g' (.head _)
        · exact (ih hrest).key g' hg'

/-- **Grouping loses nothing and doubles nothing.** -/
theorem groupBy_elements : (elements (groupBy key l)).Perm l := by
  have hfold (l : List α) (gs : List (κ × List α)) :
      (elements (l.foldl (fun gs a => insert gs (key a) a) gs)).Perm (elements gs ++ l) := by
    induction l generalizing gs with
    | nil => simp
    | cons a l ih =>
      refine (ih _).trans ?_
      rw [← List.singleton_append (x := a), ← List.append_assoc]
      exact insert_elements.append_right l
  exact hfold l []

theorem groupBy_grouped : Grouped key (groupBy key l) := by
  have hfold (l : List α) (gs : List (κ × List α)) (h : Grouped key gs) :
      Grouped key (l.foldl (fun gs a => insert gs (key a) a) gs) := by
    induction l generalizing gs with
    | nil => exact h
    | cons a l ih => exact ih _ (insert_grouped h)
  exact hfold l [] ⟨.nil, by simp⟩

end GroupBy
