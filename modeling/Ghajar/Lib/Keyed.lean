import Mathlib.Data.List.Basic

/-!
# Lists with a key

`get key l k` is the first element with the key, `put key l a` writes an element
over the first one with its key, or behind the list.
-/

namespace Keyed

variable {α κ : Type} [DecidableEq κ] (key : α → κ)

def get (l : List α) (k : κ) : Option α := l.find? fun a => key a = k

def put : List α → α → List α
  | [], a => [a]
  | b :: l, a => if key b = key a then a :: l else b :: put l a

variable {key} {l : List α} {a b : α} {k : κ}

theorem get_mem (h : get key l k = some a) : a ∈ l := List.mem_of_find?_eq_some h

theorem get_key (h : get key l k = some a) : key a = k := by
  simpa using List.find?_some h

theorem get_none (h : get key l k = none) (ha : a ∈ l) : key a ≠ k := by
  simpa using List.find?_eq_none.1 h a ha

theorem get_put_self : get key (put key l a) (key a) = some a := by
  induction l with
  | nil => simp [get, put]
  | cons b l ih =>
    by_cases hb : key b = key a
    · simp [get, put, hb]
    · simp only [put, hb, if_false, get, List.find?_cons, decide_false]
      exact ih

theorem get_put_ne (h : k ≠ key a) : get key (put key l a) k = get key l k := by
  induction l with
  | nil => simp [get, put, Ne.symm h]
  | cons b l ih =>
    by_cases hb : key b = key a
    · have hbk : key b ≠ k := hb ▸ Ne.symm h
      simp [get, put, hb, Ne.symm h]
    · simp only [put, hb, if_false, get, List.find?_cons]
      split
      · rfl
      · exact ih

/-- Where keys are not repeated, an element is the one its key finds. -/
theorem get_of_mem (hn : (l.map key).Nodup) (ha : a ∈ l) : get key l (key a) = some a := by
  induction l with
  | nil => cases ha
  | cons b l ih =>
    rw [List.map_cons, List.nodup_cons] at hn
    rcases List.mem_cons.1 ha with rfl | ha
    · simp [get]
    · have hb : key b ≠ key a := fun he => hn.1 (he ▸ List.mem_map_of_mem ha)
      simp only [get, List.find?_cons, hb, decide_false]
      exact ih hn.2 ha

theorem mem_put (h : b ∈ put key l a) : b = a ∨ b ∈ l := by
  induction l with
  | nil => exact .inl (List.mem_singleton.1 h)
  | cons c l ih =>
    by_cases hc : key c = key a
    · simp only [put, hc, if_true, List.mem_cons] at h
      exact h.imp_right (.tail _)
    · simp only [put, hc, if_false, List.mem_cons] at h
      rcases h with rfl | h
      · exact .inr List.mem_cons_self
      · exact (ih h).imp_right (.tail _)

/-- What the key decides stays where it is when an element is written over. -/
theorem map_put_of_get {β : Type} (f : α → β) (hg : get key l (key a) = some b)
    (hf : f b = f a) : (put key l a).map f = l.map f := by
  induction l with
  | nil => cases hg
  | cons c l ih =>
    by_cases hc : key c = key a
    · simp only [get, List.find?_cons, hc, decide_true, Option.some.injEq] at hg
      subst hg
      simp [put, hc, hf]
    · simp only [get, List.find?_cons, hc, decide_false] at hg
      simp only [put, hc, if_false, List.map_cons]
      rw [ih hg]

theorem put_of_get_none (hg : get key l (key a) = none) : put key l a = l ++ [a] := by
  induction l with
  | nil => rfl
  | cons c l ih =>
    have hc : key c ≠ key a := get_none hg List.mem_cons_self
    simp only [get, List.find?_cons, hc, decide_false] at hg
    simp only [put, hc, if_false, List.cons_append]
    rw [ih hg]

end Keyed
