/-!
# Past-time properties of a history

A history is a list of events, newest first. `Once P` says some event of it
satisfies `P`, `Always P` that each does, where `P` also sees the events that
came before. `Once` survives a longer history, `Always` a shorter one.
-/

namespace History

variable {α : Type} {P Q : α → List α → Prop}

def Once (P : α → List α → Prop) : List α → Prop
  | [] => False
  | x :: l => P x l ∨ Once P l

def Always (P : α → List α → Prop) : List α → Prop
  | [] => True
  | x :: l => P x l ∧ Always P l

@[simp] theorem once_nil : ¬ Once P [] := id
@[simp] theorem once_cons {x : α} {l : List α} : Once P (x :: l) ↔ P x l ∨ Once P l := Iff.rfl
@[simp] theorem always_nil : Always P [] := trivial
@[simp] theorem always_cons {x : α} {l : List α} :
    Always P (x :: l) ↔ P x l ∧ Always P l := Iff.rfl

theorem Once.of_suffix {l l' : List α} (hs : l <:+ l') (h : Once P l) : Once P l' := by
  obtain ⟨a, rfl⟩ := hs
  induction a with
  | nil => exact h
  | cons x a ih => exact .inr ih

theorem Always.of_suffix {l l' : List α} (hs : l <:+ l') (h : Always P l') : Always P l := by
  obtain ⟨a, rfl⟩ := hs
  induction a with
  | nil => exact h
  | cons x a ih => exact ih h.2

instance Once.decidable (P : α → List α → Prop) [∀ x l, Decidable (P x l)] :
    ∀ l, Decidable (Once P l)
  | [] => .isFalse id
  | _ :: l => have := Once.decidable P l; inferInstanceAs (Decidable (_ ∨ _))

instance Always.decidable (P : α → List α → Prop) [∀ x l, Decidable (P x l)] :
    ∀ l, Decidable (Always P l)
  | [] => .isTrue trivial
  | _ :: l => have := Always.decidable P l; inferInstanceAs (Decidable (_ ∧ _))

end History
