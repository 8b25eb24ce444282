import Mathlib.Data.List.Infix

/-!
# Words in a text

Where a word stands in a text does not depend on what lies around the part of the text that it
can stand in (`infix_around`), nor does a text have a word with a character it lacks.
-/

namespace Infix

variable {α : Type} {blank : α → Prop} {pre m post w : List α}

theorem infix_behind (hpre : ∀ c ∈ pre, blank c) (hw : ∀ c ∈ w, ¬blank c) (hne : w ≠ []) :
    w <:+: pre ++ m ↔ w <:+: m := by
  induction pre with
  | nil => rfl
  | cons c pre ih =>
    have hih := ih fun x hx => hpre x (.tail _ hx)
    rw [List.cons_append, List.infix_cons_iff, hih]
    refine or_iff_right fun h => ?_
    obtain ⟨x, xs, rfl⟩ := List.exists_cons_of_ne_nil hne
    rw [List.cons_prefix_cons] at h
    exact hw x (.head _) (h.1 ▸ hpre c (.head _))

/-- A word without blanks stands between the blanks. -/
theorem infix_around (hpre : ∀ c ∈ pre, blank c) (hpost : ∀ c ∈ post, blank c)
    (hw : ∀ c ∈ w, ¬blank c) (hne : w ≠ []) : w <:+: pre ++ (m ++ post) ↔ w <:+: m := by
  rw [infix_behind hpre hw hne, ← List.reverse_infix, List.reverse_append,
    infix_behind (fun c hc => hpost c (List.mem_reverse.1 hc))
      (fun c hc => hw c (List.mem_reverse.1 hc)) (by simpa using hne), List.reverse_infix]

theorem not_infix {c : α} (hw : c ∈ w) (hm : c ∉ m) : ¬w <:+: m :=
  fun h => hm (h.subset hw)

theorem not_prefix {c : α} (hw : c ∈ w) (hm : c ∉ m) : ¬w <+: m :=
  fun h => hm (h.subset hw)

end Infix
