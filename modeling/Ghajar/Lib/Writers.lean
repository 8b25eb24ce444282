import Mathlib

/-!
# Fields that are written one after another

A writer makes a new value of a field out of the old one, and may fail when it has done so. `run`
goes through writers until one fails. Where no two have one field, each of them finds what stood
there at the start: `run_failed` says when one of them fails, `run_key` what a field holds when
none does, and `run_eq_self` when nothing has changed in the end.
-/

namespace Writers

variable {κ : Type} {β : κ → Type}

structure Writer (β : κ → Type) where
  key : κ
  /-- The new value, and whether it failed. -/
  next : β key → β key × Bool

/-- It fails on what stands in its field. -/
def Writer.fails (w : Writer β) (s : ∀ k, β k) : Bool := (w.next (s w.key)).2

/-- What it writes. -/
def Writer.value (w : Writer β) (s : ∀ k, β k) : β w.key := (w.next (s w.key)).1

def run [DecidableEq κ] : List (Writer β) → (∀ k, β k) → (∀ k, β k) × Bool
  | [], s => (s, false)
  | w :: ws, s =>
    let s' := Function.update s w.key (w.value s)
    if w.fails s then (s', true) else run ws s'

/-- The writers up to the first that fails, with it. -/
def tried (s : ∀ k, β k) : List (Writer β) → List (Writer β)
  | [] => []
  | w :: ws => if w.fails s then [w] else w :: tried s ws

/-- No two writers have one field. -/
def Apart (ws : List (Writer β)) : Prop := (ws.map Writer.key).Nodup

variable {w : Writer β} {ws : List (Writer β)} {s s' : ∀ k, β k} {k : κ}

theorem apart_cons : Apart (w :: ws) ↔ w.key ∉ ws.map Writer.key ∧ Apart ws := by
  rw [Apart, List.map_cons, List.nodup_cons, Apart]

theorem fails_congr (h : s w.key = s' w.key) : w.fails s = w.fails s' := by
  rw [Writer.fails, Writer.fails, h]

theorem value_congr (h : s w.key = s' w.key) : w.value s = w.value s' := by
  rw [Writer.value, Writer.value, h]

variable [DecidableEq κ]

/-- What one writer does the others do not see. -/
theorem update_key (h : w.key ∉ ws.map Writer.key) {v : β w.key} {w' : Writer β} (hw : w' ∈ ws) :
    Function.update s w.key v w'.key = s w'.key :=
  Function.update_of_ne (fun he : w'.key = w.key => h (he ▸ List.mem_map_of_mem hw)) _ _

theorem run_other (h : k ∉ ws.map Writer.key) : (run ws s).1 k = s k := by
  induction ws generalizing s with
  | nil => rfl
  | cons w ws ih =>
    rw [List.map_cons, List.mem_cons, not_or] at h
    rw [run]
    split
    · exact Function.update_of_ne h.1 _ _
    · rw [ih h.2]
      exact Function.update_of_ne h.1 _ _

theorem run_failed (h : Apart ws) : (run ws s).2 = true ↔ ∃ w ∈ ws, w.fails s = true := by
  induction ws generalizing s with
  | nil => simp [run]
  | cons w ws ih =>
    obtain ⟨hw, hws⟩ := apart_cons.1 h
    rw [run, List.exists_mem_cons_iff]
    split
    · exact iff_of_true rfl (.inl ‹_›)
    · rw [ih hws, or_iff_right ‹_›]
      refine exists_congr fun w' => and_congr_right fun hw' => ?_
      rw [fails_congr (update_key hw hw')]

theorem run_key (h : Apart ws) (hr : (run ws s).2 = false) (hw : w ∈ ws) :
    (run ws s).1 w.key = w.value s := by
  induction ws generalizing s with
  | nil => cases hw
  | cons a ws ih =>
    obtain ⟨ha, hws⟩ := apart_cons.1 h
    rw [run] at hr ⊢
    split at hr
    · cases hr
    · rw [if_neg ‹_›]
      rcases List.mem_cons.1 hw with rfl | hw
      · rw [run_other ha, Function.update_self]
      · rw [ih hws hr hw, value_congr (update_key ha hw)]

theorem run_eq_self (h : Apart ws) :
    (run ws s).1 = s ↔ ∀ w ∈ tried s ws, w.value s = s w.key := by
  induction ws generalizing s with
  | nil => simp [run, tried]
  | cons w ws ih =>
    obtain ⟨hw, hws⟩ := apart_cons.1 h
    rw [run, tried]
    split
    · rw [Function.update_eq_self_iff, List.forall_mem_singleton]
    · rw [List.forall_mem_cons]
      constructor
      · intro hr
        have hv : w.value s = s w.key := by
          have hk := congrFun hr w.key
          rwa [run_other hw, Function.update_self] at hk
        rw [hv, Function.update_eq_self] at hr
        exact ⟨hv, (ih hws).1 hr⟩
      · rintro ⟨hv, hr⟩
        rw [hv, Function.update_eq_self]
        exact (ih hws).2 hr

end Writers
