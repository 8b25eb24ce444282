/-!
# Loops that count rounds

`f n i` is what a loop with the state `i` gives in `n` rounds: a value and where it stops, or
nothing. `Leaves f r` says that it stops at `r` with enough rounds, whatever the state; `Never f`
that no number of rounds is enough. The rules follow one turn of a loop: a value is read, and the
loop goes on behind it.
-/

namespace Rounds

variable {ι κ α β γ δ : Type}

structure Leaves (f : Nat → ι → Option (α × β)) (r : β) : Prop where
  only : ∀ {n i v r'}, f n i = some (v, r') → r' = r
  enough : ∃ n, ∀ m ≥ n, ∀ i, ∃ v, f m i = some (v, r)

def Never (f : Nat → ι → Option (α × β)) : Prop := ∀ n i, f n i = none

theorem Leaves.not_never [Inhabited ι] {f : Nat → ι → Option (α × β)} {r : β} (h : Leaves f r) :
    ¬Never f := by
  intro hn
  obtain ⟨n, h⟩ := h.enough
  obtain ⟨v, hv⟩ := h n (Nat.le_refl n) default
  rw [hn] at hv
  cases hv

section Turn

variable {r : δ} {f : Nat → ι → Option (γ × δ)} {g : Nat → κ → Option (γ × δ)} {u : ι → κ}

/-- A loop that goes on as another one. -/
theorem Leaves.goesOn (h0 : ∀ i, f 0 i = none) (hs : ∀ n i, f (n + 1) i = g n (u i))
    (h : Leaves g r) : Leaves f r where
  only {n i v r'} hf := by
    cases n with
    | zero => rw [h0] at hf; cases hf
    | succ n => exact h.only (hs n i ▸ hf)
  enough := by
    obtain ⟨n, hn⟩ := h.enough
    refine ⟨n + 1, fun m hm i => ?_⟩
    obtain ⟨m, rfl⟩ : ∃ k, m = k + 1 := ⟨m - 1, by omega⟩
    rw [hs]
    exact hn m (by omega) (u i)

theorem Never.goesOn (h0 : ∀ i, f 0 i = none) (hs : ∀ n i, f (n + 1) i = g n (u i))
    (h : Never g) : Never f := by
  intro n i
  cases n with
  | zero => exact h0 i
  | succ n => rw [hs, h]

variable {read : Nat → Unit → Option (α × β)} {l : β → Nat → κ → Option (γ × δ)}
  {step : Nat → κ → Option (γ × δ)} {w : κ → α → κ} {b : β}

theorem Leaves.turn (h0 : ∀ i, step 0 i = none)
    (hs : ∀ n i, step (n + 1) i = (read n ()).bind fun p => l p.2 n (w i p.1))
    (hr : Leaves read b) (hl : Leaves (l b) r) : Leaves step r where
  only {n i v r'} hf := by
    cases n with
    | zero => rw [h0] at hf; cases hf
    | succ n =>
      rw [hs, Option.bind_eq_some_iff] at hf
      obtain ⟨⟨a, b'⟩, ha, hf⟩ := hf
      obtain rfl := hr.only ha
      exact hl.only hf
  enough := by
    obtain ⟨n₁, h₁⟩ := hr.enough
    obtain ⟨n₂, h₂⟩ := hl.enough
    refine ⟨max n₁ n₂ + 1, fun m hm i => ?_⟩
    obtain ⟨m, rfl⟩ : ∃ k, m = k + 1 := ⟨m - 1, by omega⟩
    obtain ⟨a, ha⟩ := h₁ m (by omega) ()
    obtain ⟨v, hv⟩ := h₂ m (by omega) (w i a)
    exact ⟨v, by rw [hs, ha]; exact hv⟩

/-- Where no value is read, the loop does not end. -/
theorem Never.reads (h0 : ∀ i, step 0 i = none)
    (hs : ∀ n i, step (n + 1) i = (read n ()).bind fun p => l p.2 n (w i p.1))
    (hr : Never read) : Never step := by
  intro n i
  cases n with
  | zero => exact h0 i
  | succ n => rw [hs, hr]; rfl

/-- Nor where it does not end behind the value. -/
theorem Never.turn (h0 : ∀ i, step 0 i = none)
    (hs : ∀ n i, step (n + 1) i = (read n ()).bind fun p => l p.2 n (w i p.1))
    (hr : Leaves read b) (hl : Never (l b)) : Never step := by
  intro n i
  cases n with
  | zero => exact h0 i
  | succ n =>
    rw [hs]
    cases ha : read n () with
    | none => rfl
    | some p =>
      obtain rfl := hr.only (show read n () = some (p.1, p.2) from ha)
      exact hl n _

end Turn

end Rounds
