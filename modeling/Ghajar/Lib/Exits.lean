/-!
# Computations that may leave early or throw

A step of a function goes on with a value, leaves the function with its result, or throws.
`Exits.result` is what the caller sees. `Safe m` says that `m` does not throw; it has one rule for
each way to put steps together, all of them equivalences. `Settles m W P` says when `m` throws and
what it goes on with; its rules follow the steps with `W` and `P` as they are.
-/

inductive Exit (ε ρ : Type) where
  | thrown (e : ε)
  | returned (r : ρ)
  deriving DecidableEq, Repr

abbrev Exits (ε ρ α : Type) := Except (Exit ε ρ) α

namespace Exits

variable {ε ρ α β : Type}

def throws (e : ε) : Exits ε ρ α := .error (.thrown e)

def leave (r : ρ) : Exits ε ρ α := .error (.returned r)

/-- Leaves with `r` where the condition holds. -/
def leaveIf (c : Prop) [Decidable c] (r : ρ) : Exits ε ρ Unit := if c then leave r else .ok ()

/-- The value if there is one; leaves with `r` otherwise. -/
def orLeave (o : Option α) (r : ρ) : Exits ε ρ α := o.elim (leave r) .ok

/-- Leaves with `r` where `m` throws: `try` around `m`. -/
def caught (m : Exits ε ρ α) (r : ρ) : Exits ε ρ α :=
  match m with
  | .error (.thrown _) => leave r
  | m => m

def result : Exits ε ρ ρ → Except ε ρ
  | .ok r => .ok r
  | .error (.returned r) => .ok r
  | .error (.thrown e) => .error e

def Safe (m : Exits ε ρ α) : Prop := ∀ e, m ≠ .error (.thrown e)

section Rules

variable {m : Exits ε ρ α} {k : α → Exits ε ρ β} {a : α} {e : ε} {r : ρ}

theorem result_returns {m : Exits ε ρ ρ} : (∃ r, m.result = .ok r) ↔ m.Safe := by
  match m with
  | .ok r => exact ⟨fun _ _ => nofun, fun _ => ⟨r, rfl⟩⟩
  | .error (.returned r) => exact ⟨fun _ _ => nofun, fun _ => ⟨r, rfl⟩⟩
  | .error (.thrown e) => exact ⟨nofun, fun h => absurd rfl (h e)⟩

@[simp] theorem safe_ok : Safe (.ok a : Exits ε ρ α) := fun _ => nofun

@[simp] theorem safe_pure : Safe (pure a : Exits ε ρ α) := safe_ok

@[simp] theorem safe_leave : Safe (leave r : Exits ε ρ α) := fun _ h => nomatch h

@[simp] theorem not_safe_throws : ¬Safe (throws e : Exits ε ρ α) := fun h => h e rfl

theorem safe_bind : Safe (m >>= k) ↔ Safe m ∧ ∀ a, m = .ok a → Safe (k a) := by
  match m with
  | .ok a => exact ⟨fun h => ⟨safe_ok, fun b hb => by cases hb; exact h⟩, fun h => h.2 a rfl⟩
  | .error (.returned r) => exact ⟨fun _ => ⟨safe_leave, nofun⟩, fun _ _ h => nomatch h⟩
  | .error (.thrown e) => exact ⟨fun h => absurd rfl (h e), fun h => absurd rfl (h.1 e)⟩

theorem safe_ok_bind (h : m = .ok a) : Safe (m >>= k) ↔ Safe (k a) := by
  subst h
  exact Iff.rfl

theorem not_safe_bind (h : ¬Safe m) : ¬Safe (m >>= k) := fun hs => h (safe_bind.mp hs).1

@[simp] theorem safe_leaveIf_bind {c : Prop} [Decidable c] {k : Unit → Exits ε ρ β} :
    Safe (leaveIf c r >>= k) ↔ (¬c → Safe (k ())) := by
  unfold leaveIf
  split
  case isTrue h => exact ⟨fun _ hn => absurd h hn, fun _ _ h => nomatch h⟩
  case isFalse h => exact ⟨fun hs _ => hs, fun hs => hs h⟩

@[simp] theorem safe_orLeave_bind {o : Option α} :
    Safe (orLeave o r >>= k) ↔ ∀ a, o = some a → Safe (k a) := by
  cases o with
  | none => exact ⟨fun _ => nofun, fun _ _ h => nomatch h⟩
  | some a => exact ⟨fun hs b hb => by cases hb; exact hs, fun hs => hs a rfl⟩

/-- Where each item either gives a value or throws, none of them may throw. -/
theorem safe_mapM {f : α → Exits ε ρ β} {l : List α}
    (h : ∀ a ∈ l, ∀ r, f a ≠ .error (.returned r)) :
    Safe (l.mapM f) ↔ ∀ a ∈ l, Safe (f a) := by
  induction l with
  | nil => exact ⟨fun _ _ => nofun, fun _ => safe_pure⟩
  | cons a l ih =>
    have ih := ih fun b hb => h b (List.mem_cons_of_mem a hb)
    rw [List.mapM_cons, safe_bind, List.forall_mem_cons]
    refine and_congr_right fun hsafe => ?_
    obtain ⟨b, hb⟩ : ∃ b, f a = .ok b := by
      match hf : f a with
      | .ok b => exact ⟨b, rfl⟩
      | .error (.returned r) => exact absurd hf (h a List.mem_cons_self r)
      | .error (.thrown e) => exact absurd hf (hsafe e)
    have hrest : (∀ b, f a = .ok b → Safe (l.mapM f >>= fun bs => pure (b :: bs))) ↔
        Safe (l.mapM f) := by
      constructor
      · intro hall
        exact (safe_bind.mp (hall b hb)).1
      · intro hs b _
        exact safe_bind.mpr ⟨hs, fun _ _ => safe_pure⟩
    exact hrest.trans ih

end Rules

/-- `m` throws exactly if `W`, and goes on with exactly the values that have `P`. -/
structure Settles (m : Exits ε ρ α) (W : Prop) (P : α → Prop) : Prop where
  safe : Safe m ↔ ¬W
  ok : ∀ a, m = .ok a ↔ P a

namespace Settles

variable {m : Exits ε ρ α} {k : α → Exits ε ρ β} {a : α} {r : ρ} {W : Prop} {P : β → Prop}

theorem done {b : β} (hw : ¬W) (hp : ∀ c, P c ↔ c = b) : Settles (.ok b : Exits ε ρ β) W P where
  safe := iff_of_true safe_ok hw
  ok c := by rw [hp c]; exact ⟨fun h => by cases h; rfl, fun h => by rw [h]⟩

theorem read (h : m = .ok a) (hk : Settles (k a) W P) : Settles (m >>= k) W P := by
  subst h
  exact hk

theorem check {c : Prop} [Decidable c] {k : Unit → Exits ε ρ β} (hc : c → ¬W ∧ ∀ b, ¬P b)
    (hk : ¬c → Settles (k ()) W P) : Settles (leaveIf c r >>= k) W P := by
  unfold leaveIf
  split
  case isTrue h =>
    exact ⟨iff_of_true safe_leave (hc h).1, fun b => iff_of_false nofun ((hc h).2 b)⟩
  case isFalse h => exact hk h

theorem need {o : Option α} (hn : o = none → ¬W ∧ ∀ b, ¬P b)
    (hk : ∀ a, o = some a → Settles (k a) W P) : Settles (orLeave o r >>= k) W P := by
  cases o with
  | none => exact ⟨iff_of_true safe_leave (hn rfl).1, fun b => iff_of_false nofun ((hn rfl).2 b)⟩
  | some a => exact hk a rfl

theorem fails (h : ¬Safe m) (hw : W) (hp : ∀ b, ¬P b) : Settles (m >>= k) W P where
  safe := iff_of_false (not_safe_bind h) (not_not_intro hw)
  ok b := iff_of_false (fun hb => not_safe_bind h (by rw [hb]; exact safe_ok)) (hp b)

theorem congr {V : Prop} {Q : β → Prop} {m : Exits ε ρ β} (h : Settles m V Q) (hw : V ↔ W)
    (hp : ∀ b, Q b ↔ P b) : Settles m W P :=
  ⟨h.safe.trans (not_congr hw), fun b => (h.ok b).trans (hp b)⟩

theorem safe_bind_iff {V : Prop} {Q : α → Prop} (h : Settles m V Q) :
    Safe (m >>= k) ↔ ¬V ∧ ∀ a, Q a → Safe (k a) := by
  rw [safe_bind, h.safe]
  exact and_congr_right fun _ => forall_congr' fun a => by rw [h.ok a]

end Settles

end Exits
