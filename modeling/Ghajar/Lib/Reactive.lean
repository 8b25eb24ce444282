/-!
# Reactive machines

A machine settles (does what it can without input), then waits for one event
and reacts to it, for as long as neither returns. `run M s es` is where the
machine stands after the events `es`: still waiting, or returned with a
result. `Meets M C s es` says every event was met in a waiting state that the
condition `C` allows.

`run_inv` is the invariant rule: one obligation for settling, one for each
reaction, under the condition; `meets_of_run` is its converse, from a good end
of the run. `run_grows` carries a relation such as "the history grew" over a
whole run.
-/

namespace Reactive

/-- What a piece of the loop body leads to: on with the loop, or out of it. -/
inductive Next (σ ρ : Type) where
  | go (s : σ)
  | ret (s : σ) (r : ρ)
  deriving DecidableEq, Repr

namespace Next

variable {σ ρ : Type}

/-- The state, whichever way it went. -/
def state : Next σ ρ → σ
  | go s => s
  | ret s _ => s

@[simp] theorem state_go (s : σ) : (go s : Next σ ρ).state = s := rfl
@[simp] theorem state_ret (s : σ) (r : ρ) : (ret s r).state = s := rfl

/-- `P` holds if the loop goes on, `Q` if it returns. -/
def All (P : σ → Prop) (Q : σ → ρ → Prop) : Next σ ρ → Prop
  | go s => P s
  | ret s r => Q s r

@[simp] theorem all_go {P : σ → Prop} {Q : σ → ρ → Prop} {s : σ} : (go s).All P Q ↔ P s := Iff.rfl
@[simp] theorem all_ret {P : σ → Prop} {Q : σ → ρ → Prop} {s : σ} {r : ρ} :
    (ret s r).All P Q ↔ Q s r := Iff.rfl

theorem All.mono {P P' : σ → Prop} {Q Q' : σ → ρ → Prop} {n : Next σ ρ} (h : n.All P Q)
    (hP : ∀ s, P s → P' s) (hQ : ∀ s r, Q s r → Q' s r) : n.All P' Q' := by
  cases n with
  | go s => exact hP s h
  | ret s r => exact hQ s r h

instance All.decidable {P : σ → Prop} {Q : σ → ρ → Prop} [∀ s, Decidable (P s)]
    [∀ s r, Decidable (Q s r)] : ∀ n : Next σ ρ, Decidable (n.All P Q)
  | go s => inferInstanceAs (Decidable (P s))
  | ret s r => inferInstanceAs (Decidable (Q s r))

/-- One property of the state either way. -/
theorem all_state {P : σ → Prop} {n : Next σ ρ} : n.All P (fun s _ => P s) ↔ P n.state := by
  cases n <;> exact Iff.rfl

end Next

/-- A loop that settles, waits for an event, reacts. -/
structure Machine (σ ε ρ : Type) where
  settle : σ → Next σ ρ
  react : σ → ε → Next σ ρ

namespace Machine

variable {σ ε ρ : Type} (M : Machine σ ε ρ)

/-- The machine from the loop head `s`, fed `es`: its state, and its result if it returned. -/
def run : σ → List ε → σ × Option ρ
  | s, [] =>
    match M.settle s with
    | .go s => (s, none)
    | .ret s r => (s, some r)
  | s, e :: es =>
    match M.settle s with
    | .ret s r => (s, some r)
    | .go s =>
      match M.react s e with
      | .ret s r => (s, some r)
      | .go s => run s es

/-- The run from a waiting state that takes the event `e`. -/
def after (s : σ) (e : ε) (es : List ε) : σ × Option ρ :=
  match M.react s e with
  | .ret s r => (s, some r)
  | .go s => M.run s es

theorem run_cons (s : σ) (e : ε) (es : List ε) :
    M.run s (e :: es) =
      match M.settle s with
      | .ret s r => (s, some r)
      | .go s => M.after s e es := rfl

/-- Every event the machine takes is met in a waiting state allowed by `C`. -/
def Meets (C : σ → ε → Prop) : σ → List ε → Prop
  | _, [] => True
  | s, e :: es =>
    (M.settle s).All
      (fun s => C s e ∧ (M.react s e).All (fun s => Meets C s es) fun _ _ => True)
      fun _ _ => True

instance Meets.decidable (C : σ → ε → Prop) [∀ s e, Decidable (C s e)] :
    ∀ s es, Decidable (M.Meets C s es)
  | _, [] => .isTrue trivial
  | _, _ :: es =>
    have (s : σ) := Meets.decidable C s es
    Next.All.decidable _

/-- A machine that returns before it waits takes no event. -/
theorem run_ret {s s' : σ} {r : ρ} (h : M.settle s = .ret s' r) (es : List ε) :
    M.run s es = (s', some r) := by
  cases es <;> simp only [run, h]

variable {M}

/-- **The invariant rule.** `I` at the loop head, `W` while waiting, `F` once returned. -/
theorem run_inv {C : σ → ε → Prop} {I W : σ → Prop} {F : σ → ρ → Prop}
    (hsettle : ∀ s, I s → (M.settle s).All W F)
    (hreact : ∀ s e, W s → C s e → (M.react s e).All I F) :
    ∀ {es : List ε} {s : σ}, I s → M.Meets C s es →
      match M.run s es with
      | (s', none) => W s'
      | (s', some r) => F s' r := by
  intro es
  induction es with
  | nil =>
    intro s hI _
    have h := hsettle s hI
    simp only [run]
    cases hs : M.settle s with
    | go s' => simpa [hs] using h
    | ret s' r => simpa [hs] using h
  | cons e es ih =>
    intro s hI hC
    have h := hsettle s hI
    simp only [run]
    simp only [Meets] at hC
    cases hs : M.settle s with
    | ret s' r => simpa [hs] using h
    | go s' =>
      rw [hs] at h hC
      have hr := hreact s' e h hC.1
      have hC2 := hC.2
      simp only
      cases hre : M.react s' e with
      | ret s'' r => simpa [hre] using hr
      | go s'' =>
        rw [hre] at hr hC2
        exact ih hr hC2

theorem meets_true : ∀ {es : List ε} {s : σ}, M.Meets (fun _ _ => True) s es := by
  intro es
  induction es with
  | nil => intro s; trivial
  | cons e es ih =>
    intro s
    simp only [Meets]
    cases M.settle s with
    | ret s' r => trivial
    | go s' =>
      refine ⟨trivial, ?_⟩
      cases M.react s' e with
      | ret s'' r => trivial
      | go s'' => exact ih

/-- **The converse rule.** If a condition broken once, in a state with the
invariant, spoils the end of the run, then a run with a good end meets it. -/
theorem meets_of_run {C : σ → ε → Prop} {I W : σ → Prop} {F : σ → ρ → Prop}
    {G : σ × Option ρ → Prop}
    (hsettle : ∀ s, I s → (M.settle s).All W F)
    (hreact : ∀ s e, W s → C s e → (M.react s e).All I F)
    (hbad : ∀ s e es, W s → ¬ C s e → ¬ G (M.after s e es)) :
    ∀ {es : List ε} {s : σ}, I s → G (M.run s es) → M.Meets C s es := by
  intro es
  induction es with
  | nil => intro s _ _; trivial
  | cons e es ih =>
    intro s hI hG
    have h := hsettle s hI
    rw [run_cons] at hG
    simp only [Meets]
    cases hs : M.settle s with
    | ret s' r => trivial
    | go s' =>
      rw [hs] at h hG
      have hC : C s' e := Classical.not_not.1 fun hn => hbad s' e es h hn hG
      refine ⟨hC, ?_⟩
      have hr := hreact s' e h hC
      cases hre : M.react s' e with
      | ret s'' r => trivial
      | go s'' =>
        simp only [after, hre] at hr hG
        exact ih hr hG

/-- The invariant rule with no condition on the events. -/
theorem run_inv' {I W : σ → Prop} {F : σ → ρ → Prop}
    (hsettle : ∀ s, I s → (M.settle s).All W F)
    (hreact : ∀ s e, W s → (M.react s e).All I F) {es : List ε} {s : σ} (h : I s) :
    match M.run s es with
    | (s', none) => W s'
    | (s', some r) => F s' r :=
  run_inv hsettle (fun s e hw _ => hreact s e hw) h meets_true

/-- One property at the loop head, while waiting and once returned. -/
theorem run_state {C : σ → ε → Prop} {I : σ → Prop}
    (hsettle : ∀ s, I s → I (M.settle s).state)
    (hreact : ∀ s e, I s → C s e → I (M.react s e).state) {es : List ε} {s : σ}
    (h : I s) (hC : M.Meets C s es) : I (M.run s es).1 := by
  have := run_inv (M := M) (I := I) (W := I) (F := fun s _ => I s)
    (fun s hs => Next.all_state.2 (hsettle s hs))
    (fun s e hs hc => Next.all_state.2 (hreact s e hs hc)) h hC
  generalize M.run s es = p at this ⊢
  obtain ⟨s', _ | r⟩ := p <;> exact this

/-- A preorder that settling and reacting respect relates the start of a run to its end. -/
theorem run_grows {R : σ → σ → Prop} (hrefl : ∀ s, R s s)
    (htrans : ∀ a b c, R a b → R b c → R a c)
    (hsettle : ∀ s, R s (M.settle s).state)
    (hreact : ∀ s e, R s (M.react s e).state) {es : List ε} {s : σ} : R s (M.run s es).1 :=
  run_state (I := fun t => R s t) (C := fun _ _ => True)
    (fun t ht => htrans _ _ _ ht (hsettle t)) (fun t e ht _ => htrans _ _ _ ht (hreact t e))
    (hrefl s) meets_true

/-- A result is returned by settling somewhere, or by the reaction to one of the events. -/
theorem run_result {es : List ε} {s : σ} {r : ρ} (h : (M.run s es).2 = some r) :
    (∃ t u, M.settle t = .ret u r) ∨ ∃ t u, ∃ e ∈ es, M.react t e = .ret u r := by
  induction es generalizing s with
  | nil =>
    rw [run] at h
    cases hs : M.settle s with
    | go t => rw [hs] at h; cases h
    | ret t r' =>
      rw [hs] at h
      obtain rfl := Option.some.inj h
      exact .inl ⟨s, t, hs⟩
  | cons e es ih =>
    rw [run_cons] at h
    cases hs : M.settle s with
    | ret t r' =>
      rw [hs] at h
      obtain rfl := Option.some.inj h
      exact .inl ⟨s, t, hs⟩
    | go t =>
      rw [hs] at h
      dsimp only [after] at h
      cases hr : M.react t e with
      | ret u r' =>
        rw [hr] at h
        obtain rfl := Option.some.inj h
        exact .inr ⟨t, u, e, .head _, hr⟩
      | go u =>
        rw [hr] at h
        rcases ih h with h | ⟨t', u', e', he', h⟩
        · exact .inl h
        · exact .inr ⟨t', u', e', .tail _ he', h⟩

/-- A machine that has settled runs on from where it waits. -/
theorem run_settled {s t : σ} (hs : M.settle s = .go t) (ht : M.settle t = .go t) (es : List ε) :
    M.run s es = M.run t es := by
  cases es with
  | nil => rw [run, run, hs, ht]
  | cons e es => rw [run_cons, run_cons, hs, ht]

/-- Events that change nothing can be left out of a run. -/
theorem run_filter {keep : ε → Bool} (hsettle : ∀ s t, M.settle s = .go t → M.settle t = .go t)
    (hskip : ∀ s e, keep e = false → M.react s e = .go s) (es : List ε) (s : σ) :
    M.run s es = M.run s (es.filter keep) := by
  induction es generalizing s with
  | nil => rfl
  | cons e es ih =>
    cases hk : keep e with
    | true =>
      rw [List.filter_cons_of_pos hk, run_cons, run_cons]
      cases hs : M.settle s with
      | ret t r => rfl
      | go t =>
        simp only [after]
        cases M.react t e with
        | ret u r => rfl
        | go u => exact ih u
    | false =>
      rw [List.filter_cons_of_neg (by rw [hk]; nofun), ← ih s, run_cons]
      cases hs : M.settle s with
      | ret t r => rw [run_ret M hs]
      | go t =>
        rw [run_settled hs (hsettle s t hs)]
        simp only [after, hskip t e hk]

end Machine

end Reactive
