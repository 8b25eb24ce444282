/-!
# Runs of a step function

`run step s as` takes the steps `as` one after the other; it fails if one is
not enabled. `Meets step C s as` says each step taken is allowed by `C` in the
state it is taken in. `run_inv` carries an invariant along a run that meets a
condition, `run_always` along any; `meets_of_inv` turns an invariant into a law every step obeys.
`Visits step P s as` says every state of a run has `P`; `visits_iff_meets` is the
exact condition for it, where there is one for a single step.
-/

namespace Run

variable {S α : Type} {step : S → α → Option S}

def run (step : S → α → Option S) : S → List α → Option S
  | s, [] => some s
  | s, a :: as =>
    match step s a with
    | none => none
    | some s' => run step s' as

/-- Every step taken is allowed by `C` in the state it is taken in. -/
def Meets (step : S → α → Option S) (C : S → α → Prop) : S → List α → Prop
  | _, [] => True
  | s, a :: as => C s a ∧
    match step s a with
    | none => True
    | some s' => Meets step C s' as

instance Meets.decidable (C : S → α → Prop) [∀ s a, Decidable (C s a)] :
    ∀ s as, Decidable (Meets step C s as)
  | _, [] => .isTrue trivial
  | s, a :: as =>
    match h : step s a with
    | none => decidable_of_iff (C s a) (by simp only [Meets, h, and_true])
    | some s' =>
      have := Meets.decidable C s' as
      decidable_of_iff (C s a ∧ Meets step C s' as) (by simp only [Meets, h])

/-- The last step of a run is allowed in the state that the steps before it lead to. -/
theorem Meets.at_end {C : S → α → Prop} {a : α} {as : List α} {s s' : S}
    (h : Meets step C s (as ++ [a])) (hr : run step s as = some s') : C s' a := by
  induction as generalizing s with
  | nil =>
    cases hr
    exact h.1
  | cons b as ih =>
    simp only [List.cons_append, run, Meets] at h hr
    cases hs : step s b with
    | none => simp [hs] at hr
    | some t =>
      rw [hs] at h hr
      exact ih h.2 hr

/-- **The invariant rule.** -/
theorem run_inv {C : S → α → Prop} {I : S → Prop}
    (hstep : ∀ s a s', I s → C s a → step s a = some s' → I s') :
    ∀ {as : List α} {s s' : S}, I s → Meets step C s as → run step s as = some s' → I s' := by
  intro as
  induction as with
  | nil =>
    intro s s' h _ hr
    cases hr
    exact h
  | cons a as ih =>
    intro s s' h hC hr
    simp only [run, Meets] at hr hC
    cases hs : step s a with
    | none => simp [hs] at hr
    | some t =>
      rw [hs] at hr hC
      exact ih (hstep s a t h hC.1 hs) hC.2 hr

theorem meets_true {as : List α} {s : S} : Meets step (fun _ _ => True) s as := by
  induction as generalizing s with
  | nil => trivial
  | cons a as ih =>
    refine ⟨trivial, ?_⟩
    cases step s a with
    | none => trivial
    | some s' => exact ih

/-- What every step keeps, every run keeps. -/
theorem run_always {I : S → Prop} (hstep : ∀ s a s', I s → step s a = some s' → I s')
    {as : List α} {s s' : S} (h : I s) (hr : run step s as = some s') : I s' :=
  run_inv (fun s a s' hi _ => hstep s a s' hi) h meets_true hr

theorem run_append {as bs : List α} {s : S} :
    run step s (as ++ bs) = (run step s as).bind fun t => run step t bs := by
  induction as generalizing s with
  | nil => rfl
  | cons a as ih =>
    simp only [List.cons_append, run]
    cases step s a with
    | none => rfl
    | some t => exact ih

/-- A law that every step obeys in a state with the invariant. -/
theorem meets_of_inv {C P : S → α → Prop} {I : S → Prop}
    (hstep : ∀ s a s', I s → C s a → step s a = some s' → I s')
    (hP : ∀ s a, I s → C s a → P s a) :
    ∀ {as : List α} {s : S}, I s → Meets step C s as → Meets step P s as := by
  intro as
  induction as with
  | nil => intro s _ _; trivial
  | cons a as ih =>
    intro s h hC
    simp only [Meets] at hC ⊢
    refine ⟨hP s a h hC.1, ?_⟩
    have hC2 := hC.2
    cases hs : step s a with
    | none => trivial
    | some t =>
      rw [hs] at hC2
      exact ih (hstep s a t h hC.1 hs) hC2

/-- `P` holds in every state, from the first to the last. -/
def Visits (step : S → α → Option S) (P : S → Prop) : S → List α → Prop
  | s, [] => P s
  | s, a :: as => P s ∧
    match step s a with
    | none => True
    | some s' => Visits step P s' as

theorem Visits.head {P : S → Prop} {s : S} {as : List α} (h : Visits step P s as) : P s := by
  cases as with
  | nil => exact h
  | cons a as => exact h.1

/-- The state that a run leads to is one that it visits. -/
theorem Visits.at_end {P : S → Prop} {as : List α} {s s' : S} (h : Visits step P s as)
    (hr : run step s as = some s') : P s' := by
  induction as generalizing s with
  | nil =>
    cases hr
    exact h
  | cons a as ih =>
    simp only [run, Visits] at h hr
    cases hs : step s a with
    | none => simp [hs] at hr
    | some t =>
      rw [hs] at h hr
      exact ih h.2 hr

theorem visits_of_inv {C : S → α → Prop} {I P : S → Prop}
    (hstep : ∀ s a s', I s → C s a → step s a = some s' → I s') (hP : ∀ s, I s → P s) :
    ∀ {as : List α} {s : S}, I s → Meets step C s as → Visits step P s as := by
  intro as
  induction as with
  | nil => intro s h _; exact hP s h
  | cons a as ih =>
    intro s h hC
    simp only [Meets] at hC
    refine ⟨hP s h, ?_⟩
    have hC2 := hC.2
    cases hs : step s a with
    | none => trivial
    | some t =>
      rw [hs] at hC2
      exact ih (hstep s a t h hC.1 hs) hC2

/-- **The exact condition of a run**, from that of a step. -/
theorem visits_iff_meets {C : S → α → Prop} {I P : S → Prop}
    (hinv : ∀ s a s', I s → P s' → step s a = some s' → I s')
    (hstep : ∀ s a s', I s → P s → step s a = some s' → (P s' ↔ C s a)) :
    ∀ {as : List α} {s s' : S}, I s → P s → run step s as = some s' →
      (Visits step P s as ↔ Meets step C s as) := by
  intro as
  induction as with
  | nil =>
    intro s s' _ hp _
    exact ⟨fun _ => trivial, fun _ => hp⟩
  | cons a as ih =>
    intro s s' hi hp hr
    simp only [run] at hr
    simp only [Visits, Meets]
    cases hs : step s a with
    | none => simp [hs] at hr
    | some t =>
      rw [hs] at hr
      have hiff := hstep s a t hi hp hs
      constructor
      · rintro ⟨-, hv⟩
        have hpt := hv.head
        exact ⟨hiff.1 hpt, (ih (hinv s a t hi hpt hs) hpt hr).1 hv⟩
      · rintro ⟨hc, hm⟩
        have hpt := hiff.2 hc
        exact ⟨hp, (ih (hinv s a t hi hpt hs) hpt hr).2 hm⟩

end Run
