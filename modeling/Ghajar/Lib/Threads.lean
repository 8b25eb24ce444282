/-!
# Interleaved threads

A thread is a local state and the statements it has left. `exec i rest s l`
runs the statement `i` in the shared state `s` and the local state `l`, with
`rest` behind it: the new states and the statements left, or `none` while the
thread is blocked. `Thread.step` runs one statement of a thread, `move` one of
a pool. `forall_move` is the rule of interference: a property of every thread
survives if the thread that moved has it again and the others keep it.
-/

structure Thread (ℓ ι : Type) where
  loc : ℓ
  code : List ι
  deriving DecidableEq, Repr

namespace Thread

variable {σ ℓ ι : Type} {exec : ι → List ι → σ → ℓ → Option (σ × ℓ × List ι)}

/-- One statement of a thread. -/
def step (exec : ι → List ι → σ → ℓ → Option (σ × ℓ × List ι)) (s : σ) (t : Thread ℓ ι) :
    Option (σ × Thread ℓ ι) :=
  match t.code with
  | [] => none
  | i :: rest => (exec i rest s t.loc).map fun r => (r.1, ⟨r.2.1, r.2.2⟩)

theorem step_some {s s' : σ} {t t' : Thread ℓ ι} (h : step exec s t = some (s', t')) :
    ∃ i rest, t.code = i :: rest ∧ exec i rest s t.loc = some (s', t'.loc, t'.code) := by
  unfold step at h
  split at h
  · cases h
  · rename_i i rest hc
    obtain ⟨r, hr, he⟩ := Option.map_eq_some_iff.1 h
    cases he
    exact ⟨i, rest, hc, hr⟩

/-- One statement of the thread at an index of a pool. -/
def move (exec : ι → List ι → σ → ℓ → Option (σ × ℓ × List ι)) (s : σ)
    (ts : List (Thread ℓ ι)) (n : Nat) : Option (σ × List (Thread ℓ ι)) :=
  match ts[n]? with
  | none => none
  | some t => (step exec s t).map fun r => (r.1, ts.set n r.2)

theorem move_some {s s' : σ} {ts ts' : List (Thread ℓ ι)} {n : Nat}
    (h : move exec s ts n = some (s', ts')) :
    ∃ t t', ts[n]? = some t ∧ step exec s t = some (s', t') ∧ ts' = ts.set n t' := by
  unfold move at h
  split at h
  · cases h
  · rename_i t ht
    obtain ⟨⟨s2, t2⟩, hr, he⟩ := Option.map_eq_some_iff.1 h
    cases he
    exact ⟨t, t2, ht, hr, rfl⟩

/-- **Interference.** What every thread has, it has after one of them moved. -/
theorem forall_move {A B : Thread ℓ ι → Prop} {s s' : σ} {ts ts' : List (Thread ℓ ι)} {n : Nat}
    (h : move exec s ts n = some (s', ts')) (hA : ∀ t ∈ ts, A t)
    (hown : ∀ t t', t ∈ ts → A t → step exec s t = some (s', t') → B t')
    (hother : ∀ t ∈ ts, A t → B t) : ∀ t ∈ ts', B t := by
  obtain ⟨t, t', ht, hs, rfl⟩ := move_some h
  have hm : t ∈ ts := List.mem_of_getElem? ht
  intro u hu
  rcases List.mem_or_eq_of_mem_set hu with hu | rfl
  · exact hother u hu (hA u hu)
  · exact hown t u hm (hA t hm) hs

end Thread
