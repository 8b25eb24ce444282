import Ghajar.Tunnel.Blocking

/-!
# Blocked until the user stops

`kill_switch_kept`: with the kill switch on and not in proxy-only mode, a session that
ended with an error leaves the device blocked until the user stops or a new tun is up,
and a stop leaves neither tun open, where no stop meets a failure or a switch under way
(`orderly`). `Inv` ties the descriptors to the flags and to where the threads are.
-/

namespace Ghajar.KillSwitch

open Run

/-- A failure that has passed the guard of `die`, to its end, or a switch past its own. -/
def busy (r : Role) (code : List Stmt) : Bool :=
  (code.contains (.launchTeardown true) && !code.contains (.unlessTearing true)) ||
    (r = .teardown true && code ≠ []) ||
    (r = .switch && code ≠ [] && !code.contains .enterSwitch)

/-- A start that has yet to open its tun and that cancelling `startJob` does not reach. -/
def Loose (s : Shared) (t : Task) : Prop :=
  .openTun ∈ t.code ∧ s.isCancelled t.loc.tid = false ∧ s.startJob ≠ some t.loc.tid

instance (s : Shared) (t : Task) : Decidable (Loose s t) := by
  unfold Loose
  infer_instance

/-- **The condition**: a stop is delivered only while no failure and no switch is under way and
no start is out of reach; after it none passes its guard. -/
def orderly (s : Sys) : Act → Prop
  | .stopCommand => ∀ t ∈ s.threads, busy t.loc.role t.code = false ∧ ¬Loose s.sh t
  | .run n =>
    s.sh.stopped = true → s.sh.tearingDown = false → ∀ t ∈ s.threads[n]?,
      t.code.head? ≠ some .enterSwitch ∧ t.code.head? ≠ some (.unlessTearing true)
  | _ => True

instance (s : Sys) (a : Act) : Decidable (orderly s a) := by
  unfold orderly
  split <;> infer_instance

/-- All threads have ended, and `onDestroy` has come where it was asked for. -/
def Quiet (s : Sys) : Prop :=
  (∀ t ∈ s.threads, t.code = []) ∧ (s.sh.selfStopped = true → s.sh.destroyed = true)

instance (s : Sys) : Decidable (Quiet s) := by
  unfold Quiet
  infer_instance

structure Kept (s : Sys) : Prop where
  blocked : s.sh.owed = true → s.sh.blockFd = true
  closed : s.sh.stopped = true → s.sh.restarted = false → Quiet s →
    s.sh.tunFd = false ∧ s.sh.blockFd = false

/-! ## The invariant -/

/-- A failure that has passed the guard of `die`, until it resets `tearingDown`. -/
def failing (r : Role) (code : List Stmt) : Bool :=
  (code.contains (.launchTeardown true) && !code.contains (.unlessTearing true)) ||
    (r = .teardown true && (code.contains (.killSwitch true) || code.contains (.tearingDown false)))

/-- A stop that has passed the guard of `die`, until it calls `stopSelf`. -/
def stopping (r : Role) (code : List Stmt) : Bool :=
  (code.contains (.launchTeardown false) && !code.contains (.unlessTearing false)) ||
    (r = .teardown false && (code.contains (.killSwitch false) || code.contains .stopSelf))

/-- The service is about to end. -/
def Ending (s : Sys) : Prop := s.sh.selfStopped = true ∨ ∃ t ∈ s.threads, stopping t.loc.role t.code = true

/-- A stop was delivered, and no start since. -/
def Calm (s : Shared) : Prop := s.stopped = true ∧ s.restarted = false

/-- Every start that has yet to open its tun is cancelled. -/
def Cancelled (s : Sys) : Prop :=
  ∀ t ∈ s.threads, .openTun ∈ t.code → s.sh.isCancelled t.loc.tid = true

/-- No start will open its tun. -/
def Shut (s : Sys) : Prop := Cancelled s ∧ ∀ t ∈ s.threads, t.code.head? ≠ some .openTun

/-- What `onDestroy` and its coroutine have done. -/
structure Destroying (s : Sys) (t : Task) : Prop where
  asked : .launchDestroy ∈ t.code → .cancelStart ∉ t.code → Cancelled s
  cancelled : t.loc.role = .destroy → Cancelled s
  shut : t.loc.role = .destroy → .lock ∉ t.code → Shut s
  tun : t.loc.role = .destroy → .lock ∉ t.code → .closeTun ∉ t.code → s.sh.tunFd = false
  block : t.loc.role = .destroy → .lock ∉ t.code → .closeBlock ∉ t.code → s.sh.blockFd = false

structure Inv (s : Sys) : Prop where
  tearing : s.sh.tearingDown = true → (∃ t ∈ s.threads, failing t.loc.role t.code = true) ∨ Ending s
  toStop : s.sh.stopped = true → Ending s ∨
    (s.sh.tearingDown = false ∧ ∃ t ∈ s.threads, .unlessTearing false ∈ t.code)
  free : s.sh.stopped = true → ∀ t ∈ s.threads, busy t.loc.role t.code = false
  sealed : Calm s.sh → ∀ t ∈ s.threads, .openTun ∈ t.code →
    s.sh.isCancelled t.loc.tid = true ∨ s.sh.startJob = some t.loc.tid
  startless : Calm s.sh → ∀ t ∈ s.threads, .launchStart ∈ t.code ∨ .assign ∈ t.code →
    .enterSwitch ∈ t.code
  ender : ∀ t ∈ s.threads, .launchTeardown false ∈ t.code ∨
    (t.loc.role = .teardown false ∧ t.code ≠ []) ∨ .closeBlock ∈ t.code → s.sh.stopped = true
  selfStopped : s.sh.selfStopped = true → s.sh.stopped = true
  destroyed : s.sh.destroyed = true → s.sh.selfStopped = true
  scope : s.sh.scopeCancelled = true → s.sh.destroyed = true
  owed : s.sh.owed = true → s.sh.blockFd = true ∧ s.sh.stopped = false
  blocking : ∀ t ∈ s.threads, t.loc.role = .teardown true → InLock t.code →
    .openBlock ∉ t.code → .killSwitch true ∉ t.code → s.sh.blockFd = true
  opened : ∀ t ∈ s.threads, t.code.head? = some .replaceBlock → s.sh.owed = false
  destroyer : ∀ t ∈ s.threads, .launchDestroy ∈ t.code ∨ t.loc.role = .destroy →
    s.sh.destroyed = true
  exists_destroyer : s.sh.destroyed = true →
    ∃ t ∈ s.threads, .launchDestroy ∈ t.code ∨ t.loc.role = .destroy
  destroying : Calm s.sh → ∀ t ∈ s.threads, Destroying s t
  ended : Calm s.sh → s.sh.scopeCancelled = true →
    Shut s ∧ s.sh.tunFd = false ∧ s.sh.blockFd = false

/-! ## One statement -/

section Effects

variable {o : Options} {i : Stmt} {s : Shared} {l : Local}

theorem effect_stopped : (i.effect o s l).stopped = s.stopped ∧
    (i.effect o s l).restarted = s.restarted ∧ (i.effect o s l).destroyed = s.destroyed := by
  by_cases ht : i = .openTun ∨ i = .replaceBlock
  · obtain ⟨_, _, _, he⟩ := effect_frame o s l ht
    rw [he]
    exact ⟨rfl, rfl, rfl⟩
  · cases i with
    | openTun => exact absurd (.inl rfl) ht
    | replaceBlock => exact absurd (.inr rfl) ht
    | _ => exact ⟨rfl, rfl, rfl⟩

theorem effect_tearing (h : (i.effect o s l).tearingDown = true) :
    i = .tearingDown true ∨ (s.tearingDown = true ∧ i ≠ .tearingDown false) := by
  by_cases ht : i = .openTun ∨ i = .replaceBlock
  · obtain ⟨_, _, _, he⟩ := effect_frame o s l ht
    rw [he] at h
    refine .inr ⟨h, fun hi => ?_⟩
    rw [hi] at ht
    rcases ht with ht | ht <;> cases ht
  · cases i with
    | tearingDown b =>
      have hb : b = true := h
      exact .inl (by rw [hb])
    | openTun => exact absurd (.inl rfl) ht
    | replaceBlock => exact absurd (.inr rfl) ht
    | _ => exact .inr ⟨h, fun he => (by cases he)⟩

theorem effect_selfStopped : (i.effect o s l).selfStopped = true ↔
    s.selfStopped = true ∨ i = .stopSelf := by
  by_cases ht : i = .openTun ∨ i = .replaceBlock
  · obtain ⟨_, _, _, he⟩ := effect_frame o s l ht
    rw [he]
    refine ⟨.inl, fun hs => hs.resolve_right fun hi => ?_⟩
    rw [hi] at ht
    rcases ht with ht | ht <;> cases ht
  · cases i with
    | stopSelf => exact ⟨fun _ => .inr rfl, fun _ => rfl⟩
    | openTun => exact absurd (.inl rfl) ht
    | replaceBlock => exact absurd (.inr rfl) ht
    | _ => exact ⟨.inl, fun hs => hs.resolve_right fun hi => (by cases hi)⟩

theorem effect_scope (h : (i.effect o s l).scopeCancelled = true) :
    s.scopeCancelled = true ∨ i = .cancelScope := by
  by_cases ht : i = .openTun ∨ i = .replaceBlock
  · obtain ⟨_, _, _, he⟩ := effect_frame o s l ht
    rw [he] at h
    exact .inl h
  · cases i with
    | cancelScope => exact .inr rfl
    | openTun => exact absurd (.inl rfl) ht
    | replaceBlock => exact absurd (.inr rfl) ht
    | _ => exact .inl h

theorem effect_startJob (h : i ≠ .assign) : (i.effect o s l).startJob = s.startJob := by
  by_cases ht : i = .openTun ∨ i = .replaceBlock
  · obtain ⟨_, _, _, he⟩ := effect_frame o s l ht
    rw [he]
  · cases i with
    | assign => exact absurd rfl h
    | openTun => exact absurd (.inl rfl) ht
    | replaceBlock => exact absurd (.inr rfl) ht
    | _ => rfl

/-- What is cancelled stays cancelled. -/
theorem effect_cancelled {tid : Nat} (h : s.isCancelled tid = true) :
    (i.effect o s l).isCancelled tid = true := by
  by_cases ht : i = .openTun ∨ i = .replaceBlock
  · obtain ⟨_, _, _, he⟩ := effect_frame o s l ht
    rw [he]
    exact h
  · cases i with
    | cancelStart =>
      simp only [Shared.isCancelled, Stmt.effect, Bool.or_eq_true, List.contains_iff_mem] at h ⊢
      exact h.imp id (List.mem_append_right _)
    | cancelScope => simp [Shared.isCancelled, Stmt.effect]
    | openTun => exact absurd (.inl rfl) ht
    | replaceBlock => exact absurd (.inr rfl) ht
    | _ => exact h

theorem effect_tunFd (h : i ≠ .openTun) (hs : s.tunFd = false) :
    (i.effect o s l).tunFd = false := by
  cases i with
  | openTun => exact absurd rfl h
  | closeTun => rfl
  | replaceBlock => simp only [Stmt.effect]; split <;> exact hs
  | _ => exact hs

theorem effect_blocked (h : i ≠ .openBlock) (hs : s.blockFd = false) :
    (i.effect o s l).blockFd = false := by
  cases i with
  | openBlock => exact absurd rfl h
  | closeBlock => rfl
  | openTun | replaceBlock => simp only [Stmt.effect]; split <;> first | exact hs | rfl
  | _ => exact hs

theorem effect_unblocked (h1 : i ≠ .closeBlock) (h2 : i ≠ .replaceBlock) (hs : s.blockFd = true) :
    (i.effect o s l).blockFd = true := by
  cases i with
  | closeBlock => exact absurd rfl h1
  | replaceBlock => exact absurd rfl h2
  | openBlock => rfl
  | openTun => simp only [Stmt.effect]; split <;> exact hs
  | _ => exact hs

theorem effect_owed (h : (i.effect o s l).owed = true) :
    s.owed = true ∨ (i = .unlock ∧ l.role = .teardown true) := by
  cases i with
  | unlock =>
    simp only [Stmt.effect, Bool.or_eq_true, decide_eq_true_eq] at h
    exact h.imp id fun hr => ⟨rfl, hr⟩
  | openTun =>
    simp only [Stmt.effect] at h
    split at h
    · exact .inl h
    · simp only [Bool.and_eq_true] at h
      exact .inl h.1
  | replaceBlock =>
    simp only [Stmt.effect] at h
    split at h <;> exact .inl h
  | _ => exact .inl h

end Effects

section Run

variable {o : Options} {s : Sys} {n : Nat} {l : Local} {i : Stmt} {rest : List Stmt}

/-- The state after a statement of a thread. -/
def ran (o : Options) (s : Sys) (n : Nat) (l : Local) (i : Stmt) (rest : List Stmt) : Sys :=
  ⟨{ i.effect o s.sh l with launched := [] },
    s.threads.set n (after o s.sh l i rest) ++ (i.effect o s.sh l).launched⟩

theorem launched_mem {u : Task} (hu : u ∈ (i.effect o s.sh l).launched) :
    u ∈ (ran o s n l i rest).threads := List.mem_append_right _ hu

/-- The thread that moved, by its role and what it has left. -/
theorem ran_moved (ht : s.threads[n]? = some ⟨l, i :: rest⟩) {P : Role → List Stmt → Bool}
    (h : P l.role (i.next o s.sh l rest) = true) :
    ∃ t ∈ (ran o s n l i rest).threads, P t.loc.role t.code = true := by
  refine ⟨_, (Placed.moved_mem ht _).1, ?_⟩
  show P (i.save o s.sh l).role (i.next o s.sh l rest) = true
  rw [save_role]
  exact h

/-- A thread after a statement: the one that moved, another, or a launched one. -/
theorem ran_cases (hP : Placed s) (ht : s.threads[n]? = some ⟨l, i :: rest⟩) {u : Task}
    (hu : u ∈ (ran o s n l i rest).threads) :
    (u.loc.role = l.role ∧ u.loc.tid = l.tid ∧ u.code = i.next o s.sh l rest) ∨
      (u ∈ s.threads ∧ u ≠ ⟨l, i :: rest⟩) ∨
      ((i = .launchStart ∧ u.loc.role = .start ∧ u.code = startBody) ∨
        (∃ error, i = .launchTeardown error ∧ u.loc.role = .teardown error ∧
          u.code = teardownBody error) ∨
        (i = .launchDestroy ∧ u.loc.role = .destroy ∧ u.code = destroyBody)) := by
  rcases hP.mem_moved ht hu with rfl | hu | hu
  · exact .inl ⟨save_role, save_tid, rfl⟩
  · exact .inr (.inl hu)
  · exact .inr (.inr (effect_launched hP.launched hu).2.2.2)

variable (hk : o.killSwitch = true) (hp : o.proxyOnly = false) (hP : Placed s) (h : Inv s)
  (ht : s.threads[n]? = some ⟨l, i :: rest⟩)

include hk hp hP ht

/-- The code of the thread that moved, before and after. -/
theorem moved_codes : i :: rest ∈ codes l.role ∧ i.next o s.sh l rest ∈ outcomes (i :: rest) :=
  ⟨hP.codes _ (List.mem_of_getElem? ht), next_outcome hk hp⟩

theorem ending_ran (he : Ending s) : Ending (ran o s n l i rest) := by
  obtain ⟨hcode, hout⟩ := moved_codes hk hp hP ht
  rcases he with he | ⟨u, hu, hst⟩
  · exact .inl (effect_selfStopped.2 (.inl he))
  · by_cases hm : u = ⟨l, i :: rest⟩
    · subst hm
      rcases of_codes (P := fun r c => stopping r c = true → ∀ c' ∈ outcomes c,
        stopping r c' = true ∨ c.head? = some (.launchTeardown false) ∨ c.head? = some .stopSelf)
        (by decide) hcode hst _ hout with hst' | hi | hi
      · exact .inr (ran_moved ht hst')
      · obtain rfl : i = .launchTeardown false := Option.some.inj hi
        exact .inr ⟨_, launched_mem List.mem_cons_self, rfl⟩
      · obtain rfl : i = .stopSelf := Option.some.inj hi
        exact .inl rfl
    · exact .inr ⟨u, (Placed.moved_mem ht _).2 u hu hm, hst⟩

include h

/-- What has set `tearingDown` is still to reset it, or ends the service. -/
theorem sets_tearing (hi : i = .tearingDown true) :
    busy l.role (i :: rest) = true ∨ Ending s ∨ stopping l.role rest = true := by
  obtain ⟨hcode, -⟩ := moved_codes hk hp hP ht
  rcases of_codes (P := fun r c => c.head? = some (.tearingDown true) →
    busy r c = true ∨ .launchDestroy ∈ c ∨ stopping r c.tail = true) (by decide) hcode
    (by rw [hi]; rfl) with hb | hd | hs
  · exact .inl hb
  · have := h.destroyer _ (List.mem_of_getElem? ht) (.inl hd)
    exact .inr (.inl (.inl (h.destroyed this)))
  · exact .inr (.inr hs)

theorem tearing_ran (htd : (ran o s n l i rest).sh.tearingDown = true) :
    (∃ t ∈ (ran o s n l i rest).threads, failing t.loc.role t.code = true) ∨
      Ending (ran o s n l i rest) := by
  obtain ⟨hcode, hout⟩ := moved_codes hk hp hP ht
  rcases effect_tearing htd with rfl | ⟨htd, hne⟩
  · rcases sets_tearing hk hp hP h ht rfl with hb | he | hs
    · exact .inl (ran_moved ht (of_codes (P := fun r c => busy r c = true →
        c.head? = some (.tearingDown true) → failing r c.tail = true) (by decide) hcode hb rfl))
    · exact .inr (ending_ran hk hp hP ht he)
    · exact .inr (.inr (ran_moved ht hs))
  · rcases h.tearing htd with ⟨u, hu, hf⟩ | he
    · by_cases hm : u = ⟨l, i :: rest⟩
      · subst hm
        rcases of_codes (P := fun r c => failing r c = true → ∀ c' ∈ outcomes c,
          failing r c' = true ∨ c.head? = some (.launchTeardown true) ∨
            c.head? = some (.tearingDown false)) (by decide) hcode hf _ hout with hf' | hi | hi
        · exact .inl (ran_moved ht hf')
        · obtain rfl : i = .launchTeardown true := Option.some.inj hi
          exact .inl ⟨_, launched_mem List.mem_cons_self, rfl⟩
        · exact absurd (Option.some.inj hi) hne
      · exact .inl ⟨u, (Placed.moved_mem ht _).2 u hu hm, hf⟩
    · exact .inr (ending_ran hk hp hP ht he)

theorem toStop_ran (hst : s.sh.stopped = true) : Ending (ran o s n l i rest) ∨
    ((ran o s n l i rest).sh.tearingDown = false ∧
      ∃ t ∈ (ran o s n l i rest).threads, .unlessTearing false ∈ t.code) := by
  obtain ⟨hcode, hout⟩ := moved_codes hk hp hP ht
  have hmem := List.mem_of_getElem? ht
  rcases h.toStop hst with he | ⟨htd, u, hu, hun⟩
  · exact .inl (ending_ran hk hp hP ht he)
  · cases htd' : (ran o s n l i rest).sh.tearingDown with
    | true =>
      rcases effect_tearing htd' with hi | ⟨htd', -⟩
      · rcases sets_tearing hk hp hP h ht hi with hb | he | hs
        · rw [h.free hst _ hmem] at hb
          cases hb
        · exact .inl (ending_ran hk hp hP ht he)
        · subst hi
          exact .inl (.inr (ran_moved ht hs))
      · rw [htd] at htd'
        cases htd'
    | false =>
      by_cases hm : u = ⟨l, i :: rest⟩
      · subst hm
        by_cases hi : i = .unlessTearing false
        · subst hi
          -- the stop passes its guard
          have hn : (Stmt.unlessTearing false).next o s.sh l rest = rest := by
            simp only [Stmt.next]
            rw [htd]
            rfl
          refine .inl (.inr (ran_moved ht ?_))
          rw [hn]
          exact of_codes (P := fun r c => c.head? = some (.unlessTearing false) →
            stopping r c.tail = true) (by decide) hcode rfl
        · refine .inr ⟨rfl, _, (Placed.moved_mem ht _).1, ?_⟩
          exact of_codes (P := fun _ c => .unlessTearing false ∈ c →
            c.head? ≠ some (.unlessTearing false) → ∀ c' ∈ outcomes c, .unlessTearing false ∈ c')
            (by decide) hcode hun (fun he => hi (Option.some.inj he)) _ hout
      · exact .inr ⟨rfl, u, (Placed.moved_mem ht _).2 u hu hm, hun⟩

/-- A thread that is not the one that moved holds its descriptors against it. -/
theorem blocking_ran {u : Task} (hu : u ∈ (ran o s n l i rest).threads)
    (hr : u.loc.role = .teardown true) (hin : InLock u.code) (hno : .openBlock ∉ u.code)
    (hno' : .killSwitch true ∉ u.code) : (ran o s n l i rest).sh.blockFd = true := by
  obtain ⟨hcode, hout⟩ := moved_codes hk hp hP ht
  have hmem := List.mem_of_getElem? ht
  rcases ran_cases hP ht hu with ⟨hro, -, hc⟩ | ⟨hmu, hne⟩ | hl
  · rw [hc] at hin hno hno'
    rcases of_codes (P := fun r c => ∀ c' ∈ outcomes c,
      r = .teardown true ∧ InLock c' ∧ .openBlock ∉ c' ∧ .killSwitch true ∉ c' →
      c.head? = some .openBlock ∨
        (InLock c ∧ .openBlock ∉ c ∧ .killSwitch true ∉ c ∧ c.head? = some (.tearingDown false)))
      (by decide) hcode _ hout ⟨hro ▸ hr, hin, hno, hno'⟩ with hi | ⟨hin', h1, h2, hi⟩
    · obtain rfl : i = .openBlock := Option.some.inj hi
      rfl
    · obtain rfl : i = .tearingDown false := Option.some.inj hi
      exact h.blocking _ hmem (hro ▸ hr) hin' h1 h2
  · refine effect_unblocked (fun hi => ?_) (fun hi => ?_) (h.blocking u hmu hr hin hno hno')
    · -- a block is closed after a stop only, and then there is no failure
      subst hi
      have hst := h.ender _ hmem (.inr (.inr List.mem_cons_self))
      have hb := h.free hst u hmu
      rw [of_codes (P := fun r c => r = .teardown true → InLock c → busy r c = true) (by decide)
        (hP.codes u hmu) hr hin] at hb
      cases hb
    · subst hi
      have hin' : InLock (.replaceBlock :: rest) :=
        of_codes (P := fun _ c => c.head? = some .replaceBlock → InLock c) (by decide) hcode rfl
      exact hne (hP.exclusive hmu hmem hin hin')
  · rcases hl with ⟨-, -, hc⟩ | ⟨error, -, -, hc⟩ | ⟨-, -, hc⟩
    all_goals rw [hc] at hin
    · exact absurd hin (by decide)
    · exact absurd hin (by cases error <;> decide)
    · exact absurd hin (by decide)

theorem owed_ran (ho : (ran o s n l i rest).sh.owed = true) :
    (ran o s n l i rest).sh.blockFd = true ∧ (ran o s n l i rest).sh.stopped = false := by
  obtain ⟨hcode, -⟩ := moved_codes hk hp hP ht
  have hmem := List.mem_of_getElem? ht
  have hst' : (ran o s n l i rest).sh.stopped = s.sh.stopped := effect_stopped.1
  rcases effect_owed ho with hold | ⟨rfl, hr⟩
  · obtain ⟨hb, hst⟩ := h.owed hold
    refine ⟨effect_unblocked (fun hi => ?_) (fun hi => ?_) hb, hst'.trans hst⟩
    · subst hi
      rw [h.ender _ hmem (.inr (.inr List.mem_cons_self))] at hst
      cases hst
    · subst hi
      rw [h.opened _ hmem rfl] at hold
      cases hold
  · -- the end of a failure's teardown
    obtain ⟨hin, h1, h2, hb⟩ := of_codes (P := fun r c => r = .teardown true →
      c.head? = some .unlock → InLock c ∧ .openBlock ∉ c ∧ .killSwitch true ∉ c ∧ busy r c = true)
      (by decide) hcode hr rfl
    refine ⟨h.blocking _ hmem hr hin h1 h2, hst'.trans ?_⟩
    by_contra hst
    rw [h.free (by simpa using hst) _ hmem] at hb
    cases hb

theorem opened_ran {u : Task} (hu : u ∈ (ran o s n l i rest).threads)
    (hh : u.code.head? = some .replaceBlock) : (ran o s n l i rest).sh.owed = false := by
  obtain ⟨hcode, hout⟩ := moved_codes hk hp hP ht
  have hmem := List.mem_of_getElem? ht
  rcases ran_cases hP ht hu with ⟨-, -, hc⟩ | ⟨hmu, hne⟩ | hl
  · rw [hc] at hh
    have hi := of_codes (P := fun _ c => ∀ c' ∈ outcomes c, c'.head? = some .replaceBlock →
      c.head? = some .openTun) (by decide) hcode _ hout hh
    obtain rfl : i = .openTun := Option.some.inj hi
    cases hno : noTun o l with
    | true =>
      simp only [Stmt.next, hno, if_true] at hh
      cases hh
    | false =>
      have he : establish o l = true := by
        simp only [noTun, hp, Bool.not_false, Bool.and_true, Bool.or_eq_false_iff,
          Bool.not_eq_false'] at hno
        exact hno.2
      show (Stmt.openTun.effect o s.sh l).owed = false
      simp [Stmt.effect, hno, he]
  · cases ho : (ran o s n l i rest).sh.owed with
    | false => rfl
    | true =>
      rcases effect_owed ho with hold | ⟨rfl, -⟩
      · rw [h.opened u hmu hh] at hold
        cases hold
      · have hin' : InLock (.unlock :: rest) :=
          of_codes (P := fun _ c => c.head? = some .unlock → InLock c) (by decide) hcode rfl
        have hin : InLock u.code :=
          of_codes (P := fun _ c => c.head? = some .replaceBlock → InLock c) (by decide)
            (hP.codes u hmu) hh
        exact absurd (hP.exclusive hmu hmem hin hin') hne
  · rcases hl with ⟨-, -, hc⟩ | ⟨error, -, -, hc⟩ | ⟨-, -, hc⟩
    all_goals
      rw [hc] at hh
      cases hh

theorem destroyer_ran {u : Task} (hu : u ∈ (ran o s n l i rest).threads)
    (hd : .launchDestroy ∈ u.code ∨ u.loc.role = .destroy) :
    (ran o s n l i rest).sh.destroyed = true := by
  obtain ⟨hcode, hout⟩ := moved_codes hk hp hP ht
  have hmem := List.mem_of_getElem? ht
  refine effect_stopped.2.2.trans ?_
  rcases ran_cases hP ht hu with ⟨hro, -, hc⟩ | ⟨hu, -⟩ | hl
  · refine h.destroyer _ hmem (hd.imp (fun hd => ?_) fun hd => hro ▸ hd)
    rw [hc] at hd
    exact of_codes (P := fun _ c => ∀ c' ∈ outcomes c, .launchDestroy ∈ c' → .launchDestroy ∈ c)
      (by decide) hcode _ hout hd
  · exact h.destroyer u hu hd
  · rcases hl with ⟨-, hr, hc⟩ | ⟨error, -, hr, hc⟩ | ⟨rfl, -, -⟩
    · rw [hr, hc] at hd
      exact absurd hd (by decide)
    · rw [hr, hc] at hd
      exact absurd hd (by cases error <;> decide)
    · exact h.destroyer _ hmem (.inl List.mem_cons_self)

theorem exists_destroyer_ran (hd : s.sh.destroyed = true) :
    ∃ t ∈ (ran o s n l i rest).threads, .launchDestroy ∈ t.code ∨ t.loc.role = .destroy := by
  obtain ⟨hcode, hout⟩ := moved_codes hk hp hP ht
  obtain ⟨u, hu, hd⟩ := h.exists_destroyer hd
  by_cases hm : u = ⟨l, i :: rest⟩
  · subst hm
    rcases of_codes (P := fun r c => .launchDestroy ∈ c ∨ r = .destroy → ∀ c' ∈ outcomes c,
      (.launchDestroy ∈ c' ∨ r = .destroy) ∨ c.head? = some .launchDestroy) (by decide) hcode hd _
      hout with hd' | hi
    · exact ⟨_, (Placed.moved_mem ht _).1, hd'.imp id fun hr => save_role.trans hr⟩
    · obtain rfl : i = .launchDestroy := Option.some.inj hi
      exact ⟨_, launched_mem List.mem_cons_self, .inr rfl⟩
  · exact ⟨u, (Placed.moved_mem ht _).2 u hu hm, hd⟩

theorem ender_ran {u : Task} (hu : u ∈ (ran o s n l i rest).threads)
    (he : .launchTeardown false ∈ u.code ∨ (u.loc.role = .teardown false ∧ u.code ≠ []) ∨
      .closeBlock ∈ u.code) : s.sh.stopped = true := by
  obtain ⟨hcode, hout⟩ := moved_codes hk hp hP ht
  have hmem := List.mem_of_getElem? ht
  rcases ran_cases hP ht hu with ⟨hro, -, hc⟩ | ⟨hu, -⟩ | hl
  · rw [hc, hro] at he
    exact h.ender _ hmem (of_codes (P := fun r c => ∀ c' ∈ outcomes c,
      .launchTeardown false ∈ c' ∨ (r = .teardown false ∧ c' ≠ []) ∨ .closeBlock ∈ c' →
      .launchTeardown false ∈ c ∨ (r = .teardown false ∧ c ≠ []) ∨ .closeBlock ∈ c) (by decide)
      hcode _ hout he)
  · exact h.ender u hu he
  · rcases hl with ⟨-, hr, hc⟩ | ⟨error, rfl, hr, hc⟩ | ⟨rfl, hr, hc⟩
    · rw [hr, hc] at he
      exact absurd he (by decide)
    · cases error with
      | true =>
        rw [hr, hc] at he
        exact absurd he (by decide)
      | false => exact h.ender _ hmem (.inl List.mem_cons_self)
    · exact h.selfStopped (h.destroyed (h.destroyer _ hmem (.inl List.mem_cons_self)))

variable (hc : s.sh.stopped = true → s.sh.tearingDown = false →
  i ≠ .enterSwitch ∧ i ≠ .unlessTearing true)

include hc

/-- After a stop nothing gets past a guard. -/
theorem free_ran (hst : s.sh.stopped = true) {u : Task}
    (hu : u ∈ (ran o s n l i rest).threads) : busy u.loc.role u.code = false := by
  obtain ⟨hcode, hout⟩ := moved_codes hk hp hP ht
  have hmem := List.mem_of_getElem? ht
  have hidle : busy l.role (i :: rest) = false := h.free hst _ hmem
  rcases ran_cases hP ht hu with ⟨hro, -, hcd⟩ | ⟨hmu, -⟩ | hl
  · rw [hro, hcd]
    by_cases hg : i = .enterSwitch ∨ i = .unlessTearing true
    · have htd : s.sh.tearingDown = true := by
        by_contra hne
        obtain ⟨h1, h2⟩ := hc hst (by simpa using hne)
        exact hg.elim h1 h2
      have hn : i.next o s.sh l rest = [] ∨ i.next o s.sh l rest = leave rest := by
        rcases hg with rfl | rfl
        · exact .inl (if_pos htd)
        · exact .inr (if_pos htd)
      have hb := of_codes (P := fun r c => c.head? = some .enterSwitch ∨
        c.head? = some (.unlessTearing true) → busy r [] = false ∧ busy r (leave c.tail) = false)
        (by decide) hcode (hg.imp (fun hi => by rw [hi]; rfl) fun hi => by rw [hi]; rfl)
      rcases hn with hn | hn
      · rw [hn]
        exact hb.1
      · rw [hn]
        exact hb.2
    · have hb := of_codes (P := fun r c => busy r c = false ∧ c.head? ≠ some .enterSwitch ∧
        c.head? ≠ some (.unlessTearing true) → ∀ c' ∈ outcomes c, busy r c' = false) (by decide)
        hcode ⟨hidle, fun he => hg (.inl (Option.some.inj he)),
          fun he => hg (.inr (Option.some.inj he))⟩
      exact hb _ hout
  · exact h.free hst u hmu
  · rcases hl with ⟨-, hr, hcd⟩ | ⟨error, rfl, hr, hcd⟩ | ⟨-, hr, hcd⟩
    · rw [hr, hcd]
      rfl
    · cases error with
      | true =>
        rw [of_codes (P := fun r c => c.head? = some (.launchTeardown true) → busy r c = true)
          (by decide) hcode rfl] at hidle
        cases hidle
      | false =>
        rw [hr, hcd]
        rfl
    · rw [hr, hcd]
      rfl

theorem startless_ran (hcalm : Calm s.sh) {u : Task} (hu : u ∈ (ran o s n l i rest).threads)
    (hs : .launchStart ∈ u.code ∨ .assign ∈ u.code) : .enterSwitch ∈ u.code := by
  obtain ⟨hcode, hout⟩ := moved_codes hk hp hP ht
  have hmem := List.mem_of_getElem? ht
  rcases ran_cases hP ht hu with ⟨-, -, hcd⟩ | ⟨hmu, -⟩ | hl
  · rw [hcd] at hs
    have hold := of_codes (P := fun _ c => ∀ c' ∈ outcomes c, .launchStart ∈ c' ∨ .assign ∈ c' →
      .launchStart ∈ c ∨ .assign ∈ c) (by decide) hcode _ hout hs
    have hi := of_codes (P := fun _ c => .enterSwitch ∈ c → c.head? = some .enterSwitch) (by decide)
      hcode (h.startless hcalm _ hmem hold)
    obtain rfl : i = .enterSwitch := Option.some.inj hi
    have htd : s.sh.tearingDown = true := by
      by_contra hne
      exact (hc hcalm.1 (by simpa using hne)).1 rfl
    simp only [Stmt.next, htd, if_true] at hs
    exact absurd hs (by simp)
  · exact h.startless hcalm u hmu hs
  · rcases hl with ⟨-, -, hcd⟩ | ⟨error, -, -, hcd⟩ | ⟨-, -, hcd⟩
    all_goals rw [hcd] at hs
    · exact absurd hs (by decide)
    · exact absurd hs (by cases error <;> decide)
    · exact absurd hs (by decide)

omit hc in
/-- After a stop no start is launched. -/
theorem no_launch (hcalm : Calm s.sh) : i ≠ .launchStart ∧ i ≠ .assign := by
  obtain ⟨hcode, -⟩ := moved_codes hk hp hP ht
  have hmem := List.mem_of_getElem? ht
  have hno : ¬(i = .launchStart ∨ i = .assign) := by
    intro hi
    have he := h.startless hcalm _ hmem
      (hi.imp (fun hi => by rw [hi]; exact List.mem_cons_self) fun hi => by
        rw [hi]; exact List.mem_cons_self)
    have hh := of_codes (P := fun _ c => .enterSwitch ∈ c → c.head? = some .enterSwitch) (by decide)
      hcode he
    obtain rfl : i = .enterSwitch := Option.some.inj hh
    rcases hi with hi | hi <;> cases hi
  exact ⟨fun hi => hno (.inl hi), fun hi => hno (.inr hi)⟩

omit hc in
/-- A start that has yet to open its tun was there before. -/
theorem opener_ran (hcalm : Calm s.sh) {u : Task} (hu : u ∈ (ran o s n l i rest).threads)
    (ho : .openTun ∈ u.code) :
    ∃ t ∈ s.threads, .openTun ∈ t.code ∧ t.loc.tid = u.loc.tid := by
  obtain ⟨hcode, hout⟩ := moved_codes hk hp hP ht
  rcases ran_cases hP ht hu with ⟨-, htid, hcd⟩ | ⟨hmu, -⟩ | hl
  · rw [hcd] at ho
    exact ⟨_, List.mem_of_getElem? ht, of_codes (P := fun _ c => ∀ c' ∈ outcomes c,
      .openTun ∈ c' → .openTun ∈ c) (by decide) hcode _ hout ho, htid.symm⟩
  · exact ⟨u, hmu, ho, rfl⟩
  · rcases hl with ⟨hi, -, -⟩ | ⟨error, -, -, hcd⟩ | ⟨-, -, hcd⟩
    · exact absurd hi (no_launch hk hp hP h ht hcalm).1
    · rw [hcd] at ho
      exact absurd ho (by cases error <;> decide)
    · rw [hcd] at ho
      exact absurd ho (by decide)

omit hc in
theorem sealed_ran (hcalm : Calm s.sh) {u : Task} (hu : u ∈ (ran o s n l i rest).threads)
    (ho : .openTun ∈ u.code) : (ran o s n l i rest).sh.isCancelled u.loc.tid = true ∨
      (ran o s n l i rest).sh.startJob = some u.loc.tid := by
  obtain ⟨t, htm, hto, htid⟩ := opener_ran hk hp hP h ht hcalm hu ho
  rw [← htid]
  refine (h.sealed hcalm t htm hto).imp effect_cancelled fun hj => ?_
  exact (effect_startJob (no_launch hk hp hP h ht hcalm).2).trans hj

omit hc in
theorem cancelled_ran (hcalm : Calm s.sh) (hcan : Cancelled s) :
    Cancelled (ran o s n l i rest) := by
  intro u hu ho
  obtain ⟨t, htm, hto, htid⟩ := opener_ran hk hp hP h ht hcalm hu ho
  rw [← htid]
  exact effect_cancelled (hcan t htm hto)

omit hc in
theorem shut_ran (hcalm : Calm s.sh) (hs : Shut s) : Shut (ran o s n l i rest) := by
  obtain ⟨hcode, hout⟩ := moved_codes hk hp hP ht
  refine ⟨cancelled_ran hk hp hP h ht hcalm hs.1, fun u hu hh => ?_⟩
  rcases ran_cases hP ht hu with ⟨-, htid, hcd⟩ | ⟨hmu, -⟩ | hl
  · -- a cancelled start leaves at the check before its tun
    rw [hcd] at hh
    obtain ⟨hi, hmem⟩ := of_codes (P := fun _ c => ∀ c' ∈ outcomes c, c'.head? = some .openTun →
      c.head? = some .ensureActive ∧ .openTun ∈ c) (by decide) hcode _ hout hh
    obtain rfl : i = .ensureActive := Option.some.inj hi
    have hcan := hs.1 _ (List.mem_of_getElem? ht) hmem
    simp only [Stmt.next, hcan, if_true] at hh
    exact of_codes (P := fun _ c => c.head? = some .ensureActive →
      (leave c.tail).head? ≠ some .openTun) (by decide) hcode rfl hh
  · exact hs.2 u hmu hh
  · rcases hl with ⟨-, -, hcd⟩ | ⟨error, -, -, hcd⟩ | ⟨-, -, hcd⟩
    all_goals
      rw [hcd] at hh
      cases hh

omit hk hp hP h hc in
theorem tun_ran (hs : Shut s) (htun : s.sh.tunFd = false) :
    (ran o s n l i rest).sh.tunFd = false :=
  effect_tunFd (fun hi => hs.2 _ (List.mem_of_getElem? ht) (by rw [hi]; rfl)) htun

omit hc in
theorem block_ran (hst : s.sh.stopped = true) (hb : s.sh.blockFd = false) :
    (ran o s n l i rest).sh.blockFd = false := by
  obtain ⟨hcode, -⟩ := moved_codes hk hp hP ht
  refine effect_blocked (fun hi => ?_) hb
  have hbusy := h.free hst _ (List.mem_of_getElem? ht)
  rw [of_codes (P := fun r c => c.head? = some .openBlock → busy r c = true) (by decide) hcode
    (by rw [hi]; rfl)] at hbusy
  cases hbusy

omit hc in
theorem destroying_ran (hlock : i = .lock → s.sh.engineLock = none) (hcalm : Calm s.sh) {u : Task}
    (hu : u ∈ (ran o s n l i rest).threads) : Destroying (ran o s n l i rest) u := by
  obtain ⟨hcode, hout⟩ := moved_codes hk hp hP ht
  have hmem := List.mem_of_getElem? ht
  have hcan := fun hs => cancelled_ran hk hp hP h ht hcalm hs
  have hshut := fun hs => shut_ran hk hp hP h ht hcalm hs
  rcases ran_cases hP ht hu with ⟨hro, -, hcd⟩ | ⟨hmu, -⟩ | hl
  · have hd := h.destroying hcalm _ hmem
    have hdes : l.role = .destroy → .lock ∉ i :: rest ∨ i = .lock := fun hr =>
      of_codes (P := fun r c => r = .destroy → .lock ∉ c ∨ c.head? = some .lock) (by decide) hcode hr
        |>.imp id Option.some.inj
    refine ⟨fun ha hb => ?_, fun hr => hcan (hd.cancelled (hro ▸ hr)), fun hr hnl => ?_,
      fun hr hnl hn => ?_, fun hr hnl hn => ?_⟩
    · rw [hcd] at ha hb
      obtain ⟨ha', hb'⟩ := of_codes (P := fun _ c => ∀ c' ∈ outcomes c,
        .launchDestroy ∈ c' ∧ .cancelStart ∉ c' →
        .launchDestroy ∈ c ∧ (.cancelStart ∉ c ∨ c.head? = some .cancelStart)) (by decide) hcode _
        hout ⟨ha, hb⟩
      rcases hb' with hb' | hi
      · exact hcan (hd.asked ha' hb')
      · -- the start job is cancelled now, and there is no other
        obtain rfl : i = .cancelStart := Option.some.inj hi
        intro t htm hto
        rcases sealed_ran hk hp hP h ht hcalm htm hto with hcan' | hj
        · exact hcan'
        · have hj : s.sh.startJob = some t.loc.tid := hj
          simp [ran, Stmt.effect, Shared.isCancelled, hj]
    · rcases hdes (hro ▸ hr) with hno | rfl
      · exact hshut (hd.shut (hro ▸ hr) hno)
      · refine hshut ⟨hd.cancelled (hro ▸ hr), fun t htm hh => ?_⟩
        have hin := of_codes (P := fun _ c => c.head? = some .openTun → InLock c) (by decide)
          (hP.codes t htm) hh
        have := hP.holder t htm hin
        rw [hlock rfl] at this
        cases this
    · rw [hcd] at hn
      rcases of_codes (P := fun r c => r = .destroy → ∀ c' ∈ outcomes c, .closeTun ∉ c' →
        (.lock ∉ c ∧ .closeTun ∉ c) ∨ c.head? = some .closeTun) (by decide) hcode (hro ▸ hr) _ hout
        hn with ⟨h1, h2⟩ | hi
      · exact tun_ran ht (hd.shut (hro ▸ hr) h1) (hd.tun (hro ▸ hr) h1 h2)
      · obtain rfl : i = .closeTun := Option.some.inj hi
        rfl
    · rw [hcd] at hn
      rcases of_codes (P := fun r c => r = .destroy → ∀ c' ∈ outcomes c, .closeBlock ∉ c' →
        (.lock ∉ c ∧ .closeBlock ∉ c) ∨ c.head? = some .closeBlock) (by decide) hcode (hro ▸ hr) _
        hout hn with ⟨h1, h2⟩ | hi
      · exact block_ran hk hp hP h ht hcalm.1 (hd.block (hro ▸ hr) h1 h2)
      · obtain rfl : i = .closeBlock := Option.some.inj hi
        rfl
  · have hd := h.destroying hcalm u hmu
    exact ⟨fun ha hb => hcan (hd.asked ha hb), fun hr => hcan (hd.cancelled hr),
      fun hr hn => hshut (hd.shut hr hn),
      fun hr hn hn' => tun_ran ht (hd.shut hr hn) (hd.tun hr hn hn'),
      fun hr hn hn' => block_ran hk hp hP h ht hcalm.1 (hd.block hr hn hn')⟩
  · rcases hl with ⟨hi, -, -⟩ | ⟨error, -, hr, hcd⟩ | ⟨rfl, hr, hcd⟩
    · exact absurd hi (no_launch hk hp hP h ht hcalm).1
    · have hno : .launchDestroy ∉ u.code := by
        rw [hcd]
        cases error <;> decide
      refine ⟨fun ha => absurd ha hno, fun hr' => ?_, fun hr' => ?_, fun hr' => ?_, fun hr' => ?_⟩
      all_goals
        rw [hr] at hr'
        cases hr'
    · have hlk : .lock ∈ u.code := by
        rw [hcd]
        decide
      have hlast := of_codes (P := fun _ c => c.head? = some .launchDestroy → .cancelStart ∉ c)
        (by decide) hcode rfl
      have hall := hcan ((h.destroying hcalm _ hmem).asked List.mem_cons_self hlast)
      exact ⟨fun _ _ => hall, fun _ => hall, fun _ hn => absurd hlk hn,
        fun _ hn => absurd hlk hn, fun _ hn => absurd hlk hn⟩

omit hc in
theorem ended_ran (hcalm : Calm s.sh) (ho : (ran o s n l i rest).sh.scopeCancelled = true) :
    Shut (ran o s n l i rest) ∧ (ran o s n l i rest).sh.tunFd = false ∧
      (ran o s n l i rest).sh.blockFd = false := by
  obtain ⟨hcode, -⟩ := moved_codes hk hp hP ht
  have hold : Shut s ∧ s.sh.tunFd = false ∧ s.sh.blockFd = false := by
    rcases effect_scope ho with ho | rfl
    · exact h.ended hcalm ho
    · obtain ⟨hr, h1, h2, h3⟩ := of_codes (P := fun r c => c.head? = some .cancelScope →
        r = .destroy ∧ .lock ∉ c ∧ .closeTun ∉ c ∧ .closeBlock ∉ c) (by decide) hcode rfl
      have hd := h.destroying hcalm _ (List.mem_of_getElem? ht)
      exact ⟨hd.shut hr h1, hd.tun hr h1 h2, hd.block hr h1 h3⟩
  exact ⟨shut_ran hk hp hP h ht hcalm hold.1, tun_ran ht hold.1 hold.2.1,
    block_ran hk hp hP h ht hcalm.1 hold.2.2⟩

theorem ran_inv (hlock : i = .lock → s.sh.engineLock = none) : Inv (ran o s n l i rest) := by
  obtain ⟨hcode, -⟩ := moved_codes hk hp hP ht
  have hmem := List.mem_of_getElem? ht
  have hst : (ran o s n l i rest).sh.stopped = s.sh.stopped := effect_stopped.1
  have hcalm : Calm (ran o s n l i rest).sh → Calm s.sh := fun hcalm =>
    ⟨hst.symm.trans hcalm.1, effect_stopped.2.1.symm.trans hcalm.2⟩
  exact
    { tearing := tearing_ran hk hp hP h ht
      toStop := fun hs => toStop_ran hk hp hP h ht (hst.symm.trans hs)
      free := fun hs _ hu => free_ran hk hp hP h ht hc (hst.symm.trans hs) hu
      sealed := fun hs _ hu ho => sealed_ran hk hp hP h ht (hcalm hs) hu ho
      startless := fun hs _ hu ho => startless_ran hk hp hP h ht hc (hcalm hs) hu ho
      ender := fun _ hu he => hst.trans (ender_ran hk hp hP h ht hu he)
      selfStopped := fun hs => by
        refine hst.trans ?_
        rcases effect_selfStopped.1 hs with hs | rfl
        · exact h.selfStopped hs
        · exact h.ender _ hmem (.inr (.inl (of_codes (P := fun r c => c.head? = some .stopSelf →
            r = .teardown false ∧ c ≠ []) (by decide) hcode rfl)))
      destroyed := fun hs =>
        effect_selfStopped.2 (.inl (h.destroyed (effect_stopped.2.2.symm.trans hs)))
      scope := fun hs => by
        refine effect_stopped.2.2.trans ?_
        rcases effect_scope hs with hs | rfl
        · exact h.scope hs
        · exact h.destroyer _ hmem (.inr (of_codes (P := fun r c =>
            c.head? = some .cancelScope → r = .destroy) (by decide) hcode rfl))
      owed := owed_ran hk hp hP h ht
      blocking := fun _ hu hr hin h1 h2 => blocking_ran hk hp hP h ht hu hr hin h1 h2
      opened := fun _ hu hh => opened_ran hk hp hP h ht hu hh
      destroyer := fun _ hu hd => destroyer_ran hk hp hP h ht hu hd
      exists_destroyer := fun hd =>
        exists_destroyer_ran hk hp hP h ht (effect_stopped.2.2.symm.trans hd)
      destroying := fun hs _ hu => destroying_ran hk hp hP h ht hlock (hcalm hs) hu
      ended := fun hs ho => ended_ran hk hp hP h ht (hcalm hs) ho }

end Run

/-! ## The other steps -/

section Steps

variable {o : Options} {s s' : Sys}

theorem interrupt_inv {n : Nat} (hP : Placed s) (h : Inv s) (hs : s.interrupt n = some s') :
    Inv s' := by
  obtain ⟨t, code, ht, hi, hcan, rfl⟩ := Placed.interrupt_some hs
  have hmem := List.mem_of_getElem? ht
  have hcode := hP.codes t hmem
  have hmoved : (⟨t.loc, code⟩ : Task) ∈ s.threads.set n ⟨t.loc, code⟩ ++ [] ∧
      ∀ u ∈ s.threads, u ≠ t → u ∈ s.threads.set n ⟨t.loc, code⟩ ++ [] := Placed.moved_mem ht []
  -- what is left does nothing any more
  obtain ⟨hb, ho, hls, has, hlt, hcb, hin, hld⟩ := of_codes (P := fun r c => ∀ c' ∈ interrupted c,
    (busy r c = false → busy r c' = false) ∧ .openTun ∉ c' ∧ .launchStart ∉ c' ∧ .assign ∉ c' ∧
      .launchTeardown false ∉ c' ∧ .closeBlock ∉ c' ∧
      (r = .teardown true → ¬InLock c') ∧ .launchDestroy ∉ c ∧ .launchDestroy ∉ c') (by decide)
    hcode code hi
  obtain ⟨hne, hhead⟩ := of_codes (P := fun _ c => ∀ c' ∈ interrupted c,
    c ≠ [] ∧ c'.head? ≠ some .replaceBlock ∧ c'.head? ≠ some .openTun) (by decide) hcode code hi
  have hstart := of_codes (P := fun r c => r = .start → ∀ c' ∈ interrupted c,
    failing r c = false ∧ stopping r c = false ∧ .unlessTearing false ∉ c) (by decide) hcode
  have hending : Ending s → Ending ⟨s.sh, s.threads.set n ⟨t.loc, code⟩ ++ []⟩ := by
    rintro (he | ⟨u, hu, hst⟩)
    · exact .inl he
    · by_cases hm : u = t
      · subst hm
        rcases hcan with hc | hr
        · exact .inl (h.destroyed (h.scope hc))
        · rw [(hstart hr code hi).2.1] at hst
          cases hst
      · exact .inr ⟨u, hmoved.2 u hu hm, hst⟩
  have hshut : Cancelled s → Cancelled ⟨s.sh, s.threads.set n ⟨t.loc, code⟩ ++ []⟩ := by
    intro hall u hu hou
    rcases hP.mem_moved ht hu with rfl | ⟨hmu, -⟩ | hu
    · exact absurd hou ho
    · exact hall u hmu hou
    · cases hu
  have hshut' : Shut s → Shut ⟨s.sh, s.threads.set n ⟨t.loc, code⟩ ++ []⟩ := by
    rintro ⟨hall, hh⟩
    refine ⟨hshut hall, fun u hu => ?_⟩
    rcases hP.mem_moved ht hu with rfl | ⟨hmu, -⟩ | hu
    · exact hhead.2
    · exact hh u hmu
    · cases hu
  refine
    { tearing := fun htd => ?_, toStop := fun hst => ?_, free := fun hst u hu => ?_,
      sealed := fun hc u hu hou => ?_, startless := fun hc u hu hou => ?_,
      ender := fun u hu he => ?_, selfStopped := h.selfStopped, destroyed := h.destroyed,
      scope := h.scope, owed := h.owed, blocking := fun u hu hr hinu h1 h2 => ?_,
      opened := fun u hu hh => ?_, destroyer := fun u hu hd => ?_,
      exists_destroyer := fun hd => ?_, destroying := fun hc u hu => ?_,
      ended := fun hc hsc => ?_ }
  · rcases h.tearing htd with ⟨u, hu, hf⟩ | he
    · by_cases hm : u = t
      · subst hm
        rcases hcan with hc | hr
        · exact .inr (.inl (h.destroyed (h.scope hc)))
        · rw [(hstart hr code hi).1] at hf
          cases hf
      · exact .inl ⟨u, hmoved.2 u hu hm, hf⟩
    · exact .inr (hending he)
  · rcases h.toStop hst with he | ⟨htd, u, hu, hun⟩
    · exact .inl (hending he)
    · by_cases hm : u = t
      · subst hm
        rcases hcan with hc | hr
        · exact .inl (.inl (h.destroyed (h.scope hc)))
        · exact absurd hun (hstart hr code hi).2.2
      · exact .inr ⟨htd, u, hmoved.2 u hu hm, hun⟩
  · rcases hP.mem_moved ht hu with rfl | ⟨hmu, -⟩ | hu
    · exact hb (h.free hst t hmem)
    · exact h.free hst u hmu
    · cases hu
  · rcases hP.mem_moved ht hu with rfl | ⟨hmu, -⟩ | hu
    · exact absurd hou ho
    · exact h.sealed hc u hmu hou
    · cases hu
  · rcases hP.mem_moved ht hu with rfl | ⟨hmu, -⟩ | hu
    · exact hou.elim (fun hl => absurd hl hls) fun ha => absurd ha has
    · exact h.startless hc u hmu hou
    · cases hu
  · rcases hP.mem_moved ht hu with rfl | ⟨hmu, -⟩ | hu
    · rcases he with he | ⟨hr, -⟩ | he
      · exact absurd he hlt
      · exact h.ender t hmem (.inr (.inl ⟨hr, hne⟩))
      · exact absurd he hcb
    · exact h.ender u hmu he
    · cases hu
  · rcases hP.mem_moved ht hu with rfl | ⟨hmu, -⟩ | hu
    · exact absurd hinu (hin hr)
    · exact h.blocking u hmu hr hinu h1 h2
    · cases hu
  · rcases hP.mem_moved ht hu with rfl | ⟨hmu, -⟩ | hu
    · exact absurd hh hhead.1
    · exact h.opened u hmu hh
    · cases hu
  · rcases hP.mem_moved ht hu with rfl | ⟨hmu, -⟩ | hu
    · exact h.destroyer t hmem (hd.imp (fun hd => absurd hd hld.2) id)
    · exact h.destroyer u hmu hd
    · cases hu
  · obtain ⟨u, hu, hdu⟩ := h.exists_destroyer hd
    by_cases hm : u = t
    · subst hm
      exact ⟨_, hmoved.1, .inr (hdu.resolve_left hld.1)⟩
    · exact ⟨u, hmoved.2 u hu hm, hdu⟩
  · rcases hP.mem_moved ht hu with rfl | ⟨hmu, -⟩ | hu
    · have hend : t.loc.role = .destroy → Shut s ∧ s.sh.tunFd = false ∧ s.sh.blockFd = false := by
        intro hr
        rcases hcan with hsc | hr'
        · exact h.ended hc hsc
        · rw [hr] at hr'
          cases hr'
      exact ⟨fun ha => absurd ha hld.2, fun hr => hshut (hend hr).1.1,
        fun hr _ => hshut' (hend hr).1, fun hr _ _ => (hend hr).2.1, fun hr _ _ => (hend hr).2.2⟩
    · have hd := h.destroying hc u hmu
      exact ⟨fun ha hb => hshut (hd.asked ha hb), fun hr => hshut (hd.cancelled hr),
        fun hr hn => hshut' (hd.shut hr hn), hd.tun, hd.block⟩
    · cases hu
  · obtain ⟨h1, h2⟩ := h.ended hc hsc
    exact ⟨hshut' h1, h2⟩

/-- A thread that begins, and changes nothing yet. -/
def entering (r : Role) (code : List Stmt) : Bool :=
  !busy r code && !code.contains .openTun && !code.contains (.launchTeardown false) &&
    !code.contains .closeBlock && !code.contains .launchDestroy &&
    code.head? ≠ some .replaceBlock && (r = .main || r = .switch || r = .other)

theorem begin_inv (h : Inv s) {sh : Shared} (hsh : sh = s.sh ∨ sh = { s.sh with restarted := true })
    {role : Role} (fault : Fault) {code : List Stmt} (he : entering role code = true)
    (hs : sh.restarted = false → .launchStart ∈ code ∨ .assign ∈ code → .enterSwitch ∈ code) :
    Inv (({ s with sh := sh } : Sys).begin role fault code) := by
  simp only [entering, Bool.and_eq_true, Bool.not_eq_true', List.contains_eq_mem,
    decide_eq_false_iff_not, Bool.or_eq_true, decide_eq_true_eq, ne_eq] at he
  obtain ⟨⟨⟨⟨⟨⟨hb, ho⟩, hlt⟩, hcb⟩, hld⟩, hh⟩, hr⟩ := he
  have hrole : role ≠ .teardown true ∧ role ≠ .teardown false ∧ role ≠ .destroy := by
    rcases hr with (rfl | rfl) | rfl <;> decide
  have hcalm : Calm sh → Calm s.sh := by
    rcases hsh with rfl | rfl
    · exact id
    · exact fun hc => (by cases hc.2)
  -- all other fields are those of the service before
  have hsame : sh.tearingDown = s.sh.tearingDown ∧ sh.stopped = s.sh.stopped ∧
      sh.selfStopped = s.sh.selfStopped ∧ sh.destroyed = s.sh.destroyed ∧
      sh.scopeCancelled = s.sh.scopeCancelled ∧ sh.owed = s.sh.owed ∧
      sh.blockFd = s.sh.blockFd ∧ sh.tunFd = s.sh.tunFd ∧ sh.startJob = s.sh.startJob ∧
      sh.cancelled = s.sh.cancelled := by
    rcases hsh with rfl | rfl <;> exact ⟨rfl, rfl, rfl, rfl, rfl, rfl, rfl, rfl, rfl, rfl⟩
  obtain ⟨htd, hst, hse, hde, hsc, how, hbf, htf, hsj, hca⟩ := hsame
  have hcan : ∀ tid, sh.isCancelled tid = s.sh.isCancelled tid := fun tid => by
    simp only [Shared.isCancelled, hsc, hca]
  have hending : Ending s → Ending (({ s with sh := sh } : Sys).begin role fault code) := by
    rintro (he | ⟨u, hu, hsu⟩)
    · exact .inl (hse.trans he)
    · exact .inr ⟨u, List.mem_append_left _ hu, hsu⟩
  have hall : Cancelled s → Cancelled (({ s with sh := sh } : Sys).begin role fault code) := by
    intro hc u hu hou
    rcases List.mem_append.1 hu with hu | hu
    · exact (hcan _).trans (hc u hu hou)
    · rw [List.mem_singleton.1 hu] at hou
      exact absurd hou ho
  have hshut : Shut s → Shut (({ s with sh := sh } : Sys).begin role fault code) := by
    rintro ⟨hc, hn⟩
    refine ⟨hall hc, fun u hu hhu => ?_⟩
    rcases List.mem_append.1 hu with hu | hu
    · exact hn u hu hhu
    · rw [List.mem_singleton.1 hu] at hhu
      exact ho (List.mem_of_mem_head? hhu)
  refine
    { tearing := fun hx => ?_, toStop := fun hx => ?_, free := fun hx u hu => ?_,
      sealed := fun hc u hu hou => ?_, startless := fun hc u hu hou => ?_,
      ender := fun u hu he => hst.trans ?_,
      selfStopped := fun hx => hst.trans (h.selfStopped (hse.symm.trans hx)),
      destroyed := fun hx => hse.trans (h.destroyed (hde.symm.trans hx)),
      scope := fun hx => hde.trans (h.scope (hsc.symm.trans hx)), owed := fun hx => ?_,
      blocking := fun u hu hru hin h1 h2 => hbf.trans ?_, opened := fun u hu hhu => how.trans ?_,
      destroyer := fun u hu hd => hde.trans ?_, exists_destroyer := fun hd => ?_,
      destroying := fun hc u hu => ?_, ended := fun hc hx => ?_ }
  · rcases h.tearing (htd.symm.trans hx) with ⟨u, hu, hf⟩ | he
    · exact .inl ⟨u, List.mem_append_left _ hu, hf⟩
    · exact .inr (hending he)
  · rcases h.toStop (hst.symm.trans hx) with he | ⟨htd', u, hu, hun⟩
    · exact .inl (hending he)
    · exact .inr ⟨htd.trans htd', u, List.mem_append_left _ hu, hun⟩
  · rcases List.mem_append.1 hu with hu | hu
    · exact h.free (hst.symm.trans hx) u hu
    · rw [List.mem_singleton.1 hu]
      exact hb
  · rcases List.mem_append.1 hu with hu | hu
    · exact (h.sealed (hcalm hc) u hu hou).imp (fun hx => (hcan _).trans hx) fun hx => hsj.trans hx
    · rw [List.mem_singleton.1 hu] at hou
      exact absurd hou ho
  · rcases List.mem_append.1 hu with hu | hu
    · exact h.startless (hcalm hc) u hu hou
    · rw [List.mem_singleton.1 hu] at hou ⊢
      exact hs hc.2 hou
  · rcases List.mem_append.1 hu with hu | hu
    · exact h.ender u hu he
    · rw [List.mem_singleton.1 hu] at he
      rcases he with he | ⟨he, -⟩ | he
      · exact absurd he hlt
      · exact absurd he hrole.2.1
      · exact absurd he hcb
  · obtain ⟨h1, h2⟩ := h.owed (how.symm.trans hx)
    exact ⟨hbf.trans h1, hst.trans h2⟩
  · rcases List.mem_append.1 hu with hu | hu
    · exact h.blocking u hu hru hin h1 h2
    · rw [List.mem_singleton.1 hu] at hru
      exact absurd hru hrole.1
  · rcases List.mem_append.1 hu with hu | hu
    · exact h.opened u hu hhu
    · rw [List.mem_singleton.1 hu] at hhu
      exact absurd hhu hh
  · rcases List.mem_append.1 hu with hu | hu
    · exact h.destroyer u hu hd
    · rw [List.mem_singleton.1 hu] at hd
      exact hd.elim (fun hd => absurd hd hld) fun hd => absurd hd hrole.2.2
  · obtain ⟨u, hu, hd⟩ := h.exists_destroyer (hde.symm.trans hd)
    exact ⟨u, List.mem_append_left _ hu, hd⟩
  · rcases List.mem_append.1 hu with hu | hu
    · have hd := h.destroying (hcalm hc) u hu
      exact ⟨fun ha hb => hall (hd.asked ha hb), fun hr => hall (hd.cancelled hr),
        fun hr hn => hshut (hd.shut hr hn), fun hr h1 h2 => htf.trans (hd.tun hr h1 h2),
        fun hr h1 h2 => hbf.trans (hd.block hr h1 h2)⟩
    · rw [List.mem_singleton.1 hu]
      exact ⟨fun ha => absurd ha hld, fun hr => absurd hr hrole.2.2,
        fun hr => absurd hr hrole.2.2, fun hr => absurd hr hrole.2.2,
        fun hr => absurd hr hrole.2.2⟩
  · obtain ⟨h1, h2, h3⟩ := h.ended (hcalm hc) (hsc.symm.trans hx)
    exact ⟨hshut h1, htf.trans h2, hbf.trans h3⟩

/-- A stop is delivered. -/
theorem stop_inv (hP : Placed s) (h : Inv s) (hc : orderly s .stopCommand)
    (hs : step o s .stopCommand = some s') : Inv s' := by
  simp only [step, Sys.command] at hs
  split at hs
  · rename_i hidle
    cases hs
    simp only [Bool.and_eq_true, Bool.not_eq_true', Sys.mainIdle, List.all_eq_true,
      Bool.or_eq_true, decide_eq_true_eq, List.isEmpty_iff, ne_eq] at hidle
    obtain ⟨hidle, hde⟩ := hidle
    have hnoD : ∀ t ∈ s.threads, ¬(.launchDestroy ∈ t.code ∨ t.loc.role = .destroy) := by
      intro t ht hd
      rw [h.destroyer t ht hd] at hde
      cases hde
    refine
      { tearing := fun hx => ?_, toStop := fun _ => ?_, free := fun _ u hu => ?_,
        sealed := fun _ u hu hou => ?_, startless := fun _ u hu hou => ?_,
        ender := fun u hu he => rfl, selfStopped := fun _ => rfl, destroyed := h.destroyed,
        scope := h.scope, owed := fun hx => (by cases hx),
        blocking := fun u hu hr hin h1 h2 => ?_, opened := fun u hu hh => rfl,
        destroyer := fun u hu hd => ?_, exists_destroyer := fun hd => ?_,
        destroying := fun _ u hu => ?_, ended := fun _ hx => ?_ }
    · rcases h.tearing hx with ⟨u, hu, hf⟩ | he | ⟨u, hu, hst⟩
      · exact .inl ⟨u, List.mem_append_left _ hu, hf⟩
      · exact .inr (.inl he)
      · exact .inr (.inr ⟨u, List.mem_append_left _ hu, hst⟩)
    · by_cases htd : s.sh.tearingDown = true
      · -- a stop before this one is still to end the service
        rcases h.tearing htd with ⟨u, hu, hf⟩ | he | ⟨u, hu, hst⟩
        · have hb := (hc u hu).1
          rw [of_codes (P := fun r c => failing r c = true → busy r c = true) (by decide)
            (hP.codes u hu) hf] at hb
          cases hb
        · exact .inl (.inl he)
        · exact .inl (.inr ⟨u, List.mem_append_left _ hu, hst⟩)
      · have hg : .unlessTearing false ∈ stopCommand := by decide
        exact .inr ⟨eq_false_of_ne_true htd, _, List.mem_append_right _ List.mem_cons_self, hg⟩
    · rcases List.mem_append.1 hu with hu | hu
      · exact (hc u hu).1
      · rw [List.mem_singleton.1 hu]
        rfl
    · rcases List.mem_append.1 hu with hu | hu
      · have hloose : s.sh.isCancelled u.loc.tid = true ∨ s.sh.startJob = some u.loc.tid := by
          by_contra hno
          rw [not_or] at hno
          exact (hc u hu).2 ⟨hou, by simpa using hno.1, hno.2⟩
        exact hloose
      · rw [List.mem_singleton.1 hu] at hou
        exact absurd hou (show .openTun ∉ stopCommand by decide)
    · rcases List.mem_append.1 hu with hu | hu
      · have hb := (hc u hu).1
        rcases of_codes (P := fun r c => .launchStart ∈ c ∨ .assign ∈ c → r = .main ∨
          .enterSwitch ∈ c ∨ busy r c = true) (by decide) (hP.codes u hu) hou with hr | he | hb'
        · rw [(hidle u hu).resolve_left (fun hn => hn hr)] at hou
          exact absurd hou (by decide)
        · exact he
        · rw [hb'] at hb
          cases hb
      · rw [List.mem_singleton.1 hu] at hou
        exact absurd hou (show ¬(.launchStart ∈ stopCommand ∨ .assign ∈ stopCommand) by decide)
    · rcases List.mem_append.1 hu with hu | hu
      · exact h.blocking u hu hr hin h1 h2
      · rw [List.mem_singleton.1 hu] at hr
        cases hr
    · rcases List.mem_append.1 hu with hu | hu
      · exact h.destroyer u hu hd
      · rw [List.mem_singleton.1 hu] at hd
        exact hd.elim (fun hd => absurd hd (show .launchDestroy ∉ stopCommand by decide))
          fun hd => (by cases hd)
    · have hd : s.sh.destroyed = true := hd
      rw [hde] at hd
      cases hd
    · rcases List.mem_append.1 hu with hu | hu
      · have hno := hnoD u hu
        exact ⟨fun ha => absurd (.inl ha) hno, fun hr => absurd (.inr hr) hno,
          fun hr => absurd (.inr hr) hno, fun hr => absurd (.inr hr) hno,
          fun hr => absurd (.inr hr) hno⟩
      · rw [List.mem_singleton.1 hu]
        exact ⟨fun ha => absurd ha (show .launchDestroy ∉ stopCommand by decide), fun hr => (by cases hr), fun hr => (by cases hr),
          fun hr => (by cases hr), fun hr => (by cases hr)⟩
    · have hx := h.scope hx
      rw [hde] at hx
      cases hx
  · cases hs

/-- `onDestroy` comes. -/
theorem destroy_inv (h : Inv s) (hs : step o s .destroy = some s') : Inv s' := by
  simp only [step, Sys.command] at hs
  split at hs
  · rename_i hself
    split at hs
    · rename_i hidle
      cases hs
      simp only [Bool.and_eq_true, Bool.not_eq_true'] at hidle
      have hde := hidle.2
      have hask : .launchDestroy ∈ onDestroy := by decide
      have hnoD : ∀ t ∈ s.threads, ¬(.launchDestroy ∈ t.code ∨ t.loc.role = .destroy) := by
        intro t ht hd
        rw [h.destroyer t ht hd] at hde
        cases hde
      refine
        { tearing := fun hx => .inr (.inl hself), toStop := fun _ => .inl (.inl hself),
          free := fun hst u hu => ?_, sealed := fun hc u hu hou => ?_,
          startless := fun hc u hu hou => ?_, ender := fun u hu he => ?_,
          selfStopped := h.selfStopped, destroyed := fun _ => hself, scope := fun _ => rfl,
          owed := h.owed, blocking := fun u hu hr hin h1 h2 => ?_, opened := fun u hu hh => ?_,
          destroyer := fun u hu hd => rfl,
          exists_destroyer := fun _ => ⟨_, List.mem_append_right _ List.mem_cons_self, .inl hask⟩,
          destroying := fun _ u hu => ?_, ended := fun _ hx => ?_ }
      · rcases List.mem_append.1 hu with hu | hu
        · exact h.free hst u hu
        · rw [List.mem_singleton.1 hu]
          rfl
      · rcases List.mem_append.1 hu with hu | hu
        · exact h.sealed hc u hu hou
        · rw [List.mem_singleton.1 hu] at hou
          exact absurd hou (show .openTun ∉ onDestroy by decide)
      · rcases List.mem_append.1 hu with hu | hu
        · exact h.startless hc u hu hou
        · rw [List.mem_singleton.1 hu] at hou
          exact absurd hou (show ¬(.launchStart ∈ onDestroy ∨ .assign ∈ onDestroy) by decide)
      · rcases List.mem_append.1 hu with hu | hu
        · exact h.ender u hu he
        · rw [List.mem_singleton.1 hu] at he
          rcases he with he | ⟨he, -⟩ | he
          · exact absurd he (show .launchTeardown false ∉ onDestroy by decide)
          · cases he
          · exact absurd he (show .closeBlock ∉ onDestroy by decide)
      · rcases List.mem_append.1 hu with hu | hu
        · exact h.blocking u hu hr hin h1 h2
        · rw [List.mem_singleton.1 hu] at hr
          cases hr
      · rcases List.mem_append.1 hu with hu | hu
        · exact h.opened u hu hh
        · rw [List.mem_singleton.1 hu] at hh
          cases hh
      · rcases List.mem_append.1 hu with hu | hu
        · have hno := hnoD u hu
          exact ⟨fun ha => absurd (.inl ha) hno, fun hr => absurd (.inr hr) hno,
            fun hr => absurd (.inr hr) hno, fun hr => absurd (.inr hr) hno,
            fun hr => absurd (.inr hr) hno⟩
        · rw [List.mem_singleton.1 hu]
          exact ⟨fun _ hb => absurd (show .cancelStart ∈ onDestroy by decide) hb, fun hr => (by cases hr),
            fun hr => (by cases hr), fun hr => (by cases hr), fun hr => (by cases hr)⟩
      · have hx := h.scope hx
        rw [hde] at hx
        cases hx
    · cases hs
  · cases hs

theorem command_some {fault : Fault} {code : List Stmt} {note : Shared → Shared}
    (hs : s.command fault code note = some s') :
    s' = ({ s with sh := note s.sh } : Sys).begin .main fault code := by
  unfold Sys.command at hs
  split at hs
  · cases hs
    rfl
  · cases hs

theorem step_inv (hk : o.killSwitch = true) (hp : o.proxyOnly = false) (s : Sys) (a : Act) (s' : Sys)
    (h : Placed s ∧ Inv s) (hc : orderly s a) (hs : step o s a = some s') : Placed s' ∧ Inv s' := by
  obtain ⟨hP, hI⟩ := h
  cases a with
  | startCommand json fault =>
    simp only [step] at hs
    obtain rfl := command_some hs
    have hcode : onStartCommand json ∈ codes .main ∧ ¬InLock (onStartCommand json) ∧
        entering .main (onStartCommand json) = true := by
      cases json <;> exact ⟨by decide, by decide, by decide⟩
    exact ⟨hP.begin_placed { s.sh with restarted := true } hP.launched rfl rfl fault hcode.1 hcode.2.1,
      begin_inv hI (.inr rfl) fault hcode.2.2 fun hr => (by cases hr)⟩
  | stopCommand =>
    refine ⟨?_, stop_inv hP hI hc hs⟩
    simp only [step] at hs
    obtain rfl := command_some hs
    have hcode : stopCommand ∈ codes .main ∧ ¬InLock stopCommand := by decide
    exact hP.begin_placed { s.sh with stopped := true, restarted := false, owed := false } hP.launched rfl rfl .none hcode.1 hcode.2
  | destroy =>
    refine ⟨?_, destroy_inv hI hs⟩
    simp only [step] at hs
    split at hs
    · obtain rfl := command_some hs
      have hcode : onDestroy ∈ codes .main ∧ ¬InLock onDestroy := by decide
      exact hP.begin_placed { s.sh with destroyed := true } hP.launched rfl rfl .none hcode.1 hcode.2
    · cases hs
  | switch fault =>
    cases hs
    exact ⟨hP.begin_placed s.sh hP.launched rfl rfl fault (by decide) (by decide),
      begin_inv hI (.inl rfl) fault (by decide) fun _ _ => by decide⟩
  | fail =>
    cases hs
    exact ⟨hP.begin_placed s.sh hP.launched rfl rfl .none (by decide) (by decide),
      begin_inv hI (.inl rfl) .none (by decide) fun _ hl => absurd hl (by decide)⟩
  | run n =>
    refine ⟨hP.run_placed hk hp hs, ?_⟩
    obtain ⟨l, i, rest, ht, hlock, rfl⟩ := runThread_some hs
    refine ran_inv hk hp hP hI ht (fun hst htd => ?_) hlock
    obtain ⟨h1, h2⟩ := hc hst htd _ ht
    exact ⟨fun hi => h1 (by rw [hi]; rfl), fun hi => h2 (by rw [hi]; rfl)⟩
  | interrupt n => exact ⟨hP.interrupt_placed hs, interrupt_inv hP hI hs⟩

end Steps

theorem fresh_inv : Placed .fresh ∧ Inv .fresh := by
  have hno : ∀ t ∈ Sys.fresh.threads, False := fun t ht => by cases ht
  exact ⟨⟨rfl, rfl, fun n t ht => (by cases ht), fun t ht => (hno t ht).elim,
      fun t ht => (hno t ht).elim⟩,
    { tearing := fun hx => (by cases hx)
      toStop := fun hx => (by cases hx)
      free := fun hx => (by cases hx)
      sealed := fun hx => (by cases hx.1)
      startless := fun hx => (by cases hx.1)
      ender := fun t ht => (hno t ht).elim
      selfStopped := fun hx => (by cases hx)
      destroyed := fun hx => (by cases hx)
      scope := fun hx => (by cases hx)
      owed := fun hx => (by cases hx)
      blocking := fun t ht => (hno t ht).elim
      opened := fun t ht => (hno t ht).elim
      destroyer := fun t ht => (hno t ht).elim
      exists_destroyer := fun hx => (by cases hx)
      destroying := fun hx => (by cases hx.1)
      ended := fun hx => (by cases hx.1) }⟩

/-- What has ended after a stop, has closed both. -/
theorem Inv.kept {s : Sys} (h : Inv s) : Kept s := by
  refine ⟨fun ho => (h.owed ho).1, fun hst hre ⟨hall, hdes⟩ => ?_⟩
  have hself : s.sh.selfStopped = true := by
    rcases h.toStop hst with (hs | ⟨t, ht, hx⟩) | ⟨-, t, ht, hx⟩
    · exact hs
    · rw [hall t ht] at hx
      simp [stopping] at hx
    · rw [hall t ht] at hx
      cases hx
  obtain ⟨t, ht, hd⟩ := h.exists_destroyer (hdes hself)
  have hcode := hall t ht
  have hd := h.destroying ⟨hst, hre⟩ t ht
  rename_i hx
  have hr : t.loc.role = .destroy := by
    rcases hx with hx | hx
    · rw [hcode] at hx
      cases hx
    · exact hx
  have hno : ∀ i, i ∉ t.code := fun i hi => by
    rw [hcode] at hi
    cases hi
  exact ⟨hd.tun hr (hno _) (hno _), hd.block hr (hno _) (hno _)⟩

/-- **The kill switch blocks until the user stops, and a stop leaves nothing open.** -/
theorem kill_switch_kept {o : Options} (hk : o.killSwitch = true) (hp : o.proxyOnly = false)
    {as : List Act} {s : Sys} (hc : Meets (step o) orderly .fresh as)
    (hr : run (step o) .fresh as = some s) : Kept s :=
  (run_inv (I := fun s => Placed s ∧ Inv s) (step_inv hk hp) fresh_inv hc hr).2.kept

def on : Options := ⟨true, false⟩

/-- The thread `n` runs `k` statements. -/
def runs (n k : Nat) : List Act := List.replicate k (.run n)

/-- A session that fails is torn down. -/
def failsAlone : List Act :=
  [.startCommand true .none] ++ runs 0 5 ++ runs 1 9 ++ [.fail] ++ runs 2 5 ++ runs 3 7

/-- The user stops it afterwards. -/
def stopsAfter : List Act :=
  failsAlone ++ [.stopCommand] ++ runs 4 6 ++ runs 5 5 ++ [.destroy] ++ runs 6 4 ++ runs 7 5

theorem stopsAfter_kept : ∃ s, run (step on) .fresh stopsAfter = some s ∧ Quiet s ∧ Kept s := by
  have hc : Meets (step on) orderly .fresh stopsAfter := by decide
  exact ⟨_, rfl, by decide, kill_switch_kept rfl rfl hc rfl⟩

/-- The stop comes when the teardown of the failure has been launched. -/
def stopsAmid : List Act :=
  [.startCommand true .none] ++ runs 0 5 ++ runs 1 9 ++ [.fail] ++ runs 2 5 ++ [.stopCommand] ++
    runs 4 2 ++ runs 3 7

/-- Everything has ended, and the device is still blocked. -/
theorem stopsAmid_blocked : ∃ s, run (step on) .fresh stopsAmid = some s ∧ Quiet s ∧
    s.sh.stopped = true ∧ s.sh.restarted = false ∧ s.sh.blockFd = true ∧ ¬Kept s := by
  refine ⟨_, rfl, by decide, rfl, rfl, rfl, fun h => ?_⟩
  have hb := (h.closed rfl rfl (by decide)).2
  cases hb

end Ghajar.KillSwitch
