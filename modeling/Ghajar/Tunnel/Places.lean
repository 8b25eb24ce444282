import Ghajar.Tunnel.Service

/-!
# Where a thread of the service is

`Underway` is a start command or a switch that has passed its guard and has not
launched its coroutine, `InLock` a coroutine that holds `engineLock`, `Live` a
start that can still set `enginesReady`. `wellPlaced` says that every statement
of a program stands where it belongs; it is kept by every statement, also by the
jumps of a start that fails. The `Effects` say which statement changes what.
-/

namespace Ghajar.Tunnel

/-! ## Where a thread is -/

/-- The statements that only begin a program. -/
def Stmt.entry : Stmt → Bool
  | .lock | .enterStart | .enterSwitch => true
  | _ => false

def Underway (code : List Stmt) : Prop :=
  (.enterStart ∉ code ∧ .enterSwitch ∉ code) ∧ (.configName ∈ code ∨ .launchStart ∈ code)

def InLock (code : List Stmt) : Prop := .unlock ∈ code ∧ .lock ∉ code

def Live (s : Shared) (t : Task) : Prop :=
  .enginesReady true ∈ t.code ∧ s.isCancelled t.loc.tid = false

instance (code : List Stmt) : Decidable (Underway code) := by unfold Underway; infer_instance
instance (code : List Stmt) : Decidable (InLock code) := by unfold InLock; infer_instance
instance (s : Shared) (t : Task) : Decidable (Live s t) := by unfold Live; infer_instance

/-- The engines with a spec. -/
def recorded : List Engine := [.aether, .psiphon, .singbox, .tor]

/-- What stands behind a statement in the programs. -/
def Stmt.fits (r : Role) (rest : List Stmt) : Stmt → Bool
  | .enterStart | .enterSwitch =>
    recorded.all (fun e => rest.contains (.record e)) && rest.contains .configName
  | .record _ => rest.contains .configName
  | .launchStart => rest == [.assign]
  | .lock => rest.contains .openTun || !rest.contains (.enginesReady true)
  | .openTun =>
    leave rest == [.unlock, .finish] && rest.contains (.enginesReady true) &&
      [Engine.aether, .psiphon, .singbox, .tor, .zeptun, .xray].all
        (fun e => rest.contains (.start e))
  | .start _ =>
    leave rest == [.unlock, .finish] && rest.contains (.enginesReady true) &&
      !rest.contains .openTun
  | .stop e =>
    rest.contains .configName ||
      (rest.contains .unlock &&
        (!rest.contains (.enginesReady true) || rest.contains (.start e)))
  | .closeTun =>
    rest.contains .configName ||
      (rest.contains .unlock && !rest.contains (.enginesReady true))
  | .stopZeptun =>
    rest.contains .configName ||
      (rest.contains .unlock && !rest.contains (.enginesReady true)) || r == .main
  | .enginesReady true => rest == [.unlock, .finish]
  | .ensureActive => !rest.contains .configName && !rest.contains .launchStart
  | .unlessTearing | .unlessKillSwitch =>
    !rest.contains .configName && !rest.contains .launchStart &&
      !rest.contains (.enginesReady true)
  | .unlock =>
    !rest.contains .unlock && !rest.contains (.enginesReady true) && !rest.contains .configName &&
      !rest.contains .launchStart
  | _ => true

/-- Every statement of a program is where it belongs. -/
def wellPlaced (r : Role) : List Stmt → Bool
  | [] => true
  | i :: rest => i.fits r rest && rest.all (fun j => !j.entry) && wellPlaced r rest

section

-- the equations of the statements, once for all the proofs below
attribute [local simp] Stmt.next Stmt.effect Stmt.save Stmt.fits

end

theorem wellPlaced_cons {r : Role} {i : Stmt} {rest : List Stmt} :
    wellPlaced r (i :: rest) = true ↔
      i.fits r rest = true ∧ (∀ j ∈ rest, j.entry = false) ∧ wellPlaced r rest = true := by
  simp [wellPlaced, and_assoc]

theorem wellPlaced_suffix {r : Role} {code rest : List Stmt} (h : rest <:+ code)
    (hw : wellPlaced r code = true) : wellPlaced r rest = true := by
  induction code with
  | nil =>
    rw [List.suffix_nil.1 h]
    exact hw
  | cons i code ih =>
    rcases List.suffix_cons_iff.1 h with rfl | h
    · exact hw
    · exact ih h (wellPlaced_cons.1 hw).2.2

/-- What is behind an element of a program. -/
theorem wellPlaced_split {r : Role} {j : Stmt} {code : List Stmt} (h : j ∈ code)
    (hw : wellPlaced r code = true) :
    ∃ before after, code = before ++ j :: after ∧ j.fits r after = true := by
  obtain ⟨before, after, rfl⟩ := List.append_of_mem h
  have hs := wellPlaced_suffix (List.suffix_append before (j :: after)) hw
  exact ⟨before, after, rfl, (wellPlaced_cons.1 hs).1⟩

theorem leave_suffix (rest : List Stmt) : leave rest <:+ rest := List.dropWhile_suffix _

/-- The end of a start that fails. -/
def failing (e : Engine) : List Stmt := e.cleanup ++ (die ++ [.unlock, .finish])

theorem failing_wellPlaced (r : Role) (e : Engine) : wellPlaced r (failing e) = true := by
  cases e <;> cases r <;> decide

theorem failing_underway (e : Engine) : ¬Underway (failing e) := by cases e <;> decide

theorem failing_ready (e : Engine) : .enginesReady true ∉ failing e := by cases e <;> decide

/-- A statement goes on, jumps ahead, or fails with the tun or an engine. -/
theorem next_cases {r : Role} {i : Stmt} {rest : List Stmt} (s : Shared) (l : Local)
    (hf : i.fits r rest = true) :
    i.next s l rest <:+ rest ∨
      ((i = .openTun ∨ ∃ e, i = .start e) ∧ ∃ e, i.next s l rest = failing e) := by
  cases i with
  | openTun =>
    simp only [Stmt.fits, Bool.and_eq_true, beq_iff_eq] at hf
    simp only [Stmt.next]
    split
    · exact .inr ⟨.inl trivial, .zeptun, by rw [hf.1.1]; rfl⟩
    · exact .inl (List.suffix_refl _)
  | start e =>
    simp only [Stmt.fits, Bool.and_eq_true, beq_iff_eq] at hf
    simp only [Stmt.next]
    split
    · exact .inl (List.suffix_refl _)
    · split
      · exact .inr ⟨.inr ⟨e, rfl⟩, .zeptun, by rw [hf.1.1]; rfl⟩
      · split
        · exact .inr ⟨.inr ⟨e, rfl⟩, e, by rw [hf.1.1]; rfl⟩
        · exact .inl (List.suffix_refl _)
  | _ =>
    refine .inl ?_
    simp only [Stmt.next]
    first
    | exact List.suffix_refl _
    | split <;> first | exact List.nil_suffix | exact leave_suffix _ | exact List.suffix_refl _

section Codes

variable {r : Role} {i : Stmt} {rest : List Stmt} {s : Shared} {l : Local}

theorem next_wellPlaced (hw : wellPlaced r (i :: rest) = true) :
    wellPlaced r (i.next s l rest) = true := by
  obtain ⟨hf, -, hr⟩ := wellPlaced_cons.1 hw
  rcases next_cases s l hf with h | ⟨-, e, h⟩
  · exact wellPlaced_suffix h hr
  · rw [h]
    exact failing_wellPlaced r e

/-- A start that can still report does not jump. -/
theorem next_ready (hw : wellPlaced r (i :: rest) = true) (hl : s.isCancelled l.tid = false)
    (h : .enginesReady true ∈ i.next s l rest) : i.next s l rest = rest := by
  have hf := (wellPlaced_cons.1 hw).1
  have hno : ∀ e, .enginesReady true ∉ failing e := failing_ready
  have hnil : (.enginesReady true : Stmt) ∉ [] := List.not_mem_nil
  cases i with
  | enterStart | enterSwitch | unlessTun =>
    simp only [Stmt.next] at h ⊢
    split at h
    · exact absurd h hnil
    · rename_i hcond
      exact if_neg hcond
  | unlessTearing | unlessKillSwitch =>
    simp only [Stmt.fits, Bool.and_eq_true, Bool.not_eq_true', List.contains_eq_mem,
      decide_eq_false_iff_not] at hf
    rcases next_cases s l (wellPlaced_cons.1 hw).1 with hs | ⟨-, e, he⟩
    · exact absurd (hs.subset h) hf.2
    · exact absurd (he ▸ h) (hno e)
  | ensureActive => simp [Stmt.next, hl]
  | openTun =>
    simp only [Stmt.fits, Bool.and_eq_true, beq_iff_eq] at hf
    simp only [Stmt.next] at h ⊢
    split at h
    · rw [hf.1.1] at h
      exact absurd h (hno .zeptun)
    · rename_i hcond
      exact if_neg hcond
  | start e =>
    simp only [Stmt.fits, Bool.and_eq_true, beq_iff_eq] at hf
    simp only [Stmt.next] at h ⊢
    split
    · rfl
    · rename_i hnone
      rw [if_neg hnone, hf.1.1] at h
      split at h
      · exact absurd h (hno .zeptun)
      · rename_i hmiss
        split at h
        · exact absurd h (hno e)
        · rename_i hfail
          rw [if_neg hmiss, if_neg hfail]
  | _ => rfl

theorem next_openTun (hw : wellPlaced r (.openTun :: rest) = true)
    (h : .enginesReady true ∈ Stmt.openTun.next s l rest) : noTun s l = false := by
  have hf := (wellPlaced_cons.1 hw).1
  simp only [Stmt.fits, Bool.and_eq_true, beq_iff_eq] at hf
  by_contra hno
  rw [Bool.not_eq_false] at hno
  simp only [Stmt.next, hno, if_true, hf.1.1] at h
  exact failing_ready .zeptun h

/-- A start that can still report has brought the engine up, if it was to. -/
theorem next_start {e : Engine} (hw : wellPlaced r (.start e :: rest) = true)
    (h : .enginesReady true ∈ (Stmt.start e).next s l rest) :
    ((Stmt.start e).effect s l).up =
      (attempt s l e).elim s.up fun c => Function.update s.up e (some c) := by
  have hf := (wellPlaced_cons.1 hw).1
  simp only [Stmt.fits, Bool.and_eq_true, beq_iff_eq] at hf
  simp only [Stmt.next, hf.1.1] at h
  simp only [Stmt.effect]
  cases hat : attempt s l e with
  | none => rfl
  | some c =>
    rw [hat] at h
    simp only [Option.isNone_some, Bool.false_eq_true, if_false] at h
    split at h
    · exact absurd h (failing_ready .zeptun)
    · rename_i hmiss
      split at h
      · exact absurd h (failing_ready e)
      · rename_i hfail
        simp only [hmiss, hfail, if_false, Option.elim_some]

/-- A thread gets under way by passing its guard, and then does not jump. -/
theorem next_underway (hw : wellPlaced r (i :: rest) = true)
    (h : Underway (i.next s l rest)) :
    i.next s l rest = rest ∧ (Underway (i :: rest) ∨ (i = .enterStart ∧ s.started = false) ∨
      i = .enterSwitch ∧ s.tearingDown = false) := by
  obtain ⟨hf, hent, -⟩ := wellPlaced_cons.1 hw
  have hnil : ¬Underway [] := by decide
  have hahead : i.next s l rest <:+ rest → .configName ∈ rest ∨ .launchStart ∈ rest :=
    fun hs => h.2.imp (fun hm => hs.subset hm) fun hm => hs.subset hm
  have hnext : i.next s l rest = rest := by
    rcases next_cases s l hf with hs | ⟨-, e, he⟩
    · have ha := hahead hs
      cases i with
      | enterStart | enterSwitch | unlessTun =>
        simp only [Stmt.next] at h ⊢
        split at h
        · exact absurd h hnil
        · rename_i hcond
          exact if_neg hcond
      | unlessTearing | ensureActive | unlessKillSwitch =>
        simp only [Stmt.fits, Bool.and_eq_true, Bool.not_eq_true', List.contains_eq_mem,
          decide_eq_false_iff_not] at hf
        exact absurd ha (by simp [hf])
      | openTun =>
        simp only [Stmt.fits, Bool.and_eq_true, beq_iff_eq] at hf
        simp only [Stmt.next] at h ⊢
        split at h
        · rw [hf.1.1] at h
          exact absurd h (by decide)
        · rename_i hcond
          exact if_neg hcond
      | start e =>
        simp only [Stmt.fits, Bool.and_eq_true, beq_iff_eq] at hf
        simp only [Stmt.next] at h ⊢
        split
        · rfl
        · rename_i hnone
          rw [if_neg hnone, hf.1.1] at h
          split at h
          · exact absurd h (by decide)
          · rename_i hmiss
            split at h
            · exact absurd h (failing_underway e)
            · rename_i hfail
              rw [if_neg hmiss, if_neg hfail]
      | _ => rfl
    · rw [he] at h
      exact absurd h (failing_underway e)
  refine ⟨hnext, ?_⟩
  rw [hnext] at h
  by_cases h1 : i = .enterStart
  · subst h1
    refine .inr (.inl ⟨rfl, ?_⟩)
    by_contra hst
    rw [Bool.not_eq_false] at hst
    simp only [Stmt.next, hst, if_true] at hnext
    exact hnil (hnext ▸ h)
  · by_cases h2 : i = .enterSwitch
    · subst h2
      refine .inr (.inr ⟨rfl, ?_⟩)
      by_contra hst
      rw [Bool.not_eq_false] at hst
      simp only [Stmt.next, hst, if_true] at hnext
      exact hnil (hnext ▸ h)
    · refine .inl ⟨⟨fun hm => ?_, fun hm => ?_⟩, h.2.imp (.tail _) (.tail _)⟩
      · rcases List.mem_cons.1 hm with hm | hm
        · exact h1 hm.symm
        · cases hent _ hm
      · rcases List.mem_cons.1 hm with hm | hm
        · exact h2 hm.symm
        · cases hent _ hm

/-- A thread gets into the lock by taking it. -/
theorem next_inLock (hw : wellPlaced r (i :: rest) = true) (h : InLock (i.next s l rest)) :
    i = .lock ∨ (InLock (i :: rest) ∧ i ≠ .unlock) := by
  obtain ⟨hf, hent, -⟩ := wellPlaced_cons.1 hw
  by_cases hl : i = .lock
  · exact .inl hl
  have hno : .lock ∉ i :: rest := by
    intro hm
    rcases List.mem_cons.1 hm with hm | hm
    · exact hl hm.symm
    · cases hent _ hm
  refine .inr ?_
  rcases next_cases s l hf with hs | ⟨hi, e, he⟩
  · have hmem : .unlock ∈ rest := hs.subset h.1
    refine ⟨⟨.tail _ hmem, hno⟩, fun hi => ?_⟩
    subst hi
    simp [Stmt.fits, hmem] at hf
  · have hleave : leave rest = [.unlock, .finish] := by
      rcases hi with rfl | ⟨e, rfl⟩ <;>
        simp only [Stmt.fits, Bool.and_eq_true, beq_iff_eq] at hf <;> exact hf.1.1
    refine ⟨⟨.tail _ ((leave_suffix rest).subset (by simp [hleave])), hno⟩, fun hu => ?_⟩
    subst hu
    rcases hi with hi | ⟨e, hi⟩ <;> cases hi

end Codes

/-! ## What a statement changes -/

/-- The statements that change what runs. -/
def Stmt.touches : Stmt → Bool
  | .openTun | .closeTun | .start _ | .stop _ | .stopZeptun => true
  | _ => false

/-- The statements that change what is recorded. -/
def Stmt.records : Stmt → Bool
  | .record _ | .configName => true
  | _ => false

section Effects

variable {i : Stmt} {s : Shared} {l : Local}

/-- A statement that touches what runs changes nothing else. -/
theorem effect_frame (h : i.touches = true) : ∃ proxyOnly owns tun up,
    i.effect s l = { s with
      oblivionProxyOnly := proxyOnly, zeptunOwnsTun := owns, tunFd := tun, up := up } := by
  cases i with
  | openTun =>
    simp only [Stmt.effect]
    split <;> exact ⟨_, _, _, _, rfl⟩
  | start e =>
    simp only [Stmt.effect]
    (repeat' split) <;> exact ⟨_, _, _, _, rfl⟩
  | stopZeptun =>
    simp only [Stmt.effect]
    split <;> exact ⟨_, _, _, _, rfl⟩
  | closeTun | stop => exact ⟨_, _, _, _, rfl⟩
  | _ => cases h

theorem effect_ready (h : (i.effect s l).enginesReady = true) :
    s.enginesReady = true ∨ i = .enginesReady true := by
  by_cases ht : i.touches = true
  · obtain ⟨_, _, _, _, he⟩ := effect_frame (s := s) (l := l) ht
    rw [he] at h
    exact .inl h
  · cases i with
    | enginesReady b =>
      have hb : b = true := h
      exact .inr (by rw [hb])
    | openTun | closeTun | start | stop | stopZeptun => exact absurd rfl ht
    | _ => exact .inl h

theorem effect_lock (h1 : i ≠ .lock) (h2 : i ≠ .unlock) :
    (i.effect s l).engineLock = s.engineLock := by
  by_cases ht : i.touches = true
  · obtain ⟨_, _, _, _, he⟩ := effect_frame (s := s) (l := l) ht
    rw [he]
  · cases i with
    | lock => exact absurd rfl h1
    | unlock => exact absurd rfl h2
    | openTun | closeTun | start | stop | stopZeptun => exact absurd rfl ht
    | _ => rfl

theorem effect_recorded (h : i.records = false) :
    (i.effect s l).specs = s.specs ∧ (i.effect s l).current = s.current := by
  by_cases ht : i.touches = true
  · obtain ⟨_, _, _, _, he⟩ := effect_frame (s := s) (l := l) ht
    rw [he]
    exact ⟨rfl, rfl⟩
  · cases i with
    | record | configName => cases h
    | openTun | closeTun | start | stop | stopZeptun => exact absurd rfl ht
    | _ => exact ⟨rfl, rfl⟩

theorem effect_touched (h : i.touches = false) :
    (i.effect s l).up = s.up ∧ (i.effect s l).zeptunOwnsTun = s.zeptunOwnsTun := by
  cases i with
  | openTun | closeTun | start | stop | stopZeptun => cases h
  | _ => exact ⟨rfl, rfl⟩

/-- A cancelled job stays cancelled. -/
theorem effect_cancelled {tid : Nat} (h : (i.effect s l).isCancelled tid = false) :
    s.isCancelled tid = false := by
  by_cases ht : i.touches = true
  · obtain ⟨_, _, _, _, he⟩ := effect_frame (s := s) (l := l) ht
    rw [he] at h
    exact h
  · cases i with
    | cancelStart =>
      simp only [Shared.isCancelled, Stmt.effect, Bool.or_eq_false_iff] at h ⊢
      refine ⟨h.1, ?_⟩
      simpa using (by simpa using h.2 : _ ∧ _).2
    | cancelScope => simp [Shared.isCancelled, Stmt.effect] at h
    | openTun | closeTun | start | stop | stopZeptun => exact absurd rfl ht
    | _ => exact h

theorem save_fixed : (i.save s l).role = l.role ∧ (i.save s l).tid = l.tid ∧
    (i.save s l).cfg = l.cfg ∧ (i.save s l).fault = l.fault := by
  cases i <;> exact ⟨rfl, rfl, rfl, rfl⟩

/-- A launched coroutine waits for the lock; it can report if a start launched it. -/
theorem effect_launched {u : Task} (hs : s.launched = []) (h : u ∈ (i.effect s l).launched) :
    (i.effect s l).launched = [u] ∧ (i.effect s l).count = s.count + 1 ∧ u.loc.tid = s.count ∧
      u.loc.cfg = l.cfg ∧
      ((i = .launchStart ∧ u.loc.role = .start ∧ u.code = startBody) ∨
        (u.loc.role = .teardown ∧ u.code = teardownBody) ∨
        (u.loc.role = .destroy ∧ u.code = destroyBody)) := by
  by_cases ht : i.touches = true
  · obtain ⟨_, _, _, _, he⟩ := effect_frame (s := s) (l := l) ht
    rw [he] at h
    exact absurd (hs ▸ h) List.not_mem_nil
  · cases i with
    | launchStart =>
      rw [show u = _ from List.mem_singleton.1 h]
      exact ⟨rfl, rfl, rfl, rfl, .inl ⟨rfl, rfl, rfl⟩⟩
    | launchTeardown =>
      rw [show u = _ from List.mem_singleton.1 h]
      exact ⟨rfl, rfl, rfl, rfl, .inr (.inl ⟨rfl, rfl⟩)⟩
    | launchDestroy =>
      rw [show u = _ from List.mem_singleton.1 h]
      exact ⟨rfl, rfl, rfl, rfl, .inr (.inr ⟨rfl, rfl⟩)⟩
    | openTun | closeTun | start | stop | stopZeptun => exact absurd rfl ht
    | _ => exact absurd (hs ▸ h) List.not_mem_nil

theorem effect_count (h : (i.effect s l).launched = []) : (i.effect s l).count = s.count := by
  by_cases ht : i.touches = true
  · obtain ⟨_, _, _, _, he⟩ := effect_frame (s := s) (l := l) ht
    rw [he]
  · cases i with
    | launchStart | launchTeardown | launchDestroy => cases h
    | openTun | closeTun | start | stop | stopZeptun => exact absurd rfl ht
    | _ => rfl

end Effects

section Places

variable {r : Role} {i : Stmt} {rest : List Stmt}

theorem not_entry (hw : wellPlaced r (i :: rest) = true) (hi : i.entry = false) {j : Stmt}
    (hj : j.entry = true) : j ∉ i :: rest := by
  intro hm
  rcases List.mem_cons.1 hm with rfl | hm
  · rw [hi] at hj
    cases hj
  · rw [(wellPlaced_cons.1 hw).2.1 j hm] at hj
    cases hj

theorem records_underway (hw : wellPlaced r (i :: rest) = true) (hi : i.records = true) :
    Underway (i :: rest) := by
  have hent : i.entry = false := by cases i <;> first | rfl | cases hi
  refine ⟨⟨not_entry hw hent rfl, not_entry hw hent rfl⟩, .inl ?_⟩
  cases i with
  | configName => exact List.mem_cons_self
  | record e =>
    have hm : .configName ∈ rest := by simpa [Stmt.fits] using (wellPlaced_cons.1 hw).1
    exact .tail _ hm
  | _ => cases hi

theorem launchStart_underway (hw : wellPlaced r (.launchStart :: rest) = true) :
    Underway (.launchStart :: rest) :=
  ⟨⟨not_entry hw rfl rfl, not_entry hw rfl rfl⟩, .inr List.mem_cons_self⟩

/-- What runs is changed under way to a start, in the lock, or by `onDestroy`. -/
theorem touches_place (hw : wellPlaced r (i :: rest) = true) (hi : i.touches = true) :
    Underway (i :: rest) ∨ (InLock (i :: rest) ∧ i :: rest ≠ [.unlock, .finish]) ∨
      (i = .stopZeptun ∧ r = .main) := by
  have hent : i.entry = false := by cases i <;> first | rfl | cases hi
  have hf := (wellPlaced_cons.1 hw).1
  have hne : i :: rest ≠ [.unlock, .finish] := fun he => by
    rw [(List.cons.inj he).1] at hi
    cases hi
  have hunder : .configName ∈ rest → Underway (i :: rest) := fun hm =>
    ⟨⟨not_entry hw hent rfl, not_entry hw hent rfl⟩, .inl (.tail _ hm)⟩
  have hlock : .unlock ∈ rest → InLock (i :: rest) := fun hm =>
    ⟨.tail _ hm, not_entry hw hent rfl⟩
  have hleave : leave rest = [.unlock, .finish] → InLock (i :: rest) := fun he =>
    hlock ((leave_suffix rest).subset (by simp [he]))
  cases i with
  | openTun | start =>
    simp only [Stmt.fits, Bool.and_eq_true, beq_iff_eq] at hf
    exact .inr (.inl ⟨hleave hf.1.1, hne⟩)
  | closeTun | stop =>
    simp only [Stmt.fits, Bool.or_eq_true, Bool.and_eq_true, List.contains_iff_mem] at hf
    rcases hf with hf | hf
    · exact .inl (hunder hf)
    · exact .inr (.inl ⟨hlock hf.1, hne⟩)
  | stopZeptun =>
    simp only [Stmt.fits, Bool.or_eq_true, Bool.and_eq_true, List.contains_iff_mem,
      beq_iff_eq] at hf
    rcases hf with (hf | hf) | hf
    · exact .inl (hunder hf)
    · exact .inr (.inl ⟨hlock hf.1, hne⟩)
    · exact .inr (.inr ⟨rfl, hf⟩)
  | _ => cases hi

theorem ready_place (hw : wellPlaced r (.enginesReady true :: rest) = true) :
    rest = [.unlock, .finish] ∧ InLock (.enginesReady true :: rest) := by
  have hr : rest = [.unlock, .finish] := by
    simpa [Stmt.fits] using (wellPlaced_cons.1 hw).1
  subst hr
  exact ⟨rfl, by decide⟩

/-- Past `establish`, a start that can still report is in the lock. -/
theorem live_inLock {code : List Stmt} (hw : wellPlaced r code = true)
    (hr : .enginesReady true ∈ code) (ho : .openTun ∉ code) : InLock code := by
  obtain ⟨before, after, rfl, hf⟩ := wellPlaced_split hr hw
  have ha : after = [.unlock, .finish] := by simpa [Stmt.fits] using hf
  subst ha
  refine ⟨by simp, fun hl => ?_⟩
  obtain ⟨b, a, he, hf⟩ := wellPlaced_split hl hw
  rw [he] at hw hr ho
  cases b with
  | cons j b =>
    have := (wellPlaced_cons.1 hw).2.1 .lock (by simp)
    cases this
  | nil =>
    simp only [Stmt.fits, Bool.or_eq_true, Bool.not_eq_true', List.contains_eq_mem,
      decide_eq_true_eq, decide_eq_false_iff_not] at hf
    rcases hf with hf | hf
    · exact ho (by simp [hf])
    · simp only [List.nil_append, List.mem_cons, reduceCtorEq, false_or] at hr
      exact hf hr

theorem start_opened {code : List Stmt} (hw : wellPlaced r code = true) {e : Engine}
    (he : .start e ∉ code) : .openTun ∉ code := by
  intro hm
  obtain ⟨before, after, rfl, hf⟩ := wellPlaced_split hm hw
  simp only [Stmt.fits, Bool.and_eq_true, List.all_eq_true, List.contains_iff_mem] at hf
  exact he (by simp [hf.2 e (by cases e <;> simp)])

/-- What a start that can still report changes of what runs. -/
theorem live_touches (hw : wellPlaced r (i :: rest) = true) (hr : .enginesReady true ∈ rest)
    (hn : ¬Underway (i :: rest)) (hi : i.touches = true) :
    i = .openTun ∨ (∃ e, i = .start e) ∨ (∃ e, i = .stop e ∧ .start e ∈ rest) ∨
      (i = .stopZeptun ∧ r = .main) := by
  have hent : i.entry = false := by cases i <;> first | rfl | cases hi
  have hf := (wellPlaced_cons.1 hw).1
  have hname : .configName ∉ rest := fun hm =>
    hn ⟨⟨not_entry hw hent rfl, not_entry hw hent rfl⟩, .inl (.tail _ hm)⟩
  cases i with
  | openTun => exact .inl rfl
  | start e => exact .inr (.inl ⟨e, rfl⟩)
  | stop e =>
    simp only [Stmt.fits, Bool.or_eq_true, Bool.and_eq_true, Bool.not_eq_true',
      List.contains_eq_mem, decide_eq_true_eq, decide_eq_false_iff_not, hname, hr,
      not_true_eq_false, false_or] at hf
    exact .inr (.inr (.inl ⟨e, rfl, hf.2⟩))
  | closeTun => simp [Stmt.fits, hname, hr] at hf
  | stopZeptun => exact .inr (.inr (.inr ⟨rfl, by simpa [Stmt.fits, hname, hr] using hf⟩))
  | _ => cases hi

end Places

end Ghajar.Tunnel
