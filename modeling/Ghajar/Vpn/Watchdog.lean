import Ghajar.Vpn.Main

/-!
# No state is transitional for ever

`Armed k` says the watchdog of kind `k` of the newest generation is waiting, or
is on the main thread and will still publish its outcome. `Covered` is the
invariant behind it: a transitional state has its watchdog armed, or a command
in its block that will arm it or publish over it. `safe` is the condition under
which it holds: nobody else publishes a transitional state without its watchdog
armed, and nobody cancels that watchdog while its state is published.
-/

namespace Ghajar.Vpn

open Run

namespace Sys

/-- The watchdog of the newest generation will end its state. -/
def Armed (s : Sys) (k : Kind) : Prop :=
  (∃ j ∈ s.sh.jobs, j.kind = k ∧ j.gen = s.sh.generation ∧ j.status = .waiting) ∨
    (s.main.loc.role = .watchdog k ∧ s.main.loc.gen = s.sh.generation ∧
      .publish k.outcome ∈ s.main.code)

instance (s : Sys) (k : Kind) : Decidable (s.Armed k) := by
  unfold Armed
  infer_instance

/-- The command in its block that has still to launch its watchdog. -/
def arming (s : Sys) : Option Kind :=
  match s.main.loc.role with
  | .command K => if s.main.code.any (Stmt.creates K) then some K else none
  | _ => none

end Sys

/-- The statement of a command that takes the other transitional state away. -/
def Kind.overwrites : Kind → Stmt → Bool
  | .connect, i => i == .publish .connecting
  | .disconnect, i => i == look || i == .publish .disconnecting

/-- A block of kind `K` with this code left will see to a state of kind `k`. -/
def pending (code : List Stmt) (K k : Kind) : Bool := k == K || code.any K.overwrites

namespace Sys

/-- Somebody will end a state of kind `k`. -/
def Cover (s : Sys) (k : Kind) : Prop :=
  match s.arming with
  | some K => pending s.main.code K k = true
  | none => s.Armed k

instance (s : Sys) (k : Kind) : Decidable (s.Cover k) := by
  unfold Cover
  split <;> infer_instance

/-- The watchdog of the published state, about to be cancelled behind its back. -/
def unguarded (s : Sys) (x : Job) : Bool :=
  s.arming.isNone && x.status == .waiting && x.gen == s.sh.generation &&
    s.sh.state.transitional == some x.kind

end Sys

/-- A thread outside the commands: its next statement leaves no transitional state alone. -/
def safeStmt (s : Sys) (t : Task) : Prop :=
  match t.code with
  | .publish c :: _ => ∀ k ∈ c.transitional, s.Cover k
  | .cancel :: _ => ∀ j ∈ t.loc.job, ∀ x ∈ s.sh.jobs[j]?, s.unguarded x = false
  | _ => True

instance (s : Sys) (t : Task) : Decidable (safeStmt s t) := by
  unfold safeStmt
  split <;> infer_instance

/-- **The condition.** -/
def safe (s : Sys) : Act → Prop
  | .handler n => ∀ t ∈ s.handlers[n]?, safeStmt s t
  | .outside n => ∀ t ∈ s.outside[n]?, safeStmt s t
  | _ => True

instance (s : Sys) (a : Act) : Decidable (safe s a) := by
  unfold safe
  split <;> infer_instance

/-- A transitional state has somebody who will end it. -/
def Covered (s : Sys) : Prop := ∀ k, s.sh.state.transitional = some k → s.Cover k

/-! ## What keeps a watchdog armed -/

theorem Sys.Armed.mono {s s' : Sys} {k : Kind} (h : s.Armed k)
    (hg : s'.sh.generation = s.sh.generation)
    (hj : ∀ j ∈ s.sh.jobs, j.kind = k → j.gen = s.sh.generation → j.status = .waiting →
      j ∈ s'.sh.jobs)
    (hm : s.main.loc.role = .watchdog k → s.main.loc.gen = s.sh.generation →
      .publish k.outcome ∈ s.main.code → s'.Armed k) : s'.Armed k := by
  rcases h with ⟨j, hmem, h1, h2, h3⟩ | ⟨h1, h2, h3⟩
  · exact .inl ⟨j, hj j hmem h1 h2 h3, h1, h2.trans hg.symm, h3⟩
  · exact hm h1 h2 h3

/-- With the main thread and the jobs as they are, so is every cover. -/
theorem Sys.Cover.congr {s : Sys} {sh : Shared} {hs os : List Task} {k : Kind} (h : s.Cover k)
    (hg : sh.generation = s.sh.generation) (hj : sh.jobs = s.sh.jobs) :
    Sys.Cover ⟨sh, s.main, hs, os⟩ k := by
  unfold Sys.Cover at h ⊢
  rw [show (⟨sh, s.main, hs, os⟩ : Sys).arming = s.arming from rfl]
  cases ha : s.arming with
  | some K => rw [ha] at h; exact h
  | none =>
    rw [ha] at h
    refine Sys.Armed.mono h hg (fun j hm _ _ _ => ?_) fun h1 h2 h3 => .inr ⟨h1, h2.trans hg.symm, h3⟩
    rw [hj]
    exact hm

theorem setWatchdog_jobs (s : Shared) (k : Kind) (j : Option Nat) :
    (s.setWatchdog k j).jobs = s.jobs := by cases k <;> rfl

/-- A foreign statement publishes, cancels, or touches neither the state nor the jobs. -/
theorem foreign_cases {i : Stmt} (s : Shared) (l : Local) (hi : i.foreign = true) :
    (∃ c, i = .publish c) ∨ i = .cancel ∨
      ((i.effect s l).state = s.state ∧ (i.effect s l).jobs = s.jobs) := by
  cases i with
  | publish c => exact .inl ⟨c, rfl⟩
  | cancel => exact .inr (.inl rfl)
  | bump => cases hi
  | create => cases hi
  | forget k => exact .inr (.inr ⟨setWatchdog_state _ _ _, setWatchdog_jobs _ _ _⟩)
  | assign k => exact .inr (.inr ⟨setWatchdog_state _ _ _, setWatchdog_jobs _ _ _⟩)
  | _ => exact .inr (.inr ⟨rfl, rfl⟩)

/-- A job that the cancelling does not hit is still there. -/
theorem mem_cancelJob {js : List Job} {j : Nat} {y : Job} (hy : y ∈ js)
    (hw : js[j]? = some y → y.status ≠ .waiting) : y ∈ cancelJob js j := by
  obtain ⟨n, hn⟩ := List.mem_iff_getElem?.1 hy
  refine List.mem_iff_getElem?.2 ⟨n, ?_⟩
  rw [cancelJob, List.getElem?_modify, hn]
  by_cases hj : j = n
  · subst hj
    simp [hw hn]
  · simp [hj]

/-- A foreign thread keeps the cover if its statement is safe. -/
theorem foreign_covered {s : Sys} {t t' : Task} {sh : Shared} {hs os : List Task}
    (hc : Covered s) (hf : ∀ i ∈ t.code, i.foreign = true) (hsafe : safeStmt s t)
    (hst : Thread.step exec s.sh t = some (sh, t')) : Covered ⟨sh, s.main, hs, os⟩ := by
  obtain ⟨i, rest, hcode, he⟩ := Thread.step_some hst
  obtain ⟨rfl, -, -⟩ := exec_some he
  have hi : i.foreign = true := hf i (by simp [hcode])
  have hg := foreign_effect (s := s.sh) (l := t.loc) hi
  intro k hk
  rcases foreign_cases s.sh t.loc hi with ⟨c, rfl⟩ | rfl | ⟨hstate, hjobs⟩
  · simp only [safeStmt, hcode] at hsafe
    exact (hsafe k hk).congr hg rfl
  · simp only [safeStmt, hcode] at hsafe
    have hcov := hc k hk
    unfold Sys.Cover at hcov ⊢
    rw [show (⟨_, s.main, hs, os⟩ : Sys).arming = s.arming from rfl]
    cases ha : s.arming with
    | some K => rw [ha] at hcov; exact hcov
    | none =>
      rw [ha] at hcov
      refine Sys.Armed.mono hcov hg (fun y hy h1 h2 h3 => ?_) fun h1 h2 h3 =>
        .inr ⟨h1, h2.trans hg.symm, h3⟩
      simp only [Stmt.effect]
      cases hj : t.loc.job with
      | none => exact hy
      | some j =>
        refine mem_cancelJob hy fun hx => ?_
        have hu := hsafe j hj y hx
        have hk' : s.sh.state.transitional = some k := hk
        simp [Sys.unguarded, ha, h1, h2, h3, hk'] at hu
  · rw [hstate] at hk
    exact (hc k hk).congr hg hjobs

/-! ## The main thread -/

theorem arming_some {s : Sys} {K : Kind} (hr : s.main.loc.role = .command K)
    (ha : Ahead K s.main.code) : s.arming = some K := by
  unfold Sys.arming
  rw [hr]
  exact if_pos ha

theorem arming_none {s : Sys} {K : Kind} (hr : s.main.loc.role = .command K)
    (ha : s.main.code = [] ∨ s.main.code = [.assign K]) : s.arming = none := by
  unfold Sys.arming
  rw [hr]
  rcases ha with ha | ha <;> simp [ha, Stmt.creates]

theorem arming_not_command {s : Sys} (hr : ∀ K, s.main.loc.role ≠ .command K) :
    s.arming = none := by
  unfold Sys.arming
  split
  · rename_i K h
    exact absurd h (hr K)
  · rfl

theorem Sys.Cover.of_pending {s : Sys} {K k : Kind} (ha : s.arming = some K)
    (hp : pending s.main.code K k = true) : s.Cover k := by
  unfold Sys.Cover
  rw [ha]
  exact hp

theorem Sys.Cover.of_armed {s : Sys} {k : Kind} (ha : s.arming = none) (hp : s.Armed k) :
    s.Cover k := by
  unfold Sys.Cover
  rw [ha]
  exact hp

theorem pending_self (code : List Stmt) (K : Kind) : pending code K K = true := by
  simp [pending]

theorem pending_of_mem {code : List Stmt} {K : Kind} {i : Stmt} (hm : i ∈ code)
    (hi : K.overwrites i = true) (k : Kind) : pending code K k = true :=
  Bool.or_eq_true_iff.2 (.inr (List.any_eq_true.2 ⟨i, hm, hi⟩))

/-- A plain statement moves no state and is nothing to wait for. -/
theorem plain_pending {i : Stmt} {rest : List Stmt} {K k : Kind} (hi : i.plain = true)
    (h : pending (i :: rest) K k = true) : pending rest K k = true := by
  have ho : K.overwrites i = false := by
    cases K <;> cases i <;> first | rfl | cases hi
  simpa [pending, ho] using h

theorem plain_state {i : Stmt} (s : Shared) (l : Local) (hi : i.plain = true) :
    (i.effect s l).state = s.state := by
  cases i with
  | forget k => exact setWatchdog_state _ _ _
  | command | stamp | take | cancel | clear | ike => rfl
  | _ => cases hi

/-- **A statement of a block**, before its watchdog is launched. -/
theorem block_covered {s : Sys} {sh : Shared} {t : Task} {K : Kind} {i : Stmt} {rest : List Stmt}
    (hcov : Covered s) (hr : s.main.loc.role = .command K) (hc : s.main.code = i :: rest)
    (hb : Block K (i :: rest)) (hgen : .bump ∉ i :: rest → s.main.loc.gen = s.sh.generation)
    (hrole : t.loc.role = s.main.loc.role) (hsh : sh = i.effect s.sh s.main.loc)
    (hcode : t.code = i.next s.sh s.main.loc rest) :
    Covered { s with sh := sh, main := t } := by
  subst hsh
  have harm : s.arming = some K := arming_some hr (hc ▸ hb.ahead)
  have hpend : ∀ k, s.sh.state.transitional = some k → pending (i :: rest) K k = true := by
    intro k hk
    have h := hcov k hk
    unfold Sys.Cover at h
    rw [harm] at h
    exact hc ▸ h
  have harm' : ∀ {code : List Stmt}, t.code = code → Ahead K code →
      Sys.arming { s with sh := i.effect s.sh s.main.loc, main := t } = some K :=
    fun he ha => arming_some (hrole.trans hr) (he ▸ ha)
  intro k hk
  cases hb with
  | create timeout =>
    have hkK : k = K := by
      have hp := hpend k hk
      cases K <;> simpa [pending, Kind.overwrites, look] using hp
    subst hkK
    have hgen' : s.main.loc.gen = s.sh.generation := hgen (by simp)
    refine .of_armed (arming_none (hrole.trans hr) (.inr hcode))
      (.inl ⟨⟨k, s.main.loc.gen, s.sh.now + timeout, .waiting⟩, ?_, rfl, hgen', rfl⟩)
    exact List.mem_append_right _ List.mem_cons_self
  | plain hi hb =>
    have hn : i.next s.sh s.main.loc rest = rest := by cases i <;> first | rfl | cases hi
    rw [hn] at hcode
    refine .of_pending (harm' hcode hb.ahead) ?_
    simp only [hcode]
    exact plain_pending hi (hpend k ((plain_state _ _ hi) ▸ hk))
  | publish ht => exact absurd (hk.symm.trans ht) (by simp)
  | connecting ha =>
    cases hk
    exact .of_pending (harm' hcode ha) (pending_self _ _)
  | disconnecting ha =>
    cases hk
    exact .of_pending (harm' hcode ha) (pending_self _ _)
  | @look rest hb =>
    have hk' : s.sh.state.transitional = some k := hk
    by_cases hup : (Guard.stateIn [.connected, .connecting]).holds s.sh s.main.loc = true
    · have hn : t.code = .publish .disconnecting :: rest := by
        simpa [Stmt.next, Vpn.look, hup] using hcode
      refine .of_pending (harm' hn hb.ahead) ?_
      simp only [hn]
      exact pending_of_mem List.mem_cons_self rfl k
    · have hn : t.code = rest := by simpa [Stmt.next, Vpn.look, hup] using hcode
      have ha : Ahead .disconnect rest := by
        have := hb.ahead
        simpa [Ahead, Stmt.creates] using this
      have hne : s.sh.state ≠ .connecting := fun he => hup (by simp [Guard.holds, he])
      have hkd : k = .disconnect := by
        cases hst : s.sh.state <;> rw [hst] at hk' hne <;> cases hk' <;>
          first | rfl | exact absurd rfl hne
      subst hkd
      exact .of_pending (harm' hn ha) (pending_self _ _)
  | bumpConnect ha hp =>
    refine .of_pending (harm' hcode ha) ?_
    simp only [hcode]
    exact pending_of_mem hp rfl k
  | bumpDisconnect ha hl =>
    refine .of_pending (harm' hcode ha) ?_
    simp only [hcode]
    exact pending_of_mem hl rfl k

/-- A statement of a watchdog keeps a transitional state covered, or ends it. -/
theorem body_covered {s : Sys} {sh : Shared} {t : Task} {k₀ : Kind} {i : Stmt}
    {rest : List Stmt} (hcov : Covered s) (hr : s.main.loc.role = .watchdog k₀)
    (hc : s.main.code = i :: rest) (hb : i :: rest <:+ watchdogBody k₀)
    (hrole : t.loc.role = s.main.loc.role) (hsh : sh = i.effect s.sh s.main.loc)
    (hloc : t.loc = i.save s.sh s.main.loc) (hcode : t.code = i.next s.sh s.main.loc rest) :
    Covered { s with sh := sh, main := t } := by
  subst hsh
  have hf : i.foreign = true := body_foreign hb i List.mem_cons_self
  have hg : (i.effect s.sh s.main.loc).generation = s.sh.generation := foreign_effect hf
  have hgen : t.loc.gen = s.main.loc.gen := by
    rw [hloc]
    cases i <;> first | rfl | cases hf
  have hnot : ∀ K, s.main.loc.role ≠ .command K := fun K h => by rw [hr] at h; cases h
  intro k hk
  have hst : i.effect s.sh s.main.loc = s.sh ∨ (∃ c, i = .publish c ∧ c.transitional = none) ∨
      i = .clear := by
    cases k₀ <;> simp only [watchdogBody, List.suffix_cons_iff, List.suffix_nil] at hb <;>
      rcases hb with hb | hb | hb | hb | hb <;> cases hb <;>
        first | exact .inl rfl | exact .inr (.inl ⟨_, rfl, rfl⟩) | exact .inr (.inr rfl)
  have hstate : (i.effect s.sh s.main.loc).state = s.sh.state ∧
      (i.effect s.sh s.main.loc).jobs = s.sh.jobs := by
    rcases hst with h | ⟨c, rfl, hcn⟩ | rfl
    · rw [h]; exact ⟨rfl, rfl⟩
    · exact absurd (hk.symm.trans hcn) (by simp)
    · exact ⟨rfl, rfl⟩
  have hk' : s.sh.state.transitional = some k := hstate.1 ▸ hk
  have harmed : s.Armed k := by
    have h := hcov k hk'
    unfold Sys.Cover at h
    rwa [arming_not_command hnot] at h
  refine .of_armed (arming_not_command fun K => hrole ▸ hnot K)
    (harmed.mono hg (fun y hy _ _ _ => hstate.2 ▸ hy) fun h1 h2 h3 => ?_)
  -- on the main thread: the publishing is still ahead
  have hkk : k₀ = k := Role.watchdog.inj (hr.symm.trans h1)
  subst hkk
  refine .inr ⟨hrole.trans hr, hgen.trans (h2.trans hg.symm), ?_⟩
  rw [hc] at h3
  simp only [hcode]
  have hni : i ≠ .publish k₀.outcome := by
    rintro rfl
    cases k₀ <;> cases hk
  have hmem : .publish k₀.outcome ∈ rest := (List.mem_cons.1 h3).resolve_left (Ne.symm hni)
  suffices hn : i.next s.sh s.main.loc rest = rest by rw [hn]; exact hmem
  have hcur : Guard.holds s.sh s.main.loc .current = true := beq_iff_eq.2 h2.symm
  cases k₀ with
  | connect =>
    have hconn : (Guard.stateIn [.connecting]).holds s.sh s.main.loc = true := by
      cases hs : s.sh.state <;> rw [hs] at hk' <;> cases hk'
      simp [Guard.holds, hs]
    simp only [watchdogBody, List.suffix_cons_iff, List.suffix_nil] at hb
    rcases hb with hb | hb | hb | hb | hb <;> cases hb <;> simp [Stmt.next, hcur, hconn]
  | disconnect =>
    simp only [watchdogBody, List.suffix_cons_iff, List.suffix_nil] at hb
    rcases hb with hb | hb | hb | hb <;> cases hb <;> simp [Stmt.next, hcur]

theorem main_covered {s : Sys} {sh : Shared} {t : Task} (ho : Orderly s) (hcov : Covered s)
    (hs : Thread.step exec s.sh s.main = some (sh, t)) :
    Covered { s with sh := sh, main := t } := by
  obtain ⟨i, rest, hc, he⟩ := Thread.step_some hs
  obtain ⟨hsh, hloc, hcode⟩ := exec_some he
  have hrole : t.loc.role = s.main.loc.role := by
    rw [hloc]
    cases i <;> rfl
  cases hr : s.main.loc.role with
  | command K =>
    have hblock := ho.block K hr
    have hgen := ho.bumped K hr
    rw [hc] at hblock hgen
    rcases hblock with hb | hb | hb
    · cases hb
    · -- the watchdog is launched, only its variable is left to set
      cases hb
      subst hsh
      intro k hk
      have hk' : s.sh.state.transitional = some k := by
        rw [← hk]
        exact congrArg _ (setWatchdog_state _ _ _).symm
      have h := hcov k hk'
      unfold Sys.Cover at h
      rw [arming_none hr (.inr hc)] at h
      refine .of_armed (arming_none (hrole.trans hr) (.inl hcode))
        (h.mono (setWatchdog_generation _ _ _) (fun y hy _ _ _ => ?_) fun h1 _ _ => ?_)
      · exact (setWatchdog_jobs _ _ _).symm ▸ hy
      · rw [hr] at h1
        cases h1
    · exact block_covered hcov hr hc hb (fun hn => hgen hn (List.cons_ne_nil _ _)) hrole hsh hcode
  | watchdog k =>
    have hbody := ho.body k hr
    rw [hc] at hbody
    exact body_covered hcov hr hc hbody hrole hsh hloc hcode
  | _ =>
    have h := ho.other (fun k h => by rw [hr] at h; cases h) fun K h => by rw [hr] at h; cases h
    rw [hc] at h
    cases h

/-- Nothing is armed by an idle main thread, and no block is open. -/
theorem idle_armed {s : Sys} {k : Kind} (hidle : s.main.code = []) (h : s.Cover k) :
    ∃ j ∈ s.sh.jobs, j.kind = k ∧ j.gen = s.sh.generation ∧ j.status = .waiting := by
  have ha : s.arming = none := by
    unfold Sys.arming
    split
    · simp [hidle]
    · rfl
  unfold Sys.Cover at h
  rw [ha] at h
  rcases h with h | ⟨-, -, h⟩
  · exact h
  · rw [hidle] at h
    cases h

theorem fire_covered {s s' : Sys} {j : Nat} (hcov : Covered s) (hs : s.fire j = some s') :
    Covered s' := by
  obtain ⟨x, hx, hw, -, hidle, rfl⟩ := fire_some hs
  intro k hk
  obtain ⟨y, hy, h1, h2, h3⟩ := idle_armed hidle (hcov k hk)
  refine .of_armed (arming_not_command fun K h => by cases h) ?_
  obtain ⟨n, hn⟩ := List.mem_iff_getElem?.1 hy
  by_cases hj : j = n
  · subst hj
    obtain rfl : y = x := Option.some.inj (hn.symm.trans hx)
    refine .inr ⟨by rw [← h1]; rfl, h2, ?_⟩
    rw [← h1]
    cases y.kind <;> simp [watchdogBody, Kind.outcome]
  · exact .inl ⟨y, List.mem_iff_getElem?.2 ⟨n, by rw [List.getElem?_set_ne hj]; exact hn⟩, h1, h2, h3⟩

/-- **One step keeps every transitional state covered.** -/
theorem step_covered {s s' : Sys} {a : Act} (h : Orderly s ∧ Covered s) (hC : safe s a)
    (hs : step s a = some s') : Orderly s' ∧ Covered s' := by
  obtain ⟨ho, hcov⟩ := h
  refine ⟨step_orderly ho hs, ?_⟩
  cases a with
  | tick ms =>
    cases hs
    exact fun k hk => (hcov k hk).congr rfl rfl
  | connect timeout l =>
    obtain ⟨-, rfl⟩ := start_some hs
    have hb := onConnectRequested_block timeout l
    exact fun k _ => .of_pending (arming_some rfl hb.ahead)
      (pending_of_mem (i := .publish .connecting) (by simp [onConnectRequested]) rfl k)
  | disconnect st =>
    obtain ⟨-, rfl⟩ := start_some hs
    have hb := onDisconnectRequested_block st
    exact fun k _ => .of_pending (arming_some rfl hb.ahead)
      (pending_of_mem (i := look) (by simp [onDisconnectRequested, look]) rfl k)
  | fire j => exact fire_covered hcov hs
  | main =>
    obtain ⟨⟨sh, t⟩, hm, rfl⟩ := Option.map_eq_some_iff.1 hs
    exact main_covered ho hcov hm
  | deliver r =>
    simp only [step] at hs
    split at hs
    · cases hs
      exact fun k hk => (hcov k hk).congr rfl rfl
    · cases hs
  | handler n =>
    obtain ⟨⟨sh, ts⟩, hm, rfl⟩ := Option.map_eq_some_iff.1 hs
    obtain ⟨t, t', hn, hst, -⟩ := Thread.move_some hm
    exact foreign_covered hcov (ho.handlers t (List.mem_of_getElem? hn)) (hC t hn) hst
  | enter e =>
    cases hs
    exact fun k hk => (hcov k hk).congr rfl rfl
  | outside n =>
    obtain ⟨⟨sh, ts⟩, hm, rfl⟩ := Option.map_eq_some_iff.1 hs
    obtain ⟨t, t', hn, hst, -⟩ := Thread.move_some hm
    exact foreign_covered hcov (ho.outside t (List.mem_of_getElem? hn)) (hC t hn) hst

/-- A connect command through its whole block. -/
def connectOnly : List Act := .connect CONNECT_TIMEOUT_MS .service :: List.replicate 12 .main

/-- `relaunch` from the disconnected state. -/
def relaunchOnly : List Act :=
  [.enter (.relaunch false), .outside 0, .tick 400, .outside 0, .outside 0]

end Ghajar.Vpn
