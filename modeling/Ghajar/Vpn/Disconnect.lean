import Ghajar.Vpn.Watchdog

/-!
# A timed-out disconnect

The disconnect watchdog publishes DISCONNECTED unconditionally. `honest` says it
does so only if no tunnel was confirmed since the command that armed it. A
confirmation disarms the connect watchdog only, so this needs a condition
(`unexpected`): a tunnel is confirmed only while no disconnect of the newest
generation is due (`Due`).
-/

namespace Ghajar.Vpn

open Run

/-- A disconnect watchdog of the newest generation will publish, or is about to be armed. -/
def Sys.Due (s : Sys) : Prop :=
  s.Armed .disconnect ∨ (s.arming = some .disconnect ∧ .bump ∉ s.main.code)

instance (s : Sys) : Decidable s.Due := by
  unfold Sys.Due
  infer_instance

/-- The thread confirms a tunnel only while no disconnect is due. -/
def unexpectedStmt (s : Sys) (t : Task) : Prop :=
  t.code.head? = some (.publish .connected) → ¬ s.Due

instance (s : Sys) (t : Task) : Decidable (unexpectedStmt s t) := by
  unfold unexpectedStmt
  infer_instance

/-- **The condition.** -/
def unexpected (s : Sys) : Act → Prop
  | .handler n => ∀ t ∈ s.handlers[n]?, unexpectedStmt s t
  | .outside n => ∀ t ∈ s.outside[n]?, unexpectedStmt s t
  | _ => True

instance (s : Sys) (a : Act) : Decidable (unexpected s a) :=
  match a with
  | .handler n =>
    decidable_of_iff ((s.handlers[n]?).all fun t => unexpectedStmt s t) (by
      simp [unexpected, Option.all_eq_true])
  | .outside n =>
    decidable_of_iff ((s.outside[n]?).all fun t => unexpectedStmt s t) (by
      simp [unexpected, Option.all_eq_true])
  | .tick _ | .connect _ _ | .disconnect _ | .fire _ | .main | .deliver _ | .enter _ =>
    .isTrue trivial

/-- **The law**: a disconnect watchdog publishes only if the last confirmation is older than the
command that armed it. -/
def honest (s : Sys) : Act → Prop
  | .main => s.main.loc.role = .watchdog .disconnect →
      s.main.code.head? = some (.publish .disconnected) →
      ∀ c ∈ s.sh.confirmedAt, c < s.main.loc.gen
  | _ => True

instance (s : Sys) (a : Act) : Decidable (honest s a) := by
  unfold honest
  split <;> infer_instance

/-- While a disconnect is due, no tunnel has been confirmed in its generation. -/
structure Unconfirmed (s : Sys) : Prop where
  confirmed : ∀ c ∈ s.sh.confirmedAt, c ≤ s.sh.generation
  jobs : ∀ j ∈ s.sh.jobs, j.gen ≤ s.sh.generation
  due : s.Due → s.sh.confirmedAt ≠ some s.sh.generation

/-- A step that confirms nothing, keeps the generation and makes nothing due. -/
theorem Unconfirmed.keep {s s' : Sys} (h : Unconfirmed s)
    (hc : s'.sh.confirmedAt = s.sh.confirmedAt) (hg : s'.sh.generation = s.sh.generation)
    (hj : ∀ j ∈ s'.sh.jobs, j.gen ≤ s.sh.generation) (hd : s'.Due → s.Due) : Unconfirmed s' where
  confirmed := by
    rw [hc, hg]
    exact h.confirmed
  jobs := by
    rw [hg]
    exact hj
  due := by
    rw [hc, hg]
    exact fun hdue => h.due (hd hdue)

/-- `Due` only looks at the main thread, the generation and the waiting jobs. -/
theorem Sys.Due.of_waiting {s : Sys} {sh : Shared} {hs os : List Task}
    (h : Sys.Due ⟨sh, s.main, hs, os⟩) (hg : sh.generation = s.sh.generation)
    (hj : ∀ j ∈ sh.jobs, j.status = .waiting → j ∈ s.sh.jobs) : s.Due := by
  rcases h with (⟨j, hm, h1, h2, h3⟩ | ⟨h1, h2, h3⟩) | h
  · exact .inl (.inl ⟨j, hj j hm h3, h1, h2.trans hg, h3⟩)
  · exact .inl (.inr ⟨h1, h2.trans hg, h3⟩)
  · exact .inr h

theorem mem_of_cancelJob {js : List Job} {j : Nat} {y : Job} (hy : y ∈ cancelJob js j) :
    (∃ x ∈ js, x.gen = y.gen) ∧ (y.status = .waiting → y ∈ js) := by
  obtain ⟨n, hn⟩ := List.mem_iff_getElem?.1 hy
  rw [cancelJob, List.getElem?_modify] at hn
  obtain ⟨x, hx, he⟩ := Option.map_eq_some_iff.1 hn
  have hmem : x ∈ js := List.mem_of_getElem? hx
  by_cases hw : j = n ∧ x.status = .waiting
  · rw [if_pos hw.1, if_pos hw.2] at he
    subst he
    exact ⟨⟨x, hmem, rfl⟩, fun h => by cases h⟩
  · have hxy : x = y := by
      by_cases hj : j = n
      · rw [if_pos hj, if_neg fun h => hw ⟨hj, h⟩] at he
        exact he
      · rwa [if_neg hj] at he
    subst hxy
    exact ⟨⟨x, hmem, rfl⟩, fun _ => hmem⟩

theorem setWatchdog_confirmedAt (s : Shared) (k : Kind) (j : Option Nat) :
    (s.setWatchdog k j).confirmedAt = s.confirmedAt := by cases k <;> rfl

/-- A foreign statement other than a confirmation. -/
theorem foreign_confirmedAt {i : Stmt} (s : Shared) (l : Local) (hi : i.foreign = true)
    (hn : i ≠ .publish .connected) : (i.effect s l).confirmedAt = s.confirmedAt := by
  cases i with
  | publish c =>
    have hc : c ≠ .connected := fun he => hn (by rw [he])
    simp [Stmt.effect, hc]
  | bump => cases hi
  | create => cases hi
  | forget k => exact setWatchdog_confirmedAt _ _ _
  | assign k => exact setWatchdog_confirmedAt _ _ _
  | _ => rfl

/-- Foreign statements only take waiting jobs away. -/
theorem foreign_jobs {i : Stmt} (s : Shared) (l : Local) (hi : i.foreign = true) {j : Job}
    (hj : j ∈ (i.effect s l).jobs) :
    (∃ x ∈ s.jobs, x.gen = j.gen) ∧ (j.status = .waiting → j ∈ s.jobs) := by
  rcases foreign_cases s l hi with ⟨c, rfl⟩ | rfl | ⟨-, hjobs⟩
  · exact ⟨⟨j, hj, rfl⟩, fun _ => hj⟩
  · simp only [Stmt.effect] at hj
    cases hl : l.job with
    | none =>
      rw [hl] at hj
      exact ⟨⟨j, hj, rfl⟩, fun _ => hj⟩
    | some n =>
      rw [hl] at hj
      exact mem_of_cancelJob hj
  · rw [hjobs] at hj
    exact ⟨⟨j, hj, rfl⟩, fun _ => hj⟩

theorem foreign_unconfirmed {s : Sys} {t t' : Task} {sh : Shared} {hs os : List Task}
    (hu : Unconfirmed s) (hf : ∀ i ∈ t.code, i.foreign = true) (hc : unexpectedStmt s t)
    (hst : Thread.step exec s.sh t = some (sh, t')) : Unconfirmed ⟨sh, s.main, hs, os⟩ := by
  obtain ⟨i, rest, hcode, he⟩ := Thread.step_some hst
  obtain ⟨rfl, -, -⟩ := exec_some he
  have hi : i.foreign = true := hf i (by simp [hcode])
  have hg := foreign_effect (s := s.sh) (l := t.loc) hi
  have hjobs : ∀ j ∈ (i.effect s.sh t.loc).jobs, j.gen ≤ s.sh.generation := by
    intro j hj
    obtain ⟨⟨x, hx, hxg⟩, -⟩ := foreign_jobs s.sh t.loc hi hj
    exact hxg ▸ hu.jobs x hx
  have hdue : Sys.Due ⟨i.effect s.sh t.loc, s.main, hs, os⟩ → s.Due := fun h =>
    h.of_waiting hg fun j hj hw => (foreign_jobs s.sh t.loc hi hj).2 hw
  by_cases hn : i = .publish .connected
  · subst hn
    exact
      { confirmed := fun c hc => by cases hc; exact Nat.le_refl _
        jobs := hjobs
        due := fun h => absurd (hdue h) (hc (by rw [hcode]; rfl)) }
  · exact hu.keep (foreign_confirmedAt s.sh t.loc hi hn) hg hjobs hdue

/-- **A statement of a block.** -/
theorem block_unconfirmed {s : Sys} {sh : Shared} {t : Task} {K : Kind} {i : Stmt}
    {rest : List Stmt} (hu : Unconfirmed s) (hr : s.main.loc.role = .command K)
    (hc : s.main.code = i :: rest) (hb : Block K (i :: rest))
    (hgen : .bump ∉ i :: rest → s.main.loc.gen = s.sh.generation)
    (hrole : t.loc.role = s.main.loc.role) (hsh : sh = i.effect s.sh s.main.loc)
    (hcode : t.code = i.next s.sh s.main.loc rest) :
    Unconfirmed { s with sh := sh, main := t } := by
  subst hsh
  have harm : s.arming = some K := arming_some hr (hc ▸ hb.ahead)
  have hnew : ∀ g, (∀ c ∈ s.sh.confirmedAt, c < g) → s.sh.confirmedAt ≠ some g :=
    fun g h he => absurd (h g he) (Nat.lt_irrefl g)
  -- what is due after a statement that launches nothing was due before
  have hkeep (hb' : .bump ∉ t.code → .bump ∉ i :: rest)
      (hg : (i.effect s.sh s.main.loc).generation = s.sh.generation)
      (hj : ∀ j ∈ (i.effect s.sh s.main.loc).jobs, j.status = .waiting → j ∈ s.sh.jobs) :
      Sys.Due { s with sh := i.effect s.sh s.main.loc, main := t } → s.Due := by
    rintro ((⟨j, hm, h1, h2, h3⟩ | ⟨h1, -, -⟩) | ⟨h1, h2⟩)
    · exact .inl (.inl ⟨j, hj j hm h3, h1, h2.trans hg, h3⟩)
    · exact absurd (h1.symm.trans (hrole.trans hr)) (by simp)
    · refine .inr ⟨?_, hc ▸ hb' h2⟩
      have hK : K = .disconnect := by
        unfold Sys.arming at h1
        simp only [hrole, hr] at h1
        split at h1
        · exact Option.some.inj h1
        · cases h1
      rw [harm, hK]
  by_cases hbump : i = .bump
  · subst hbump
    have hlt : ∀ c ∈ s.sh.confirmedAt, c < s.sh.generation + 1 := fun c hc' =>
      Nat.lt_succ_of_le (hu.confirmed c hc')
    exact
      { confirmed := fun c hc' => Nat.le_of_lt (hlt c hc')
        jobs := fun j hj => Nat.le_succ_of_le (hu.jobs j hj)
        due := fun _ => hnew _ hlt }
  have hbn : .bump ∉ t.code → .bump ∉ i :: rest := fun hn hm => by
    rcases List.mem_cons.1 hm with hm | hm
    · exact hbump hm.symm
    · exact hn (hcode ▸ hb.bump_next hm)
  cases hb with
  | create timeout =>
    have hg : s.main.loc.gen = s.sh.generation := hgen (by simp)
    refine hu.keep rfl rfl (fun j hj => ?_) fun hdue => ?_
    · rcases List.mem_append.1 hj with hj | hj
      · exact hu.jobs j hj
      · rw [List.mem_singleton.1 hj]
        exact Nat.le_of_eq hg
    · cases K with
      | disconnect => exact .inr ⟨harm, by rw [hc]; simp⟩
      | connect =>
        rcases hdue with (⟨j, hm, h1, h2, h3⟩ | ⟨h1, -, -⟩) | ⟨h1, -⟩
        · rcases List.mem_append.1 hm with hm | hm
          · exact .inl (.inl ⟨j, hm, h1, h2, h3⟩)
          · rw [List.mem_singleton.1 hm] at h1
            cases h1
        · exact absurd (h1.symm.trans (hrole.trans hr)) (by simp)
        · rw [arming_none (hrole.trans hr) (.inr hcode)] at h1
          cases h1
  | bumpConnect => exact absurd rfl hbump
  | bumpDisconnect => exact absurd rfl hbump
  | plain hi =>
    have hf : i.foreign = true := by cases i <;> first | rfl | cases hi
    have hn : i ≠ .publish .connected := by rintro rfl; cases hi
    have hg := foreign_effect (s := s.sh) (l := s.main.loc) hf
    refine hu.keep (foreign_confirmedAt s.sh s.main.loc hf hn) hg (fun j hj => ?_)
      (hkeep hbn hg fun j hj hw => (foreign_jobs s.sh s.main.loc hf hj).2 hw)
    obtain ⟨⟨x, hx, hxg⟩, -⟩ := foreign_jobs s.sh s.main.loc hf hj
    exact hxg ▸ hu.jobs x hx
  | publish _ hne =>
    exact hu.keep (foreign_confirmedAt s.sh s.main.loc rfl fun he => hne (Stmt.publish.inj he)) rfl
      hu.jobs (hkeep hbn rfl fun _ hj _ => hj)
  | connecting => exact hu.keep rfl rfl hu.jobs (hkeep hbn rfl fun _ hj _ => hj)
  | disconnecting => exact hu.keep rfl rfl hu.jobs (hkeep hbn rfl fun _ hj _ => hj)
  | look => exact hu.keep rfl rfl hu.jobs (hkeep hbn rfl fun _ hj _ => hj)

theorem main_unconfirmed {s : Sys} {sh : Shared} {t : Task} (ho : Orderly s) (hu : Unconfirmed s)
    (hs : Thread.step exec s.sh s.main = some (sh, t)) :
    Unconfirmed { s with sh := sh, main := t } := by
  obtain ⟨i, rest, hc, he⟩ := Thread.step_some hs
  obtain ⟨hsh, hloc, hcode⟩ := exec_some he
  have hrole : t.loc.role = s.main.loc.role := by
    rw [hloc]
    cases i <;> rfl
  cases hr : s.main.loc.role with
  | command K =>
    have hblock := ho.block K hr
    have hgen := ho.bumped K hr
    rw [hc] at hblock hgen
    rcases hblock with hb | hb | hb
    · cases hb
    · cases hb
      subst hsh
      refine hu.keep (setWatchdog_confirmedAt _ _ _) (setWatchdog_generation _ _ _)
        (fun j hj => hu.jobs j (setWatchdog_jobs _ _ _ ▸ hj)) ?_
      rintro ((⟨j, hm, h1, h2, h3⟩ | ⟨h1, -, -⟩) | ⟨h1, -⟩)
      · exact .inl (.inl ⟨j, setWatchdog_jobs _ _ _ ▸ hm, h1,
          h2.trans (setWatchdog_generation _ _ _), h3⟩)
      · exact absurd (h1.symm.trans (hrole.trans hr)) (by simp)
      · rw [arming_none (hrole.trans hr) (.inl hcode)] at h1
        cases h1
    · exact block_unconfirmed hu hr hc hb (fun hn => hgen hn (List.cons_ne_nil _ _)) hrole hsh hcode
  | watchdog k =>
    have hbody := ho.body k hr
    rw [hc] at hbody
    have hf := body_foreign hbody i List.mem_cons_self
    have hn : i ≠ .publish .connected := by
      rintro rfl
      have hm : .publish .connected ∈ watchdogBody k := hbody.subset List.mem_cons_self
      cases k <;> simp [watchdogBody] at hm
    subst hsh
    have hg := foreign_effect (s := s.sh) (l := s.main.loc) hf
    have hgen : t.loc.gen = s.main.loc.gen := by
      rw [hloc]
      cases i <;> first | rfl | cases hf
    refine hu.keep (foreign_confirmedAt s.sh s.main.loc hf hn) hg (fun j hj => ?_) ?_
    · obtain ⟨⟨x, hx, hxg⟩, -⟩ := foreign_jobs s.sh s.main.loc hf hj
      exact hxg ▸ hu.jobs x hx
    · rintro ((⟨j, hm, h1, h2, h3⟩ | ⟨h1, h2, h3⟩) | ⟨h1, -⟩)
      · exact .inl (.inl ⟨j, (foreign_jobs s.sh s.main.loc hf hm).2 h3, h1, h2.trans hg, h3⟩)
      · refine .inl (.inr ⟨hrole ▸ h1, hgen.symm.trans (h2.trans hg), ?_⟩)
        rw [hc]
        simp only [hcode] at h3
        exact List.mem_cons_of_mem _ ((next_sublist _ _ _ _).subset h3)
      · rw [arming_not_command fun K h => absurd ((hrole.trans hr).symm.trans h) (by simp)] at h1
        cases h1
  | _ =>
    have h := ho.other (fun k h => by rw [hr] at h; cases h) fun K h => by rw [hr] at h; cases h
    rw [hc] at h
    cases h

/-- A task that takes the main thread over makes nothing due that was not waiting. -/
theorem Sys.Due.of_start {s : Sys} {t : Task} (h : Sys.Due { s with main := t })
    (hw : ∀ k, t.loc.role ≠ .watchdog k) (hb : ∀ K, t.loc.role = .command K → .bump ∈ t.code) :
    s.Due := by
  rcases h with (h | ⟨h1, -, -⟩) | ⟨h1, h2⟩
  · exact .inl (.inl h)
  · exact absurd h1 (hw _)
  · unfold Sys.arming at h1
    split at h1
    · rename_i K hK
      exact absurd (hb K hK) h2
    · cases h1

theorem step_unconfirmed {s s' : Sys} {a : Act} (h : Orderly s ∧ Unconfirmed s)
    (hC : unexpected s a) (hs : step s a = some s') : Orderly s' ∧ Unconfirmed s' := by
  obtain ⟨ho, hu⟩ := h
  refine ⟨step_orderly ho hs, ?_⟩
  cases a with
  | tick ms =>
    cases hs
    exact hu.keep rfl rfl hu.jobs fun hd => hd.of_waiting rfl fun _ hj _ => hj
  | connect timeout l =>
    obtain ⟨-, rfl⟩ := start_some hs
    exact hu.keep rfl rfl hu.jobs fun hd =>
      hd.of_start (fun k hk => by cases hk) fun K _ => by simp [onConnectRequested]
  | disconnect st =>
    obtain ⟨-, rfl⟩ := start_some hs
    exact hu.keep rfl rfl hu.jobs fun hd =>
      hd.of_start (fun k hk => by cases hk) fun K _ => by simp [onDisconnectRequested]
  | fire j =>
    obtain ⟨x, hx, hw, -, hidle, rfl⟩ := fire_some hs
    have hxm : x ∈ s.sh.jobs := List.mem_of_getElem? hx
    refine hu.keep rfl rfl (fun y hy => ?_) ?_
    · rcases List.mem_or_eq_of_mem_set hy with hy | rfl
      · exact hu.jobs y hy
      · exact hu.jobs x hxm
    · rintro ((⟨y, hy, h1, h2, h3⟩ | ⟨h1, h2, -⟩) | ⟨h1, -⟩)
      · rcases List.mem_or_eq_of_mem_set hy with hy | rfl
        · exact .inl (.inl ⟨y, hy, h1, h2, h3⟩)
        · cases h3
      · exact .inl (.inl ⟨x, hxm, Role.watchdog.inj h1, h2, hw⟩)
      · rw [arming_not_command fun K h => by cases h] at h1
        cases h1
  | main =>
    obtain ⟨⟨sh, t⟩, hm, rfl⟩ := Option.map_eq_some_iff.1 hs
    exact main_unconfirmed ho hu hm
  | deliver r =>
    simp only [step] at hs
    split at hs
    · cases hs
      exact hu.keep rfl rfl hu.jobs fun hd => hd.of_waiting rfl fun _ hj _ => hj
    · cases hs
  | handler n =>
    obtain ⟨⟨sh, ts⟩, hm, rfl⟩ := Option.map_eq_some_iff.1 hs
    obtain ⟨t, t', hn, hst, -⟩ := Thread.move_some hm
    exact foreign_unconfirmed hu (ho.handlers t (List.mem_of_getElem? hn)) (hC t hn) hst
  | enter e =>
    cases hs
    exact hu.keep rfl rfl hu.jobs fun hd => hd.of_waiting rfl fun _ hj _ => hj
  | outside n =>
    obtain ⟨⟨sh, ts⟩, hm, rfl⟩ := Option.map_eq_some_iff.1 hs
    obtain ⟨t, t', hn, hst, -⟩ := Thread.move_some hm
    exact foreign_unconfirmed hu (ho.outside t (List.mem_of_getElem? hn)) (hC t hn) hst

/-- A disconnect watchdog about to publish was armed for the newest generation. -/
theorem publishing_due {s : Sys} (ho : Orderly s) (hr : s.main.loc.role = .watchdog .disconnect)
    (hc : s.main.code.head? = some (.publish .disconnected)) :
    s.main.loc.gen = s.sh.generation ∧ s.Due := by
  obtain ⟨rest, hcode⟩ := List.head?_eq_some_iff.1 hc
  have hbody := ho.body _ hr
  have hgen : s.main.loc.gen = s.sh.generation := by
    refine ho.current _ hr ?_ (by rw [hcode]; simp)
    rcases body_suffix hbody with h | h
    · rw [h] at hcode
      cases hcode
    · exact h
  exact ⟨hgen, .inl (.inr ⟨hr, hgen, by rw [hcode]; exact List.mem_cons_self⟩)⟩

/-- A disconnect whose teardown is never reported. -/
def unanswered : List Act :=
  .disconnect .service :: List.replicate 11 .main ++ [.tick DISCONNECT_TIMEOUT_MS, .fire 0, .main, .main]

/-- A disconnect, a relaunch at once, and its tunnel confirmed 6.1 s after the command. -/
def relaunched : List Act :=
  .disconnect .service :: List.replicate 11 .main ++
    [.enter (.relaunch false), .outside 0, .tick 400, .outside 0, .outside 0, .tick 5700,
      .deliver .connected] ++ List.replicate 8 (.handler 0) ++ [.tick 3900, .fire 0, .main, .main]

end Ghajar.Vpn
