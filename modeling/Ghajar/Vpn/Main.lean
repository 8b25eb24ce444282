import Ghajar.Vpn.Coordinator

/-!
# The main thread

What the task on the main thread can have left: `Block K` for a command of kind
`K` and then the assignment of its watchdog, an end of `watchdogBody` for a watchdog. `Orderly` says so, and that nobody
else changes the generation or launches a watchdog; it holds in every run.
`Armed` and `arming` say which watchdog stands behind a transitional state.
-/

namespace Ghajar.Vpn

open Run

/-- The command whose watchdog ends the state. -/
def Connection.transitional : Connection → Option Kind
  | .connecting => some .connect
  | .disconnecting => some .disconnect
  | _ => none

/-- What a watchdog publishes. -/
def Kind.outcome : Kind → Connection
  | .connect => .error
  | .disconnect => .disconnected

/-- `when (VpnState.state.value) { CONNECTED, CONNECTING -> … }`. -/
def look : Stmt := .skipUnless (.stateIn [.connected, .connecting])

def Stmt.creates (k : Kind) : Stmt → Bool
  | .create k' _ => k' == k
  | _ => false

/-- A statement that neither publishes nor arms nor jumps. -/
def Stmt.plain : Stmt → Bool
  | .command _ | .stamp | .take _ | .cancel | .forget _ | .clear | .ike _ => true
  | _ => false

/-- The watchdog of kind `k` is still to be launched. -/
def Ahead (k : Kind) (code : List Stmt) : Prop := code.any (Stmt.creates k) = true

/-- What a command of a kind has left until it launches its watchdog. -/
inductive Block : Kind → List Stmt → Prop where
  | create {K : Kind} (timeout : Nat) : Block K [.create K timeout, .assign K]
  | plain {K : Kind} {i : Stmt} {rest : List Stmt} (hi : i.plain = true) (hb : Block K rest) :
      Block K (i :: rest)
  | publish {K : Kind} {c : Connection} {rest : List Stmt} (hc : c.transitional = none)
      (hn : c ≠ .connected) (hb : Block K rest) : Block K (.publish c :: rest)
  | connecting {rest : List Stmt} (ha : Ahead .connect rest) (hb : Block .connect rest) :
      Block .connect (.publish .connecting :: rest)
  | disconnecting {rest : List Stmt} (ha : Ahead .disconnect rest) (hb : Block .disconnect rest) :
      Block .disconnect (.publish .disconnecting :: rest)
  | look {rest : List Stmt} (hb : Block .disconnect (.publish .disconnecting :: rest)) :
      Block .disconnect (look :: .publish .disconnecting :: rest)
  | bumpConnect {rest : List Stmt} (ha : Ahead .connect rest) (hp : .publish .connecting ∈ rest)
      (hb : Block .connect rest) : Block .connect (.bump :: rest)
  | bumpDisconnect {rest : List Stmt} (ha : Ahead .disconnect rest) (hl : Vpn.look ∈ rest)
      (hb : Block .disconnect rest) : Block .disconnect (.bump :: rest)

/-- A run of plain statements in front of a block. -/
theorem Block.append {K : Kind} {is rest : List Stmt} (hi : ∀ i ∈ is, i.plain = true)
    (hb : Block K rest) : Block K (is ++ rest) := by
  induction is with
  | nil => exact hb
  | cons i is ih =>
    exact .plain (hi i List.mem_cons_self) (ih fun j hj => hi j (List.mem_cons_of_mem _ hj))

theorem disarm_plain (k : Kind) : ∀ i ∈ disarm k, i.plain = true := by
  simp [disarm, Stmt.plain]

theorem arm_block (K : Kind) (timeout : Nat) : Block K (arm K timeout) :=
  .plain rfl (.plain rfl (.create timeout))

theorem launch_block (l : Launch) (timeout : Nat) :
    Block .connect (l.script ++ arm .connect timeout) := by
  have ha := arm_block .connect timeout
  cases l with
  | pending => exact ha
  | service => exact .connecting rfl ha
  | ike starts =>
    cases starts with
    | true => exact .plain rfl (.connecting rfl (.plain rfl (.connecting rfl ha)))
    | false =>
      exact .plain rfl (.connecting rfl (.plain rfl (.plain rfl (.publish rfl (by decide) ha))))

theorem stop_block (st : Stop) (timeout : Nat) :
    Block .disconnect (st.script ++ arm .disconnect timeout) := by
  have ha := arm_block .disconnect timeout
  cases st with
  | service => exact ha
  | ike publishes =>
    cases publishes with
    | true => exact .plain rfl (.publish rfl (by decide) ha)
    | false => exact .plain rfl ha

theorem ahead_append {k : Kind} {p rest : List Stmt} (h : Ahead k rest) :
    Ahead k (p ++ rest) := by
  simp only [Ahead, List.any_append, Bool.or_eq_true]
  exact .inr h

theorem ahead_arm (k : Kind) (timeout : Nat) : Ahead k (arm k timeout) := by
  cases k <;> rfl

theorem onConnectRequested_block (timeout : Nat) (l : Launch) :
    Block .connect (onConnectRequested timeout l) := by
  have hl := launch_block l timeout
  have ha : Ahead .connect (l.script ++ arm .connect timeout) := ahead_append (ahead_arm _ _)
  have hb : Block .connect (disarm .disconnect ++ .publish .connecting ::
      (l.script ++ arm .connect timeout)) := .append (disarm_plain _) (.connecting ha hl)
  have hc : Block .connect (.bump :: .command .connect :: .stamp :: (disarm .disconnect ++
      .publish .connecting :: (l.script ++ arm .connect timeout))) :=
    .bumpConnect (ahead_append (p := [.command .connect, .stamp] ++ disarm .disconnect ++
      [.publish .connecting]) ha) (by simp) (.plain rfl (.plain rfl hb))
  simpa [onConnectRequested] using hc

theorem onDisconnectRequested_block (st : Stop) :
    Block .disconnect (onDisconnectRequested st) := by
  have hs := stop_block st DISCONNECT_TIMEOUT_MS
  have ha : Ahead .disconnect (st.script ++ arm .disconnect DISCONNECT_TIMEOUT_MS) :=
    ahead_append (ahead_arm _ _)
  have hb : Block .disconnect (disarm .connect ++ look :: .publish .disconnecting ::
      (st.script ++ arm .disconnect DISCONNECT_TIMEOUT_MS)) :=
    .append (disarm_plain _) (.look (.disconnecting ha hs))
  have hc : Block .disconnect (.bump :: .command .disconnect :: .stamp :: (disarm .connect ++
      look :: .publish .disconnecting ::
        (st.script ++ arm .disconnect DISCONNECT_TIMEOUT_MS))) :=
    .bumpDisconnect (ahead_append (p := [.command .disconnect, .stamp] ++ disarm .connect ++
      [look, .publish .disconnecting]) ha) (by simp) (.plain rfl (.plain rfl hb))
  simpa [onDisconnectRequested, look] using hc

/-! ## The invariant of the main thread -/

/-- A statement of a handler or of code outside the commands. -/
def Stmt.foreign : Stmt → Bool
  | .bump | .create _ _ => false
  | _ => true

structure Orderly (s : Sys) : Prop where
  block : ∀ K, s.main.loc.role = .command K →
    s.main.code = [] ∨ s.main.code = [.assign K] ∨ Block K s.main.code
  bumped : ∀ K, s.main.loc.role = .command K → .bump ∉ s.main.code → s.main.code ≠ [] →
    s.main.loc.gen = s.sh.generation
  body : ∀ k, s.main.loc.role = .watchdog k → s.main.code <:+ watchdogBody k
  current : ∀ k, s.main.loc.role = .watchdog k → .stopUnless .current ∉ s.main.code →
    s.main.code ≠ [] → s.main.loc.gen = s.sh.generation
  other : (∀ k, s.main.loc.role ≠ .watchdog k) → (∀ K, s.main.loc.role ≠ .command K) →
    s.main.code = []
  handlers : ∀ t ∈ s.handlers, ∀ i ∈ t.code, i.foreign = true
  outside : ∀ t ∈ s.outside, ∀ i ∈ t.code, i.foreign = true

/-- The statements left come from those that were behind. -/
theorem next_sublist (i : Stmt) (s : Shared) (l : Local) (rest : List Stmt) :
    i.next s l rest <:+ rest := by
  cases i <;> simp only [Stmt.next] <;> (try split) <;>
    first | exact List.suffix_refl _ | exact List.tail_suffix _ | exact List.nil_suffix

theorem handle_foreign (r : Report) : ∀ i ∈ handle r, i.foreign = true := by
  cases r <;> decide

theorem script_foreign (e : Entry) : ∀ i ∈ e.script, i.foreign = true := by
  cases e with
  | relaunch b => cases b <;> decide
  | ikeEnded b => cases b <;> decide
  | ovpnConnected b => cases b <;> decide
  | ovpnFailed b => cases b <;> decide
  | _ => decide

/-- A foreign statement leaves the generation alone and launches nothing. -/
theorem foreign_effect {i : Stmt} {s : Shared} {l : Local} (hi : i.foreign = true) :
    (i.effect s l).generation = s.generation := by
  cases i with
  | bump => cases hi
  | create => cases hi
  | forget k => cases k <;> rfl
  | assign k => cases k <;> rfl
  | _ => rfl

/-- One statement of a foreign thread. -/
theorem foreign_step {s s' : Shared} {t t' : Task} (hf : ∀ i ∈ t.code, i.foreign = true)
    (hs : Thread.step exec s t = some (s', t')) :
    (∀ i ∈ t'.code, i.foreign = true) ∧ s'.generation = s.generation := by
  obtain ⟨i, rest, hc, he⟩ := Thread.step_some hs
  obtain ⟨hs', -, hcode⟩ := exec_some he
  rw [hc] at hf
  constructor
  · intro j hj
    rw [hcode] at hj
    exact hf j (List.mem_cons_of_mem _ ((next_sublist i s t.loc rest).subset hj))
  · rw [hs']
    exact foreign_effect (hf i List.mem_cons_self)

theorem Block.next {K : Kind} {i : Stmt} {rest : List Stmt} (s : Shared) (l : Local)
    (hb : Block K (i :: rest)) : i.next s l rest = [.assign K] ∨ Block K (i.next s l rest) := by
  cases hb with
  | create => exact .inl rfl
  | plain hi hb => cases i <;> first | exact .inr hb | cases hi
  | publish _ _ hb => exact .inr hb
  | connecting _ hb => exact .inr hb
  | disconnecting _ hb => exact .inr hb
  | look hb =>
    simp only [Stmt.next, Vpn.look]
    split
    · exact .inr hb
    · cases hb with
      | plain hi => cases hi
      | publish hc => cases hc
      | disconnecting _ hb => exact .inr hb
  | bumpConnect _ _ hb => exact .inr hb
  | bumpDisconnect _ _ hb => exact .inr hb

theorem Block.ahead {K : Kind} {code : List Stmt} (hb : Block K code) : Ahead K code := by
  induction hb with
  | create => simp [Ahead, Stmt.creates]
  | plain _ _ ih => exact ahead_append (p := [_]) ih
  | publish _ _ _ ih => exact ahead_append (p := [_]) ih
  | connecting _ _ ih => exact ahead_append (p := [_]) ih
  | disconnecting _ _ ih => exact ahead_append (p := [_]) ih
  | look _ ih => exact ahead_append (p := [_]) ih
  | bumpConnect _ _ _ ih => exact ahead_append (p := [_]) ih
  | bumpDisconnect _ _ _ ih => exact ahead_append (p := [_]) ih

theorem setWatchdog_generation (s : Shared) (k : Kind) (j : Option Nat) :
    (s.setWatchdog k j).generation = s.generation := by cases k <;> rfl

/-- Only the bump changes the generation, and the command remembers it. -/
theorem Block.generation {K : Kind} {i : Stmt} {rest : List Stmt} {s : Shared} {l : Local}
    (hb : Block K (i :: rest)) (hg : i = .bump ∨ l.gen = s.generation) :
    (i.save s l).gen = (i.effect s l).generation := by
  rcases hg with rfl | hg
  · rfl
  · cases hb with
    | bumpConnect => rfl
    | bumpDisconnect => rfl
    | plain hi =>
      cases i with
      | forget k => exact hg.trans (setWatchdog_generation s k none).symm
      | command | stamp | take | cancel | clear | ike => exact hg
      | _ => cases hi
    | _ => exact hg

/-- No statement of a block jumps over a bump. -/
theorem Block.bump_next {K : Kind} {i : Stmt} {rest : List Stmt} {s : Shared} {l : Local}
    (hb : Block K (i :: rest)) (hm : .bump ∈ rest) : .bump ∈ i.next s l rest := by
  cases hb with
  | plain hi => cases i <;> first | exact hm | cases hi
  | look =>
    have ht := hm
    simp only [List.mem_cons, reduceCtorEq, false_or] at ht
    simp only [Stmt.next, Vpn.look]
    split
    · exact hm
    · exact ht
  | _ => exact hm

theorem body_suffix {k : Kind} {code : List Stmt} (h : code <:+ watchdogBody k) :
    code = watchdogBody k ∨ .stopUnless .current ∉ code := by
  cases k <;>
    simp only [watchdogBody, List.suffix_cons_iff, List.suffix_nil] at h <;>
    rcases h with rfl | rfl | rfl | rfl | rfl <;> simp [watchdogBody]

theorem body_foreign {k : Kind} {code : List Stmt} (h : code <:+ watchdogBody k) :
    ∀ i ∈ code, i.foreign = true := by
  intro i hi
  have hb : ∀ i ∈ watchdogBody k, i.foreign = true := by cases k <;> decide
  exact hb i (h.subset hi)

theorem current_body (k : Kind) : .stopUnless .current ∈ watchdogBody k := by
  cases k <;> decide

/-- A watchdog past its check was armed for the newest generation. -/
theorem body_current {k : Kind} {i : Stmt} {rest : List Stmt} {s : Shared} {l : Local}
    (hb : i :: rest <:+ watchdogBody k)
    (hg : .stopUnless .current ∉ i :: rest → l.gen = s.generation)
    (hne : i.next s l rest ≠ []) : (i.save s l).gen = (i.effect s l).generation := by
  rcases body_suffix hb with he | hn
  · have hi : i = .stopUnless .current := by
      cases k <;> exact (List.cons.inj he).1
    subst hi
    by_cases h : l.gen = s.generation
    · exact h
    · refine absurd ?_ hne
      have hf : (s.generation == l.gen) = false := beq_false_of_ne (Ne.symm h)
      simp [Stmt.next, Guard.holds, hf]
  · have hf := body_foreign hb i List.mem_cons_self
    rw [foreign_effect hf]
    have hsave : (i.save s l).gen = l.gen := by cases i <;> first | rfl | cases hf
    exact hsave.trans (hg hn)

theorem main_orderly {s : Sys} {sh : Shared} {t : Task} (ho : Orderly s)
    (hs : Thread.step exec s.sh s.main = some (sh, t)) :
    Orderly { s with sh := sh, main := t } := by
  obtain ⟨i, rest, hc, he⟩ := Thread.step_some hs
  obtain ⟨hs', hl', hcode⟩ := exec_some he
  have hrole : t.loc.role = s.main.loc.role := by
    rw [hl']
    cases i <;> rfl
  refine ⟨fun K hK => ?_, fun K hK hb hne => ?_, fun k hk => ?_, fun k hk hb hne => ?_,
    fun h1 h2 => ?_, ho.handlers, ho.outside⟩
  · have hblock := ho.block K (hrole.symm.trans hK)
    rw [hc] at hblock
    rw [hcode]
    rcases hblock with hblock | hblock | hblock
    · cases hblock
    · cases hblock
      exact .inl rfl
    · exact .inr (hblock.next _ _)
  · have hblock := ho.block K (hrole.symm.trans hK)
    have hgen := ho.bumped K (hrole.symm.trans hK)
    rw [hc] at hblock hgen
    rw [hcode] at hb hne
    simp only [hs', hl']
    rcases hblock with hblock | hblock | hblock
    · cases hblock
    · cases hblock
      exact absurd rfl hne
    · refine hblock.generation ?_
      by_cases hi : i = .bump
      · exact .inl hi
      · refine .inr (hgen (fun hm => ?_) (List.cons_ne_nil _ _))
        rcases List.mem_cons.1 hm with hm | hm
        · exact hi hm.symm
        · exact hb (hblock.bump_next hm)
  · have hbody := ho.body k (hrole.symm.trans hk)
    rw [hc] at hbody
    rw [hcode]
    exact (next_sublist _ _ _ _).trans ((List.suffix_cons i rest).trans hbody)
  · have hbody := ho.body k (hrole.symm.trans hk)
    have hcur := ho.current k (hrole.symm.trans hk)
    rw [hc] at hbody hcur
    simp only [hs', hl']
    exact body_current hbody (fun hn => hcur hn (List.cons_ne_nil _ _)) (hcode ▸ hne)
  · rw [hrole] at h1 h2
    rw [ho.other h1 h2] at hc
    cases hc

/-- Only the newest generation and the main thread matter to `Orderly`. -/
theorem Orderly.congr {s : Sys} {sh : Shared} {hs os : List Task} (ho : Orderly s)
    (hg : sh.generation = s.sh.generation) (hh : ∀ t ∈ hs, ∀ i ∈ t.code, i.foreign = true)
    (hout : ∀ t ∈ os, ∀ i ∈ t.code, i.foreign = true) : Orderly ⟨sh, s.main, hs, os⟩ where
  block := ho.block
  bumped := fun K hK hb hne => (ho.bumped K hK hb hne).trans hg.symm
  body := ho.body
  current := fun k hk hb hne => (ho.current k hk hb hne).trans hg.symm
  other := ho.other
  handlers := hh
  outside := hout

theorem start_some {s s' : Sys} {role : Role} {gen : Nat} {code : List Stmt}
    (h : s.start role gen code = some s') :
    s.main.code = [] ∧ s' = { s with main := ⟨.init role gen s.sh.now, code⟩ } := by
  unfold Sys.start at h
  split at h
  · rename_i hi
    cases h
    exact ⟨List.isEmpty_iff.1 hi, rfl⟩
  · cases h

theorem fire_some {s s' : Sys} {j : Nat} (h : s.fire j = some s') :
    ∃ x, s.sh.jobs[j]? = some x ∧ x.status = .waiting ∧ x.due ≤ s.sh.now ∧ s.main.code = [] ∧
      s' = { s with
        sh := { s.sh with jobs := s.sh.jobs.set j { x with status := .started } }
        main := ⟨.init (.watchdog x.kind) x.gen s.sh.now, watchdogBody x.kind⟩ } := by
  unfold Sys.fire at h
  split at h
  · cases h
  · rename_i x hx
    split at h
    · rename_i hw
      obtain ⟨hm, rfl⟩ := start_some h
      exact ⟨x, hx, hw.1, hw.2, hm, rfl⟩
    · cases h

/-- **The main thread stays orderly**, whatever happens. -/
theorem step_orderly {s s' : Sys} {a : Act} (ho : Orderly s) (hs : step s a = some s') :
    Orderly s' := by
  cases a with
  | tick ms =>
    cases hs
    exact ho.congr rfl ho.handlers ho.outside
  | connect timeout l =>
    obtain ⟨-, rfl⟩ := start_some hs
    have hb := onConnectRequested_block timeout l
    exact
      { block := fun K hK => by cases hK; exact .inr (.inr hb)
        bumped := fun K hK hn => absurd (by simp [onConnectRequested]) hn
        body := fun k hk => by cases hk
        current := fun k hk => by cases hk
        other := fun _ h2 => absurd rfl (h2 .connect)
        handlers := ho.handlers
        outside := ho.outside }
  | disconnect st =>
    obtain ⟨-, rfl⟩ := start_some hs
    have hb := onDisconnectRequested_block st
    exact
      { block := fun K hK => by cases hK; exact .inr (.inr hb)
        bumped := fun K hK hn => absurd (by simp [onDisconnectRequested]) hn
        body := fun k hk => by cases hk
        current := fun k hk => by cases hk
        other := fun _ h2 => absurd rfl (h2 .disconnect)
        handlers := ho.handlers
        outside := ho.outside }
  | fire j =>
    obtain ⟨x, -, -, -, -, rfl⟩ := fire_some hs
    exact
      { block := fun K hK => by cases hK
        bumped := fun K hK => by cases hK
        body := fun k hk => by cases hk; exact List.suffix_refl _
        current := fun k hk hn => absurd (current_body x.kind) hn
        other := fun h1 _ => absurd rfl (h1 x.kind)
        handlers := ho.handlers
        outside := ho.outside }
  | main =>
    obtain ⟨⟨sh, t⟩, hm, rfl⟩ := Option.map_eq_some_iff.1 hs
    exact main_orderly ho hm
  | deliver r =>
    simp only [step] at hs
    split at hs
    · cases hs
      refine ho.congr rfl (fun t ht => ?_) ho.outside
      rcases List.mem_append.1 ht with ht | ht
      · exact ho.handlers t ht
      · rw [List.mem_singleton.1 ht]
        exact handle_foreign r
    · cases hs
  | handler n =>
    obtain ⟨⟨sh, ts⟩, hm, rfl⟩ := Option.map_eq_some_iff.1 hs
    obtain ⟨t, t', hn, hst, -⟩ := Thread.move_some hm
    have hg := (foreign_step (ho.handlers t (List.mem_of_getElem? hn)) hst).2
    exact ho.congr hg (Thread.forall_move hm ho.handlers
      (fun u u' _ hu hst => (foreign_step hu hst).1) fun _ _ hu => hu) ho.outside
  | enter e =>
    cases hs
    refine ho.congr rfl ho.handlers fun t ht => ?_
    rcases List.mem_append.1 ht with ht | ht
    · exact ho.outside t ht
    · rw [List.mem_singleton.1 ht]
      exact script_foreign e
  | outside n =>
    obtain ⟨⟨sh, ts⟩, hm, rfl⟩ := Option.map_eq_some_iff.1 hs
    obtain ⟨t, t', hn, hst, -⟩ := Thread.move_some hm
    have hg := (foreign_step (ho.outside t (List.mem_of_getElem? hn)) hst).2
    exact ho.congr hg ho.handlers (Thread.forall_move hm ho.outside
      (fun u u' _ hu hst => (foreign_step hu hst).1) fun _ _ hu => hu)

theorem fresh_orderly : Orderly .fresh :=
  { block := fun K hK => by cases hK
    bumped := fun K hK => by cases hK
    body := fun k hk => by cases hk
    current := fun k hk => by cases hk
    other := fun _ _ => rfl
    handlers := by simp [Sys.fresh]
    outside := by simp [Sys.fresh] }

end Ghajar.Vpn
