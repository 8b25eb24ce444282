import Ghajar.Tunnel.Places

/-!
# The truth of `enginesReady`

In a run where the operations do not overlap (`careful`) `enginesReady` means
that the engines of the recorded configuration run: `engines_run`, by the
invariant `Steady`. `switching_unready` is a switch in the middle.
-/

namespace Ghajar.Tunnel

open Run

/-- The engines of the recorded configuration were started for it, and not stopped since. -/
def Carries (s : Shared) : Prop :=
  ∃ c, s.current = some c ∧ ∀ e, c.needs e = true → s.up e = some c

/-! ## Runs in which the operations do not overlap -/

/-- No start is under way or still to report. -/
def Free (s : Sys) : Prop := ∀ t ∈ s.threads, ¬Underway t.code ∧ ¬Live s.sh t

instance (s : Sys) : Decidable (Free s) := by unfold Free; infer_instance

/-- A start or a switch passes its guard only while nothing runs and no start is
under way, a coroutine takes the lock only while `enginesReady` is off, a
cancelled start does not set it, the tun asked for zeptun is granted. -/
def careful (s : Sys) (t : Task) : Stmt → Prop
  | .enterStart => s.sh.started = true ∨ Free s
  | .enterSwitch => s.sh.tearingDown = true ∨ (s.sh.enginesReady = false ∧ Free s)
  | .lock => s.sh.enginesReady = false
  | .enginesReady true => s.sh.isCancelled t.loc.tid = false
  | .stopZeptun =>
    t.loc.role = .main → s.sh.enginesReady = false ∧ ∀ u ∈ s.threads, ¬Live s.sh u
  | .openTun => wantZeptun s.sh t.loc = true → t.loc.fault ≠ .tun
  | _ => True

instance (s : Sys) (t : Task) (i : Stmt) : Decidable (careful s t i) := by
  unfold careful
  split <;> infer_instance

/-- The condition on a step. -/
def Careful (s : Sys) : Act → Prop
  | .run n =>
    match s.threads[n]? with
    | some ⟨l, i :: rest⟩ => careful s ⟨l, i :: rest⟩ i
    | _ => True
  | _ => True

instance (s : Sys) (a : Act) : Decidable (Careful s a) := by
  unfold Careful
  split
  · split <;> infer_instance
  · infer_instance

/-- What a start under way has recorded. -/
structure Noted (s : Shared) (t : Task) : Prop where
  specs : ∀ e ∈ recorded, .record e ∉ t.code → s.specs e = t.loc.cfg.spec e
  current : .configName ∉ t.code → s.current = some t.loc.cfg

/-- What a start that can still report has done. -/
structure Carried (s : Shared) (t : Task) : Prop where
  specs : ∀ e ∈ recorded, s.specs e = t.loc.cfg.spec e
  current : s.current = some t.loc.cfg
  tun : .openTun ∉ t.code → s.zeptunOwnsTun = t.loc.cfg.needs .zeptun ∧
    t.loc.pfd = (t.loc.cfg.needs .zeptun || t.loc.cfg.needs .xray) ∧
    t.loc.singbox = t.loc.cfg.spec .singbox
  up : ∀ e, t.loc.cfg.needs e = true → .start e ∉ t.code → s.up e = some t.loc.cfg

theorem Noted.congr {s s' : Shared} {t : Task} (h : Noted s t) (hs : s'.specs = s.specs)
    (hc : s'.current = s.current) : Noted s' t :=
  ⟨fun e he hn => hs ▸ h.specs e he hn, fun hn => hc ▸ h.current hn⟩

theorem Carried.congr {s s' : Shared} {t : Task} (h : Carried s t) (hs : s'.specs = s.specs)
    (hc : s'.current = s.current) (ho : s'.zeptunOwnsTun = s.zeptunOwnsTun)
    (hu : s'.up = s.up) : Carried s' t :=
  ⟨fun e he => hs ▸ h.specs e he, hc ▸ h.current, fun hn => ho ▸ h.tun hn,
    fun e hn hs => hu ▸ h.up e hn hs⟩

structure Steady (s : Sys) : Prop where
  launched : s.sh.launched = []
  count : s.sh.count = s.threads.length
  tid : ∀ (n : Nat) (t : Task), s.threads[n]? = some t → t.loc.tid = n
  placed : ∀ t ∈ s.threads, wellPlaced t.loc.role t.code = true
  holder : ∀ t ∈ s.threads, InLock t.code → s.sh.engineLock = some t.loc.tid
  shut : ∀ t ∈ s.threads, InLock t.code → t.code ≠ [.unlock, .finish] → s.sh.enginesReady = false
  underway : ∀ t ∈ s.threads, Underway t.code → s.sh.enginesReady = false ∧ Noted s.sh t ∧
    ∀ u ∈ s.threads, ¬Live s.sh u ∧ (Underway u.code → u = t)
  live : ∀ t ∈ s.threads, Live s.sh t → s.sh.enginesReady = false ∧ Carried s.sh t ∧
    ∀ u ∈ s.threads, Live s.sh u → u = t
  carries : s.sh.enginesReady = true → Carries s.sh

theorem Steady.tid_inj {s : Sys} (h : Steady s) {t u : Task} (ht : t ∈ s.threads)
    (hu : u ∈ s.threads) (he : t.loc.tid = u.loc.tid) : t = u := by
  obtain ⟨n, hn⟩ := List.getElem?_of_mem ht
  obtain ⟨m, hm⟩ := List.getElem?_of_mem hu
  rw [h.tid n t hn, h.tid m u hm] at he
  subst he
  exact Option.some.inj (hn.symm.trans hm)

/-- Two threads are not in the lock at once. -/
theorem Steady.exclusive {s : Sys} (h : Steady s) {t u : Task} (ht : t ∈ s.threads)
    (hu : u ∈ s.threads) (hlt : InLock t.code) (hlu : InLock u.code) : t = u :=
  h.tid_inj ht hu (Option.some.inj ((h.holder t ht hlt).symm.trans (h.holder u hu hlu)))

theorem Config.spec_needs (c : Config) {e : Engine} (he : e ∈ recorded) :
    c.spec e = if c.needs e then some c else none := by
  simp only [recorded, List.mem_cons, List.not_mem_nil, or_false] at he
  rcases he with rfl | rfl | rfl | rfl <;> rfl

/-- The options come from the two specs alone. -/
theorem optionsProxyOnly_congr {f g : Engine → Option Config}
    (h : ∀ e ∈ recorded, f e = g e) : optionsProxyOnly f = optionsProxyOnly g := by
  unfold optionsProxyOnly
  rw [h .psiphon (by decide), h .aether (by decide)]

/-- A start that can still report starts what its configuration needs. -/
theorem Carried.attempt {s : Shared} {t : Task} (h : Carried s t) (ho : .openTun ∉ t.code)
    (e : Engine) : attempt s t.loc e = if t.loc.cfg.needs e then some t.loc.cfg else none := by
  obtain ⟨howns, hpfd, hsing⟩ := h.tun ho
  cases e with
  | aether | psiphon | tor =>
    simp only [Tunnel.attempt]
    rw [h.specs _ (by decide)]
    exact t.loc.cfg.spec_needs (by decide)
  | singbox =>
    simp only [Tunnel.attempt]
    rw [hsing]
    exact t.loc.cfg.spec_needs (by decide)
  | zeptun =>
    simp only [Tunnel.attempt, howns, hpfd]
    cases t.loc.cfg.needs .zeptun <;> simp
  | xray =>
    simp only [Tunnel.attempt, howns, hpfd, Config.needs]
    by_cases hp : optionsProxyOnly t.loc.cfg.spec = true <;> simp [hp]

/-- The tun of a start that can still report is as its configuration needs it. -/
theorem openTun_carried {rest : List Stmt} {s : Shared} {l : Local}
    (hcar : Carried s ⟨l, .openTun :: rest⟩) (hno : noTun s l = false)
    (hgrant : wantZeptun s l = true → l.fault ≠ .tun) :
    (Stmt.openTun.effect s l).zeptunOwnsTun = l.cfg.needs .zeptun ∧
      establish s l = (l.cfg.needs .zeptun || l.cfg.needs .xray) ∧
      s.specs .singbox = l.cfg.spec .singbox := by
  have hopt : optionsProxyOnly s.specs = optionsProxyOnly l.cfg.spec :=
    optionsProxyOnly_congr hcar.specs
  refine ⟨?_, ?_, hcar.specs .singbox (by decide)⟩
  all_goals
    simp only [Stmt.effect, hno, Bool.false_eq_true, if_false, Config.needs]
    simp only [noTun, establish, wantZeptun, hopt] at hno hgrant ⊢
    by_cases hp : optionsProxyOnly l.cfg.spec = true <;> by_cases hz : l.cfg.zeptun = true <;>
      simp_all

/-! ## One statement of a thread -/

section Moves

variable {s : Sys} {n : Nat} {l : Local} {i : Stmt} {rest : List Stmt}

/-- The thread after its statement. -/
def after (s : Shared) (l : Local) (i : Stmt) (rest : List Stmt) : Task :=
  ⟨i.save s l, i.next s l rest⟩

theorem runThread_some {s' : Sys} (h : s.runThread n = some s') :
    ∃ l i rest, s.threads[n]? = some ⟨l, i :: rest⟩ ∧ (i = .lock → s.sh.engineLock = none) ∧
      s' = ⟨{ i.effect s.sh l with launched := [] },
        s.threads.set n (after s.sh l i rest) ++ (i.effect s.sh l).launched⟩ := by
  obtain ⟨⟨sh, ts⟩, hm, rfl⟩ := Option.map_eq_some_iff.1 h
  obtain ⟨⟨l, code⟩, ⟨l', code'⟩, hn, hst, rfl⟩ := Thread.move_some hm
  obtain ⟨i, rest, hc, he⟩ := Thread.step_some hst
  obtain ⟨hlock, rfl, hl, hcode⟩ := exec_some he
  cases hc
  cases hl
  cases hcode
  exact ⟨l, i, rest, hn, hlock, rfl⟩

/-- The threads after a statement: the one that moved, the others, the launched ones. -/
theorem mem_moved (h : Steady s) (ht : s.threads[n]? = some ⟨l, i :: rest⟩) {t' : Task}
    {new : List Task} {u : Task} (hu : u ∈ s.threads.set n t' ++ new) :
    u = t' ∨ (u ∈ s.threads ∧ u ≠ ⟨l, i :: rest⟩) ∨ u ∈ new := by
  rcases List.mem_append.1 hu with hu | hu
  · obtain ⟨m, hm⟩ := List.getElem?_of_mem hu
    by_cases hmn : n = m
    · subst hmn
      rw [List.getElem?_set_self' , ht] at hm
      exact .inl (Option.some.inj hm).symm
    · rw [List.getElem?_set_ne hmn] at hm
      refine .inr (.inl ⟨List.mem_of_getElem? hm, fun he => hmn ?_⟩)
      subst he
      exact (h.tid n _ ht).symm.trans (h.tid m _ hm)
  · exact .inr (.inr hu)

theorem live_effect {u : Task} (hl : Live (i.effect s.sh l) u) : Live s.sh u :=
  ⟨hl.1, effect_cancelled hl.2⟩

/-- A new coroutine holds nothing; it can report if it is a start. -/
theorem launched_place (h : Steady s) {u : Task} (hu : u ∈ (i.effect s.sh l).launched) :
    wellPlaced u.loc.role u.code = true ∧ ¬Underway u.code ∧ ¬InLock u.code ∧
      (.enginesReady true ∈ u.code → i = .launchStart ∧ u.code = startBody ∧ u.loc.cfg = l.cfg) := by
  obtain ⟨-, -, -, hcfg, ⟨hi, hr, hc⟩ | ⟨hr, hc⟩ | ⟨hr, hc⟩⟩ := effect_launched h.launched hu
  · rw [hr, hc]
    exact ⟨by decide, by decide, by decide, fun _ => ⟨hi, rfl, hcfg⟩⟩
  · rw [hr, hc]
    exact ⟨by decide, by decide, by decide, fun hm => absurd hm (by decide)⟩
  · rw [hr, hc]
    exact ⟨by decide, by decide, by decide, fun hm => absurd hm (by decide)⟩

variable (h : Steady s) (ht : s.threads[n]? = some ⟨l, i :: rest⟩)
  (hlock : i = .lock → s.sh.engineLock = none) (hc : careful s ⟨l, i :: rest⟩ i)

include h ht

theorem Steady.here : wellPlaced l.role (i :: rest) = true :=
  h.placed _ (List.mem_of_getElem? ht)

/-- A statement that records belongs to the one start under way. -/
theorem Steady.recording (hi : i.records = true ∨ i = .launchStart) :
    s.sh.enginesReady = false ∧ Noted s.sh ⟨l, i :: rest⟩ ∧
      ∀ u ∈ s.threads, ¬Live s.sh u ∧ (Underway u.code → u = ⟨l, i :: rest⟩) := by
  refine h.underway _ (List.mem_of_getElem? ht) ?_
  rcases hi with hi | rfl
  · exact records_underway (h.here ht) hi
  · exact launchStart_underway (h.here ht)

theorem own_live (hl : Live (i.effect s.sh l) (after s.sh l i rest)) :
    Live s.sh ⟨l, i :: rest⟩ ∧ i.next s.sh l rest = rest := by
  have hcan := effect_cancelled hl.2
  rw [show (after s.sh l i rest).loc.tid = l.tid from save_fixed.2.1] at hcan
  have hn := next_ready (h.here ht) hcan hl.1
  have hm : .enginesReady true ∈ rest := hn ▸ hl.1
  exact ⟨⟨.tail _ hm, hcan⟩, hn⟩

include hc

theorem ready_moved (hr : (i.effect s.sh l).enginesReady = true) :
    s.sh.enginesReady = true ∨ (i = .enginesReady true ∧ Live s.sh ⟨l, i :: rest⟩ ∧
      rest = [.unlock, .finish] ∧ InLock (i :: rest)) := by
  rcases effect_ready hr with hr | rfl
  · exact .inl hr
  · obtain ⟨he, hin⟩ := ready_place (h.here ht)
    exact .inr ⟨rfl, ⟨List.mem_cons_self, hc⟩, he, hin⟩

theorem own_underway (hu : Underway (i.next s.sh l rest)) :
    i.next s.sh l rest = rest ∧ s.sh.enginesReady = false ∧ i ≠ .launchStart ∧
      (Underway (i :: rest) ∨ i = .enterStart ∨ i = .enterSwitch) ∧
      ∀ u ∈ s.threads, ¬Live s.sh u ∧ (Underway u.code → u = ⟨l, i :: rest⟩) := by
  obtain ⟨hs, hcase⟩ := next_underway (h.here ht) hu
  have hne : i ≠ .launchStart := by
    rintro rfl
    have hr : rest = [.assign] := by
      simpa [Stmt.fits] using (wellPlaced_cons.1 (h.here ht)).1
    subst hr
    exact absurd hu (by simp [Stmt.next, Underway])
  rcases hcase with hcode | ⟨rfl, hst⟩ | ⟨rfl, htd⟩
  · obtain ⟨hr, -, hfree⟩ := h.underway _ (List.mem_of_getElem? ht) hcode
    exact ⟨hs, hr, hne, .inl hcode, hfree⟩
  · have hfree : Free s := hc.resolve_left (by simp [hst])
    have hr : s.sh.enginesReady = false := by
      simp only [Shared.started, Bool.or_eq_false_iff] at hst
      exact hst.1.2
    exact ⟨hs, hr, hne, .inr (.inl rfl), fun u hu =>
      ⟨(hfree u hu).2, fun hu' => absurd hu' (hfree u hu).1⟩⟩
  · obtain ⟨hr, hfree⟩ : s.sh.enginesReady = false ∧ Free s := hc.resolve_left (by simp [htd])
    exact ⟨hs, hr, hne, .inr (.inr rfl), fun u hu =>
      ⟨(hfree u hu).2, fun hu' => absurd hu' (hfree u hu).1⟩⟩

/-- While another thread can still report, or `enginesReady` is on, what runs and what
is recorded stay as they are. -/
theorem undisturbed
    (hq : (∃ u ∈ s.threads, u ≠ ⟨l, i :: rest⟩ ∧ Live s.sh u ∧ InLock u.code) ∨
      s.sh.enginesReady = true) : i.touches = false := by
  by_contra hi
  rw [Bool.not_eq_false] at hi
  have hm : (⟨l, i :: rest⟩ : Task) ∈ s.threads := List.mem_of_getElem? ht
  rcases touches_place (h.here ht) hi with hu | ⟨hin, hne⟩ | ⟨rfl, hr⟩
  · obtain ⟨hr, -, hfree⟩ := h.underway _ hm hu
    rcases hq with ⟨u, hu, -, hl, -⟩ | hq
    · exact (hfree u hu).1 hl
    · rw [hr] at hq
      cases hq
  · rcases hq with ⟨u, hu, hn, -, hlu⟩ | hq
    · exact hn (h.exclusive hu hm hlu hin)
    · rw [h.shut _ hm hin hne] at hq
      cases hq
  · obtain ⟨hrd, hfree⟩ := hc hr
    rcases hq with ⟨u, hu, -, hl, -⟩ | hq
    · exact hfree u hu hl
    · rw [hrd] at hq
      cases hq

/-- A start under way notes what it records. -/
theorem own_noted (hu : Underway (i.next s.sh l rest)) :
    Noted (i.effect s.sh l) (after s.sh l i rest) := by
  obtain ⟨hn, -, -, hcase, -⟩ := own_underway h ht hc hu
  have hf := (wellPlaced_cons.1 (h.here ht)).1
  have hcode : (after s.sh l i rest).code = rest := hn
  have hcfg : (after s.sh l i rest).loc.cfg = l.cfg := save_fixed.2.2.1
  refine ⟨fun e he hm => ?_, fun hm => ?_⟩ <;> rw [hcode] at hm <;> rw [hcfg]
  · rcases hcase with hcase | rfl | rfl
    · have hnoted := (h.underway _ (List.mem_of_getElem? ht) hcase).2.1
      by_cases hi : i = .record e
      · subst hi
        exact Function.update_self _ _ _
      · have hold := hnoted.specs e he (by simp [hm, Ne.symm hi])
        by_cases hr : i.records = true
        · cases i with
          | record e' =>
            have hne : e ≠ e' := fun h' => hi (by rw [h'])
            exact (Function.update_of_ne hne _ _).trans hold
          | configName => exact hold
          | _ => cases hr
        · rw [(effect_recorded (by simpa using hr)).1]
          exact hold
    all_goals
      simp only [Stmt.fits, Bool.and_eq_true, List.all_eq_true, List.contains_iff_mem] at hf
      exact absurd (hf.1 e he) hm
  · rcases hcase with hcase | rfl | rfl
    · have hnoted := (h.underway _ (List.mem_of_getElem? ht) hcase).2.1
      by_cases hi : i = .configName
      · subst hi
        rfl
      · have hold := hnoted.current (by simp [hm, Ne.symm hi])
        by_cases hr : i.records = true
        · cases i with
          | record e' => exact hold
          | configName => exact absurd rfl hi
          | _ => cases hr
        · rw [(effect_recorded (by simpa using hr)).2]
          exact hold
    all_goals
      simp only [Stmt.fits, Bool.and_eq_true, List.all_eq_true, List.contains_iff_mem] at hf
      exact absurd hf.2 hm

/-- What a start does for its configuration, it has done as long as it can report. -/
theorem own_carried (hl : Live (i.effect s.sh l) (after s.sh l i rest)) :
    Carried (i.effect s.sh l) (after s.sh l i rest) := by
  obtain ⟨hlive, hn⟩ := own_live h ht hl
  have hm : (⟨l, i :: rest⟩ : Task) ∈ s.threads := List.mem_of_getElem? ht
  have hw := h.here ht
  have hf := (wellPlaced_cons.1 hw).1
  obtain ⟨-, hcar, -⟩ := h.live _ hm hlive
  have hready : .enginesReady true ∈ rest := hn ▸ hl.1
  have hidle : ¬Underway (i :: rest) := fun hu =>
    ((h.underway _ hm hu).2.2 _ hm).1 hlive
  have hrec : i.records = false := by
    by_contra hi
    exact hidle (records_underway hw (by simpa using hi))
  have hloc : (after s.sh l i rest).loc.cfg = l.cfg := save_fixed.2.2.1
  have hcode : (after s.sh l i rest).code = rest := hn
  obtain ⟨hspecs, hcur⟩ := effect_recorded (s := s.sh) (l := l) hrec
  have hsame : i ≠ .openTun → i.save s.sh l = l ∨ i = .launchStart := by
    intro ho
    cases i with
    | openTun => exact absurd rfl ho
    | launchStart => exact .inr rfl
    | _ => exact .inl rfl
  have hlaunch : i ≠ .launchStart := by
    rintro rfl
    exact hidle (launchStart_underway hw)
  have hplace : i.touches = true → i = .openTun ∨ (∃ e, i = .start e) ∨
      ∃ e, i = .stop e ∧ .start e ∈ rest := fun hi => by
    rcases live_touches hw hready hidle hi with hi | hi | hi | ⟨rfl, hr⟩
    · exact .inl hi
    · exact .inr (.inl hi)
    · exact .inr (.inr hi)
    · exact absurd hlive ((hc hr).2 _ hm)
  refine ⟨fun e he => ?_, ?_, fun ho => ?_, fun e hne hs => ?_⟩
  · rw [hspecs, hloc]
    exact hcar.specs e he
  · rw [hcur, hloc]
    exact hcar.current
  · rw [hcode] at ho
    by_cases hi : i = .openTun
    · subst hi
      exact openTun_carried hcar (next_openTun hw hl.1) hc
    · have hold := hcar.tun (by simp [ho, Ne.symm hi])
      have howns : (i.effect s.sh l).zeptunOwnsTun = s.sh.zeptunOwnsTun := by
        by_cases ht : i.touches = true
        · rcases hplace ht with rfl | ⟨e, rfl⟩ | ⟨e, rfl, -⟩
          · exact absurd rfl hi
          · simp only [Stmt.effect]
            (repeat' split) <;> rfl
          · rfl
        · exact (effect_touched (by simpa using ht)).2
      rw [howns]
      rcases hsame hi with hsave | hi
      · simp only [after, hsave]
        exact hold
      · exact absurd hi hlaunch
  · rw [hcode] at hs
    rw [hloc] at hne ⊢
    by_cases ht : i.touches = true
    · rcases hplace ht with rfl | ⟨e', rfl⟩ | ⟨e', rfl, hs'⟩
      · simp only [Stmt.fits, Bool.and_eq_true, List.all_eq_true, List.contains_iff_mem] at hf
        exact absurd (hf.2 e (by cases e <;> simp)) hs
      · simp only [Stmt.fits, Bool.and_eq_true, Bool.not_eq_true', List.contains_eq_mem,
          decide_eq_false_iff_not, beq_iff_eq] at hf
        have hat := hcar.attempt (by simpa using hf.2) e'
        rw [next_start hw hl.1, hat]
        by_cases he : e = e'
        · subst he
          simp only [hne, if_true, Option.elim_some, Function.update_self]
        · have hup := hcar.up e hne (by simp [hs, he])
          split
          · exact (Function.update_of_ne he _ _).trans hup
          · exact hup
      · have hne' : e ≠ e' := fun he => hs (he ▸ hs')
        have hup := hcar.up e hne (by simp [hs])
        exact (Function.update_of_ne hne' _ _).trans hup
    · rw [(effect_touched (by simpa using ht)).1]
      exact hcar.up e hne (fun hm' => by
        rcases List.mem_cons.1 hm' with rfl | hm'
        · exact ht rfl
        · exact hs hm')

/-- Another start that can still report keeps what it has done. -/
theorem other_carried {u : Task} (hu : u ∈ s.threads) (hne : u ≠ ⟨l, i :: rest⟩)
    (hl : Live s.sh u) : Carried (i.effect s.sh l) u := by
  obtain ⟨-, hcar, -⟩ := h.live _ hu hl
  have hrec : i.records = false := by
    by_contra hi
    exact ((h.recording ht (.inl (by simpa using hi))).2.2 u hu).1 hl
  obtain ⟨hspecs, hcur⟩ := effect_recorded (s := s.sh) (l := l) hrec
  have hquiet : .openTun ∉ u.code → i.touches = false := fun ho =>
    undisturbed h ht hc (.inl ⟨u, hu, hne, hl, live_inLock (h.placed u hu) hl.1 ho⟩)
  refine ⟨fun e he => ?_, ?_, fun ho => ?_, fun e hn hs => ?_⟩
  · rw [hspecs]
    exact hcar.specs e he
  · rw [hcur]
    exact hcar.current
  · rw [(effect_touched (hquiet ho)).2]
    exact hcar.tun ho
  · rw [(effect_touched (hquiet (start_opened (h.placed u hu) hs))).1]
    exact hcar.up e hn hs

/-- The coroutine a start launches carries what the start has recorded. -/
theorem launched_carried {u : Task} (hi : i = .launchStart) (hcode : u.code = startBody)
    (hcfg : u.loc.cfg = l.cfg) : Carried (i.effect s.sh l) u := by
  subst hi
  have hr : rest = [.assign] := by
    simpa [Stmt.fits] using (wellPlaced_cons.1 (h.here ht)).1
  subst hr
  obtain ⟨-, hnoted, -⟩ := h.recording ht (.inr rfl)
  refine ⟨fun e he => ?_, ?_, fun ho => ?_, fun e _ hs => ?_⟩
  · rw [hcfg]
    exact hnoted.specs e he (by simp)
  · rw [hcfg]
    exact hnoted.current (by simp)
  · exact absurd (by rw [hcode]; decide) ho
  · exact absurd (by rw [hcode]; cases e <;> decide) hs

theorem moved_carries (hr : (i.effect s.sh l).enginesReady = true) :
    Carries (i.effect s.sh l) := by
  have hm : (⟨l, i :: rest⟩ : Task) ∈ s.threads := List.mem_of_getElem? ht
  rcases ready_moved h ht hc hr with hr | ⟨rfl, hl, rfl, -⟩
  · have hrec : i.records = false := by
      by_contra hi
      rw [(h.recording ht (.inl (by simpa using hi))).1] at hr
      cases hr
    obtain ⟨c, hcur, hup⟩ := h.carries hr
    refine ⟨c, (effect_recorded hrec).2.trans hcur, fun e he => ?_⟩
    rw [(effect_touched (undisturbed h ht hc (.inr hr))).1]
    exact hup e he
  · obtain ⟨-, hcar, -⟩ := h.live _ hm hl
    exact ⟨l.cfg, hcar.current, fun e he => hcar.up e he (by simp)⟩

end Moves

/-- The new threads are numbered on. -/
theorem moved_count {s : Sys} {n : Nat} {l : Local} {i : Stmt} {t' : Task} (h : Steady s) :
    (i.effect s.sh l).count =
      (s.threads.set n t' ++ (i.effect s.sh l).launched).length := by
  rw [List.length_append, List.length_set, ← h.count]
  rcases hl : (i.effect s.sh l).launched with - | ⟨u, us⟩
  · exact effect_count hl
  · have hu : u ∈ (i.effect s.sh l).launched := by simp [hl]
    obtain ⟨hone, hcount, -⟩ := effect_launched h.launched hu
    rw [hl] at hone
    rw [hcount, hone]
    rfl

theorem moved_tid {s : Sys} {n m : Nat} {l : Local} {i : Stmt} {rest : List Stmt} {u : Task}
    (h : Steady s) (ht : s.threads[n]? = some ⟨l, i :: rest⟩)
    (hu : (s.threads.set n (after s.sh l i rest) ++ (i.effect s.sh l).launched)[m]? = some u) :
    u.loc.tid = m := by
  by_cases hm : m < s.threads.length
  · rw [List.getElem?_append_left (by simpa using hm)] at hu
    by_cases hmn : n = m
    · subst hmn
      rw [List.getElem?_set_self hm] at hu
      cases hu
      exact save_fixed.2.1.trans (h.tid n _ ht)
    · rw [List.getElem?_set_ne hmn] at hu
      exact h.tid m u hu
  · rw [List.getElem?_append_right (by simpa using hm), List.length_set] at hu
    obtain ⟨hone, -, htid, -⟩ := effect_launched h.launched (List.mem_of_getElem? hu)
    rw [hone] at hu
    have hlt : m - s.threads.length < 1 := (List.getElem?_eq_some_iff.1 hu).1
    rw [htid, h.count]
    omega

section Moved

variable {s : Sys} {n : Nat} {l : Local} {i : Stmt} {rest : List Stmt} (h : Steady s)
  (ht : s.threads[n]? = some ⟨l, i :: rest⟩) (hc : careful s ⟨l, i :: rest⟩ i)

include h ht

/-- A start is launched only while no other can still report. -/
theorem launched_live {u : Task} (hu : u ∈ (i.effect s.sh l).launched)
    (hl : Live (i.effect s.sh l) u) :
    i = .launchStart ∧ s.sh.enginesReady = false ∧ ∀ v ∈ s.threads, ¬Live s.sh v := by
  obtain ⟨rfl, -⟩ := (launched_place h hu).2.2.2 hl.1
  obtain ⟨hr, -, hfree⟩ := h.recording ht (.inr rfl)
  exact ⟨rfl, hr, fun v hv => (hfree v hv).1⟩

include hc

/-- `enginesReady` stays off while a start is under way or can still report. -/
theorem off_moved (hr : s.sh.enginesReady = false) (hno : ¬Live s.sh ⟨l, i :: rest⟩) :
    (i.effect s.sh l).enginesReady = false := by
  rw [← Bool.not_eq_true]
  intro hr'
  rcases ready_moved h ht hc hr' with hr0 | ⟨-, hl, -⟩
  · exact Bool.false_ne_true (hr.symm.trans hr0)
  · exact hno hl

theorem moved_underway {u : Task}
    (hu : u ∈ s.threads.set n (after s.sh l i rest) ++ (i.effect s.sh l).launched)
    (hun : Underway u.code) :
    (i.effect s.sh l).enginesReady = false ∧ Noted (i.effect s.sh l) u ∧
      ∀ v ∈ s.threads.set n (after s.sh l i rest) ++ (i.effect s.sh l).launched,
        ¬Live (i.effect s.sh l) v ∧ (Underway v.code → v = u) := by
  have hm : (⟨l, i :: rest⟩ : Task) ∈ s.threads := List.mem_of_getElem? ht
  have hw := h.here ht
  rcases mem_moved h ht hu with rfl | ⟨ho, hne⟩ | hl
  · obtain ⟨-, hr, hnl, -, hfree⟩ := own_underway h ht hc hun
    refine ⟨?_, own_noted h ht hc hun, fun v hv => ?_⟩
    · exact off_moved h ht hc hr (hfree _ hm).1
    · rcases mem_moved h ht hv with rfl | ⟨hvo, hvne⟩ | hvl
      · exact ⟨fun hl => (hfree _ hm).1 (own_live h ht hl).1, fun _ => rfl⟩
      · exact ⟨fun hl => (hfree v hvo).1 (live_effect hl),
          fun hu' => absurd ((hfree v hvo).2 hu') hvne⟩
      · exact ⟨fun hl => hnl (launched_live h ht hvl hl).1, fun hu' => absurd hu' (launched_place h hvl).2.1⟩
  · obtain ⟨hr, hnoted, hfree⟩ := h.underway u ho hun
    have hidle : ¬Underway (i :: rest) := fun hu' => hne ((hfree _ hm).2 hu').symm
    have hrec : i.records = false := by
      by_contra hi
      exact hidle (records_underway hw (by simpa using hi))
    obtain ⟨hspecs, hcur⟩ := effect_recorded (s := s.sh) (l := l) hrec
    refine ⟨?_, hnoted.congr hspecs hcur, fun v hv => ?_⟩
    · exact off_moved h ht hc hr (hfree _ hm).1
    · rcases mem_moved h ht hv with rfl | ⟨hvo, hvne⟩ | hvl
      · refine ⟨fun hl => (hfree _ hm).1 (own_live h ht hl).1, fun hu' => ?_⟩
        exact absurd (((own_underway h ht hc hu').2.2.2.2 u ho).2 hun) hne
      · exact ⟨fun hl => (hfree v hvo).1 (live_effect hl), (hfree v hvo).2⟩
      · refine ⟨fun hl => hidle ?_, fun hu' => absurd hu' (launched_place h hvl).2.1⟩
        obtain ⟨rfl, -⟩ := launched_live h ht hvl hl
        exact launchStart_underway hw
  · exact absurd hun (launched_place h hl).2.1

theorem moved_live {u : Task}
    (hu : u ∈ s.threads.set n (after s.sh l i rest) ++ (i.effect s.sh l).launched)
    (hl : Live (i.effect s.sh l) u) :
    (i.effect s.sh l).enginesReady = false ∧ Carried (i.effect s.sh l) u ∧
      ∀ v ∈ s.threads.set n (after s.sh l i rest) ++ (i.effect s.sh l).launched,
        Live (i.effect s.sh l) v → v = u := by
  have hm : (⟨l, i :: rest⟩ : Task) ∈ s.threads := List.mem_of_getElem? ht
  rcases mem_moved h ht hu with rfl | ⟨ho, hne⟩ | hul
  · obtain ⟨hlive, hn⟩ := own_live h ht hl
    obtain ⟨hr, -, huniq⟩ := h.live _ hm hlive
    refine ⟨?_, own_carried h ht hc hl, fun v hv hvl => ?_⟩
    · rw [← Bool.not_eq_true]
      intro hr'
      rcases ready_moved h ht hc hr' with hr0 | ⟨rfl, -, rfl, -⟩
      · exact Bool.false_ne_true (hr.symm.trans hr0)
      · exact absurd hl.1 (by simp [after, Stmt.next])
    · rcases mem_moved h ht hv with rfl | ⟨hvo, hvne⟩ | hvn
      · rfl
      · exact absurd (huniq v hvo (live_effect hvl)) hvne
      · exact absurd hlive ((launched_live h ht hvn hvl).2.2 _ hm)
  · have hlive := live_effect hl
    obtain ⟨hr, -, huniq⟩ := h.live u ho hlive
    have hno : ¬Live s.sh ⟨l, i :: rest⟩ := fun hl' => hne (huniq _ hm hl').symm
    refine ⟨?_, other_carried h ht hc ho hne hlive, fun v hv hvl => ?_⟩
    · exact off_moved h ht hc hr hno
    · rcases mem_moved h ht hv with rfl | ⟨hvo, -⟩ | hvn
      · exact absurd (own_live h ht hvl).1 hno
      · exact huniq v hvo (live_effect hvl)
      · exact absurd hlive ((launched_live h ht hvn hvl).2.2 u ho)
  · obtain ⟨rfl, hr, hfree⟩ := launched_live h ht hul hl
    obtain ⟨-, hcode, hcfg⟩ := (launched_place h hul).2.2.2 hl.1
    refine ⟨hr, launched_carried h ht hc rfl hcode hcfg, fun v hv hvl => ?_⟩
    rcases mem_moved h ht hv with rfl | ⟨hvo, -⟩ | hvn
    · exact absurd (own_live h ht hvl).1 (hfree _ hm)
    · exact absurd (live_effect hvl) (hfree v hvo)
    · have hone := (effect_launched h.launched hul).1
      rw [hone] at hvn
      exact List.mem_singleton.1 hvn

end Moved

/-- **One statement of one thread.** -/
theorem runThread_steady {s s' : Sys} {n : Nat} (h : Steady s) (hC : Careful s (.run n))
    (hs : s.runThread n = some s') : Steady s' := by
  obtain ⟨l, i, rest, ht, hlock, rfl⟩ := runThread_some hs
  have hc : careful s ⟨l, i :: rest⟩ i := by simpa [Careful, ht] using hC
  have hm : (⟨l, i :: rest⟩ : Task) ∈ s.threads := List.mem_of_getElem? ht
  have hw := h.here ht
  have hrole : (after s.sh l i rest).loc.role = l.role := save_fixed.1
  have htid : (after s.sh l i rest).loc.tid = l.tid := save_fixed.2.1
  have hnew := fun u (hu : u ∈ (i.effect s.sh l).launched) => launched_place h hu
  refine
    { launched := rfl
      count := moved_count h
      tid := fun m u hu => moved_tid h ht hu
      placed := fun u hu => ?_
      holder := fun u hu hin => ?_
      shut := fun u hu hin hne => ?_
      underway := fun u hu hun => ?_
      live := fun u hu hl => ?_
      carries := moved_carries h ht hc }
  · rcases mem_moved h ht hu with rfl | ⟨ho, -⟩ | hl
    · rw [hrole]
      exact next_wellPlaced hw
    · exact h.placed u ho
    · exact (hnew u hl).1
  · rcases mem_moved h ht hu with rfl | ⟨ho, hne⟩ | hl
    · rw [htid]
      rcases next_inLock hw hin with rfl | ⟨hin', hi⟩
      · rfl
      · refine (effect_lock (fun hl => ?_) hi).trans (h.holder _ hm hin')
        exact hin'.2 (by simp [hl])
    · have hold := h.holder u ho hin
      refine (effect_lock (fun hl => ?_) fun hl => ?_).trans hold
      · rw [hlock hl] at hold
        cases hold
      · subst hl
        exact hne (h.exclusive ho hm hin ⟨List.mem_cons_self, not_entry hw rfl rfl⟩)
    · exact absurd hin (hnew u hl).2.2.1
  · rw [← Bool.not_eq_true]
    intro hr
    have hrm := ready_moved h ht hc hr
    rcases mem_moved h ht hu with rfl | ⟨ho, hne'⟩ | hl
    · rcases hrm with hr0 | ⟨rfl, -, rfl, -⟩
      · rcases next_inLock hw hin with rfl | ⟨hin', hi⟩
        · exact Bool.false_ne_true (hc.symm.trans hr0)
        · have hcode : i :: rest ≠ [.unlock, .finish] := fun he => hi (List.cons.inj he).1
          exact Bool.false_ne_true ((h.shut _ hm hin' hcode).symm.trans hr0)
      · exact hne rfl
    · rcases hrm with hr0 | ⟨-, -, -, hin'⟩
      · exact Bool.false_ne_true ((h.shut u ho hin hne).symm.trans hr0)
      · exact hne' (h.exclusive ho hm hin hin')
    · exact (hnew u hl).2.2.1 hin
  · obtain ⟨hr, hn, hv⟩ := moved_underway h ht hc hu hun
    exact ⟨hr, hn.congr rfl rfl, hv⟩
  · obtain ⟨hr, hcar, hv⟩ := moved_live h ht hc hu hl
    exact ⟨hr, hcar.congr rfl rfl rfl rfl, hv⟩

/-! ## The other steps -/

/-- A new thread of the environment has passed no guard and holds nothing. -/
theorem begin_steady {s : Sys} {role : Role} {c : Config} {fault : Fault} {kill : Bool}
    {code : List Stmt} (h : Steady s) (hw : wellPlaced role code = true) (hu : ¬Underway code)
    (hin : ¬InLock code) (hr : .enginesReady true ∉ code) :
    Steady (s.begin role c fault kill code) := by
  have hmem : ∀ {t : Task}, t ∈ (s.begin role c fault kill code).threads → t ∈ s.threads ∨
      (t.loc.role = role ∧ t.code = code) := by
    intro t ht
    rcases List.mem_append.1 ht with ht | ht
    · exact .inl ht
    · rw [List.mem_singleton.1 ht]
      exact .inr ⟨rfl, rfl⟩
  refine
    { launched := h.launched
      count := ?_
      tid := fun n t hn => ?_
      placed := fun t ht => ?_
      holder := fun t ht hin' => ?_
      shut := fun t ht hin' hne => ?_
      underway := fun t ht hun => ?_
      live := fun t ht hl => ?_
      carries := h.carries }
  · show s.sh.count + 1 = _
    simp only [Sys.begin, List.length_append, List.length_singleton, h.count]
  · by_cases hlt : n < s.threads.length
    · simp only [Sys.begin, List.getElem?_append_left hlt] at hn
      exact h.tid n t hn
    · simp only [Sys.begin, List.getElem?_append_right (Nat.le_of_not_lt hlt)] at hn
      have hone : n - s.threads.length < 1 := (List.getElem?_eq_some_iff.1 hn).1
      rw [List.mem_singleton.1 (List.mem_of_getElem? hn)]
      show s.sh.count = n
      have := h.count
      omega
  · rcases hmem ht with ht | ⟨hro, hc⟩
    · exact h.placed t ht
    · rw [hro, hc]
      exact hw
  · rcases hmem ht with ht | ⟨-, hc⟩
    · exact h.holder t ht hin'
    · exact absurd (hc ▸ hin') hin
  · rcases hmem ht with ht | ⟨-, hc⟩
    · exact h.shut t ht hin' hne
    · exact absurd (hc ▸ hin') hin
  · rcases hmem ht with ht | ⟨-, hc⟩
    · obtain ⟨hrd, hn, hfree⟩ := h.underway t ht hun
      refine ⟨hrd, hn.congr rfl rfl, fun v hv => ?_⟩
      rcases hmem hv with hv | ⟨-, hvc⟩
      · exact hfree v hv
      · exact ⟨fun hl => hr (hvc ▸ hl.1), fun hu' => absurd (hvc ▸ hu') hu⟩
    · exact absurd (hc ▸ hun) hu
  · rcases hmem ht with ht | ⟨-, hc⟩
    · obtain ⟨hrd, hcar, huniq⟩ := h.live t ht hl
      refine ⟨hrd, hcar.congr rfl rfl rfl rfl, fun v hv hvl => ?_⟩
      rcases hmem hv with hv | ⟨-, hvc⟩
      · exact huniq v hv hvl
      · exact absurd (hvc ▸ hvl.1) hr
    · exact absurd (hc ▸ hl.1) hr

/-- What an interrupted coroutine has left. -/
theorem interrupted_place {r : Role} {code left : List Stmt} (hw : wellPlaced r code = true)
    (hi : interrupted code = some left) :
    (left = [.finish] ∧ ¬InLock code) ∨ (left = [.unlock, .finish] ∧ InLock code) := by
  match code, hi with
  | .lock :: rest, hi =>
    cases hi
    exact .inl ⟨rfl, fun hin => hin.2 List.mem_cons_self⟩
  | .start e :: rest, hi =>
    have hf := (wellPlaced_cons.1 hw).1
    simp only [Stmt.fits, Bool.and_eq_true, beq_iff_eq] at hf
    simp only [interrupted] at hi
    split at hi
    · cases hi
    · cases hi
      refine .inr ⟨hf.1.1, ?_, not_entry hw rfl rfl⟩
      exact .tail _ ((leave_suffix rest).subset (by simp [hf.1.1]))

theorem interrupt_some {s s' : Sys} {n : Nat} (hs : s.interrupt n = some s') :
    ∃ t left, s.threads[n]? = some t ∧ interrupted t.code = some left ∧
      s' = ⟨s.sh, s.threads.set n ⟨t.loc, left⟩⟩ := by
  unfold Sys.interrupt at hs
  split at hs
  · cases hs
  · rename_i t ht
    split at hs
    · obtain ⟨left, hi, rfl⟩ := Option.map_eq_some_iff.1 hs
      exact ⟨t, left, ht, hi, rfl⟩
    · cases hs

/-- An interrupted coroutine was cancelled; it leaves the lock if it holds it. -/
theorem interrupt_steady {s s' : Sys} {n : Nat} (h : Steady s) (hs : s.interrupt n = some s') :
    Steady s' := by
  obtain ⟨t, left, ht, hi, rfl⟩ := interrupt_some hs
  have hm : t ∈ s.threads := List.mem_of_getElem? ht
  have hmem : ∀ {u : Task}, u ∈ s.threads.set n ⟨t.loc, left⟩ → u = ⟨t.loc, left⟩ ∨
      u ∈ s.threads := fun hu => (List.mem_or_eq_of_mem_set hu).symm
  have hplace := interrupted_place (h.placed t hm) hi
  have hnew : wellPlaced t.loc.role left = true ∧ ¬Underway left ∧
      .enginesReady true ∉ left ∧ (InLock left → InLock t.code ∧ left = [.unlock, .finish]) := by
    rcases hplace with ⟨rfl, -⟩ | ⟨rfl, hin⟩
    · exact ⟨by cases t.loc.role <;> decide, by decide, by decide, fun hin => absurd hin (by decide)⟩
    · exact ⟨by cases t.loc.role <;> decide, by decide, by decide, fun _ => ⟨hin, rfl⟩⟩
  obtain ⟨hw, hu, hr, hin⟩ := hnew
  refine
    { launched := h.launched
      count := by rw [List.length_set]; exact h.count
      tid := fun m u hn => ?_
      placed := fun u hm' => ?_
      holder := fun u hm' hin' => ?_
      shut := fun u hm' hin' hne => ?_
      underway := fun u hm' hun => ?_
      live := fun u hm' hl => ?_
      carries := h.carries }
  · by_cases hmn : n = m
    · subst hmn
      rw [List.getElem?_set_self', ht] at hn
      cases hn
      exact h.tid n t ht
    · rw [List.getElem?_set_ne hmn] at hn
      exact h.tid m u hn
  · rcases hmem hm' with rfl | hm'
    · exact hw
    · exact h.placed u hm'
  · rcases hmem hm' with rfl | hm'
    · exact h.holder t hm (hin hin').1
    · exact h.holder u hm' hin'
  · rcases hmem hm' with rfl | hm'
    · exact absurd (hin hin').2 hne
    · exact h.shut u hm' hin' hne
  · rcases hmem hm' with rfl | hm'
    · exact absurd hun hu
    · obtain ⟨hrd, hn, hfree⟩ := h.underway u hm' hun
      refine ⟨hrd, hn, fun v hv => ?_⟩
      rcases hmem hv with rfl | hv
      · exact ⟨fun hl => hr hl.1, fun hu' => absurd hu' hu⟩
      · exact hfree v hv
  · rcases hmem hm' with rfl | hm'
    · exact absurd hl.1 hr
    · obtain ⟨hrd, hcar, huniq⟩ := h.live u hm' hl
      refine ⟨hrd, hcar, fun v hv hvl => ?_⟩
      rcases hmem hv with rfl | hv
      · exact absurd hvl.1 hr
      · exact huniq v hv hvl

theorem command_steady {s s' : Sys} {c : Config} {fault : Fault} {kill : Bool}
    {code : List Stmt} (h : Steady s) (hw : wellPlaced .main code = true) (hu : ¬Underway code)
    (hin : ¬InLock code) (hr : .enginesReady true ∉ code)
    (hs : s.command c fault kill code = some s') : Steady s' := by
  unfold Sys.command at hs
  split at hs
  · cases hs
    exact begin_steady h hw hu hin hr
  · cases hs

theorem step_steady (s : Sys) (a : Act) (s' : Sys) (h : Steady s) (hC : Careful s a)
    (hs : step s a = some s') : Steady s' := by
  cases a with
  | startCommand c json fault kill =>
    cases json <;>
      exact command_steady h (by decide) (by decide) (by decide) (by decide) hs
  | stopCommand => exact command_steady h (by decide) (by decide) (by decide) (by decide) hs
  | destroy =>
    obtain ⟨s1, hs1, rfl⟩ := Option.map_eq_some_iff.1 hs
    have h1 := command_steady h (by decide) (by decide) (by decide) (by decide) hs1
    exact
      { launched := h1.launched
        count := h1.count
        tid := h1.tid
        placed := h1.placed
        holder := h1.holder
        shut := h1.shut
        underway := fun t ht hu => by
          obtain ⟨hr, hn, hf⟩ := h1.underway t ht hu
          exact ⟨hr, hn.congr rfl rfl, hf⟩
        live := fun t ht hl => by
          obtain ⟨hr, hcar, hq⟩ := h1.live t ht hl
          exact ⟨hr, hcar.congr rfl rfl rfl rfl, hq⟩
        carries := h1.carries }
  | switch c fault kill =>
    cases hs
    exact begin_steady h (by decide) (by decide) (by decide) (by decide)
  | fail kill =>
    cases hs
    exact begin_steady h (by decide) (by decide) (by decide) (by decide)
  | run n => exact runThread_steady h hC hs
  | interrupt n => exact interrupt_steady h hs

theorem fresh_steady : Steady .fresh :=
  { launched := rfl
    count := rfl
    tid := fun n t ht => by simp [Sys.fresh] at ht
    placed := by simp [Sys.fresh]
    holder := by simp [Sys.fresh]
    shut := by simp [Sys.fresh]
    underway := by simp [Sys.fresh]
    live := by simp [Sys.fresh]
    carries := fun hr => by cases hr }

/-- A configuration that Xray carries. -/
def vless (id : Nat) : Config := ⟨id, false, false, false, false, false, false⟩

/-- A start, up to its report. -/
def started : List Act :=
  .startCommand (vless 1) true .none false :: (List.replicate 10 (.run 0) ++
    List.replicate 15 (.run 1))

end Ghajar.Tunnel
