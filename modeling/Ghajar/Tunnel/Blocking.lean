import Mathlib.Tactic.ByContra
import Ghajar.Tunnel.KillSwitch

/-!
# Where a thread of the kill switch is

`codes` lists what a thread of each role can have left, with the kill switch on, so that
a fact about the place of a statement is one about a finite list (`of_codes`). `Placed`
says that every thread is in the list of its role and who holds the lock.
-/

namespace Ghajar.KillSwitch

open Run

/-! ## Where a thread can be -/

/-- The end of a start that fails. -/
def failed : List Stmt := die true ++ [.unlock, .finish]

/-- The end of a teardown, with the kill switch on. -/
def ending (error : Bool) (rest : List Stmt) : List Stmt :=
  (if error then enterKillSwitch else endSession) ++ rest

def codes : Role → List (List Stmt)
  | .main =>
    stopCommand.tails ++ (onStartCommand true).tails ++ (onStartCommand false).tails ++
      onDestroy.tails
  | .switch => switchTunnel.tails
  | .other => (die true).tails
  | .start => startBody.tails ++ failed.tails
  | .teardown error =>
    (teardownBody error).tails ++ (ending error [.unlock]).tails ++ [[.finish]]
  | .destroy => destroyBody.tails ++ [[.finish]]

/-- What a thread can have left after a statement, with the kill switch on. -/
def outcomes : List Stmt → List (List Stmt)
  | [] => []
  | i :: rest =>
    match i with
    | .enterStart | .enterSwitch | .unlessTun => [[], rest]
    | .unlessTearing _ | .ensureActive => [leave rest, rest]
    | .openTun | .engines => [die true ++ leave rest, rest]
    | .killSwitch error => [ending error rest]
    | _ => [rest]

/-- A coroutine that holds `engineLock`. -/
def InLock (code : List Stmt) : Prop := .unlock ∈ code ∧ .lock ∉ code

instance (code : List Stmt) : Decidable (InLock code) := by
  unfold InLock
  infer_instance

def roles : List Role := [.main, .switch, .other, .start, .teardown true, .teardown false, .destroy]

theorem mem_roles (r : Role) : r ∈ roles := by
  cases r with
  | teardown error => cases error <;> decide
  | _ => decide

/-- What all codes of all roles have, each of them has. -/
theorem of_codes {P : Role → List Stmt → Prop} (h : ∀ r ∈ roles, ∀ c ∈ codes r, P r c) {r : Role}
    {c : List Stmt} (hc : c ∈ codes r) : P r c :=
  h r (mem_roles r) c hc

/-! ## One statement of a thread -/

section Moves

variable {o : Options} {s s' : Sys} {n : Nat} {l : Local} {i : Stmt} {rest : List Stmt}

/-- The thread after its statement. -/
def after (o : Options) (s : Shared) (l : Local) (i : Stmt) (rest : List Stmt) : Task :=
  ⟨i.save o s l, i.next o s l rest⟩

theorem runThread_some (h : s.runThread o n = some s') :
    ∃ l i rest, s.threads[n]? = some ⟨l, i :: rest⟩ ∧ (i = .lock → s.sh.engineLock = none) ∧
      s' = ⟨{ i.effect o s.sh l with launched := [] },
        s.threads.set n (after o s.sh l i rest) ++ (i.effect o s.sh l).launched⟩ := by
  obtain ⟨⟨sh, ts⟩, hm, rfl⟩ := Option.map_eq_some_iff.1 h
  obtain ⟨⟨l, code⟩, ⟨l', code'⟩, hn, hst, rfl⟩ := Thread.move_some hm
  obtain ⟨i, rest, hc, he⟩ := Thread.step_some hst
  unfold exec at he
  split at he
  · cases he
  · rename_i hlock
    cases hc
    cases he
    refine ⟨l, i, rest, hn, fun hi => ?_, rfl⟩
    by_contra hne
    exact hlock ⟨hi, hne⟩

theorem save_role : (i.save o s.sh l).role = l.role := by cases i <;> rfl

theorem save_tid : (i.save o s.sh l).tid = l.tid := by cases i <;> rfl

theorem next_outcome (hk : o.killSwitch = true) (hp : o.proxyOnly = false) :
    i.next o s.sh l rest ∈ outcomes (i :: rest) := by
  have hif : ∀ (b : Bool) (x y : List Stmt), (if b then x else y) ∈ [x, y] := by
    intro b x y
    cases b <;> simp
  cases i with
  | killSwitch error => cases error <;> simp [Stmt.next, outcomes, ending, hk, hp]
  | openTun => exact hif _ _ _
  | engines => simp only [Stmt.next, outcomes]; split <;> simp
  | enterStart | enterSwitch | unlessTun | unlessTearing | ensureActive => exact hif _ _ _
  | _ => exact List.mem_singleton.2 rfl

/-- The statements that may or may not change a descriptor change nothing else. -/
theorem effect_frame (o : Options) (sh : Shared) (l : Local)
    (h : i = .openTun ∨ i = .replaceBlock) : ∃ tun block owed, i.effect o sh l =
      { sh with tunFd := tun, blockFd := block, owed := owed } := by
  rcases h with rfl | rfl
  · simp only [Stmt.effect]
    split <;> exact ⟨_, _, _, rfl⟩
  · simp only [Stmt.effect]
    split <;> exact ⟨_, _, _, rfl⟩

/-- A launched coroutine, and what launches it. -/
theorem effect_launched {sh : Shared} {u : Task} (hs : sh.launched = [])
    (h : u ∈ (i.effect o sh l).launched) :
    (i.effect o sh l).launched = [u] ∧ (i.effect o sh l).count = sh.count + 1 ∧
      u.loc.tid = sh.count ∧
      ((i = .launchStart ∧ u.loc.role = .start ∧ u.code = startBody) ∨
        (∃ error, i = .launchTeardown error ∧ u.loc.role = .teardown error ∧
          u.code = teardownBody error) ∨
        (i = .launchDestroy ∧ u.loc.role = .destroy ∧ u.code = destroyBody)) := by
  by_cases ht : i = .openTun ∨ i = .replaceBlock
  · obtain ⟨_, _, _, he⟩ := effect_frame o sh l ht
    rw [he] at h
    exact absurd (hs ▸ h) List.not_mem_nil
  · cases i with
    | launchStart =>
      rw [show u = _ from List.mem_singleton.1 h]
      exact ⟨rfl, rfl, rfl, .inl ⟨rfl, rfl, rfl⟩⟩
    | launchTeardown error =>
      rw [show u = _ from List.mem_singleton.1 h]
      exact ⟨rfl, rfl, rfl, .inr (.inl ⟨error, rfl, rfl, rfl⟩)⟩
    | launchDestroy =>
      rw [show u = _ from List.mem_singleton.1 h]
      exact ⟨rfl, rfl, rfl, .inr (.inr ⟨rfl, rfl, rfl⟩)⟩
    | openTun => exact absurd (.inl rfl) ht
    | replaceBlock => exact absurd (.inr rfl) ht
    | _ => exact absurd (hs ▸ h) List.not_mem_nil

theorem effect_count {sh : Shared} (hs : sh.launched = []) :
    (i.effect o sh l).count = sh.count + (i.effect o sh l).launched.length := by
  have hsame : sh.count = sh.count + sh.launched.length := by rw [hs]; rfl
  by_cases ht : i = .openTun ∨ i = .replaceBlock
  · obtain ⟨_, _, _, he⟩ := effect_frame o sh l ht
    rw [he]
    exact hsame
  · cases i with
    | launchStart | launchTeardown | launchDestroy => rfl
    | openTun => exact absurd (.inl rfl) ht
    | replaceBlock => exact absurd (.inr rfl) ht
    | _ => exact hsame

theorem effect_lock {sh : Shared} (h1 : i ≠ .lock) (h2 : i ≠ .unlock) :
    (i.effect o sh l).engineLock = sh.engineLock := by
  by_cases ht : i = .openTun ∨ i = .replaceBlock
  · obtain ⟨_, _, _, he⟩ := effect_frame o sh l ht
    rw [he]
  · cases i with
    | lock => exact absurd rfl h1
    | unlock => exact absurd rfl h2
    | openTun => exact absurd (.inl rfl) ht
    | replaceBlock => exact absurd (.inr rfl) ht
    | _ => rfl

end Moves

/-- Where the threads are, and who holds the lock. -/
structure Placed (s : Sys) : Prop where
  launched : s.sh.launched = []
  count : s.sh.count = s.threads.length
  tid : ∀ (n : Nat) (t : Task), s.threads[n]? = some t → t.loc.tid = n
  codes : ∀ t ∈ s.threads, t.code ∈ codes t.loc.role
  holder : ∀ t ∈ s.threads, InLock t.code → s.sh.engineLock = some t.loc.tid

namespace Placed

variable {o : Options} {s s' : Sys} {n : Nat} {l : Local} {i : Stmt} {rest : List Stmt}

theorem tid_inj (h : Placed s) {t u : Task} (ht : t ∈ s.threads) (hu : u ∈ s.threads)
    (he : t.loc.tid = u.loc.tid) : t = u := by
  obtain ⟨n, hn⟩ := List.getElem?_of_mem ht
  obtain ⟨m, hm⟩ := List.getElem?_of_mem hu
  rw [h.tid n t hn, h.tid m u hm] at he
  subst he
  exact Option.some.inj (hn.symm.trans hm)

/-- Two threads are not in the lock at once. -/
theorem exclusive (h : Placed s) {t u : Task} (ht : t ∈ s.threads) (hu : u ∈ s.threads)
    (hlt : InLock t.code) (hlu : InLock u.code) : t = u :=
  h.tid_inj ht hu (Option.some.inj ((h.holder t ht hlt).symm.trans (h.holder u hu hlu)))

/-- The threads after a statement: the one that moved, the others, the launched ones. -/
theorem mem_moved (h : Placed s) {t t' : Task} (ht : s.threads[n]? = some t)
    {new : List Task} {u : Task} (hu : u ∈ s.threads.set n t' ++ new) :
    u = t' ∨ (u ∈ s.threads ∧ u ≠ t) ∨ u ∈ new := by
  rcases List.mem_append.1 hu with hu | hu
  · obtain ⟨m, hm⟩ := List.getElem?_of_mem hu
    by_cases hmn : n = m
    · subst hmn
      rw [List.getElem?_set_self', ht] at hm
      exact .inl (Option.some.inj hm).symm
    · rw [List.getElem?_set_ne hmn] at hm
      refine .inr (.inl ⟨List.mem_of_getElem? hm, fun he => hmn ?_⟩)
      subst he
      exact (h.tid n _ ht).symm.trans (h.tid m _ hm)
  · exact .inr (.inr hu)

/-- A thread that is not the one that moved is still there, and the one that moved is. -/
theorem moved_mem {t t' : Task} (ht : s.threads[n]? = some t) (new : List Task) :
    t' ∈ s.threads.set n t' ++ new ∧
      ∀ u ∈ s.threads, u ≠ t → u ∈ s.threads.set n t' ++ new := by
  have hlt := (List.getElem?_eq_some_iff.1 ht).1
  refine ⟨List.mem_append_left _ (List.mem_set hlt t'), fun u hu hne => ?_⟩
  obtain ⟨m, hm⟩ := List.getElem?_of_mem hu
  have hmn : n ≠ m := by
    rintro rfl
    exact hne (Option.some.inj (hm.symm.trans ht))
  refine List.mem_append_left _ (List.mem_of_getElem? (i := m) ?_)
  rw [List.getElem?_set_ne hmn]
  exact hm

theorem tid_moved (h : Placed s) {t t' : Task} (ht : s.threads[n]? = some t)
    (he : t'.loc.tid = t.loc.tid) {new : List Task}
    (hnew : ∀ (m : Nat) (u : Task), new[m]? = some u → u.loc.tid = s.threads.length + m) :
    ∀ (m : Nat) (u : Task), (s.threads.set n t' ++ new)[m]? = some u → u.loc.tid = m := by
  intro m u hu
  by_cases hm : m < s.threads.length
  · rw [List.getElem?_append_left (by rw [List.length_set]; exact hm)] at hu
    by_cases hmn : n = m
    · subst hmn
      rw [List.getElem?_set_self', ht] at hu
      rw [← Option.some.inj hu]
      exact he.trans (h.tid n t ht)
    · rw [List.getElem?_set_ne hmn] at hu
      exact h.tid m u hu
  · rw [List.getElem?_append_right (by rw [List.length_set]; omega), List.length_set] at hu
    have := hnew _ u hu
    omega

theorem begin_placed (h : Placed s) (sh : Shared) (hl : sh.launched = []) (hn : sh.count = s.sh.count)
    (hk : sh.engineLock = s.sh.engineLock) {role : Role} (fault : Fault) {code : List Stmt}
    (hc : code ∈ KillSwitch.codes role) (hin : ¬InLock code) :
    Placed (({ s with sh := sh } : Sys).begin role fault code) := by
  have hcount := h.count
  refine ⟨hl, ?_, fun m u hu => ?_, fun u hu => ?_, fun u hu hin' => ?_⟩
  · simp only [Sys.begin, List.length_append, List.length_singleton]
    omega
  · simp only [Sys.begin] at hu
    by_cases hm : m < s.threads.length
    · rw [List.getElem?_append_left hm] at hu
      exact h.tid m u hu
    · rw [List.getElem?_append_right (by omega), List.getElem?_singleton] at hu
      split at hu
      · cases hu
        show sh.count = m
        omega
      · cases hu
  · rcases List.mem_append.1 hu with hu | hu
    · exact h.codes u hu
    · rw [List.mem_singleton.1 hu]
      exact hc
  · rcases List.mem_append.1 hu with hu | hu
    · show sh.engineLock = some u.loc.tid
      rw [hk]
      exact h.holder u hu hin'
    · rw [List.mem_singleton.1 hu] at hin'
      exact absurd hin' hin

theorem run_placed (hk : o.killSwitch = true) (hp : o.proxyOnly = false) (h : Placed s)
    (hs : s.runThread o n = some s') : Placed s' := by
  obtain ⟨l, i, rest, ht, hlock, rfl⟩ := runThread_some hs
  have hmem : (⟨l, i :: rest⟩ : Task) ∈ s.threads := List.mem_of_getElem? ht
  have hcode := h.codes _ hmem
  have hout : i.next o s.sh l rest ∈ outcomes (i :: rest) := next_outcome hk hp
  have hcount := effect_count (o := o) (i := i) (l := l) h.launched
  have hbody : ∀ u ∈ (i.effect o s.sh l).launched,
      u.code ∈ KillSwitch.codes u.loc.role ∧ ¬InLock u.code := by
    intro u hu
    obtain ⟨-, -, -, ⟨-, hr, hc⟩ | ⟨error, -, hr, hc⟩ | ⟨-, hr, hc⟩⟩ :=
      effect_launched h.launched hu
    · rw [hr, hc]
      exact ⟨by decide, by decide⟩
    · rw [hr, hc]
      cases error <;> exact ⟨by decide, by decide⟩
    · rw [hr, hc]
      exact ⟨by decide, by decide⟩
  refine ⟨rfl, ?_, h.tid_moved ht save_tid fun m u hu => ?_, fun u hu => ?_, fun u hu hin => ?_⟩
  · have := h.count
    simp only [List.length_append, List.length_set]
    omega
  · obtain ⟨hsing, -, htid, -⟩ := effect_launched h.launched (List.mem_of_getElem? hu)
    rw [hsing, List.getElem?_singleton] at hu
    split at hu
    · have := h.count
      omega
    · cases hu
  · rcases h.mem_moved ht hu with rfl | ⟨hu, -⟩ | hu
    · rw [after, save_role]
      exact of_codes (P := fun r c => ∀ c' ∈ outcomes c, c' ∈ KillSwitch.codes r) (by decide) hcode
        _ hout
    · exact h.codes u hu
    · exact (hbody u hu).1
  · rcases h.mem_moved ht hu with rfl | ⟨hmu, hne⟩ | hu
    · show (i.effect o s.sh l).engineLock = some (i.save o s.sh l).tid
      rw [save_tid]
      rcases of_codes (P := fun _ c => ∀ c' ∈ outcomes c, InLock c' →
        c.head? = some .lock ∨ (InLock c ∧ c.head? ≠ some .unlock)) (by decide) hcode _ hout hin
        with hi | ⟨hin', hi⟩
      · cases hi
        rfl
      · by_cases hi' : i = .lock
        · subst hi'
          rfl
        · rw [effect_lock hi' (fun hi'' => hi (by rw [hi'']; rfl))]
          exact h.holder _ hmem hin'
    · show (i.effect o s.sh l).engineLock = some u.loc.tid
      have hold := h.holder u hmu hin
      by_cases hi : i = .lock
      · rw [hlock hi] at hold
        cases hold
      · by_cases hi' : i = .unlock
        · -- only the holder leaves the lock
          subst hi'
          have hin' : InLock (.unlock :: rest) :=
            of_codes (P := fun _ c => c.head? = some .unlock → InLock c) (by decide) hcode rfl
          exact absurd (h.exclusive hmu hmem hin hin') hne
        · rw [effect_lock hi hi']
          exact hold
    · exact absurd hin (hbody u hu).2

theorem interrupt_some (hs : s.interrupt n = some s') :
    ∃ t code, s.threads[n]? = some t ∧ interrupted t.code = some code ∧
      (s.sh.scopeCancelled = true ∨ t.loc.role = .start) ∧
      s' = ⟨s.sh, s.threads.set n ⟨t.loc, code⟩ ++ []⟩ := by
  obtain ⟨t, ht, hs⟩ := Option.bind_eq_some_iff.1 hs
  split at hs
  · rename_i hc
    obtain ⟨code, hcode, rfl⟩ := Option.map_eq_some_iff.1 hs
    refine ⟨t, code, ht, hcode, ?_, by rw [List.append_nil]⟩
    simp only [Bool.or_eq_true, Bool.and_eq_true, decide_eq_true_eq] at hc
    exact hc.imp id And.left
  · cases hs

theorem interrupt_placed (h : Placed s) (hs : s.interrupt n = some s') : Placed s' := by
  obtain ⟨t, code, ht, hc, -, rfl⟩ := interrupt_some hs
  have hcode := h.codes _ (List.mem_of_getElem? ht)
  have hnew : ∀ (m : Nat) (u : Task), ([] : List Task)[m]? = some u →
      u.loc.tid = s.threads.length + m := fun m u hu =>
    absurd (List.mem_of_getElem? hu) List.not_mem_nil
  have htid : ∀ (m : Nat) (u : Task), (s.threads.set n ⟨t.loc, code⟩ ++ [])[m]? = some u →
      u.loc.tid = m :=
    h.tid_moved ht (show (⟨t.loc, code⟩ : Task).loc.tid = t.loc.tid from rfl) hnew
  refine ⟨h.launched, ?_, htid, fun u hu => ?_, fun u hu hin => ?_⟩
  · simp only [List.append_nil, List.length_set]
    exact h.count
  · rcases h.mem_moved ht hu with rfl | ⟨hu, -⟩ | hu
    · exact of_codes (P := fun r c => ∀ c' ∈ interrupted c, c' ∈ KillSwitch.codes r) (by decide)
        hcode _ hc
    · exact h.codes u hu
    · cases hu
  · rcases h.mem_moved ht hu with rfl | ⟨hu, -⟩ | hu
    · exact h.holder t (List.mem_of_getElem? ht) (of_codes
        (P := fun _ c => ∀ c' ∈ interrupted c, InLock c' → InLock c) (by decide) hcode _ hc hin)
    · exact h.holder u hu hin
    · cases hu

end Placed

end Ghajar.KillSwitch
