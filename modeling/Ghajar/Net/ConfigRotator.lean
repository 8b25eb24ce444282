import Mathlib
import Ghajar.Config.TextPlatform
import Ghajar.Share.Starts

/-!
# Moving on to the next server

`ConfigRotator.rotateOnce` and the refusals of `VpnLauncher.relaunch`. The next server is the one
after the server that the tunnel runs on, and it is selected before it is known whether it can be
launched. `progress_iff` says exactly when every candidate has its turn.
-/

namespace Ghajar.Rotator

open Ghajar

/-! ## One rotation -/

inductive LaunchOutcome where
  | started
  | noPermission
  | refused
  deriving DecidableEq

/-- What stays as it is while the tunnel rotates. -/
structure Env where
  platform : Platform
  /-- `VpnService.prepare` has nothing to ask. -/
  prepared : Bool
  /-- `Gsb2Store.gate` -/
  gate : ProxyConfig → Option String
  /-- The service comes up as a foreground service. -/
  starts : ProxyConfig → Bool
  ikeActive : Bool
  configs : List ProxyConfig

structure State where
  connected : Bool
  activeId : Option String
  selectedId : Option String
  deriving DecidableEq

/-- A launch that was tried: where the tunnel was, the place of the candidate, and the outcome. -/
structure Turn where
  before : String
  index : Nat
  outcome : LaunchOutcome
  deriving DecidableEq

def SKIP : List String := ["tor", "aether", "psiphon", "ikev2"]

section Rotation

variable (e : Env)

def candidates : List ProxyConfig :=
  e.configs.filter fun c => !SKIP.contains (e.platform.lowercase c.protocol.trimmed)

/-- The candidate can be launched. -/
def Launches (c : ProxyConfig) : Prop :=
  e.prepared = true ∧ e.gate c = none ∧ Gsb2.isRemoved c = false ∧ e.starts c = true

instance (c : ProxyConfig) : Decidable (Launches e c) := by unfold Launches; infer_instance

/-- A refused start of the service comes after the tunnel was stopped. -/
def relaunch (s : State) (c : ProxyConfig) : LaunchOutcome × State :=
  if e.prepared = false then (.noPermission, s)
  else if (e.gate c).isSome then (.refused, s)
  else if Gsb2.isRemoved c then (.refused, s)
  else if e.starts c then (.started, { s with connected := true, activeId := some c.id })
  else (.refused, { s with connected := false, activeId := none })

def rotateOnce (s : State) : Option Turn × State :=
  match s.connected, s.activeId with
  | true, some activeId =>
    if activeId.startsWith "ovpn:" || e.ikeActive then (none, s)
    else if (candidates e).length < 2 then (none, s)
    else match (candidates e).findIdx? fun c => c.id == activeId with
      | none => (none, s)
      | some current =>
        let i := (current + 1) % (candidates e).length
        match (candidates e)[i]? with
        | none => (none, s)
        | some next =>
          if next.id = activeId then (none, s)
          else
            let r := relaunch e { s with selectedId := some next.id } next
            (some ⟨activeId, i, r.1⟩, r.2)
  | _, _ => (none, s)

def rotations : Nat → State → List Turn × State
  | 0, s => ([], s)
  | n + 1, s =>
    let r := rotateOnce e s
    let rest := rotations n r.2
    (r.1.toList ++ rest.1, rest.2)

/-- The rounds of `loop`, each with what the interval reads before and after the wait. -/
def loop (s : State) : List (Int × Int) → State
  | [] => s
  | (minutes, after) :: rounds =>
    if minutes ≤ 0 ∨ after ≤ 0 then loop s rounds else loop (rotateOnce e s).2 rounds

/-- The rounds in which rotation stays on are rotations, the others change nothing. -/
theorem loop_eq (s : State) (rounds : List (Int × Int)) :
    loop e s rounds = (rotations e (rounds.countP fun m => 0 < m.1 ∧ 0 < m.2) s).2 := by
  induction rounds generalizing s with
  | nil => rfl
  | cons m rounds ih =>
    rw [loop]
    split
    · rw [List.countP_cons_of_neg (by simp; omega), ih]
    · rw [List.countP_cons_of_pos (by simp; omega), rotations, ih]

/-- With two candidates or more: each one that can be launched is launched once in as many
rotations as there are candidates, and the others have their turn in them too. After a launch
that was refused the selected server is the one that the tunnel runs on. -/
structure Progress (s : State) : Prop where
  launched : 2 ≤ (candidates e).length → ∀ i c, (candidates e)[i]? = some c → Launches e c →
    ((rotations e (candidates e).length s).1.countP
      fun t => t.index = i ∧ t.outcome = .started) = 1
  reached : 2 ≤ (candidates e).length → ∀ i c, (candidates e)[i]? = some c → ¬Launches e c →
    ∃ t ∈ (rotations e (candidates e).length s).1, t.index = i
  selected : ∀ n t s', rotateOnce e (rotations e n s).2 = (some t, s') → t.outcome ≠ .started →
    s'.selectedId = s'.activeId

variable {e : Env} {s s' : State} {t : Turn} {c : ProxyConfig}

theorem relaunch_of_launches (h : Launches e c) :
    relaunch e s c = (.started, { s with connected := true, activeId := some c.id }) := by
  obtain ⟨hp, hg, hr, hs⟩ := h
  simp [relaunch, hp, hg, hr, hs]

theorem relaunch_of_not (h : ¬Launches e c) :
    (relaunch e s c).1 ≠ .started ∧
      ((relaunch e s c).2 = s ∨
        (relaunch e s c).2 = { s with connected := false, activeId := none }) := by
  unfold relaunch
  split
  · exact ⟨by simp, .inl rfl⟩
  split
  · exact ⟨by simp, .inl rfl⟩
  split
  · exact ⟨by simp, .inl rfl⟩
  split
  · refine absurd ⟨?_, ?_, ?_, ‹_›⟩ h
    · simpa using ‹¬e.prepared = false›
    · simpa using ‹¬(e.gate c).isSome = true›
    · simpa using ‹¬Gsb2.isRemoved c = true›
  · exact ⟨by simp, .inr rfl⟩

/-- What a rotation with a turn has found and done. -/
structure Turned (e : Env) (s : State) (t : Turn) (s' : State) : Prop where
  two : 2 ≤ (candidates e).length
  ours : t.before.startsWith "ovpn:" = false ∧ e.ikeActive = false
  active : s.activeId = some t.before
  step : ∃ current c, (candidates e).findIdx? (fun c => c.id == t.before) = some current ∧
    t.index = (current + 1) % (candidates e).length ∧ (candidates e)[t.index]? = some c ∧
    c.id ≠ t.before ∧ (t.outcome, s') = relaunch e { s with selectedId := some c.id } c

theorem rotateOnce_turned (h : rotateOnce e s = (some t, s')) : Turned e s t s' := by
  unfold rotateOnce at h
  split at h
  · rename_i activeId hc ha
    split at h
    · cases h
    split at h
    · cases h
    split at h
    · cases h
    dsimp only at h
    split at h
    · cases h
    split at h
    · cases h
    · obtain ⟨ht, hs⟩ := Prod.mk.inj h
      obtain rfl := Option.some.inj ht
      refine ⟨by omega, ?_, ha, _, _, ‹_›, rfl, ‹_›, ‹_›, ?_⟩
      · simpa using ‹¬(activeId.startsWith "ovpn:" || e.ikeActive) = true›
      · rw [← hs]
  · cases h

/-- After a refused launch another server is selected. -/
theorem Turned.strays (h : Turned e s t s') (ho : t.outcome ≠ .started) :
    s'.selectedId ≠ s'.activeId := by
  obtain ⟨current, c, -, -, -, hne, hr⟩ := h.step
  have hl : ¬Launches e c := by
    intro hl
    rw [relaunch_of_launches hl] at hr
    exact ho (congrArg Prod.fst hr)
  have hs' : s' = (relaunch e { s with selectedId := some c.id } c).2 := congrArg Prod.snd hr
  rcases (relaunch_of_not (s := { s with selectedId := some c.id }) hl).2 with hs | hs
  · rw [hs', hs]
    dsimp only
    rw [h.active]
    exact fun he => hne (Option.some.inj he)
  · rw [hs', hs]
    exact Option.some_ne_none c.id

theorem Turned.outcome_iff (h : Turned e s t s') (hc : (candidates e)[t.index]? = some c) :
    t.outcome = .started ↔ Launches e c := by
  obtain ⟨current, d, -, -, hd, -, hr⟩ := h.step
  obtain rfl := Option.some.inj (hc.symm.trans hd)
  constructor
  · intro ho
    by_contra hl
    exact (relaunch_of_not hl).1 ((congrArg Prod.fst hr).symm.trans ho)
  · intro hl
    rw [relaunch_of_launches hl] at hr
    exact (Prod.mk.inj hr).1

/-- Every turn is one of a rotation. -/
theorem mem_rotations {n : Nat} (h : t ∈ (rotations e n s).1) :
    ∃ k s', rotateOnce e (rotations e k s).2 = (some t, s') := by
  induction n generalizing s with
  | zero => cases h
  | succ n ih =>
    rw [rotations] at h
    rcases List.mem_append.1 h with h | h
    · exact ⟨0, (rotateOnce e s).2, Prod.ext (Option.mem_toList.1 h) rfl⟩
    · obtain ⟨k, s', hk⟩ := ih h
      exact ⟨k + 1, s', hk⟩

theorem length_rotations (n : Nat) (s : State) : (rotations e n s).1.length ≤ n := by
  induction n generalizing s with
  | zero => exact Nat.le_refl 0
  | succ n ih =>
    rw [rotations, List.length_append]
    have ht : (rotateOnce e s).1.toList.length ≤ 1 := by
      cases (rotateOnce e s).1 <;> simp
    have := ih (rotateOnce e s).2
    omega

/-! ## Rotations with every turn -/

/-- The tunnel is one that rotates, the candidates have identities of their own, and every one
can be launched. -/
structure Smooth (e : Env) : Prop where
  ike : e.ikeActive = false
  ids : ((candidates e).map ProxyConfig.id).Nodup
  ovpn : ∀ c ∈ candidates e, c.id.startsWith "ovpn:" = false
  launches : ∀ c ∈ candidates e, Launches e c

/-- The tunnel runs on the candidate at this place. -/
structure On (e : Env) (s : State) (i : Nat) : Prop where
  connected : s.connected = true
  active : ∃ c, (candidates e)[i]? = some c ∧ s.activeId = some c.id

theorem findIdx?_id (h : ((candidates e).map ProxyConfig.id).Nodup) {i : Nat}
    (hc : (candidates e)[i]? = some c) :
    (candidates e).findIdx? (fun d => d.id == c.id) = some i := by
  obtain ⟨hi, rfl⟩ := List.getElem?_eq_some_iff.1 hc
  rw [List.findIdx?_eq_some_iff_getElem]
  refine ⟨hi, by simp, fun j hj => ?_⟩
  have hne : (candidates e)[j].id ≠ (candidates e)[i].id := by
    intro he
    have hlen : ((candidates e).map ProxyConfig.id).length = (candidates e).length :=
      List.length_map _
    have := (@List.Nodup.getElem_inj_iff _ _ h j (by omega) i (by omega)).1 (by simpa using he)
    omega
  simpa using hne

theorem rotateOnce_smooth (h : Smooth e) (h2 : 2 ≤ (candidates e).length) {i : Nat}
    (hs : On e s i) : ∃ b s', rotateOnce e s =
      (some ⟨b, (i + 1) % (candidates e).length, .started⟩, s') ∧
        On e s' ((i + 1) % (candidates e).length) := by
  obtain ⟨c, hc, ha⟩ := hs.active
  obtain ⟨hi, hci⟩ := List.getElem?_eq_some_iff.1 hc
  have hlt : (i + 1) % (candidates e).length < (candidates e).length := Nat.mod_lt _ (by omega)
  have hd := List.getElem?_eq_getElem hlt
  have hmem := List.getElem_mem hlt
  have hne : (candidates e)[(i + 1) % (candidates e).length].id ≠ c.id := by
    intro he
    have hij := findIdx?_id h.ids hd
    rw [he, findIdx?_id h.ids hc, Option.some.injEq] at hij
    rcases Nat.lt_or_ge (i + 1) (candidates e).length with hl | hl
    · rw [Nat.mod_eq_of_lt hl] at hij
      omega
    · have : i + 1 = (candidates e).length := by omega
      rw [this, Nat.mod_self] at hij
      omega
  have hon : On e (State.mk true (some (candidates e)[(i + 1) % (candidates e).length].id)
      (some (candidates e)[(i + 1) % (candidates e).length].id))
      ((i + 1) % (candidates e).length) := ⟨rfl, _, hd, rfl⟩
  refine ⟨c.id, _, ?_, hon⟩
  unfold rotateOnce
  rw [hs.connected, ha]
  dsimp only
  rw [h.ovpn c (List.mem_of_getElem? hc), h.ike, if_neg (by simp), if_neg (by omega),
    findIdx?_id h.ids hc]
  dsimp only
  rw [hd]
  dsimp only
  rw [if_neg hne, relaunch_of_launches (h.launches _ hmem)]

/-- The turns go round from the place after the one that the tunnel is on. -/
theorem rotations_smooth (h : Smooth e) (h2 : 2 ≤ (candidates e).length) (n : Nat) {i : Nat}
    (hs : On e s i) (hi : i < (candidates e).length) :
    (rotations e n s).1.map Turn.index =
        (List.range n).map (fun k => (i + 1 + k) % (candidates e).length) ∧
      ∀ t ∈ (rotations e n s).1, t.outcome = .started := by
  induction n generalizing s i with
  | zero => exact ⟨rfl, by simp [rotations]⟩
  | succ n ih =>
    obtain ⟨b, s', hr, hs'⟩ := rotateOnce_smooth h h2 hs
    obtain ⟨hix, hst⟩ := ih hs' (Nat.mod_lt _ (by omega))
    rw [rotations, hr]
    constructor
    · simp only [Option.toList_some, List.singleton_append, List.map_cons, hix,
        List.range_succ_eq_map, List.map_map]
      congr 1
      refine List.map_congr_left fun k _ => ?_
      rw [Function.comp_apply, Nat.add_assoc, Nat.mod_add_mod, Nat.succ_eq_add_one]
      congr 1
      omega
    · simp only [Option.toList_some, List.singleton_append, List.mem_cons, forall_eq_or_imp]
      exact ⟨trivial, hst⟩

theorem on_rotations (h : Smooth e) (h2 : 2 ≤ (candidates e).length) (n : Nat) {i : Nat}
    (hs : On e s i) : ∃ j, On e (rotations e n s).2 j := by
  induction n generalizing s i with
  | zero => exact ⟨i, hs⟩
  | succ n ih =>
    obtain ⟨b, s', hr, hs'⟩ := rotateOnce_smooth h h2 hs
    rw [rotations, hr]
    exact ih hs'

/-- Every place comes once when one goes round. -/
theorem round_perm {n : Nat} (i : Nat) :
    ((List.range n).map fun k => (i + k) % n).Perm (List.range n) := by
  have hnd : ((List.range n).map fun k => (i + k) % n).Nodup := by
    refine List.Nodup.map_on (fun k hk k' hk' he => ?_) List.nodup_range
    exact Nat.ModEq.eq_of_lt_of_lt (Nat.ModEq.add_left_cancel' i he) (List.mem_range.1 hk)
      (List.mem_range.1 hk')
  refine (hnd.subperm fun j hj => ?_).perm_of_length_le (by simp)
  obtain ⟨k, hk, rfl⟩ := List.mem_map.1 hj
  exact List.mem_range.2 (Nat.mod_lt _ (Nat.zero_lt_of_lt (List.mem_range.1 hk)))

theorem Smooth.progress (h : Smooth e) (h2 : 2 ≤ (candidates e).length) {i : Nat}
    (hs : On e s i) : Progress e s := by
  obtain ⟨a, ha, -⟩ := hs.active
  obtain ⟨hi, -⟩ := List.getElem?_eq_some_iff.1 ha
  refine ⟨fun _ j c hc _ => ?_, fun _ j c hc hl => ?_, fun n t s' hr ho => ?_⟩
  · obtain ⟨hix, hst⟩ := rotations_smooth h h2 (candidates e).length hs hi
    have hj : j < (candidates e).length := (List.getElem?_eq_some_iff.1 hc).1
    have hcount : ((rotations e (candidates e).length s).1.map Turn.index).count j = 1 := by
      rw [hix, (round_perm (i + 1)).count_eq]
      exact List.count_eq_one_of_mem List.nodup_range (List.mem_range.2 hj)
    rw [← hcount, List.count, List.countP_map]
    refine List.countP_congr fun t ht => ?_
    simp [hst t ht]
  · exact absurd (h.launches c (List.mem_of_getElem? hc)) hl
  · obtain ⟨j, hj⟩ := on_rotations h h2 n hs
    obtain ⟨b, s'', hr', -⟩ := rotateOnce_smooth h h2 hj
    rw [hr] at hr'
    exact absurd (congrArg Turn.outcome (Option.some.inj (congrArg Prod.fst hr'))) ho

/-! ## Why it has to be smooth -/

theorem turned_of_mem {n : Nat} (ht : t ∈ (rotations e n s).1) :
    ∃ k s', rotateOnce e (rotations e k s).2 = (some t, s') ∧
      Turned e (rotations e k s).2 t s' := by
  obtain ⟨k, s', hk⟩ := mem_rotations ht
  exact ⟨k, s', hk, rotateOnce_turned hk⟩

/-- A candidate that has its turn can be launched, as otherwise another server is selected. -/
theorem Progress.launches (h : Progress e s) (h2 : 2 ≤ (candidates e).length)
    (hc : c ∈ candidates e) : Launches e c := by
  by_contra hl
  obtain ⟨i, hi⟩ := List.getElem?_of_mem hc
  obtain ⟨t, ht, rfl⟩ := h.reached h2 i c hi hl
  obtain ⟨k, s', hk, hturn⟩ := turned_of_mem ht
  have ho : t.outcome ≠ .started := fun ho => hl ((hturn.outcome_iff hi).1 ho)
  exact hturn.strays ho (h.selected k t s' hk ho)

theorem Progress.index_perm (h : Progress e s) (h2 : 2 ≤ (candidates e).length) :
    ((rotations e (candidates e).length s).1.map Turn.index).Perm
      (List.range (candidates e).length) := by
  have hsub : List.range (candidates e).length ⊆
      (rotations e (candidates e).length s).1.map Turn.index := by
    intro i hi
    have hc := List.getElem?_eq_getElem (List.mem_range.1 hi)
    have hone := h.launched h2 i _ hc (h.launches h2 (List.getElem_mem _))
    obtain ⟨t, ht, hp⟩ := List.countP_pos_iff.1 (hone ▸ Nat.one_pos)
    exact List.mem_map.2 ⟨t, ht, (of_decide_eq_true hp).1⟩
  have hlen := length_rotations (e := e) (candidates e).length s
  exact ((List.nodup_range.subperm hsub).perm_of_length_le (by simpa using hlen)).symm

/-- The place of a turn goes by where the tunnel was. -/
theorem Turned.index_eq (h : Turned e s t s') :
    t.index = (((candidates e).findIdx? fun c => c.id == t.before).getD 0 + 1) %
      (candidates e).length := by
  obtain ⟨current, c, hf, hi, -⟩ := h.step
  rw [hf, Option.getD_some, hi]

theorem Turned.before_mem (h : Turned e s t s') :
    t.before ∈ (candidates e).map ProxyConfig.id := by
  obtain ⟨current, c, hf, -⟩ := h.step
  obtain ⟨hlt, hid, -⟩ := List.findIdx?_eq_some_iff_getElem.1 hf
  exact List.mem_map.2 ⟨_, List.getElem_mem hlt, beq_iff_eq.1 hid⟩

theorem Progress.before_nodup (h : Progress e s) (h2 : 2 ≤ (candidates e).length) :
    ((rotations e (candidates e).length s).1.map Turn.before).Nodup := by
  refine List.Nodup.of_map (fun b =>
    (((candidates e).findIdx? fun c => c.id == b).getD 0 + 1) % (candidates e).length) ?_
  rw [List.map_map]
  have hnd := (h.index_perm h2).nodup_iff.2 List.nodup_range
  rwa [List.map_congr_left fun t ht => ?_] at hnd
  obtain ⟨k, s', -, hturn⟩ := turned_of_mem ht
  exact hturn.index_eq

/-- The tunnel has been on every identity, once on each. -/
theorem Progress.before_perm (h : Progress e s) (h2 : 2 ≤ (candidates e).length) :
    ((rotations e (candidates e).length s).1.map Turn.before).Perm
      ((candidates e).map ProxyConfig.id) := by
  refine ((h.before_nodup h2).subperm fun b hb => ?_).perm_of_length_le ?_
  · obtain ⟨t, ht, rfl⟩ := List.mem_map.1 hb
    obtain ⟨k, s', -, hturn⟩ := turned_of_mem ht
    exact hturn.before_mem
  · have hlen := (h.index_perm h2).length_eq
    rw [List.length_map, List.length_range] at hlen
    rw [List.length_map, List.length_map, hlen]

theorem Progress.smooth (h : Progress e s) (h2 : 2 ≤ (candidates e).length) : Smooth e := by
  have hperm := h.before_perm h2
  have hours : ∀ c ∈ candidates e, c.id.startsWith "ovpn:" = false ∧ e.ikeActive = false := by
    intro c hc
    have hb := hperm.mem_iff.2 (List.mem_map_of_mem hc)
    obtain ⟨t, ht, hbt⟩ := List.mem_map.1 hb
    obtain ⟨k, s', -, hturn⟩ := turned_of_mem ht
    exact hbt ▸ hturn.ours
  refine ⟨?_, ?_, fun c hc => (hours c hc).1, fun c hc => h.launches h2 hc⟩
  · exact (hours _ (List.getElem_mem (show 0 < (candidates e).length by omega))).2
  · exact hperm.nodup_iff.1 (h.before_nodup h2)

theorem progress_of_few (h : (candidates e).length < 2) : Progress e s := by
  refine ⟨fun h2 => absurd h2 (by omega), fun h2 => absurd h2 (by omega), fun n t s' hr _ => ?_⟩
  exact absurd (rotateOnce_turned hr).two (by omega)

/-- **The exact condition** under which every candidate has its turn. -/
theorem progress_iff {i : Nat} (hs : On e s i) :
    Progress e s ↔ (candidates e).length < 2 ∨ Smooth e := by
  constructor
  · intro h
    rcases Nat.lt_or_ge (candidates e).length 2 with h2 | h2
    · exact .inl h2
    · exact .inr (h.smooth h2)
  · rintro (h | h)
    · exact progress_of_few h
    · rcases Nat.lt_or_ge (candidates e).length 2 with h2 | h2
      · exact progress_of_few h2
      · exact h.progress h2 hs

end Rotation

/-! ## Three servers -/

def server (id : String) : ProxyConfig :=
  { name := id, protocol := "vless", address := "192.0.2.1", port := 443, id := id }

/-- Three servers, of which these cannot be launched as their shares have run out. -/
def three (blocked : List String) : Env :=
  { platform := textPlatform
    prepared := true
    gate := fun c => if blocked.contains c.id then some "expired" else none
    starts := fun _ => true
    ikeActive := false
    configs := [server "a", server "b", server "c"] }

def onFirst : State := ⟨true, some "a", some "a"⟩

theorem candidates_three (blocked : List String) :
    candidates (three blocked) = [server "a", server "b", server "c"] := by
  have hl : SKIP.contains (textPlatform.lowercase "vless".trimmed) = false := by decide +kernel
  refine List.filter_eq_self.2 fun c hc => ?_
  have hp : c.protocol = "vless" := by
    rcases List.mem_cons.1 hc with rfl | hc
    · rfl
    rcases List.mem_cons.1 hc with rfl | hc
    · rfl
    · rw [List.mem_singleton.1 hc]
      rfl
  simp only [three, hp, hl, Bool.not_false]

theorem on_three (blocked : List String) : On (three blocked) onFirst 0 := by
  refine ⟨rfl, server "a", ?_, rfl⟩
  rw [candidates_three]
  rfl

theorem progress_iff_three :
    Progress (three []) onFirst ↔ (candidates (three [])).length < 2 ∨ Smooth (three []) :=
  progress_iff (on_three [])

/-- The server after a refused one is never reached, and the refused one stays selected. -/
theorem blocked_stays :
    On (three ["b"]) onFirst 0 ∧ ¬Progress (three ["b"]) onFirst ∧
      rotations (three ["b"]) 3 onFirst =
        (List.replicate 3 ⟨"a", 1, .refused⟩, ⟨true, some "a", some "b"⟩) := by
  refine ⟨on_three ["b"], fun h => ?_, by decide +kernel⟩
  have hb : server "b" ∈ candidates (three ["b"]) := by
    rw [candidates_three]
    simp
  have h2 : 2 ≤ (candidates (three ["b"])).length := by
    rw [candidates_three]
    decide
  have hg := (h.launches h2 hb).2.1
  simp [three, server] at hg

end Ghajar.Rotator
