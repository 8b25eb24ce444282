import Mathlib
import Ghajar.Store.Integrity

/-!
# A backup merged into the store

`AddsOnce` is what `mergeBackup` is for. It never touches what is there, and a second time
it changes nothing. The rest fails in three ways: the backup is compared with the store
but not with itself; hand-made groups all have the same link, so one in the store hides
every one of the backup; and a group that is added gets a new id, which its
configurations do not follow.
-/

namespace Ghajar.Groups

open Ghajar

/-- The link tells groups apart, and among hand-made ones the name does. -/
def SameGroup (a b : Subscription) : Prop := b.url = a.url ∧ (a.isLocal → b.name = a.name)

/-- How often a list has the server of `c`. -/
def occurrences (c : ProxyConfig) (l : List ProxyConfig) : Nat := (l.map sigOf).count (sigOf c)

/-- `d` is `c` as it was added: under an id of its own, and wherever its group is now. -/
def AddedAs (c d : ProxyConfig) : Prop := { d with id := c.id, subId := c.subId } = c

/-- Wherever `c` stood in the backup, `d` stands in the store. -/
def StandsWith (backup store : List Subscription) (c d : ProxyConfig) : Prop :=
  ∀ g ∈ backup, g.id = c.subId → ∃ g' ∈ store, g'.id = d.subId ∧ SameGroup g g'

structure AddsOnce (draw : Nat → String) (s : State) (configs : List ProxyConfig)
    (subs : List Subscription) : Prop where
  once : ∀ c ∈ configs, occurrences c (s.mergeBackup draw configs subs).configs = 1
  groups : ∀ g ∈ subs, g.name ≠ "" →
    ∃ g' ∈ (s.mergeBackup draw configs subs).subscriptions, SameGroup g g'
  /-- What was there stays, and what comes after it stands in the group it had. -/
  added : ∃ new, (s.mergeBackup draw configs subs).configs = s.configs ++ new ∧
    ∀ d ∈ new, ∃ c ∈ configs, AddedAs c d ∧
      StandsWith subs (s.mergeBackup draw configs subs).subscriptions c d
  kept : s.subscriptions <+: (s.mergeBackup draw configs subs).subscriptions ∧
    (s.mergeBackup draw configs subs).selectedId = s.selectedId
  again : ∀ draw', (s.mergeBackup draw configs subs).mergeBackup draw' configs subs =
    s.mergeBackup draw configs subs

/-- A server is once in the store, or not there and once in the backup. -/
def Single (s : State) (configs : List ProxyConfig) : Prop :=
  ∀ c ∈ configs,
    occurrences c s.configs = 1 ∨ occurrences c s.configs = 0 ∧ occurrences c configs = 1

/-- A hand-made group of the backup is in the store, or nothing with its link is. -/
def GroupsSeen (s : State) (subs : List Subscription) : Prop :=
  ∀ g ∈ subs, g.name ≠ "" → g.isLocal → g.url ∈ s.subscriptions.map (·.url) →
    ∃ g' ∈ s.subscriptions, SameGroup g g'

/-- A new configuration comes without its group, or the group is in the store under the
id it has in the backup. -/
def GroupsKnown (s : State) (configs : List ProxyConfig) (subs : List Subscription) : Prop :=
  ∀ c ∈ configs, occurrences c s.configs = 0 → StandsWith subs s.subscriptions c c

section Merge

variable {draw : Nat → String} {s : State} {configs : List ProxyConfig} {subs : List Subscription}

/-- The configurations that the store does not have. -/
def newConfigs (s : State) (configs : List ProxyConfig) : List ProxyConfig :=
  configs.filter fun c => sigOf c ∉ s.configs.map sigOf

def newSubs (s : State) (subs : List Subscription) : List Subscription :=
  subs.filter fun sub => sub.url ∉ s.subscriptions.map (·.url)

theorem mergeBackup_eq : s.mergeBackup draw configs subs =
    { s with
      configs := s.configs ++ (newConfigs s configs).mapIdx fun n c => { c with id := draw n }
      subscriptions := s.subscriptions ++ (newSubs s subs).mapIdx fun n sub =>
        { sub with id := draw ((newConfigs s configs).length + n) } } := rfl

theorem mergeBackup_configs : (s.mergeBackup draw configs subs).configs =
    s.configs ++ (newConfigs s configs).mapIdx fun n c => { c with id := draw n } := rfl

theorem mergeBackup_subscriptions : (s.mergeBackup draw configs subs).subscriptions =
    s.subscriptions ++ (newSubs s subs).mapIdx fun n sub =>
      { sub with id := draw ((newConfigs s configs).length + n) } := rfl

/-- Groups that are added are those of the backup, under ids of their own. -/
theorem mem_subscriptions {g' : Subscription} :
    g' ∈ (s.mergeBackup draw configs subs).subscriptions ↔ g' ∈ s.subscriptions ∨
      ∃ n, ∃ h : n < (newSubs s subs).length,
        g' = { (newSubs s subs)[n] with id := draw ((newConfigs s configs).length + n) } := by
  rw [mergeBackup_subscriptions, List.mem_append, List.mem_mapIdx]
  simp only [eq_comm]

theorem mem_newSubs {g : Subscription} :
    g ∈ newSubs s subs ↔ g ∈ subs ∧ g.url ∉ s.subscriptions.map (·.url) := by
  rw [newSubs, List.mem_filter, decide_eq_true_eq]

theorem group_added {g : Subscription} (hg : g ∈ subs)
    (hurl : g.url ∉ s.subscriptions.map (·.url)) :
    ∃ g' ∈ (s.mergeBackup draw configs subs).subscriptions, g'.url = g.url ∧ g'.name = g.name := by
  obtain ⟨n, hn, rfl⟩ := List.mem_iff_getElem.1 (mem_newSubs.2 ⟨hg, hurl⟩)
  exact ⟨_, mem_subscriptions.2 (.inr ⟨n, hn, rfl⟩), rfl, rfl⟩

theorem sigOf_mapIdx (l : List ProxyConfig) :
    (l.mapIdx fun n c => { c with id := draw n }).map sigOf = l.map sigOf :=
  List.ext_getElem (by simp) fun n _ _ => by simp [sigOf]

theorem occurrences_eq_zero {c : ProxyConfig} {l : List ProxyConfig} :
    occurrences c l = 0 ↔ sigOf c ∉ l.map sigOf := List.count_eq_zero

theorem mem_newConfigs {c : ProxyConfig} :
    c ∈ newConfigs s configs ↔ c ∈ configs ∧ occurrences c s.configs = 0 := by
  rw [newConfigs, List.mem_filter, decide_eq_true_eq, occurrences_eq_zero]

/-- A server that the store has is added no more, one that it has not is added as often as the
backup has it. -/
theorem occurrences_mergeBackup (c : ProxyConfig) :
    occurrences c (s.mergeBackup draw configs subs).configs =
      if occurrences c s.configs = 0 then occurrences c configs else occurrences c s.configs := by
  have hnew : occurrences c (newConfigs s configs) =
      if occurrences c s.configs = 0 then occurrences c configs else 0 := by
    split
    · rename_i h
      rw [occurrences_eq_zero] at h
      simp only [occurrences, newConfigs, List.count, List.countP_map, List.countP_filter]
      refine List.countP_congr fun d _ => ?_
      simp only [Function.comp_apply, beq_iff_eq, Bool.and_eq_true, decide_eq_true_eq]
      exact ⟨fun hd => hd.1, fun hd => ⟨hd, hd ▸ h⟩⟩
    · rename_i h
      refine occurrences_eq_zero.2 fun hm => h ?_
      obtain ⟨d, hd, he⟩ := List.mem_map.1 hm
      have hd := (mem_newConfigs.1 hd).2
      rwa [occurrences, he] at hd
  have hsum : occurrences c (s.mergeBackup draw configs subs).configs =
      occurrences c s.configs + occurrences c (newConfigs s configs) := by
    rw [occurrences, mergeBackup_configs, List.map_append, List.count_append, sigOf_mapIdx]
    rfl
  rw [hsum, hnew]
  split <;> omega

theorem once_iff : (∀ c ∈ configs, occurrences c (s.mergeBackup draw configs subs).configs = 1) ↔
    Single s configs := by
  refine forall₂_congr fun c _ => ?_
  rw [occurrences_mergeBackup]
  split <;> omega

/-- A group is added when nothing in the store has its link. -/
theorem groups_iff : (∀ g ∈ subs, g.name ≠ "" →
    ∃ g' ∈ (s.mergeBackup draw configs subs).subscriptions, SameGroup g g') ↔
      GroupsSeen s subs := by
  refine forall₃_congr fun g hg _ => ?_
  by_cases hurl : g.url ∈ s.subscriptions.map (·.url)
  · constructor
    · rintro ⟨g', hg', hsame⟩ _ _
      refine ⟨g', (mem_subscriptions.1 hg').resolve_right ?_, hsame⟩
      rintro ⟨n, hn, rfl⟩
      exact (mem_newSubs.1 (List.getElem_mem hn)).2 (hsame.1 ▸ hurl)
    · intro h
      by_cases hl : g.isLocal
      · obtain ⟨g', hg', hsame⟩ := h hl hurl
        exact ⟨g', mem_subscriptions.2 (.inl hg'), hsame⟩
      · obtain ⟨g', hg', he⟩ := List.mem_map.1 hurl
        exact ⟨g', mem_subscriptions.2 (.inl hg'), he, fun h => absurd h hl⟩
  · obtain ⟨g', hg', he, hname⟩ := @group_added draw s configs subs g hg hurl
    exact iff_of_true ⟨g', hg', he, fun _ => hname⟩ fun _ h => absurd h hurl

/-- No configuration follows a group that is added. -/
theorem standsWith_iff (hf : Fresh draw s (.mergeBackup configs subs)) {c d : ProxyConfig}
    (hc : c ∈ configs) (hd : d.subId = c.subId) :
    StandsWith subs (s.mergeBackup draw configs subs).subscriptions c d ↔
      StandsWith subs s.subscriptions c c := by
  refine forall₃_congr fun g _ _ => exists_congr fun g' => ?_
  rw [hd, mem_subscriptions]
  refine and_congr_left fun ⟨hid, _⟩ => or_iff_left ?_
  rintro ⟨n, hn, rfl⟩
  refine hf.new ((newConfigs s configs).length + n) ?_
  rw [show draw _ = c.subId from hid]
  simp only [List.mem_append, Op.named]
  exact .inr (.inl (.inr (List.mem_map_of_mem hc)))

theorem mergeBackup_again (draw' : Nat → String) :
    (s.mergeBackup draw configs subs).mergeBackup draw' configs subs =
      s.mergeBackup draw configs subs := by
  have hconfigs : newConfigs (s.mergeBackup draw configs subs) configs = [] := by
    refine List.eq_nil_iff_forall_not_mem.2 fun c hc => ?_
    obtain ⟨hc, hnone⟩ := mem_newConfigs.1 hc
    have hpos : 0 < occurrences c configs := List.count_pos_iff.2 (List.mem_map_of_mem hc)
    rw [occurrences_mergeBackup] at hnone
    split at hnone <;> omega
  have hsubs : newSubs (s.mergeBackup draw configs subs) subs = [] := by
    refine List.eq_nil_iff_forall_not_mem.2 fun g hg => ?_
    obtain ⟨hg, hnone⟩ := mem_newSubs.1 hg
    by_cases hurl : g.url ∈ s.subscriptions.map (·.url)
    · obtain ⟨g', hg', he⟩ := List.mem_map.1 hurl
      exact hnone (List.mem_map.2 ⟨g', mem_subscriptions.2 (.inl hg'), he⟩)
    · obtain ⟨g', hg', he, -⟩ := @group_added draw s configs subs g hg hurl
      exact hnone (List.mem_map.2 ⟨g', hg', he⟩)
  rw [mergeBackup_eq (s := s.mergeBackup draw configs subs), hconfigs, hsubs, List.mapIdx_nil,
    List.mapIdx_nil, List.append_nil, List.append_nil]

/-- A server that the backup has once is told by what it is. -/
theorem eq_of_occurrences {c e : ProxyConfig} {l : List ProxyConfig} (hc : c ∈ l) (he : e ∈ l)
    (hsig : sigOf e = sigOf c) (h : occurrences c l = 1) : e = c := by
  have hlen : (l.filter fun d => sigOf d = sigOf c).length = 1 := by
    rw [← List.countP_eq_length_filter, ← h, occurrences, List.count, List.countP_map]
    refine List.countP_congr fun d _ => ?_
    simp
  obtain ⟨a, ha⟩ := List.length_eq_one_iff.1 hlen
  have hmem {d : ProxyConfig} (hd : d ∈ l) (hs : sigOf d = sigOf c) : d = a := by
    rw [← List.mem_singleton, ← ha]
    exact List.mem_filter.2 ⟨hd, decide_eq_true hs⟩
  rw [hmem he hsig, hmem hc rfl]

theorem added_iff (hf : Fresh draw s (.mergeBackup configs subs)) (hs : Single s configs) :
    (∃ new, (s.mergeBackup draw configs subs).configs = s.configs ++ new ∧
      ∀ d ∈ new, ∃ c ∈ configs, AddedAs c d ∧
        StandsWith subs (s.mergeBackup draw configs subs).subscriptions c d) ↔
      GroupsKnown s configs subs := by
  constructor
  · rintro ⟨new, heq, hnew⟩ c hc hnone
    obtain rfl := List.append_cancel_left (mergeBackup_configs.symm.trans heq)
    obtain ⟨n, hn, hcn⟩ := List.mem_iff_getElem.1 (mem_newConfigs.2 ⟨hc, hnone⟩)
    obtain ⟨e, he, hadded, hstands⟩ := hnew _ (List.mem_mapIdx.2 ⟨n, hn, rfl⟩)
    rw [hcn] at hadded hstands
    -- what was added is `c` by its signature, and `c` is in the backup once
    have hec : e = c := by
      refine eq_of_occurrences hc he (congrArg sigOf hadded).symm ?_
      rcases hs c hc with h | h
      · omega
      · exact h.2
    subst hec
    exact (standsWith_iff hf he rfl).1 hstands
  · intro hknown
    refine ⟨_, mergeBackup_configs, fun d hd => ?_⟩
    obtain ⟨n, hn, rfl⟩ := List.mem_mapIdx.1 hd
    obtain ⟨hc, hnone⟩ := mem_newConfigs.1 (List.getElem_mem hn)
    exact ⟨_, hc, rfl, (standsWith_iff hf hc rfl).2 (hknown _ hc hnone)⟩

end Merge

/-- **When a merge adds everything once**: the backup repeats nothing and no server is twice in
the store, no group of the backup is hidden by another one's link, and what is new comes
without a group or into one that the store has under the same id. -/
theorem mergeBackup_adds_once_iff (draw : Nat → String) (s : State) (configs : List ProxyConfig)
    (subs : List Subscription) (hf : Fresh draw s (.mergeBackup configs subs)) :
    AddsOnce draw s configs subs ↔
      Single s configs ∧ GroupsSeen s subs ∧ GroupsKnown s configs subs := by
  constructor
  · intro h
    have hs := once_iff.1 h.once
    exact ⟨hs, groups_iff.1 h.groups, (added_iff hf hs).1 h.added⟩
  · rintro ⟨hs, hseen, hknown⟩
    exact ⟨once_iff.2 hs, groups_iff.2 hseen, (added_iff hf hs).2 hknown,
      ⟨⟨_, mergeBackup_subscriptions.symm⟩, rfl⟩, mergeBackup_again⟩

/-! ## Two devices -/

/-- A device with one server and its group. -/
def device : State :=
  { configs := [server "c1" "g1"]
    subscriptions := [{ name := "bought", url := "https://example.com/s", id := "g1" }]
    selectedId := some "c1" }

/-- A second server of the same group. -/
def second : ProxyConfig := { server "c3" "g1" with port := 8443 }

/-- The backup of a device that has one server more comes in whole. -/
theorem newer_backup_added :
    AddsOnce someDraw device (device.configs ++ [second]) device.subscriptions := by
  refine (mergeBackup_adds_once_iff someDraw device _ _ (someDraw_fresh (by decide))).2 ⟨?_, ?_, ?_⟩
  · intro c hc
    simp only [device, List.cons_append, List.nil_append, List.mem_cons, List.not_mem_nil,
      or_false] at hc
    rcases hc with rfl | rfl
    · exact .inl (by decide)
    · exact .inr (by decide)
  · intro g hg _ hl
    rw [List.mem_singleton.1 hg] at hl
    exact absurd hl (by decide)
  · exact fun c _ _ g hg hid => ⟨g, hg, hid, rfl, fun _ => rfl⟩

def emptyStore : State := { configs := [], subscriptions := [], selectedId := none }

/-- On a device that has nothing yet the server does not find its group. -/
theorem backup_loses_group : Fresh someDraw emptyStore (.mergeBackup device.configs
    device.subscriptions) ∧ ¬AddsOnce someDraw emptyStore device.configs device.subscriptions := by
  have hf : Fresh someDraw emptyStore (.mergeBackup device.configs device.subscriptions) :=
    someDraw_fresh (by decide)
  refine ⟨hf, fun h => ?_⟩
  have hknown := (added_iff hf (once_iff.1 h.once)).1 h.added
  obtain ⟨g, hg, -⟩ := hknown _ (.head _) rfl _ (.head _) rfl
  exact absurd hg List.not_mem_nil

end Ghajar.Groups
