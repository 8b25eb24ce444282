import Mathlib.Data.List.Nodup
import Ghajar.Config.SameTunnel
import Ghajar.Store.Groups

/-!
# What holds between the store's lists

`Integrity`: ids are not repeated, a configuration stands in a group that is there or in
none, and the selected one is there. An operation keeps it exactly when `Sound`: that is
a matter of what it is given, except where it drops the selected configuration or groups
that others stand in without looking (`deleteSubscription`, `upsertSubscription`,
`addImported`, `restoreBackup`, `mergeBackup`).
-/

namespace Ghajar.Groups

open Ghajar Gsb2

/-! ## The law and its condition -/

/-- No group, or one that is there. -/
def Known (subs : List Subscription) (subId : String) : Prop := subId = "" ∨ subId ∈ subIds subs

structure Integrity (s : State) : Prop where
  ids : (ids s.configs).Nodup
  subIds : (subIds s.subscriptions).Nodup
  known : ∀ c ∈ s.configs, Known s.subscriptions c.subId
  selected : ∀ i ∈ s.selectedId, i ∈ Groups.ids s.configs

/-- Ids that are neither repeated nor taken. -/
def NewIds (l taken : List String) : Prop := l.Nodup ∧ ∀ i ∈ l, i ∉ taken

/-- What an operation is given stands under these ids. -/
def Op.named : Op → List String
  | .add c | .update c => [c.id, c.subId]
  | .addToLocalSub _ l | .addImported l => ids l ++ l.map (·.subId)
  | .delete id | .deleteSubscription id => [id]
  | .upsertSubscription sub l => sub.id :: (ids l ++ l.map (·.subId))
  | .moveToGroup l _ | .copyToGroup l _ => l
  | .deleteGvpnShare _ => []
  | .restoreBackup l subs _ | .mergeBackup l subs => ids l ++ l.map (·.subId) ++ subIds subs

/-- No id is drawn twice, and none that is in use. -/
structure Fresh (draw : Nat → String) (s : State) (op : Op) : Prop where
  inj : ∀ m n, draw m = draw n → m = n
  new : ∀ n, draw n ∉ ids s.configs ++ s.configs.map (·.subId) ++ subIds s.subscriptions ++ op.named

section Condition

variable (p : Platform) (signature : ProxyConfig → String)

/-- The old ones whose ids a list of fetched ones takes over: of those that are the same, the one
that comes first. -/
def heirs (same : ProxyConfig → String) : List ProxyConfig → List ProxyConfig → List ProxyConfig
  | _, [] => []
  | old, f :: fetched =>
    (old.find? fun c => same c = same f).toList ++
      heirs same (old.filter fun c => same c ≠ same f) fetched

/-- The fetched ones that take over no id. -/
def strangers (same : ProxyConfig → String) : List ProxyConfig → List ProxyConfig → List ProxyConfig
  | _, [] => []
  | old, f :: fetched =>
    (if old.any fun c => same c = same f then [] else [f]) ++
      strangers same (old.filter fun c => same c ≠ same f) fetched

/-- The configuration stands in the group of a share that is imported again. -/
def replaced (s : State) (imported : List ProxyConfig) (c : ProxyConfig) : Bool :=
  imported.any fun g => (shareOf p g).any fun shareId =>
    (s.subscriptions.find? fun sub => sub.url = Gvpn.urlFor shareId).any fun sub => c.subId = sub.id

/-- The configurations that an import leaves. -/
def remaining (s : State) (imported : List ProxyConfig) : List ProxyConfig :=
  s.configs.filter fun c => !replaced p s imported c

/-- When an operation keeps the store's integrity. -/
def Sound (s : State) : Op → Prop
  | .add c => c.id ∉ ids s.configs ∧ Known s.subscriptions c.subId
  | .addToLocalSub _ l => NewIds (ids l) (ids s.configs)
  | .addImported l =>
    NewIds (ids l) (ids (remaining p s l)) ∧
      (∀ c ∈ plain p l, Known s.subscriptions c.subId) ∧
      ∀ i ∈ s.selectedId, i ∈ ids (remaining p s l) ∨ i ∈ ids l
  | .update c => ∀ e ∈ s.configs, e.id = c.id → e.locked = false → Known s.subscriptions c.subId
  | .deleteSubscription id => ∀ c ∈ s.configs, s.selectedId = some c.id → c.subId ≠ id
  | .upsertSubscription sub fetched =>
    let old := (s.configs.filter fun c => c.subId = sub.id).reverse
    let others := s.configs.filter fun c => c.subId ≠ sub.id
    let kept := others ++ heirs (identity signature sub) old fetched
    let added := strangers (identity signature sub) old fetched
    NewIds (ids added) (ids kept) ∧ ∀ i ∈ s.selectedId, i ∈ ids (kept ++ added)
  | .restoreBackup l subs _ =>
    let keptConfigs := shared p s.configs
    let keptSubs := s.subscriptions.filter fun sub => Gvpn.isGvpnUrl sub.url
    l = [] ∧ subs = [] ∨
      NewIds (ids l) (ids keptConfigs) ∧ NewIds (subIds subs) (subIds keptSubs) ∧
        (∀ c ∈ l ++ keptConfigs, Known (subs ++ keptSubs) c.subId) ∧
        (l = [] → ∀ i ∈ s.selectedId, i ∈ ids keptConfigs)
  | .mergeBackup l _ =>
    ∀ c ∈ l, sigOf c ∉ s.configs.map sigOf → Known s.subscriptions c.subId
  | .delete _ | .moveToGroup _ _ | .copyToGroup _ _ | .deleteGvpnShare _ => True

end Condition

/-! ## Lists -/

section Lists

variable {s : State} {l m : List ProxyConfig} {subs : List Subscription} {draw : Nat → String}
  {i : String}

theorem mem_ids : i ∈ ids l ↔ ∃ c ∈ l, c.id = i := List.mem_map

theorem mem_subIds : i ∈ subIds subs ↔ ∃ sub ∈ subs, sub.id = i := List.mem_map

theorem ids_append : ids (l ++ m) = ids l ++ ids m := List.map_append

theorem subIds_append {a b : List Subscription} : subIds (a ++ b) = subIds a ++ subIds b :=
  List.map_append

theorem ids_filter {q : ProxyConfig → Bool} : (ids (l.filter q)).Sublist (ids l) :=
  List.filter_sublist.map _

theorem subIds_filter {q : Subscription → Bool} : (subIds (subs.filter q)).Sublist (subIds subs) :=
  List.filter_sublist.map _

/-- What is not repeated stays so with what is added, exactly when that is new. -/
theorem nodup_append_iff {a b : List String} (ha : a.Nodup) : (a ++ b).Nodup ↔ NewIds b a := by
  rw [List.nodup_append]
  constructor
  · rintro ⟨-, hb, hd⟩
    exact ⟨hb, fun i hi hi' => hd i hi' i hi rfl⟩
  · rintro ⟨hb, hd⟩
    refine ⟨ha, hb, fun i hi j hj hij => ?_⟩
    exact hd j hj (hij ▸ hi)

theorem newIds_perm {a b taken : List String} (h : a.Perm b) : NewIds a taken ↔ NewIds b taken := by
  unfold NewIds
  rw [h.nodup_iff]
  exact and_congr_right fun _ => forall_congr' fun i => by rw [h.mem_iff]

/-- Two configurations of one id in a list without repetitions are one. -/
theorem eq_of_ids (hn : (ids l).Nodup) {c e : ProxyConfig} (hc : c ∈ l) (he : e ∈ l)
    (h : c.id = e.id) : c = e :=
  List.inj_on_of_nodup_map hn hc he h

theorem Known.mono {subs' : List Subscription} (h : Known subs i)
    (hs : ∀ j ∈ subIds subs, j ∈ subIds subs') : Known subs' i := h.imp_right (hs i)

end Lists

/-! ## One operation each -/

section Operations

variable {p : Platform} {signature : ProxyConfig → String} {draw : Nat → String} {clock : Int}
  {s : State} {op : Op}

/-- The law, for a list that is made of what was kept and what was added in any order. -/
theorem integrity_iff_perm (kept added : List String) (hp : (ids s.configs).Perm (kept ++ added))
    (hk : kept.Nodup) (hsubs : (subIds s.subscriptions).Nodup) : Integrity s ↔
      NewIds added kept ∧ (∀ c ∈ s.configs, Known s.subscriptions c.subId) ∧
        ∀ i ∈ s.selectedId, i ∈ kept ++ added := by
  constructor
  · intro hi
    refine ⟨(nodup_append_iff hk).1 (hp.nodup_iff.1 hi.ids), hi.known, fun i hs => ?_⟩
    exact hp.mem_iff.1 (hi.selected i hs)
  · rintro ⟨hn, hknown, hs⟩
    refine ⟨hp.nodup_iff.2 ((nodup_append_iff hk).2 hn), hsubs, hknown, fun i hi => ?_⟩
    exact hp.mem_iff.2 (hs i hi)

/-- Nothing but configurations is added, at the end of the list. -/
theorem append_iff (h : Integrity s) {l : List ProxyConfig} {subs : List Subscription}
    (hsubs : (subIds subs).Nodup) (hmono : ∀ i ∈ subIds s.subscriptions, i ∈ subIds subs) :
    Integrity { s with configs := s.configs ++ l, subscriptions := subs } ↔
      NewIds (ids l) (ids s.configs) ∧ ∀ c ∈ l, Known subs c.subId := by
  rw [integrity_iff_perm (ids s.configs) (ids l) (.of_eq ids_append) h.ids hsubs]
  refine and_congr_right fun _ => ⟨fun hk c hc => hk.1 c (List.mem_append_right _ hc), fun hk => ?_⟩
  refine ⟨fun c hc => ?_, fun i hi => List.mem_append_left _ (h.selected i hi)⟩
  rcases List.mem_append.1 hc with hc | hc
  · exact (h.known c hc).mono hmono
  · exact hk c hc

theorem add_iff (h : Integrity s) (c : ProxyConfig) :
    Integrity { s with configs := s.configs ++ [c] } ↔
      c.id ∉ ids s.configs ∧ Known s.subscriptions c.subId := by
  rw [append_iff h h.subIds fun _ hi => hi]
  simp [NewIds, ids]

/-- The group looked up by its name is one of the groups then, and only it is added to them. -/
theorem groupNamed_spec (subs : List Subscription) (name : String) :
    ∃ g l, groupNamed draw clock subs name = (g, l ++ subs) ∧ g ∈ l ++ subs ∧
      (l = [] ∨ l = [g] ∧ g.id = draw 0) := by
  unfold groupNamed
  split
  · rename_i g hg
    exact ⟨g, [], rfl, List.mem_of_find?_eq_some hg, .inl rfl⟩
  · exact ⟨_, [_], rfl, List.mem_cons_self, .inr ⟨rfl, rfl⟩⟩

theorem groupNamed_nodup (h : Integrity s) (hf : Fresh draw s op) {g : Subscription}
    {l : List Subscription} (hl : l = [] ∨ l = [g] ∧ g.id = draw 0) :
    (subIds (l ++ s.subscriptions)).Nodup := by
  rcases hl with rfl | ⟨rfl, hg⟩
  · exact h.subIds
  · refine List.nodup_cons.2 ⟨fun hm => hf.new 0 ?_, h.subIds⟩
    rw [← hg]
    exact List.mem_append_left _ (List.mem_append_right _ hm)

theorem addToLocalSub_iff (h : Integrity s) (hf : Fresh draw s op) (name : String)
    (l : List ProxyConfig) : Integrity (s.addToLocalSub draw clock name l) ↔
      NewIds (ids l) (ids s.configs) := by
  unfold State.addToLocalSub
  split
  · rename_i he
    rw [List.isEmpty_iff.1 he]
    exact iff_of_true h ⟨.nil, fun i hi => (by cases hi)⟩
  · obtain ⟨g, new, hg, hm, hl⟩ := @groupNamed_spec draw clock
      s.subscriptions name
    rw [hg]
    dsimp only
    rw [append_iff h (groupNamed_nodup h hf hl) fun i hi => by
      rw [subIds_append]
      exact List.mem_append_right _ hi]
    have hids : ids (l.map fun c => { c with subId := g.id }) = ids l := by
      simp [ids]
    rw [hids]
    refine and_iff_left fun c hc => ?_
    obtain ⟨d, -, rfl⟩ := List.mem_map.1 hc
    exact .inr (mem_subIds.2 ⟨g, hm, rfl⟩)

/-- What `update` does to one entry. -/
theorem update_entry (c e : ProxyConfig) :
    ∃ e', (if e.id ≠ c.id then e else if e.locked then { e with name := c.name } else c) = e' ∧
      e'.id = e.id ∧ (e'.subId = e.subId ∨ e.id = c.id ∧ e.locked = false ∧ e'.subId = c.subId) := by
  refine ⟨_, rfl, ?_⟩
  split
  · exact ⟨rfl, .inl rfl⟩
  · rename_i h
    have hid : e.id = c.id := Decidable.not_not.1 h
    split
    · exact ⟨rfl, .inl rfl⟩
    · rename_i hl
      exact ⟨hid.symm, .inr ⟨hid, Bool.eq_false_iff.2 hl, rfl⟩⟩

theorem update_iff (h : Integrity s) (c : ProxyConfig) : Integrity (s.update c) ↔
    ∀ e ∈ s.configs, e.id = c.id → e.locked = false → Known s.subscriptions c.subId := by
  have hids : ids (s.update c).configs = ids s.configs := by
    simp only [State.update, ids, List.map_map]
    refine List.map_congr_left fun e _ => ?_
    obtain ⟨e', he, hid, -⟩ := update_entry c e
    exact (congrArg (·.id) he).trans hid
  constructor
  · intro hi e he hid hl
    refine hi.known c (List.mem_map.2 ⟨e, he, ?_⟩)
    rw [if_neg (fun hn => hn hid), if_neg (by simp [hl])]
  · intro hk
    refine ⟨hids ▸ h.ids, h.subIds, fun c' hc' => ?_, fun i hi => hids ▸ h.selected i hi⟩
    obtain ⟨e, he, rfl⟩ := List.mem_map.1 hc'
    obtain ⟨e', heq, -, hsub | ⟨hid, hl, hsub⟩⟩ := update_entry c e
    · rw [heq, hsub]
      exact h.known e he
    · rw [heq, hsub]
      exact hk e he hid hl

theorem delete_integrity (h : Integrity s) (id : String) : Integrity (s.delete id) := by
  refine ⟨h.ids.sublist ids_filter, h.subIds, fun c hc => h.known c (List.mem_of_mem_filter hc),
    fun i hi => ?_⟩
  have hne : i ≠ id ∧ s.selectedId = some i := by
    simp only [State.delete] at hi
    split at hi
    · cases hi
    · rename_i hs
      refine ⟨?_, hi⟩
      rintro rfl
      exact hs hi
  obtain ⟨c, hc, rfl⟩ := mem_ids.1 (h.selected i hne.2)
  exact mem_ids.2 ⟨c, List.mem_filter.2 ⟨hc, by simpa using hne.1⟩, rfl⟩

theorem deleteSubscription_iff (h : Integrity s) (id : String) :
    Integrity (s.deleteSubscription id) ↔
      ∀ c ∈ s.configs, s.selectedId = some c.id → c.subId ≠ id := by
  constructor
  · intro hi c hc hs
    obtain ⟨d, hd, hid⟩ := mem_ids.1 (hi.selected c.id hs)
    obtain ⟨hd, hne⟩ := List.mem_filter.1 hd
    obtain rfl := eq_of_ids h.ids hd hc hid
    simpa using hne
  · intro hs
    refine ⟨h.ids.sublist ids_filter, h.subIds.sublist subIds_filter, fun c hc => ?_,
      fun i hi => ?_⟩
    · obtain ⟨hc, hne⟩ := List.mem_filter.1 hc
      refine (h.known c hc).imp_right fun hm => ?_
      obtain ⟨sub, hsub, heq⟩ := mem_subIds.1 hm
      refine mem_subIds.2 ⟨sub, List.mem_filter.2 ⟨hsub, ?_⟩, heq⟩
      rw [heq]
      exact hne
    · obtain ⟨c, hc, rfl⟩ := mem_ids.1 (h.selected i hi)
      exact mem_ids.2 ⟨c, List.mem_filter.2 ⟨hc, by simpa using hs c hc hi⟩, rfl⟩

/-- The ids of copies are drawn one after the other. -/
theorem mapIdx_newIds (hf : Fresh draw s op) {l : List ProxyConfig}
    {f : Nat → ProxyConfig → ProxyConfig} {k : Nat} (hid : ∀ n c, (f n c).id = draw (n + k)) :
    NewIds (ids (l.mapIdx f)) (ids s.configs) := by
  have hids : ids (l.mapIdx f) = l.mapIdx fun n _ => draw (n + k) := by
    refine List.ext_getElem (by simp [ids]) fun n _ _ => ?_
    simp [ids, hid]
  rw [hids]
  constructor
  · rw [List.nodup_iff_injective_get]
    intro a b hab
    simp only [List.get_eq_getElem, List.getElem_mapIdx] at hab
    exact Fin.ext (by have := hf.inj _ _ hab; omega)
  · intro i hi hm
    obtain ⟨n, hn, rfl⟩ := List.mem_mapIdx.1 hi
    exact hf.new (n + k) (by simp [hm])

theorem copyToGroup_integrity (h : Integrity s) (hf : Fresh draw s op) (l : List String)
    (name : String) : Integrity (s.copyToGroup draw clock l name) := by
  unfold State.copyToGroup
  dsimp only
  split
  · exact h
  · obtain ⟨g, new, hg, hm, hl⟩ := @groupNamed_spec draw clock
      s.subscriptions name
    rw [hg]
    refine (append_iff h (groupNamed_nodup h hf hl) fun i hi => ?_).2 ⟨?_, fun c hc => ?_⟩
    · rw [subIds_append]
      exact List.mem_append_right _ hi
    · exact mapIdx_newIds hf (k := 1) fun _ _ => rfl
    · obtain ⟨n, hn, rfl⟩ := List.mem_mapIdx.1 hc
      exact .inr (mem_subIds.2 ⟨g, hm, rfl⟩)

theorem deleteGvpnShare_integrity (h : Integrity s) (shareId : String) :
    Integrity (s.deleteGvpnShare p shareId) := by
  unfold State.deleteGvpnShare
  dsimp only
  split
  · exact h
  · refine ⟨h.ids.sublist ids_filter, h.subIds.sublist subIds_filter, fun c hc => ?_,
      fun i hi => ?_⟩
    · obtain ⟨hc, hgone⟩ := List.mem_filter.1 hc
      refine (h.known c hc).imp_right fun hm => ?_
      obtain ⟨sub, hsub, heq⟩ := mem_subIds.1 hm
      refine mem_subIds.2 ⟨sub, List.mem_filter.2 ⟨hsub, ?_⟩, heq⟩
      -- what stands in a group that goes, goes
      simp only [decide_eq_true_eq] at hgone ⊢
      refine fun hin => hgone (mem_ids.2 ⟨c, List.mem_filter.2 ⟨hc, ?_⟩, rfl⟩)
      rw [heq] at hin
      simp [hin]
    · dsimp only at hi
      split at hi
      · cases hi
      · rename_i hs
        obtain ⟨c, hc, rfl⟩ := mem_ids.1 (h.selected i hi)
        refine mem_ids.2 ⟨c, List.mem_filter.2 ⟨hc, ?_⟩, rfl⟩
        rw [Option.mem_def.1 hi] at hs
        simpa using hs

/-- A group stays that has something in it, and so does the one that is moved to. -/
theorem moveToGroup_integrity (h : Integrity s) (hf : Fresh draw s op) (l : List String)
    (name : String) : Integrity (s.moveToGroup draw clock l name) := by
  unfold State.moveToGroup
  split
  · exact h
  obtain ⟨g, new, hg, hm, hl⟩ := @groupNamed_spec draw clock
    s.subscriptions name
  rw [hg]
  dsimp only
  generalize hcs : (s.configs.map fun c =>
    if c.id ∈ l ∧ c.subId ≠ g.id then { c with subId := g.id } else c) = configs
  have hmoved : ∀ c ∈ configs, ∃ e ∈ s.configs, c.subId = e.subId ∨ c.subId = g.id := by
    intro c hc
    rw [← hcs] at hc
    obtain ⟨e, he, rfl⟩ := List.mem_map.1 hc
    refine ⟨e, he, ?_⟩
    split
    · exact .inr rfl
    · exact .inl rfl
  have hids : ids configs = ids s.configs := by
    rw [← hcs, ids, List.map_map]
    refine List.map_congr_left fun e _ => ?_
    simp only [Function.comp_apply]
    split <;> rfl
  refine ⟨hids ▸ h.ids, (groupNamed_nodup h hf hl).sublist subIds_filter, fun c hc => ?_,
    fun i hi => hids ▸ h.selected i hi⟩
  have hstays : c.subId ∈ subIds (new ++ s.subscriptions) →
      c.subId ∈ subIds ((new ++ s.subscriptions).filter fun sub =>
        sub.id ∉ subIds ((new ++ s.subscriptions).filter fun sub =>
          sub.isLocal ∧ sub.id ≠ g.id ∧ ∀ c ∈ configs, c.subId ≠ sub.id)) := by
    intro hin
    obtain ⟨sub, hsub, heq⟩ := mem_subIds.1 hin
    refine mem_subIds.2 ⟨sub, List.mem_filter.2 ⟨hsub, ?_⟩, heq⟩
    simp only [decide_eq_true_eq]
    intro he
    obtain ⟨sub', hsub', heq'⟩ := mem_subIds.1 he
    have hempty := (List.mem_filter.1 hsub').2
    simp only [ne_eq, decide_eq_true_eq] at hempty
    exact hempty.2.2 c hc (heq ▸ heq'.symm)
  obtain ⟨e, he, hsub | hsub⟩ := hmoved c hc
  · rw [hsub] at hstays ⊢
    refine (h.known e he).imp_right fun hin => hstays ?_
    rw [subIds_append]
    exact List.mem_append_right _ hin
  · rw [hsub] at hstays ⊢
    exact .inr (hstays (mem_subIds.2 ⟨g, hm, rfl⟩))

/-! ### A refresh -/

section Refresh

variable {same : ProxyConfig → String} {subId : String} {old fetched : List ProxyConfig}

theorem tagged_subId : ∀ c ∈ tagged same subId old fetched, c.subId = subId := by
  induction fetched generalizing old with
  | nil => intro c hc; cases hc
  | cons f fetched ih =>
    intro c hc
    rcases List.mem_cons.1 hc with rfl | hc
    · rfl
    · exact ih c hc

/-- The ids after a refresh: those taken over, and those of the ones that are new. -/
theorem tagged_ids : (ids (tagged same subId old fetched)).Perm
    (ids (heirs same old fetched) ++ ids (strangers same old fetched)) := by
  induction fetched generalizing old with
  | nil => exact .refl _
  | cons f fetched ih =>
    have hrest := @ih (old.filter fun c => same c ≠ same f)
    cases hk : old.find? fun c => same c = same f with
    | none =>
      have hany : (old.any fun c => same c = same f) = false := by
        rw [List.any_eq_false]
        intro c hc
        simpa using List.find?_eq_none.1 hk c hc
      simp only [tagged, heirs, strangers, hk, hany, ids_append]
      exact (hrest.cons f.id).trans List.perm_middle.symm
    | some k =>
      have hany : (old.any fun c => same c = same f) = true :=
        by
        have hsame := List.find?_some hk
        exact List.any_eq_true.2 ⟨k, List.mem_of_find?_eq_some hk, hsame⟩
      simp only [tagged, heirs, strangers, hk, hany, ids_append]
      exact hrest.cons k.id

theorem mem_heirs {c : ProxyConfig} (h : c ∈ heirs same old fetched) : c ∈ old := by
  induction fetched generalizing old with
  | nil => cases h
  | cons f fetched ih =>
    rcases List.mem_append.1 h with h | h
    · exact List.mem_of_find?_eq_some (Option.mem_toList.1 h)
    · exact List.mem_of_mem_filter (ih h)

theorem heirs_nodup (hn : (ids old).Nodup) : (ids (heirs same old fetched)).Nodup := by
  induction fetched generalizing old with
  | nil => exact .nil
  | cons f fetched ih =>
    have hrest := ih (hn.sublist (ids_filter (q := fun c => same c ≠ same f)))
    simp only [heirs, ids_append]
    cases hk : old.find? fun c => same c = same f with
    | none => exact hrest
    | some k =>
      refine List.nodup_cons.2 ⟨fun hm => ?_, hrest⟩
      obtain ⟨c, hc, hid⟩ := mem_ids.1 hm
      obtain ⟨hc, hne⟩ := List.mem_filter.1 (mem_heirs hc)
      obtain rfl := eq_of_ids hn hc (List.mem_of_find?_eq_some hk) hid
      have hsame := List.find?_some hk
      simp_all

end Refresh

theorem upsert_subscriptions (sub : Subscription) (fetched : List ProxyConfig) :
    (s.upsertSubscription signature sub fetched).subscriptions.Perm
      (sub :: s.subscriptions.filter fun t => t.id ≠ sub.id) := by
  simp only [State.upsertSubscription]
  split
  · exact List.perm_insertIdx _ _ (Nat.min_le_right _ _)
  · exact .refl _

theorem upsertSubscription_iff (h : Integrity s) (sub : Subscription)
    (fetched : List ProxyConfig) :
    Integrity (s.upsertSubscription signature sub fetched) ↔
      Sound p signature s (.upsertSubscription sub fetched) := by
  have hsubs := @upsert_subscriptions signature s sub fetched
  have hnodup : (subIds (s.upsertSubscription signature sub fetched).subscriptions).Nodup := by
    refine (hsubs.map _).nodup_iff.2 (List.nodup_cons.2 ⟨fun hm => ?_, h.subIds.sublist subIds_filter⟩)
    obtain ⟨t, ht, hid⟩ := mem_subIds.1 hm
    have hne := (List.mem_filter.1 ht).2
    simp [hid] at hne
  have hknown : ∀ c ∈ (s.upsertSubscription signature sub fetched).configs,
      Known (s.upsertSubscription signature sub fetched).subscriptions c.subId := by
    intro c hc
    rcases List.mem_append.1 hc with hc | hc
    · obtain ⟨hc, hne⟩ := List.mem_filter.1 hc
      refine (h.known c hc).imp_right fun hm => ?_
      obtain ⟨t, ht, hid⟩ := mem_subIds.1 hm
      refine mem_subIds.2 ⟨t, hsubs.mem_iff.2 (.tail _ (List.mem_filter.2 ⟨ht, ?_⟩)), hid⟩
      rw [hid]
      exact hne
    · exact .inr (mem_subIds.2 ⟨sub, hsubs.mem_iff.2 (.head _), (tagged_subId c hc).symm⟩)
  let old := (s.configs.filter fun c => c.subId = sub.id).reverse
  let others := s.configs.filter fun c => c.subId ≠ sub.id
  have hold : (ids old).Nodup := by
    simp only [old, ids, List.map_reverse, List.nodup_reverse]
    exact h.ids.sublist ids_filter
  have hp : (ids (s.upsertSubscription signature sub fetched).configs).Perm
      (ids (others ++ heirs (identity signature sub) old fetched) ++
        ids (strangers (identity signature sub) old fetched)) := by
    simp only [State.upsertSubscription, ids_append, List.append_assoc]
    exact List.Perm.append_left _ tagged_ids
  have hkept : (ids (others ++ heirs (identity signature sub) old fetched)).Nodup := by
    rw [ids_append]
    refine List.nodup_append.2 ⟨h.ids.sublist ids_filter, heirs_nodup hold, ?_⟩
    -- one stands in the group, the other does not
    rintro i hi j hj rfl
    obtain ⟨c, hc, hci⟩ := mem_ids.1 hi
    obtain ⟨d, hd, hdi⟩ := mem_ids.1 hj
    obtain ⟨hc, hcs⟩ := List.mem_filter.1 hc
    obtain ⟨hd, hds⟩ := List.mem_filter.1 (List.mem_reverse.1 (mem_heirs hd))
    obtain rfl := eq_of_ids h.ids hc hd (hci.trans hdi.symm)
    simp_all
  rw [integrity_iff_perm _ _ hp hkept hnodup, and_iff_right hknown, ← ids_append]
  rfl

/-! ### Backups -/

theorem mergeBackup_iff (h : Integrity s) (l : List ProxyConfig) (subs : List Subscription)
    (hf : Fresh draw s (.mergeBackup l subs)) : Integrity (s.mergeBackup draw l subs) ↔
      ∀ c ∈ l, sigOf c ∉ s.configs.map sigOf → Known s.subscriptions c.subId := by
  unfold State.mergeBackup
  dsimp only
  generalize hadded : (l.filter fun c => sigOf c ∉ s.configs.map sigOf) = added
  have hmem {c : ProxyConfig} : c ∈ added ↔ c ∈ l ∧ sigOf c ∉ s.configs.map sigOf := by
    rw [← hadded, List.mem_filter, decide_eq_true_eq]
  generalize (subs.filter fun sub => sub.url ∉ s.subscriptions.map (·.url)) = newSubs
  have hids : subIds (newSubs.mapIdx fun n sub =>
      { sub with id := draw (added.length + n) }) =
      newSubs.mapIdx fun n _ => draw (added.length + n) := by
    refine List.ext_getElem (by simp [subIds]) fun n _ _ => ?_
    simp [subIds]
  have hsubs : subIds (s.subscriptions ++ newSubs.mapIdx fun n sub =>
      { sub with id := draw (added.length + n) }) =
      subIds s.subscriptions ++ newSubs.mapIdx fun n _ => draw (added.length + n) := by
    rw [← hids]
    exact List.map_append
  have hnodup : (subIds (s.subscriptions ++ newSubs.mapIdx fun n sub =>
      { sub with id := draw (added.length + n) })).Nodup := by
    rw [hsubs, nodup_append_iff h.subIds]
    constructor
    · rw [List.nodup_iff_injective_get]
      intro a b hab
      simp only [List.get_eq_getElem, List.getElem_mapIdx] at hab
      exact Fin.ext (by have := hf.inj _ _ hab; omega)
    · intro i hi hm
      obtain ⟨n, hn, rfl⟩ := List.mem_mapIdx.1 hi
      exact hf.new (added.length + n) (by simp [hm])
  rw [append_iff h hnodup fun i hi => hsubs ▸ List.mem_append_left _ hi,
    and_iff_right (mapIdx_newIds hf (k := 0) fun _ _ => rfl)]
  constructor
  · intro hk c hc hnew
    obtain ⟨n, hn, rfl⟩ := List.mem_iff_getElem.1 (hmem.2 ⟨hc, hnew⟩)
    have := hk _ (List.mem_mapIdx.2 ⟨n, hn, rfl⟩)
    refine this.imp_right fun hm => ?_
    rcases List.mem_append.1 (hsubs ▸ hm) with hm | hm
    · exact hm
    · -- the backup's group has another id by now
      obtain ⟨m, hm, he⟩ := List.mem_mapIdx.1 hm
      refine absurd ?_ (hf.new (added.length + m))
      rw [he]
      simp only [List.mem_append, Op.named]
      exact .inr (.inl (.inr (List.mem_map_of_mem hc)))
  · intro hk c hc
    obtain ⟨n, hn, rfl⟩ := List.mem_mapIdx.1 hc
    obtain ⟨hc, hnew⟩ := hmem.1 (List.getElem_mem hn)
    exact (hk _ hc hnew).mono fun i hi => hsubs ▸ List.mem_append_left _ hi

theorem chosen_mem {l : List ProxyConfig} {wanted : String} :
    ∀ i ∈ chosen l wanted, i ∈ ids l := by
  intro i hi
  unfold chosen at hi
  split at hi
  · rename_i hany
    obtain ⟨c, hc, hid⟩ := List.any_eq_true.1 hany
    obtain rfl := Option.some.inj hi
    exact mem_ids.2 ⟨c, hc, by simpa using hid⟩
  · obtain ⟨c, hc, rfl⟩ := Option.map_eq_some_iff.1 hi
    exact mem_ids.2 ⟨c, List.mem_of_head? hc, rfl⟩

theorem restoreBackup_iff (h : Integrity s) (l : List ProxyConfig) (subs : List Subscription)
    (wanted : String) : Integrity (s.restoreBackup p l subs wanted) ↔
      Sound p signature s (.restoreBackup l subs wanted) := by
  have hkept : (ids (shared p s.configs)).Nodup := h.ids.sublist ids_filter
  have hkeptSubs := h.subIds.sublist
    (subIds_filter (q := fun sub : Subscription => Gvpn.isGvpnUrl sub.url))
  unfold State.restoreBackup Sound
  dsimp only
  by_cases hnone : l = [] ∧ subs = []
  · obtain ⟨rfl, rfl⟩ := hnone
    exact iff_of_true h (.inl ⟨rfl, rfl⟩)
  · have hif : ¬(l.isEmpty = true ∧ subs.isEmpty = true) := by
      simpa [List.isEmpty_iff] using hnone
    rw [if_neg hif, or_iff_right hnone]
    have hsubs : (subIds (subs ++ s.subscriptions.filter fun sub =>
        Gvpn.isGvpnUrl sub.url)).Nodup ↔ NewIds (subIds subs)
          (subIds (s.subscriptions.filter fun sub => Gvpn.isGvpnUrl sub.url)) := by
      rw [subIds_append, List.perm_append_comm.nodup_iff]
      exact nodup_append_iff hkeptSubs
    by_cases hd : NewIds (subIds subs)
        (subIds (s.subscriptions.filter fun sub => Gvpn.isGvpnUrl sub.url))
    · have hstate : (if l.isEmpty = true then
          { s with
            configs := l ++ shared p s.configs
            subscriptions := subs ++ s.subscriptions.filter fun sub => Gvpn.isGvpnUrl sub.url }
          else
          { configs := l ++ shared p s.configs
            subscriptions := subs ++ s.subscriptions.filter fun sub => Gvpn.isGvpnUrl sub.url
            selectedId := chosen l wanted }) =
          ({ configs := l ++ shared p s.configs
             subscriptions := subs ++ s.subscriptions.filter fun sub => Gvpn.isGvpnUrl sub.url
             selectedId := if l = [] then s.selectedId else chosen l wanted } : State) := by
        cases l <;> rfl
      rw [hstate, integrity_iff_perm (ids (shared p s.configs)) (ids l)
        (.trans (.of_eq ids_append) List.perm_append_comm) hkept (hsubs.2 hd), and_iff_right hd]
      refine and_congr_right fun _ => and_congr_right fun _ => ?_
      dsimp only
      by_cases hl : l = []
      · subst hl
        simp [ids]
      · simp only [hl, if_false, false_implies, iff_true]
        exact fun i hi => List.mem_append_right _ (chosen_mem i hi)
    · refine iff_of_false (fun hi => hd (hsubs.1 ?_)) fun hs => hd hs.2.1
      have := hi.subIds
      revert this
      split <;> exact id

/-! ### Received shares -/

section Shares

/-- What `tagShares` makes: the groups of the shares stand before the others under drawn ids, the
configurations keep their ids and stand in one of the groups. -/
structure Tags (draw : Nat → String) (n : Nat) (gs : List (String × List ProxyConfig))
    (subs : List Subscription) (r : List Subscription × List ProxyConfig) : Prop where
  made : ∃ new, r.1 = new ++ subs ∧ (subIds new).Nodup ∧ ∀ i ∈ subIds new, ∃ m ≥ n, i = draw m
  ids : ids r.2 = ids (GroupBy.elements gs)
  known : ∀ c ∈ r.2, c.subId ∈ subIds r.1
  /-- The groups that were there before. -/
  old : ∀ i, (∀ m, i ≠ draw m) → (i ∈ r.2.map (·.subId) ↔
    ∃ g ∈ gs, g.2 ≠ [] ∧ ∃ sub ∈ subs.find? fun sub => sub.url = Gvpn.urlFor g.1, i = sub.id)

theorem ids_map_subId {l : List ProxyConfig} {subId : String} :
    ids (l.map fun (c : ProxyConfig) => { c with subId }) = ids l := by
  simp [ids]

theorem mem_map_subId {l m : List ProxyConfig} {subId i : String} :
    i ∈ (l.map (fun c => { c with subId }) ++ m : List ProxyConfig).map (·.subId) ↔
      l ≠ [] ∧ i = subId ∨ i ∈ m.map (·.subId) := by
  rw [List.map_append, List.mem_append]
  refine or_congr_left ⟨fun h => ?_, fun ⟨hl, h⟩ => ?_⟩
  · obtain ⟨c, hc, rfl⟩ := List.mem_map.1 h
    obtain ⟨d, hd, rfl⟩ := List.mem_map.1 hc
    exact ⟨List.ne_nil_of_mem hd, rfl⟩
  · obtain ⟨d, hd⟩ := List.exists_mem_of_ne_nil l hl
    exact List.mem_map.2 ⟨_, List.mem_map_of_mem hd, h.symm⟩

theorem tagShares_tags (hinj : ∀ m n, draw m = draw n → m = n)
    {gs : List (String × List ProxyConfig)} (hn : (gs.map Prod.fst).Nodup) (n : Nat)
    (subs : List Subscription) : Tags draw n gs subs (tagShares p draw clock n gs subs) := by
  induction gs generalizing n subs with
  | nil => exact ⟨⟨[], rfl, .nil, by simp [subIds]⟩, rfl, by simp [tagShares], by simp [tagShares]⟩
  | cons g gs ih =>
    obtain ⟨shareId, l⟩ := g
    obtain ⟨hnew, hn⟩ := List.nodup_cons.1 hn
    unfold tagShares
    split
    · rename_i sub hfind
      have hr := ih hn n subs
      obtain ⟨new, hsubs, hnodup, hdraw⟩ := hr.made
      refine ⟨⟨new, hsubs, hnodup, hdraw⟩, ?_, fun c hc => ?_, fun i hi => ?_⟩
      · simp only [ids_append, ids_map_subId, hr.ids, GroupBy.elements, List.flatMap_cons]
      · rcases List.mem_append.1 hc with hc | hc
        · obtain ⟨d, hd, rfl⟩ := List.mem_map.1 hc
          rw [hsubs]
          exact mem_subIds.2 ⟨sub, List.mem_append_right _ (List.mem_of_find?_eq_some hfind), rfl⟩
        · exact hr.known c hc
      · rw [mem_map_subId, hr.old i hi]
        simp [hfind]
    · rename_i hfind
      have hr := ih hn (n + 1) (shareGroup p clock shareId l (draw n) :: subs)
      obtain ⟨new, hsubs, hnodup, hdraw⟩ := hr.made
      refine ⟨⟨new ++ [shareGroup p clock shareId l (draw n)], ?_, ?_, fun i hi => ?_⟩, ?_,
        fun c hc => ?_, fun i hi => ?_⟩
      · simp [hsubs]
      · rw [subIds_append, List.perm_append_comm.nodup_iff]
        refine List.nodup_cons.2 ⟨fun hm => ?_, hnodup⟩
        obtain ⟨m, hm, he⟩ := hdraw _ hm
        have := hinj _ _ he
        omega
      · rw [subIds_append] at hi
        rcases List.mem_append.1 hi with hi | hi
        · obtain ⟨m, hm, he⟩ := hdraw i hi
          exact ⟨m, by omega, he⟩
        · exact ⟨n, by omega, List.mem_singleton.1 hi⟩
      · simp only [ids_append, ids_map_subId, hr.ids, GroupBy.elements, List.flatMap_cons]
      · rcases List.mem_append.1 hc with hc | hc
        · obtain ⟨d, hd, rfl⟩ := List.mem_map.1 hc
          dsimp only
          rw [hsubs]
          exact mem_subIds.2 ⟨_, List.mem_append_right _ (.head _), rfl⟩
        · exact hr.known c hc
      · -- the group made for this share is none of the next ones
        rw [mem_map_subId, hr.old i hi]
        have hmade : i ≠ (shareGroup p clock shareId l (draw n)).id := hi n
        have hother {k : String} (hk : k ∈ gs.map Prod.fst) :
            (shareGroup p clock shareId l (draw n)).url ≠ Gvpn.urlFor k := by
          intro he
          exact hnew (Gvpn.urlFor_inj he ▸ hk)
        simp only [List.mem_cons, exists_eq_or_imp, hfind, hmade, and_false, false_or, Option.mem_def,
          reduceCtorEq, false_and, exists_false]
        refine exists_congr fun g' => and_congr_right fun hg' => ?_
        rw [List.find?_cons, decide_eq_false (hother (List.mem_map_of_mem hg'))]

theorem shares_grouped {l : List ProxyConfig} :
    GroupBy.Grouped (fun c => (shareOf p c).getD "") (shares p l) := GroupBy.groupBy_grouped

theorem mem_shared {l : List ProxyConfig} {c : ProxyConfig} :
    c ∈ shared p l ↔ c ∈ l ∧ ∃ shareId, shareOf p c = some shareId := by
  rw [shared, List.mem_filter, shareOf]
  refine and_congr_right fun _ => ?_
  cases Meta.of p c <;> simp

/-- An import looks at the share of each configuration once, whichever of them comes first. -/
theorem mem_shares {l : List ProxyConfig} {q : String → Prop} :
    (∃ g ∈ shares p l, g.2 ≠ [] ∧ q g.1) ↔ ∃ c ∈ l, ∃ shareId ∈ shareOf p c, q shareId := by
  have hperm : (GroupBy.elements (shares p l)).Perm (shared p l) := GroupBy.groupBy_elements
  constructor
  · rintro ⟨g, hg, hne, hq⟩
    obtain ⟨c, hc⟩ := List.exists_mem_of_ne_nil _ hne
    obtain ⟨hl, shareId, hs⟩ := mem_shared.1
      (hperm.mem_iff.1 (List.mem_flatMap.2 ⟨g, hg, hc⟩))
    have hkey := shares_grouped.key g hg c hc
    simp only [hs, Option.getD_some] at hkey
    exact ⟨c, hl, shareId, hs, hkey ▸ hq⟩
  · rintro ⟨c, hc, shareId, hs, hq⟩
    obtain ⟨g, hg, hcg⟩ := List.mem_flatMap.1
      (hperm.mem_iff.2 (mem_shared.2 ⟨hc, shareId, hs⟩))
    have hkey := shares_grouped.key g hg c hcg
    simp only [Option.mem_def.1 hs, Option.getD_some] at hkey
    exact ⟨g, hg, List.ne_nil_of_mem hcg, hkey ▸ hq⟩

theorem replaced_iff {l : List ProxyConfig} {c : ProxyConfig} : replaced p s l c = true ↔
    ∃ g ∈ l, ∃ shareId ∈ shareOf p g,
      ∃ sub ∈ s.subscriptions.find? fun sub => sub.url = Gvpn.urlFor shareId, c.subId = sub.id := by
  simp only [replaced, List.any_eq_true, Option.any_eq_true, decide_eq_true_eq, Option.mem_def]

theorem addImported_iff (h : Integrity s) (l : List ProxyConfig)
    (hf : Fresh draw s (.addImported l)) : Integrity (s.addImported p draw clock l) ↔
      Sound p signature s (.addImported l) := by
  unfold State.addImported
  split
  · rename_i he
    obtain rfl := List.isEmpty_iff.1 he
    have hall : remaining p s [] = s.configs := List.filter_eq_self.2 fun c _ => rfl
    simp only [Sound, hall]
    exact iff_of_true h ⟨⟨.nil, by simp [ids]⟩, by simp [plain], fun i hi => .inl (h.selected i hi)⟩
  have ht : Tags draw 0 (shares p l) s.subscriptions
      (tagShares p draw clock 0 (shares p l) s.subscriptions) :=
    tagShares_tags hf.inj shares_grouped.nodup 0 s.subscriptions
  generalize htag : tagShares p draw clock 0 (shares p l) s.subscriptions = r at ht ⊢
  obtain ⟨new, hsubs, hnew, hdraw⟩ := ht.made
  have hnodup : (subIds r.1).Nodup := by
    rw [hsubs, subIds_append, List.perm_append_comm.nodup_iff, nodup_append_iff h.subIds]
    refine ⟨hnew, fun i hi hm => ?_⟩
    obtain ⟨m, -, rfl⟩ := hdraw i hi
    exact hf.new m (by simp [hm])
  have hleft : (s.configs.filter fun c => c.subId ∉ r.2.map (·.subId)) = remaining p s l := by
    refine List.filter_congr fun c hc => ?_
    have hold := ht.old c.subId fun m he =>
      hf.new m (by simp only [List.mem_append]; exact .inl (.inl (.inr (he ▸ List.mem_map_of_mem hc))))
    rw [mem_shares (q := fun shareId => ∃ sub ∈ s.subscriptions.find? fun sub =>
      sub.url = Gvpn.urlFor shareId, c.subId = sub.id), ← replaced_iff] at hold
    rw [Bool.eq_iff_iff, decide_eq_true_eq, hold, Bool.not_eq_true', Bool.not_eq_true]
  have hperm : (ids (plain p l ++ r.2)).Perm (ids l) := by
    have helements : (GroupBy.elements (shares p l)).Perm (shared p l) := GroupBy.groupBy_elements
    rw [ids_append, ht.ids, ← ids_append]
    refine List.Perm.map _ ((helements.append_left _).trans ?_)
    have hsplit := List.filter_append_perm (fun c => (Meta.of p c).isNone) l
    refine (List.Perm.append_left _ (.of_eq ?_)).trans hsplit
    exact List.filter_congr fun c _ => by cases Meta.of p c <;> rfl
  have hp : (ids ((s.configs.filter fun c => c.subId ∉ r.2.map (·.subId)) ++ plain p l ++ r.2)).Perm
      (ids (remaining p s l) ++ ids (plain p l ++ r.2)) := by
    rw [hleft, List.append_assoc, ids_append]
  have hmono : ∀ i ∈ subIds s.subscriptions, i ∈ subIds r.1 := fun i hi => by
    rw [hsubs, subIds_append]
    exact List.mem_append_right _ hi
  have hplain : ∀ c ∈ plain p l, Known r.1 c.subId ↔ Known s.subscriptions c.subId := by
    refine fun c hc => ⟨fun hk => hk.imp_right fun hm => ?_, fun hk => hk.mono hmono⟩
    rw [hsubs, subIds_append] at hm
    rcases List.mem_append.1 hm with hm | hm
    · obtain ⟨m, -, he⟩ := hdraw _ hm
      refine absurd ?_ (hf.new m)
      simp only [List.mem_append, Op.named]
      exact .inr (.inr (he ▸ List.mem_map_of_mem (List.mem_of_mem_filter hc)))
    · exact hm
  rw [integrity_iff_perm _ _ hp (h.ids.sublist ids_filter) hnodup, newIds_perm hperm]
  refine and_congr_right fun _ => and_congr ⟨fun hk c hc => ?_, fun hk c hc => ?_⟩
    (forall_congr' fun i => imp_congr_right fun _ => ?_)
  · exact (hplain c hc).1 (hk c (List.mem_append_left _ (List.mem_append_right _ hc)))
  · rcases List.mem_append.1 hc with hc | hc
    · rcases List.mem_append.1 hc with hc | hc
      · exact (h.known c (List.mem_of_mem_filter hc)).mono hmono
      · exact (hplain c hc).2 (hk c hc)
    · exact .inr (ht.known c hc)
  · rw [List.mem_append, hperm.mem_iff]
    exact .rfl

end Shares

end Operations

/-! ## The whole -/

/-- **When an operation keeps the store's integrity**: exactly when it is sound. -/
theorem integrity_iff_sound (p : Platform) (signature : ProxyConfig → String)
    (draw : Nat → String) (clock : Int) (s : State) (op : Op) (h : Integrity s)
    (hf : Fresh draw s op) :
    Integrity (s.run p signature draw clock op) ↔ Sound p signature s op := by
  cases op with
  | add c => exact add_iff h c
  | addToLocalSub name l => exact addToLocalSub_iff h hf name l
  | addImported l => exact addImported_iff h l hf
  | update c => exact update_iff h c
  | delete id => exact iff_of_true (delete_integrity h id) trivial
  | deleteSubscription id => exact deleteSubscription_iff h id
  | upsertSubscription sub fetched => exact upsertSubscription_iff h sub fetched
  | moveToGroup l name => exact iff_of_true (moveToGroup_integrity h hf l name) trivial
  | copyToGroup l name => exact iff_of_true (copyToGroup_integrity h hf l name) trivial
  | deleteGvpnShare id => exact iff_of_true (deleteGvpnShare_integrity h id) trivial
  | restoreBackup l subs wanted => exact restoreBackup_iff h l subs wanted
  | mergeBackup l subs => exact mergeBackup_iff h l subs hf

/-! ## The selection that nobody clears -/

/-- Ids as they may be drawn, all different. -/
def someDraw (n : Nat) : String := String.ofList (List.replicate (n + 1) 'u')

def server (id subId : String) : ProxyConfig :=
  { name := id, protocol := "vless", address := "server.example.com", port := 443, subId, id }

/-- A subscription with the selected server in it, and a group made by hand. -/
def twoGroups : State :=
  { configs := [server "c1" "g1", server "c2" "g2"]
    subscriptions := [{ name := "bought", url := "https://example.com/s", id := "g1" },
      { name := "own", url := "", id := "g2" }]
    selectedId := some "c1" }

theorem someDraw_fresh {s : State} {op : Op}
    (h : ∀ i ∈ ids s.configs ++ s.configs.map (·.subId) ++ subIds s.subscriptions ++ op.named,
      i.toList.head? ≠ some 'u') : Fresh someDraw s op := by
  refine ⟨fun m n he => ?_, fun n hn => h _ hn ?_⟩
  · have := congrArg (fun t => t.toList.length) he
    simpa [someDraw] using this
  · simp [someDraw, List.replicate_succ]

theorem twoGroups_integrity : Integrity twoGroups := by
  refine ⟨by decide, by decide, fun c hc => ?_, by simp [twoGroups, ids, server]⟩
  simp only [twoGroups, List.mem_cons, List.not_mem_nil, or_false] at hc
  rcases hc with rfl | rfl <;> exact .inr (by decide)

/-- The group that the selected server is not in can go. -/
theorem other_group_deleted :
    Integrity (twoGroups.run plainWorld.platform sigOf someDraw 0 (.deleteSubscription "g2")) := by
  refine (integrity_iff_sound plainWorld.platform sigOf someDraw 0 twoGroups _ twoGroups_integrity
    (someDraw_fresh (by decide))).2 ?_
  simp [Sound, twoGroups, server]

/-- The subscription goes with the selected server, and the selection stays. -/
theorem selected_group_deleted :
    Integrity twoGroups ∧ ¬Integrity
      (twoGroups.run plainWorld.platform sigOf someDraw 0 (.deleteSubscription "g1")) := by
  refine ⟨twoGroups_integrity, fun h => ?_⟩
  have := h.selected "c1" rfl
  simp [State.run, State.deleteSubscription, twoGroups, server, ids] at this

end Ghajar.Groups
