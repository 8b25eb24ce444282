import Ghajar.Config.TextPlatform
import Ghajar.Lib.Run
import Ghajar.Share.Share
import Ghajar.Store.Groups

/-!
# Importing a share again

One device and one share with a duration, over any run: the share is imported and then
again (`Gsb2Decoder`, `receivedConfigs`, `addImported`), its configurations are deleted,
swept or moved, bytes are counted, the user sets the clock. The device keeps no record of a
first import, so each one counts the duration from its own moment: `reimport_buys_nothing`
is for the imports that can do no harm.
-/

namespace Ghajar.Gsb2

open Ghajar Groups Run

/-- The device. `firstImport` and `latest` are not in the source: when the share was first stored,
and the latest guarded time that was asked for since. -/
structure Device where
  store : State
  prefs : Prefs
  clock : Nat
  firstImport : Option Nat := none
  latest : Int := 0

inductive DeviceAct where
  /-- Time passes, or the user sets the clock. -/
  | clock (t : Nat)
  /-- The share's file is opened and those of its configurations stored that are kept. -/
  | importShare (drawConfigs drawGroups : Nat → String) (keep : ProxyConfig → Bool)
  /-- Any other operation of the store; it brings no configuration of the share. -/
  | store (op : Op) (draw : Nat → String)
  /-- Bytes of the share's tunnel are counted. -/
  | addUsage (bytes : Int)
  /-- The limits are checked: the guarded time is asked for. -/
  | check
  | sweep

/-- What an operation is given to store. -/
def given : Op → List ProxyConfig
  | .add c | .update c => [c]
  | .addToLocalSub _ l | .addImported l | .upsertSubscription _ l | .restoreBackup l _ _ |
    .mergeBackup l _ => l
  | _ => []

section Steps

variable (p : Platform) (fingerprint : String → String) (signature : ProxyConfig → String)
  (share : Share)

/-- `NormalizedProfile.from(c).toProxyConfig()` of a configuration. -/
def profiled (c : ProxyConfig) : ProxyConfig :=
  { c with
    protocol := p.lowercase c.protocol
    path := c.path.ifBlank ""
    source := .personal }

namespace Device

/-- A share past its fixed date is refused, by the clock as it is. -/
def importShare (d : Device) (drawConfigs drawGroups : Nat → String) (keep : ProxyConfig → Bool) :
    Device :=
  if 1 ≤ share.expiresAt ∧ share.expiresAt ≤ d.clock then d
  else
    let taken := ((receivedConfigs p fingerprint share drawConfigs d.clock).map (profiled p)).filter
      keep
    if taken.isEmpty then d
    else
      { d with
        store := d.store.addImported p drawGroups d.clock taken
        firstImport := some (d.firstImport.getD d.clock)
        latest := if d.firstImport.isNone then 0 else d.latest }

def check (d : Device) : Device :=
  let (t, prefs) := Gsb2Store.now d.prefs d.clock
  { d with prefs, latest := max d.latest t }

/-- The shares of the stored configurations, one for each. -/
def received (d : Device) : List Meta :=
  (d.store.configs.filterMap (Meta.of p)).foldl
    (fun l m => if l.any fun m' => m'.shareId = m.shareId then l else l ++ [m]) []

/-- `Gvpn.sweep` -/
def sweep (d : Device) : Device :=
  let t := (Gsb2Store.now d.prefs d.clock).1
  let store := (d.received p).foldl (fun store m =>
    match Gsb2.check m (d.prefs.used m.shareId) t with
    | .blocked _ => store.deleteGvpnShare p m.shareId
    | .allowed => store) d.store
  { d.check with store }

def step (d : Device) : DeviceAct → Option Device
  | .clock t => some { d with clock := t }
  | .importShare drawConfigs drawGroups keep =>
    some (d.importShare p fingerprint share drawConfigs drawGroups keep)
  | .store op draw =>
    if (given op).any fun c => shareOf p c = some share.id then none
    else some { d with store := d.store.run p signature draw d.clock op }
  | .addUsage bytes => some { d with prefs := Gsb2Store.addUsage d.prefs share.id bytes }
  | .check => some d.check
  | .sweep => some (d.sweep p)

end Device

/-! ## The law and its condition -/

/-- The moments at which the share runs out: the end of its duration from the first import, and
its fixed date if it has one. -/
def Share.ends (firstImport : Nat) : List Int :=
  (firstImport + share.durationMs) :: if 0 < share.expiresAt then [share.expiresAt] else []

/-- The share's limits have run out. -/
def RunOut (d : Device) : Prop :=
  (0 < share.quotaBytes ∧ share.quotaBytes ≤ d.prefs.used share.id) ∨
    ∃ first ∈ d.firstImport, ∃ t ∈ share.ends first, t ≤ d.latest

/-- Each configuration of the share that is stored ends by the duration from the first import, and
is blocked once the share has run out. -/
def BoughtNothing (d : Device) : Prop :=
  ∀ c ∈ d.store.configs, ∀ m ∈ Meta.of p c, m.shareId = share.id →
    (∃ first ∈ d.firstImport, 1 ≤ m.expiresAt ∧ m.expiresAt ≤ first + share.durationMs) ∧
      (RunOut share d → blocked p d.prefs d.clock c = true)

/-- An import comes no later by the clock than the first one, or the share's fixed date comes
before the end of the duration; the clock is not set back behind a moment at which the share has
been seen to run out, unless that is written down. -/
def Harmless (d : Device) : DeviceAct → Prop
  | .importShare _ _ _ =>
    let first := d.firstImport.getD d.clock
    d.clock ≤ first ∧ IsLong (d.clock + share.durationMs) ∨
      0 < share.expiresAt ∧ share.expiresAt ≤ first + share.durationMs
  | .clock t => ∀ first ∈ d.firstImport, ∀ e ∈ share.ends first, e ≤ d.latest →
      e ≤ max (t : Int) d.prefs.maxSeen
  | _ => True

end Steps

/-! ## What an operation leaves in `extra` -/

section Origin

/-- Whatever is stored carries the `extra` of one of these. -/
def From (l l' : List ProxyConfig) : Prop := ∀ c ∈ l', ∃ d ∈ l, c.extra = d.extra

variable {p : Platform} {signature : ProxyConfig → String} {draw : Nat → String} {clock : Int}
  {s : State} {l l' m m' : List ProxyConfig}

theorem From.of_subset (h : l' ⊆ l) : From l l' := fun c hc => ⟨c, h hc, rfl⟩

theorem From.append (h : From l l') (h' : From m m') : From (l ++ m) (l' ++ m') := by
  intro c hc
  rcases List.mem_append.1 hc with hc | hc
  · obtain ⟨d, hd, he⟩ := h c hc
    exact ⟨d, List.mem_append_left _ hd, he⟩
  · obtain ⟨d, hd, he⟩ := h' c hc
    exact ⟨d, List.mem_append_right _ hd, he⟩

theorem From.of_map {f : ProxyConfig → ProxyConfig} (hf : ∀ c, (f c).extra = c.extra) :
    From l (l.map f) := by
  intro c hc
  obtain ⟨d, hd, rfl⟩ := List.mem_map.1 hc
  exact ⟨d, hd, hf d⟩

theorem From.of_mapIdx {f : Nat → ProxyConfig → ProxyConfig} (hf : ∀ n c, (f n c).extra = c.extra) :
    From l (l.mapIdx f) := by
  intro c hc
  obtain ⟨n, hn, rfl⟩ := List.mem_mapIdx.1 hc
  exact ⟨_, List.getElem_mem hn, hf n _⟩

theorem From.trans (h : From l m) (h' : From m m') : From l m' := by
  intro c hc
  obtain ⟨d, hd, he⟩ := h' c hc
  obtain ⟨e, hem, he'⟩ := h d hd
  exact ⟨e, hem, he.trans he'⟩

theorem From.right (h : From m m') : From (l ++ m) m' :=
  (From.of_subset (List.subset_append_right l m)).trans h

theorem tagged_from {same : ProxyConfig → String} {subId : String} {old fetched : List ProxyConfig} :
    From fetched (tagged same subId old fetched) := by
  induction fetched generalizing old with
  | nil => intro c hc; cases hc
  | cons f fetched ih =>
    intro c hc
    rcases List.mem_cons.1 hc with rfl | hc
    · exact ⟨f, .head _, rfl⟩
    · obtain ⟨d, hd, he⟩ := ih c hc
      exact ⟨d, .tail _ hd, he⟩

theorem tagShares_from {n : Nat} {gs : List (String × List ProxyConfig)}
    {subs : List Subscription} :
    From (GroupBy.elements gs) (tagShares p draw clock n gs subs).2 := by
  induction gs generalizing n subs with
  | nil => intro c hc; cases hc
  | cons g gs ih =>
    unfold tagShares
    split
    · refine From.append (From.of_map ?_) ih
      exact fun c => rfl
    · refine From.append (From.of_map ?_) ih
      exact fun c => rfl

theorem tagShares_stores {n : Nat} {gs : List (String × List ProxyConfig)}
    {subs : List Subscription} :
    From (tagShares p draw clock n gs subs).2 (GroupBy.elements gs) := by
  have hmap (l : List ProxyConfig) (subId : String) :
      From (l.map fun c => { c with subId }) l :=
    fun c hc => ⟨_, List.mem_map_of_mem hc, rfl⟩
  induction gs generalizing n subs with
  | nil => intro c hc; cases hc
  | cons g gs ih =>
    unfold tagShares
    split
    · exact From.append (hmap _ _) ih
    · exact From.append (hmap _ _) ih

theorem shares_from : From l (GroupBy.elements (shares p l)) :=
  .of_subset fun _ hc => List.mem_of_mem_filter (GroupBy.groupBy_elements.mem_iff.1 hc)

theorem addImported_from : From (s.configs ++ l) (s.addImported p draw clock l).configs := by
  unfold State.addImported
  split
  · exact .of_subset (List.subset_append_left _ _)
  · dsimp only
    rw [List.append_assoc]
    refine From.append (.of_subset (List.filter_sublist.subset)) ?_
    intro c hc
    rcases List.mem_append.1 hc with hc | hc
    · exact ⟨c, List.mem_of_mem_filter hc, rfl⟩
    · exact (shares_from.trans tagShares_from) c hc

/-- Nothing that is imported is dropped. -/
theorem addImported_stores : From (s.addImported p draw clock l).configs l := by
  intro c hc
  unfold State.addImported
  rw [if_neg (by simpa using List.ne_nil_of_mem hc)]
  cases hm : Meta.of p c with
  | none =>
    have hplain : c ∈ plain p l := List.mem_filter.2 ⟨hc, by rw [hm]; rfl⟩
    exact ⟨c, List.mem_append_left _ (List.mem_append_right _ hplain), rfl⟩
  | some m =>
    have hgroup : c ∈ GroupBy.elements (shares p l) :=
      GroupBy.groupBy_elements.mem_iff.2 (List.mem_filter.2 ⟨hc, by rw [hm]; rfl⟩)
    obtain ⟨d, hd, he⟩ := tagShares_stores c hgroup
    exact ⟨d, List.mem_append_right _ hd, he⟩

theorem deleteGvpnShare_subset (id : String) :
    (s.deleteGvpnShare p id).configs ⊆ s.configs := by
  unfold State.deleteGvpnShare
  dsimp only
  split
  · exact List.Subset.refl _
  · exact List.filter_sublist.subset

theorem run_from (op : Op) :
    From (s.configs ++ given op) (s.run p signature draw clock op).configs := by
  have hkeep {l m : List ProxyConfig} (h : m ⊆ s.configs) : From (s.configs ++ l) m :=
    .of_subset fun c hc => List.mem_append_left _ (h hc)
  cases op with
  | add c => exact .of_subset (List.Subset.refl _)
  | addToLocalSub name l =>
    simp only [State.run, State.addToLocalSub]
    split
    · exact hkeep (List.Subset.refl _)
    · exact From.append (.of_subset (List.Subset.refl _)) (.of_map fun _ => rfl)
  | addImported l => exact addImported_from
  | update c =>
    intro c' hc'
    obtain ⟨e, he, rfl⟩ := List.mem_map.1 hc'
    split_ifs
    · exact ⟨e, List.mem_append_left _ he, rfl⟩
    · exact ⟨e, List.mem_append_left _ he, rfl⟩
    · exact ⟨c, List.mem_append_right _ (.head _), rfl⟩
  | delete id => exact hkeep (List.filter_sublist.subset)
  | deleteSubscription id => exact hkeep (List.filter_sublist.subset)
  | upsertSubscription sub fetched =>
    exact From.append (.of_subset (List.filter_sublist.subset)) tagged_from
  | moveToGroup l name =>
    simp only [State.run, State.moveToGroup]
    split
    · exact hkeep (List.Subset.refl _)
    · refine (hkeep (List.Subset.refl _)).trans (.of_map fun c => ?_)
      split <;> rfl
  | copyToGroup l name =>
    simp only [State.run, State.copyToGroup]
    split
    · exact hkeep (List.Subset.refl _)
    · intro c hc
      rcases List.mem_append.1 hc with hc | hc
      · exact ⟨c, List.mem_append_left _ hc, rfl⟩
      · obtain ⟨d, hd, he⟩ := From.of_mapIdx (fun _ _ => by rfl) c hc
        exact ⟨d, List.mem_append_left _ (List.mem_of_mem_filter hd), he⟩
  | deleteGvpnShare id => exact hkeep (deleteGvpnShare_subset id)
  | restoreBackup l subs wanted =>
    have hlists : From (s.configs ++ l) (l ++ shared p s.configs) := by
      refine .of_subset fun c hc => ?_
      rcases List.mem_append.1 hc with hc | hc
      · exact List.mem_append_right _ hc
      · exact List.mem_append_left _ (List.mem_of_mem_filter hc)
    simp only [State.run, State.restoreBackup]
    split_ifs
    · exact hkeep (List.Subset.refl _)
    · exact hlists
    · exact hkeep (List.Subset.refl _)
    · exact hlists
  | mergeBackup l subs =>
    refine From.append (.of_subset (List.Subset.refl _)) ?_
    exact (From.of_subset (List.filter_sublist.subset)).trans (.of_mapIdx fun _ _ => rfl)

theorem meta_of_extra {c d : ProxyConfig} (h : c.extra = d.extra) : Meta.of p c = Meta.of p d := by
  unfold Meta.of ProxyConfig.extraJson
  rw [h]

end Origin

/-! ## What a run keeps -/

section Runs

variable {p : Platform} {fingerprint : String → String} {signature : ProxyConfig → String}
  {share : Share} {d d' : Device} {a : DeviceAct}

/-- The invariant: what is carried ends by every end of the share, and an end that has been seen
is not forgotten. -/
structure Inv (p : Platform) (share : Share) (d : Device) : Prop where
  carried : ∀ c ∈ d.store.configs, ∀ m ∈ Meta.of p c, m.shareId = share.id →
    ∃ first ∈ d.firstImport, m.quotaBytes = share.quotaBytes ∧ 1 ≤ m.expiresAt ∧
      ∀ e ∈ share.ends first, m.expiresAt ≤ e
  seen : ∀ first ∈ d.firstImport, ∀ e ∈ share.ends first, e ≤ d.latest →
    e ≤ max (d.clock : Int) d.prefs.maxSeen

theorem mem_ends {first : Nat} {e : Int} : e ∈ share.ends first ↔
    e = first + share.durationMs ∨ 0 < share.expiresAt ∧ e = share.expiresAt := by
  unfold Share.ends
  split <;> simp [*]

theorem Inv.boughtNothing (h : Inv p share d) : BoughtNothing p share d := by
  intro c hc m hm hid
  obtain ⟨first, hfirst, hquota, hpos, hends⟩ := h.carried c hc m hm hid
  refine ⟨⟨first, hfirst, hpos, hends _ (.head _)⟩, fun hout => ?_⟩
  have hcheck : (check m (d.prefs.used m.shareId)
      (Gsb2Store.now d.prefs d.clock).1).reason.isSome = true := by
    unfold check
    rcases hout with ⟨hq, hu⟩ | ⟨first', hfirst', e, he, hlatest⟩
    · rw [hquota, hid]
      split
      · rfl
      · rw [if_pos ⟨hq, hu⟩]
        rfl
    · obtain rfl := Option.some.inj (hfirst.symm.trans hfirst')
      have hnow : m.expiresAt ≤ (Gsb2Store.now d.prefs d.clock).1 :=
        Int.le_trans (hends e he) (h.seen first hfirst e he hlatest)
      rw [if_pos ⟨hpos, hnow⟩]
      rfl
  unfold blocked
  rw [Option.mem_def.1 hm]
  exact hcheck

/-- Configurations that were there, or came without the share. -/
theorem Inv.of_from (h : Inv p share d) {l : List ProxyConfig}
    (hl : ∀ c ∈ l, shareOf p c ≠ some share.id) (hf : From (d.store.configs ++ l) d'.store.configs)
    (hfirst : d'.firstImport = d.firstImport) (hlatest : d'.latest = d.latest)
    (hclock : d'.clock = d.clock) (hprefs : d.prefs.maxSeen ≤ d'.prefs.maxSeen) :
    Inv p share d' := by
  constructor
  · intro c hc m hm hid
    obtain ⟨e, he, hextra⟩ := hf c hc
    rw [meta_of_extra hextra] at hm
    rw [hfirst]
    rcases List.mem_append.1 he with he | he
    · exact h.carried e he m hm hid
    · refine absurd ?_ (hl e he)
      rw [shareOf, Option.mem_def.1 hm, ← hid]
      rfl
  · intro first hf e he hle
    rw [hlatest] at hle
    rw [hclock]
    have := h.seen first (hfirst ▸ hf) e he hle
    omega

theorem Inv.of_subset (h : Inv p share d) (hs : d'.store.configs ⊆ d.store.configs)
    (hfirst : d'.firstImport = d.firstImport) (hlatest : d'.latest = d.latest)
    (hclock : d'.clock = d.clock) (hprefs : d.prefs.maxSeen ≤ d'.prefs.maxSeen) :
    Inv p share d' :=
  h.of_from (l := []) (by simp) (.of_subset (by simpa using hs)) hfirst hlatest hclock hprefs

theorem Inv.check (h : Inv p share d) : Inv p share d.check := by
  refine ⟨h.carried, fun first hf e he hle => ?_⟩
  have hnow := @Gsb2Store.now_maxSeen d.prefs d.clock
  have hval : (Gsb2Store.now d.prefs d.clock).1 = max (d.clock : Int) d.prefs.maxSeen := rfl
  simp only [Device.check] at hle ⊢
  have := h.seen first hf e he
  omega

theorem sweep_subset : (d.sweep p).store.configs ⊆ d.store.configs := by
  unfold Device.sweep
  dsimp only
  generalize d.received p = ms
  have hfold : ∀ (s : State), (ms.foldl (fun store m =>
      match Gsb2.check m (d.prefs.used m.shareId) (Gsb2Store.now d.prefs d.clock).1 with
      | .blocked _ => store.deleteGvpnShare p m.shareId
      | .allowed => store) s).configs ⊆ s.configs := by
    induction ms with
    | nil => exact fun s => List.Subset.refl _
    | cons m ms ih =>
      intro s
      refine List.Subset.trans (ih _) ?_
      dsimp only
      split
      · exact deleteGvpnShare_subset _
      · exact List.Subset.refl _
  exact hfold d.store

/-- An import that does no harm. -/
theorem Inv.importShare (h : Inv p share d) (hr : Rereads p fingerprint share)
    (hq : IsLong share.quotaBytes) (he : IsLong share.expiresAt) (hd : 0 < share.durationMs)
    {drawConfigs drawGroups : Nat → String} {keep : ProxyConfig → Bool}
    (hC : Harmless share d (.importShare drawConfigs drawGroups keep)) :
    Inv p share (d.importShare p fingerprint share drawConfigs drawGroups keep) := by
  unfold Device.importShare
  split
  · exact h
  dsimp only
  split
  · exact h
  obtain ⟨hfixed, hduration⟩ := @expires_spec share d.clock hd
  have hexpires : 1 ≤ share.expires d.clock ∧
      ∀ e ∈ share.ends (d.firstImport.getD d.clock), share.expires d.clock ≤ e := by
    simp only [mem_ends]
    rcases hC with ⟨hle, hl⟩ | ⟨hpos, hle⟩
    · obtain ⟨h1, h2⟩ := hduration (by omega) hl
      refine ⟨h1, ?_⟩
      rintro e (rfl | ⟨hp, rfl⟩)
      · omega
      · exact (hfixed hp).2
    · obtain ⟨h1, h2⟩ := hfixed hpos
      refine ⟨h1, ?_⟩
      rintro e (rfl | ⟨-, rfl⟩)
      · omega
      · exact h2
  constructor
  · intro c hc m hm hid
    refine ⟨_, rfl, ?_⟩
    obtain ⟨e, hmem, hextra⟩ := addImported_from c hc
    rw [meta_of_extra hextra] at hm
    rcases List.mem_append.1 hmem with hmem | hmem
    · obtain ⟨first, hfirst, hrest⟩ := h.carried e hmem m hm hid
      rw [Option.mem_def.1 hfirst]
      exact hrest
    · obtain ⟨f, hf, rfl⟩ := List.mem_map.1 (List.mem_of_mem_filter hmem)
      have hmeta := received_meta (t := d.clock) hr hq he drawConfigs f hf
      rw [show Meta.of p (profiled p f) = Meta.of p f from meta_of_extra rfl, hmeta] at hm
      split at hm
      · cases hm
      · obtain rfl := Option.some.inj hm
        exact ⟨rfl, hexpires⟩
  · intro first hf e hmem hle
    obtain rfl := Option.some.inj hf
    cases hi : d.firstImport with
    | none =>
      -- at the first import nothing has been seen of the share yet
      simp only [hi, Option.isNone_none, if_true] at hle
      simp only [hi, Option.getD_none, mem_ends] at hmem
      omega
    | some first =>
      simp only [hi, Option.isNone_some, Bool.false_eq_true, if_false] at hle
      simp only [hi, Option.getD_some] at hmem
      exact h.seen first hi e hmem hle

/-- **What one step keeps.** -/
theorem step_inv (hr : Rereads p fingerprint share) (hq : IsLong share.quotaBytes)
    (he : IsLong share.expiresAt) (hd : 0 < share.durationMs) (h : Inv p share d)
    (hC : Harmless share d a) (hs : d.step p fingerprint signature share a = some d') :
    Inv p share d' := by
  cases a with
  | clock t =>
    obtain rfl := Option.some.inj hs
    exact ⟨h.carried, fun first hf e hm hle => hC first hf e hm hle⟩
  | importShare drawConfigs drawGroups keep =>
    obtain rfl := Option.some.inj hs
    exact h.importShare hr hq he hd hC
  | store op draw =>
    simp only [Device.step] at hs
    split at hs
    · cases hs
    · rename_i hno
      obtain rfl := Option.some.inj hs
      refine h.of_from (l := given op) (fun c hc he => hno ?_) (run_from op) rfl rfl rfl
        (Int.le_refl _)
      exact List.any_eq_true.2 ⟨c, hc, by simpa using he⟩
  | addUsage bytes =>
    obtain rfl := Option.some.inj hs
    refine h.of_subset (List.Subset.refl _) rfl rfl rfl ?_
    simp only [Gsb2Store.addUsage]
    split <;> exact Int.le_refl _
  | check =>
    obtain rfl := Option.some.inj hs
    exact h.check
  | sweep =>
    obtain rfl := Option.some.inj hs
    exact h.check.of_subset sweep_subset rfl rfl rfl (Int.le_refl _)

end Runs

/-- **Importing a share again buys nothing**, in every run whose imports and clocks do no harm:
whatever is stored of the share ends by the end of the duration from the first import, and is
blocked once the share has run out. -/
theorem reimport_buys_nothing (p : Platform) (fingerprint : String → String)
    (signature : ProxyConfig → String) (share : Share) (d : Device) (as : List DeviceAct)
    (hr : Rereads p fingerprint share) (hq : IsLong share.quotaBytes)
    (he : IsLong share.expiresAt) (hd : 0 < share.durationMs)
    (hnew : ∀ c ∈ d.store.configs, shareOf p c ≠ some share.id) (hfirst : d.firstImport = none)
    (hC : Meets (Device.step p fingerprint signature share) (Harmless share) d as) :
    Visits (Device.step p fingerprint signature share) (BoughtNothing p share) d as := by
  refine visits_of_inv (I := Inv p share) (fun d a d' h hC hs => step_inv hr hq he hd h hC hs)
    (fun d h => h.boughtNothing) ⟨fun c hc m hm hid => ?_, fun first hf => ?_⟩ hC
  · refine absurd ?_ (hnew c hc)
    rw [shareOf, Option.mem_def.1 hm, ← hid]
    rfl
  · rw [hfirst] at hf
    cases hf

/-! ## A week, again and again -/

/-- An import that is not refused stores the share as it counts from now. -/
theorem importShare_stores {p : Platform} {fingerprint : String → String} {share : Share}
    {d : Device} (hr : Rereads p fingerprint share) (hq : IsLong share.quotaBytes)
    (he : IsLong share.expiresAt) (hnow : share.expiresAt = 0) (hid : share.id.blank = false)
    (hne : share.configs ≠ []) (drawConfigs drawGroups : Nat → String) :
    ∃ c ∈ (d.importShare p fingerprint share drawConfigs drawGroups fun _ => true).store.configs,
      Meta.of p c = some (share.limits fingerprint d.clock) := by
  obtain ⟨c, cs, hcs⟩ := List.exists_cons_of_ne_nil hne
  obtain ⟨f, hf⟩ : ∃ f, f ∈ receivedConfigs p fingerprint share drawConfigs d.clock := by
    unfold receivedConfigs
    rw [hcs, List.mapIdx_cons]
    exact ⟨_, .head _⟩
  have htaken : profiled p f ∈
      ((receivedConfigs p fingerprint share drawConfigs d.clock).map (profiled p)).filter
        fun _ => true := List.mem_filter.2 ⟨List.mem_map_of_mem hf, rfl⟩
  unfold Device.importShare
  rw [if_neg (by omega)]
  dsimp only
  rw [if_neg (by simpa using List.ne_nil_of_mem htaken)]
  obtain ⟨e, hmem, hextra⟩ := addImported_stores (p := p) (s := d.store) _ htaken
  refine ⟨e, hmem, ?_⟩
  rw [← meta_of_extra hextra, show Meta.of p (profiled p f) = Meta.of p f from meta_of_extra rfl,
    received_meta hr hq he drawConfigs f hf, hid]
  rfl

/-- One server for seven days from the import. -/
def week : Share :=
  { id := "s1", name := "friends", durationMs := 604800000, issuerKey := "k"
    configs := [{ name := "s", protocol := "vless", address := "s.example.com", port := 443
                  uuid := "u", id := "x" }] }

theorem week_rereads : Rereads textPlatform (fun key => key) week :=
  rereads_of_blank textPlatform_readsBack (by
    intro c hc
    obtain rfl := List.mem_singleton.1 hc
    rfl)

/-- A device at this time, with nothing on it. -/
def blank (clock : Nat) : Device :=
  { store := ⟨[], [], none⟩, prefs := ⟨fun _ => 0, 0⟩, clock }

def openWeek : DeviceAct :=
  .importShare (fun n => "c" ++ toString n) (fun n => "g" ++ toString n) fun _ => true

/-- Imported twice within an hour by a clock that is set back, and deleted. -/
theorem week_twice : Visits (Device.step textPlatform (fun key => key) (·.address) week)
    (BoughtNothing textPlatform week) (blank 3600000)
    [openWeek, .clock 0, openWeek, .store (.deleteGvpnShare "s1") fun _ => "d"] := by
  refine reimport_buys_nothing textPlatform (fun key => key) (·.address) week (blank 3600000) _
    week_rereads ⟨by decide, by decide⟩ ⟨by decide, by decide⟩ (by decide)
    (fun c hc => (by cases hc)) rfl ?_
  refine ⟨.inl ⟨Nat.le_refl _, ⟨by decide, by decide⟩⟩, ?_, .inl ⟨?_, ⟨by decide, by decide⟩⟩,
    trivial, ?_⟩
  · intro first hf e he hle
    obtain rfl : 3600000 = first := Option.some.inj hf
    rcases mem_ends.1 he with rfl | ⟨hpos, -⟩
    · exact absurd hle (by decide)
    · exact absurd hpos (by decide)
  · exact Nat.zero_le _
  · trivial

/-- Imported, and imported again when the week is over: it is good for another one. -/
theorem week_renewed : ¬Visits (Device.step textPlatform (fun key => key) (·.address) week)
    (BoughtNothing textPlatform week) (blank 0) [openWeek, .clock 604800001, openWeek] := by
  intro h
  have hr : run (Device.step textPlatform (fun key => key) (·.address) week) (blank 0)
      [openWeek, .clock 604800001, openWeek] = some (
        (({ (blank 0).importShare textPlatform (fun key => key) week (fun n => "c" ++ toString n)
          (fun n => "g" ++ toString n) (fun _ => true) with clock := 604800001 } : Device).importShare
          textPlatform (fun key => key) week (fun n => "c" ++ toString n)
          (fun n => "g" ++ toString n) fun _ => true)) := rfl
  obtain ⟨c, hc, hm⟩ := importShare_stores week_rereads ⟨by decide, by decide⟩
    ⟨by decide, by decide⟩ rfl rfl (by decide) (fun n => "c" ++ toString n)
    (fun n => "g" ++ toString n)
  obtain ⟨⟨first, hfirst, -, hle⟩, -⟩ := (h.at_end hr) c hc _ hm rfl
  obtain rfl : 0 = first := Option.some.inj hfirst
  exact absurd hle (by decide)

end Ghajar.Gsb2
