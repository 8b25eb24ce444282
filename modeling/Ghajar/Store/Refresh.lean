import Ghajar.Store.ConfigStore

/-!
# The refresh of subscriptions and the user's edits

`SubscriptionRefresher.refreshStaleLocked` and `FreeConfigs.refresh` against
`deleteSubscription`, `renameSubscription` and `updateSubscriptionUrl` of
`ConfigStore.kt`. One sweep runs at a time, on a thread of its own or on the
user's; each reads a list of the store and later assigns one made of it. The
fetches take as long as they take, and bring what they bring.
`refresh_keeps_edits`: the sweep undoes nothing as long as each of its writes
finds the subscription as the sweep knows it.
-/

namespace Ghajar.Store

open Run

/-- `Gvpn.isGvpnUrl` -/
def isGvpnUrl (url : String) : Bool := "gvpn:".toList.isPrefixOf url.toList

/-- The configurations `upsertSubscription` assigns: `old` read for the ids, `base` for the rest. -/
def upsertConfigs (sub : Subscription) (fetched old base : List Config) : List Config :=
  (base.filter fun c => c.subId ≠ sub.id) ++
    tagged sub (old.filter fun c => c.subId = sub.id).reverse fetched

/-- The subscriptions it assigns: `first` read for the place, `second` for the others. -/
def upsertSubs (sub : Subscription) (first second : List Subscription) : List Subscription :=
  let index := first.findIdx fun s => s.id = sub.id
  let withoutSub := second.filter fun s => s.id ≠ sub.id
  if index < first.length then withoutSub.insertIdx (min index withoutSub.length) sub
  else sub :: withoutSub

/-! ## The two threads -/

/-- Where an `upsertSubscription` is. -/
inductive Upsert
  | start
  | old (old : List Config)
  | base (old base : List Config)
  | assigned
  | first (first : List Subscription)
  | second (first second : List Subscription)
  deriving DecidableEq, Repr

/-- The sweep: the targets still to come, and inside `FreeConfigs.refresh` its subscription. -/
inductive Sweep
  | idle
  | targets (rest : List Subscription)
  | free (sub : Subscription) (rest : List Subscription)
  | upsert (sub : Subscription) (fetched : List Config) (free : Bool) (rest : List Subscription)
      (at_ : Upsert)
  deriving DecidableEq, Repr

/-- What the user does to a subscription. -/
inductive Edit
  | deleteSubscription (id : String)
  | renameSubscription (id newName : String)
  | updateSubscriptionUrl (id url : String)
  deriving DecidableEq, Repr

/-- Where an edit is: a deletion does the configurations first. -/
inductive EditPc
  | idle
  | start (e : Edit)
  | configs (id : String) (read : List Config)
  | subs (e : Edit)
  | assign (e : Edit) (read : List Subscription)
  deriving DecidableEq, Repr

/-- The subscriptions the user deleted, and the names and links the user set on those there are. -/
structure Wishes where
  deleted : List String
  named : String → Option String
  linked : String → Option String

/-- The store and the two threads. `wishes` is not in the source. -/
structure RSys where
  configs : List Config
  subs : List Subscription
  sweep : Sweep
  edit : EditPc
  wishes : Wishes

/-- What a target of the sweep comes to. -/
inductive Fetch
  /-- No answer, or one without configurations. -/
  | failed
  | configs (l : List Config)
  /-- `FreeConfigs.refresh` is running already. -/
  | busy
  /-- It starts; `newId` is the id of a subscription it may have to make. -/
  | free (newId : String)
  deriving DecidableEq, Repr

inductive RAct
  | sweep (targets : List Subscription)
  | next (f : Fetch)
  /-- The free scan stores what it has found so far. -/
  | publish (combined : List Config)
  | scanned
  /-- A step of an upsert. -/
  | run
  | edit (e : Edit)
  /-- A step of an edit. -/
  | user
  deriving DecidableEq, Repr

/-- A UUID that nothing has yet. -/
def RSys.fresh (s : RSys) (newId : String) : Bool :=
  !(s.subs.any fun r => r.id = newId) && !(s.configs.any fun c => c.subId = newId) &&
    !s.wishes.deleted.contains newId

def subscriptionOf (subs : List Subscription) : Option Subscription :=
  subs.find? fun r => r.url = SOURCE_URL

def stepNext (s : RSys) (f : Fetch) : Option RSys :=
  match s.sweep with
  | .targets [] => some { s with sweep := .idle }
  | .targets (sub :: rest) =>
    if sub.url = SOURCE_URL then
      match f with
      | .busy => some { s with sweep := .targets rest }
      | .free newId =>
        match subscriptionOf s.subs with
        | some existing => some { s with sweep := .free existing rest }
        | none =>
          if s.fresh newId then
            some { s with sweep := .free ⟨newId, "@Ghajarvpn", SOURCE_URL⟩ rest }
          else none
      | _ => none
    else if sub.isBlank || isGvpnUrl sub.url then some { s with sweep := .targets rest }
    else
      match f with
      | .failed => some { s with sweep := .targets rest }
      | .configs l =>
        if l.isEmpty then some { s with sweep := .targets rest }
        else some { s with sweep := .upsert sub l false rest .start }
      | _ => none
  | _ => none

def stepUpsert (s : RSys) : Option RSys :=
  match s.sweep with
  | .upsert sub fetched free rest pc =>
    match pc with
    | .start => some { s with sweep := .upsert sub fetched free rest (.old s.configs) }
    | .old old => some { s with sweep := .upsert sub fetched free rest (.base old s.configs) }
    | .base old base =>
      some { s with
        configs := upsertConfigs sub fetched old base
        sweep := .upsert sub fetched free rest .assigned }
    | .assigned => some { s with sweep := .upsert sub fetched free rest (.first s.subs) }
    | .first first => some { s with sweep := .upsert sub fetched free rest (.second first s.subs) }
    | .second first second =>
      some { s with
        subs := upsertSubs sub first second
        sweep := if free then .free sub rest else .targets rest }
  | _ => none

/-- What an edit makes of the subscriptions it read. -/
def Edit.apply (e : Edit) (subs : List Subscription) : List Subscription :=
  match e with
  | .deleteSubscription id => subs.filter fun r => r.id ≠ id
  | .renameSubscription id newName =>
    subs.map fun r => if r.id = id then { r with name := newName } else r
  | .updateSubscriptionUrl id url =>
    subs.map fun r => if r.id = id then { r with url := url.trimmed } else r

def Function.set {α : Type} (f : String → α) (k : String) (a : α) : String → α :=
  fun i => if i = k then a else f i

/-- An edit of the list `read` is done. -/
def Wishes.want (w : Wishes) (e : Edit) (read : List Subscription) : Wishes :=
  match e with
  | .deleteSubscription id =>
    ⟨id :: w.deleted, Function.set w.named id none, Function.set w.linked id none⟩
  | .renameSubscription id newName =>
    if read.any fun r => r.id = id then { w with named := Function.set w.named id (some newName) }
    else w
  | .updateSubscriptionUrl id url =>
    if read.any fun r => r.id = id then
      { w with linked := Function.set w.linked id (some url.trimmed) }
    else w

def stepEdit (s : RSys) : Option RSys :=
  match s.edit with
  | .idle => none
  | .start (.deleteSubscription id) => some { s with edit := .configs id s.configs }
  | .start (.updateSubscriptionUrl id url) =>
    -- an empty link is not taken
    if url.trimmed = "" then some { s with edit := .idle }
    else some { s with edit := .subs (.updateSubscriptionUrl id url) }
  | .start e => some { s with edit := .subs e }
  | .configs id read =>
    some { s with
      configs := read.filter fun c => c.subId ≠ id
      edit := .subs (.deleteSubscription id) }
  | .subs e => some { s with edit := .assign e s.subs }
  | .assign e read => 
    some { s with subs := e.apply read, edit := .idle, wishes := s.wishes.want e read }

def stepRefresh (s : RSys) : RAct → Option RSys
  | .sweep targets =>
    if s.sweep = .idle ∧ targets.isSublist s.subs then some { s with sweep := .targets targets }
    else none
  | .next f => stepNext s f
  | .publish combined =>
    match s.sweep with
    | .free sub rest =>
      some { s with sweep := .upsert { sub with name := "@Ghajarvpn" } combined true rest .start }
    | _ => none
  | .scanned =>
    match s.sweep with
    | .free _ rest => some { s with sweep := .targets rest }
    | _ => none
  | .run => stepUpsert s
  | .edit e => if s.edit = .idle then some { s with edit := .start e } else none
  | .user => stepEdit s

/-! ## The edits -/

/-- A list of subscriptions has what the user wants. -/
structure SubsOk (w : Wishes) (l : List Subscription) : Prop where
  gone : ∀ id ∈ w.deleted, ∀ r ∈ l, r.id ≠ id
  named : ∀ id n, w.named id = some n → ∃ r ∈ l, r.id = id ∧ r.name = n
  linked : ∀ id u, w.linked id = some u → ∃ r ∈ l, r.id = id ∧ r.url = u

/-- A list of configurations has none of a deleted subscription. -/
def ConfigsOk (w : Wishes) (l : List Config) : Prop := ∀ id ∈ w.deleted, ∀ c ∈ l, c.subId ≠ id

/-- What the user deleted is not in the store, and the names and links are those the user set. -/
def EditsKept (s : RSys) : Prop := SubsOk s.wishes s.subs ∧ ConfigsOk s.wishes s.configs

/-- The configurations of `id` are deleted and its record is about to be. -/
def RSys.deleting (s : RSys) (id : String) : Prop :=
  s.edit = .subs (.deleteSubscription id) ∨
    ∃ read, s.edit = .assign (.deleteSubscription id) read

/-- **The condition**: when the sweep assigns a list, it is made of the list there is, the
subscription has not been deleted and is not being deleted, and it has the name and the link the
sweep's copy has. -/
def Undisturbed (s : RSys) (a : RAct) : Prop :=
  match a with
  | .run =>
    match s.sweep with
    | .upsert sub _ _ _ (.base _ base) =>
      base = s.configs ∧ sub.id ∉ s.wishes.deleted ∧ ¬s.deleting sub.id
    | .upsert sub _ _ _ (.second _ second) =>
      second = s.subs ∧ sub.id ∉ s.wishes.deleted ∧
        ∀ r ∈ s.subs, r.id = sub.id → r.name = sub.name ∧ r.url = sub.url
    | _ => True
  | _ => True

/-- Nothing is going on yet. -/
def RSys.start (configs : List Config) (subs : List Subscription) : RSys :=
  ⟨configs, subs, .idle, .idle, [], fun _ => none, fun _ => none⟩

/-- The sweep and the edits have finished. -/
def RSys.finished (s : RSys) : Prop := s.sweep = .idle ∧ s.edit = .idle

/-! ## The lists -/

theorem tagged_subId {sub : Subscription} {old fetched : List Config} {c : Config}
    (h : c ∈ tagged sub old fetched) : c.subId = sub.id := by
  induction fetched generalizing old with
  | nil => cases h
  | cons f fetched ih =>
    rcases List.mem_cons.1 h with rfl | h
    · rfl
    · exact ih h

theorem mem_upsertConfigs {sub : Subscription} {fetched old base : List Config} {c : Config}
    (h : c ∈ upsertConfigs sub fetched old base) : c ∈ base ∨ c.subId = sub.id := by
  rcases List.mem_append.1 h with h | h
  · exact .inl (List.mem_filter.1 h).1
  · exact .inr (tagged_subId h)

theorem mem_upsertSubs {sub r : Subscription} {first second : List Subscription} :
    r ∈ upsertSubs sub first second ↔ r = sub ∨ (r ∈ second ∧ r.id ≠ sub.id) := by
  have hf : r ∈ second.filter (fun s => s.id ≠ sub.id) ↔ r ∈ second ∧ r.id ≠ sub.id := by
    simp [List.mem_filter]
  unfold upsertSubs
  simp only
  split
  · rw [List.mem_insertIdx (Nat.min_le_right _ _), hf]
  · rw [List.mem_cons, hf]

section Wishes

variable {w : Wishes} {l first : List Subscription}

/-- Storing a subscription under the name and the link it has there changes no wish. -/
theorem SubsOk.upsert {sub : Subscription} (h : SubsOk w l) (hd : sub.id ∉ w.deleted)
    (hs : ∀ r ∈ l, r.id = sub.id → r.name = sub.name ∧ r.url = sub.url) :
    SubsOk w (upsertSubs sub first l) := by
  refine ⟨fun id hid r hr => ?_, fun id n hn => ?_, fun id u hu => ?_⟩
  · rcases mem_upsertSubs.1 hr with rfl | ⟨hr, -⟩
    · rintro rfl
      exact hd hid
    · exact h.gone id hid r hr
  · obtain ⟨r, hr, rfl, rfl⟩ := h.named id n hn
    by_cases he : r.id = sub.id
    · exact ⟨sub, mem_upsertSubs.2 (.inl rfl), he.symm, (hs r hr he).1.symm⟩
    · exact ⟨r, mem_upsertSubs.2 (.inr ⟨hr, he⟩), rfl, rfl⟩
  · obtain ⟨r, hr, rfl, rfl⟩ := h.linked id u hu
    by_cases he : r.id = sub.id
    · exact ⟨sub, mem_upsertSubs.2 (.inl rfl), he.symm, (hs r hr he).2.symm⟩
    · exact ⟨r, mem_upsertSubs.2 (.inr ⟨hr, he⟩), rfl, rfl⟩

theorem SubsOk.delete (h : SubsOk w l) (id : String) :
    SubsOk (w.want (.deleteSubscription id) l) (l.filter fun r => r.id ≠ id) := by
  have hkeep : ∀ r ∈ l, r.id ≠ id → r ∈ l.filter fun r => r.id ≠ id :=
    fun r hr hne => List.mem_filter.2 ⟨hr, by simpa using hne⟩
  refine ⟨fun d hd r hr => ?_, fun i n hn => ?_, fun i u hu => ?_⟩
  · obtain ⟨hr, hne⟩ := List.mem_filter.1 hr
    rcases List.mem_cons.1 hd with rfl | hd
    · simpa using hne
    · exact h.gone d hd r hr
  · by_cases hi : i = id
    · have hn : Function.set w.named id none i = some n := hn
      rw [Function.set, if_pos hi] at hn
      cases hn
    · have hn : Function.set w.named id none i = some n := hn
      rw [Function.set, if_neg hi] at hn
      obtain ⟨r, hr, rfl, hrn⟩ := h.named i n hn
      exact ⟨r, hkeep r hr hi, rfl, hrn⟩
  · by_cases hi : i = id
    · have hu : Function.set w.linked id none i = some u := hu
      rw [Function.set, if_pos hi] at hu
      cases hu
    · have hu : Function.set w.linked id none i = some u := hu
      rw [Function.set, if_neg hi] at hu
      obtain ⟨r, hr, rfl, hru⟩ := h.linked i u hu
      exact ⟨r, hkeep r hr hi, rfl, hru⟩

theorem SubsOk.rename (h : SubsOk w l) (id newName : String) :
    SubsOk (w.want (.renameSubscription id newName) l)
      (l.map fun r => if r.id = id then { r with name := newName } else r) := by
  have hgone : ∀ d ∈ w.deleted, ∀ r ∈ l.map fun r =>
      if r.id = id then { r with name := newName } else r, r.id ≠ d := by
    intro d hd r hr
    obtain ⟨q, hq, rfl⟩ := List.mem_map.1 hr
    split <;> exact h.gone d hd q hq
  have hlinked : ∀ i u, w.linked i = some u → ∃ r ∈ l.map fun r =>
      if r.id = id then { r with name := newName } else r, r.id = i ∧ r.url = u := by
    intro i u hu
    obtain ⟨r, hr, rfl, rfl⟩ := h.linked i u hu
    refine ⟨_, List.mem_map_of_mem hr, ?_, ?_⟩ <;> split <;> rfl
  have hother : ∀ i n, i ≠ id → w.named i = some n → ∃ r ∈ l.map fun r =>
      if r.id = id then { r with name := newName } else r, r.id = i ∧ r.name = n := by
    intro i n hi hn
    obtain ⟨r, hr, rfl, rfl⟩ := h.named i n hn
    refine ⟨_, List.mem_map_of_mem hr, ?_⟩
    rw [if_neg hi]
    exact ⟨rfl, rfl⟩
  unfold Wishes.want
  simp only
  split
  · rename_i hany
    obtain ⟨q, hq, hqi⟩ := List.any_eq_true.1 hany
    have hqi : q.id = id := by simpa using hqi
    refine ⟨hgone, fun i n hn => ?_, hlinked⟩
    have hn : Function.set w.named id (some newName) i = some n := hn
    unfold Function.set at hn
    split at hn
    · rename_i hi
      refine ⟨_, List.mem_map_of_mem hq, ?_⟩
      rw [if_pos hqi]
      exact ⟨hqi.trans hi.symm, Option.some.inj hn⟩
    · exact hother i n ‹_› hn
  · rename_i hany
    refine ⟨hgone, fun i n hn => hother i n ?_ hn, hlinked⟩
    rintro rfl
    obtain ⟨r, hr, hri, -⟩ := h.named i n hn
    exact hany (List.any_eq_true.2 ⟨r, hr, by simpa using hri⟩)

theorem SubsOk.relink (h : SubsOk w l) (id url : String) :
    SubsOk (w.want (.updateSubscriptionUrl id url) l)
      (l.map fun r => if r.id = id then { r with url := url.trimmed } else r) := by
  have hgone : ∀ d ∈ w.deleted, ∀ r ∈ l.map fun r =>
      if r.id = id then { r with url := url.trimmed } else r, r.id ≠ d := by
    intro d hd r hr
    obtain ⟨q, hq, rfl⟩ := List.mem_map.1 hr
    split <;> exact h.gone d hd q hq
  have hnamed : ∀ i n, w.named i = some n → ∃ r ∈ l.map fun r =>
      if r.id = id then { r with url := url.trimmed } else r, r.id = i ∧ r.name = n := by
    intro i n hn
    obtain ⟨r, hr, rfl, rfl⟩ := h.named i n hn
    refine ⟨_, List.mem_map_of_mem hr, ?_, ?_⟩ <;> split <;> rfl
  have hother : ∀ i u, i ≠ id → w.linked i = some u → ∃ r ∈ l.map fun r =>
      if r.id = id then { r with url := url.trimmed } else r, r.id = i ∧ r.url = u := by
    intro i u hi hu
    obtain ⟨r, hr, rfl, rfl⟩ := h.linked i u hu
    refine ⟨_, List.mem_map_of_mem hr, ?_⟩
    rw [if_neg hi]
    exact ⟨rfl, rfl⟩
  unfold Wishes.want
  simp only
  split
  · rename_i hany
    obtain ⟨q, hq, hqi⟩ := List.any_eq_true.1 hany
    have hqi : q.id = id := by simpa using hqi
    refine ⟨hgone, hnamed, fun i u hu => ?_⟩
    have hu : Function.set w.linked id (some url.trimmed) i = some u := hu
    unfold Function.set at hu
    split at hu
    · rename_i hi
      refine ⟨_, List.mem_map_of_mem hq, ?_⟩
      rw [if_pos hqi]
      exact ⟨hqi.trans hi.symm, Option.some.inj hu⟩
    · exact hother i u ‹_› hu
  · rename_i hany
    refine ⟨hgone, hnamed, fun i u hu => hother i u ?_ hu⟩
    rintro rfl
    obtain ⟨r, hr, hri, -⟩ := h.linked i u hu
    exact hany (List.any_eq_true.2 ⟨r, hr, by simpa using hri⟩)

/-- An edit makes of a list that was in order one with the new wish in it. -/
theorem SubsOk.edit (h : SubsOk w l) (e : Edit) : SubsOk (w.want e l) (e.apply l) := by
  cases e with
  | deleteSubscription id => exact h.delete id
  | renameSubscription id newName => exact h.rename id newName
  | updateSubscriptionUrl id url => exact h.relink id url

end Wishes

/-! ## One step -/

/-- The store and the lists an edit has read have what the user wants. -/
structure RInv (s : RSys) : Prop where
  subs : SubsOk s.wishes s.subs
  configs : ConfigsOk s.wishes s.configs
  readSubs : ∀ e read, s.edit = .assign e read → SubsOk s.wishes read
  readConfigs : ∀ id read, s.edit = .configs id read → ConfigsOk s.wishes read
  deleting : ∀ id, s.deleting id → ∀ c ∈ s.configs, c.subId ≠ id

/-- A step of the sweep that assigns nothing. -/
theorem RInv.frame {s : RSys} (h : RInv s) (sweep : Sweep) : RInv { s with sweep := sweep } :=
  ⟨h.subs, h.configs, h.readSubs, h.readConfigs, h.deleting⟩

theorem next_inv {s s' : RSys} {f : Fetch} (h : RInv s) (hs : stepNext s f = some s') :
    RInv s' := by
  unfold stepNext at hs
  split at hs
  · cases hs
    exact h.frame _
  · split at hs
    · split at hs
      · cases hs
        exact h.frame _
      · split at hs
        · cases hs
          exact h.frame _
        · split at hs
          · cases hs
            exact h.frame _
          · cases hs
      · cases hs
    · split at hs
      · cases hs
        exact h.frame _
      · split at hs
        · cases hs
          exact h.frame _
        · split at hs
          · cases hs
            exact h.frame _
          · cases hs
            exact h.frame _
        · cases hs
  · cases hs

theorem upsert_inv {s s' : RSys} (h : RInv s) (hc : Undisturbed s .run)
    (hs : stepUpsert s = some s') : RInv s' := by
  unfold stepUpsert at hs
  unfold Undisturbed at hc
  cases hw : s.sweep with
  | upsert sub fetched free rest pc =>
    rw [hw] at hs hc
    cases pc with
    | base old base =>
      cases hs
      obtain ⟨rfl, hd, hdel⟩ := hc
      refine ⟨h.subs, fun id hid c hcm => ?_, h.readSubs, h.readConfigs, fun id hdl c hcm => ?_⟩
      · rcases mem_upsertConfigs hcm with hb | he
        · exact h.configs id hid c hb
        · rintro rfl
          exact hd (he ▸ hid)
      · rcases mem_upsertConfigs hcm with hb | he
        · exact h.deleting id hdl c hb
        · rintro rfl
          exact hdel (he ▸ hdl)
    | second first second =>
      cases hs
      obtain ⟨rfl, hd, hsame⟩ := hc
      exact ⟨h.subs.upsert hd hsame, h.configs, h.readSubs, h.readConfigs, h.deleting⟩
    | _ =>
      cases hs
      exact h.frame _
  | _ =>
    rw [hw] at hs
    cases hs

/-- What a step of an edit reads is in order, as the store is. -/
theorem edit_inv {s s' : RSys} (h : RInv s) (hs : stepEdit s = some s') : RInv s' := by
  -- a step that only moves on, to where nothing has been read or deleted
  have hmove : ∀ pc, (∀ e read, pc ≠ .assign e read) → (∀ id read, pc ≠ .configs id read) →
      (∀ id, pc ≠ .subs (.deleteSubscription id)) → RInv { s with edit := pc } := by
    intro pc ha hcf hsb
    refine ⟨h.subs, h.configs, fun e read he => absurd he (ha e read),
      fun id read he => absurd he (hcf id read), fun id hd => ?_⟩
    rcases hd with hd | ⟨read, hd⟩
    · exact absurd hd (hsb id)
    · exact absurd hd (ha _ read)
  unfold stepEdit at hs
  cases hp : s.edit with
  | idle =>
    rw [hp] at hs
    cases hs
  | start e =>
    rw [hp] at hs
    cases e with
    | deleteSubscription id =>
      cases hs
      refine ⟨h.subs, h.configs, fun e read he => (by cases he), fun i read he => ?_,
        fun i hd => ?_⟩
      · cases he
        exact h.configs
      · rcases hd with hd | ⟨read, hd⟩ <;> cases hd
    | renameSubscription id newName =>
      cases hs
      exact hmove _ (fun e r he => (by cases he)) (fun i r he => (by cases he))
        fun i he => (by cases he)
    | updateSubscriptionUrl id url =>
      simp only at hs
      split at hs
      · cases hs
        exact hmove _ (fun e r he => (by cases he)) (fun i r he => (by cases he))
          fun i he => (by cases he)
      · cases hs
        exact hmove _ (fun e r he => (by cases he)) (fun i r he => (by cases he))
          fun i he => (by cases he)
  | configs id read =>
    rw [hp] at hs
    cases hs
    have hread := h.readConfigs id read hp
    refine ⟨h.subs, fun d hd c hc => hread d hd c (List.mem_filter.1 hc).1,
      fun e r he => (by cases he), fun i r he => (by cases he), fun i hd c hc => ?_⟩
    rcases hd with hd | ⟨r, hd⟩
    · cases hd
      simpa using (List.mem_filter.1 hc).2
    · cases hd
  | subs e =>
    rw [hp] at hs
    cases hs
    refine ⟨h.subs, h.configs, fun e' read he => ?_, fun i r he => (by cases he),
      fun i hd c hc => ?_⟩
    · cases he
      exact h.subs
    · rcases hd with hd | ⟨r, hd⟩
      · cases hd
      · cases hd
        exact h.deleting i (.inl hp) c hc
  | assign e read =>
    rw [hp] at hs
    cases hs
    refine ⟨(h.readSubs e read hp).edit e, ?_, fun e' r he => (by cases he),
      fun i r he => (by cases he), fun i hd => ?_⟩
    · cases e with
      | deleteSubscription id =>
        intro d hd c hc
        rcases List.mem_cons.1 hd with rfl | hd
        · exact h.deleting d (.inr ⟨read, hp⟩) c hc
        · exact h.configs d hd c hc
      | renameSubscription id n =>
        have hd : (s.wishes.want (.renameSubscription id n) read).deleted = s.wishes.deleted := by
          unfold Wishes.want
          simp only
          split <;> rfl
        intro d hm
        exact h.configs d (hd ▸ hm)
      | updateSubscriptionUrl id u =>
        have hd : (s.wishes.want (.updateSubscriptionUrl id u) read).deleted =
            s.wishes.deleted := by
          unfold Wishes.want
          simp only
          split <;> rfl
        intro d hm
        exact h.configs d (hd ▸ hm)
    · rcases hd with hd | ⟨r, hd⟩ <;> cases hd

theorem stepRefresh_inv (s : RSys) (a : RAct) (s' : RSys) (h : RInv s) (hc : Undisturbed s a)
    (hs : stepRefresh s a = some s') : RInv s' := by
  cases a with
  | sweep targets =>
    simp only [stepRefresh] at hs
    split at hs
    · cases hs
      exact h.frame _
    · cases hs
  | next f => exact next_inv h hs
  | publish combined =>
    simp only [stepRefresh] at hs
    split at hs
    · cases hs
      exact h.frame _
    · cases hs
  | scanned =>
    simp only [stepRefresh] at hs
    split at hs
    · cases hs
      exact h.frame _
    · cases hs
  | run => exact upsert_inv h hc hs
  | edit e =>
    simp only [stepRefresh] at hs
    split at hs
    · cases hs
      refine ⟨h.subs, h.configs, fun e' r he => (by cases he), fun i r he => (by cases he),
        fun i hd => ?_⟩
      rcases hd with hd | ⟨r, hd⟩ <;> cases hd
    · cases hs
  | user => exact edit_inv h hs

/-! ## Whole runs -/

theorem start_inv (configs : List Config) (subs : List Subscription) :
    RInv (.start configs subs) := by
  refine ⟨⟨fun d hd => (by cases hd), fun i n hn => (by cases hn), fun i u hu => (by cases hu)⟩,
    fun d hd => (by cases hd), fun e r he => (by cases he), fun i r he => (by cases he),
    fun i hd => ?_⟩
  rcases hd with hd | ⟨r, hd⟩ <;> cases hd

/-- **A refresh undoes no edit**, if each of its writes finds the subscription as its copy has
it. -/
theorem refresh_keeps_edits {configs : List Config} {subs : List Subscription} {as : List RAct}
    {s : RSys} (hc : Meets stepRefresh Undisturbed (.start configs subs) as)
    (hr : run stepRefresh (.start configs subs) as = some s) : EditsKept s :=
  have h := run_inv stepRefresh_inv (start_inv configs subs) hc hr
  ⟨h.subs, h.configs⟩

instance (s : RSys) (id : String) : Decidable (s.deleting id) :=
  decidable_of_iff ((match s.edit with
    | .subs e | .assign e _ => decide (e = .deleteSubscription id)
    | _ => false) = true) (by
      unfold RSys.deleting
      cases s.edit <;> simp)

instance (s : RSys) (a : RAct) : Decidable (Undisturbed s a) := by
  unfold Undisturbed
  split
  · split <;> infer_instance
  · exact .isTrue trivial

def vps (id name : String) : Subscription := ⟨id, name, "https://example.com/" ++ id⟩

def vpsServer (id sub : String) : Config := ⟨id, "", sub, false, id, id⟩

/-- One subscription is refreshed while the user renames another. -/
def renamedMeanwhile : List RAct :=
  [.sweep [vps "a" "A"], .next (.configs [vpsServer "2" ""]), .edit (.renameSubscription "b" "C"),
    .run, .user, .run, .user, .run, .user, .run, .run, .run, .next .failed]

theorem renamedMeanwhile_kept : ∃ s,
    run stepRefresh (.start [vpsServer "1" "a"] [vps "a" "A", vps "b" "B"]) renamedMeanwhile =
      some s ∧ s.subs = [vps "a" "A", ⟨"b", "C", "https://example.com/b"⟩] ∧ EditsKept s := by
  have hc : Meets stepRefresh Undisturbed
      (.start [vpsServer "1" "a"] [vps "a" "A", vps "b" "B"]) renamedMeanwhile := by decide
  exact ⟨_, rfl, by decide, refresh_keeps_edits hc rfl⟩

/-- The subscription is deleted while its new servers are fetched. -/
def deletedMeanwhile : List RAct :=
  [.sweep [vps "a" "A"], .edit (.deleteSubscription "a"), .user, .user, .user, .user,
    .next (.configs [vpsServer "2" ""]), .run, .run, .run, .run, .run, .run, .next .failed]

/-- It is back in the store, with its servers. -/
theorem deletedMeanwhile_back :
    ¬∀ (configs : List Config) (subs : List Subscription) (as : List RAct) (s : RSys),
      run stepRefresh (.start configs subs) as = some s → s.finished → EditsKept s := by
  intro h
  have hk := h [vpsServer "1" "a"] [vps "a" "A"] deletedMeanwhile _ rfl ⟨rfl, rfl⟩
  exact hk.1.gone "a" List.mem_cons_self (vps "a" "A") List.mem_cons_self rfl

end Ghajar.Store
