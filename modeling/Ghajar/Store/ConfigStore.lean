import Ghajar.Lib.Run
import Ghajar.Lib.Text

/-!
# The configuration store

`ConfigStore`: the coroutine that loads the stored list once, the operations on the
list in memory, the thread that writes snapshots of it. Reading a list, assigning it
and taking its snapshot are steps of their own. `loaded_kept`: an operation that
starts when the load has published its list loses nothing.

The stored list is kept as a list; its JSON and its encryption are left out.
-/

namespace Ghajar.Store

open Run

/-- A `ProxyConfig`. `sig` is what `sigOf` makes of it, `signature` what
`FreeFeedRules.signature` does. -/
structure Config where
  id : String
  name : String
  subId : String
  locked : Bool
  sig : String
  signature : String
  deriving DecidableEq, Repr

structure Subscription where
  id : String
  name : String
  url : String
  deriving DecidableEq, Repr

/-- An operation; `newId` is the id of a subscription it may have to make. -/
inductive Op where
  | add (config : Config)
  | addToLocalSub (name : String) (configs : List Config) (newId : String)
  | update (config : Config)
  | upsertSubscription (sub : Subscription) (fetched : List Config)
  | delete (id : String)
  deriving DecidableEq, Repr

def SOURCE_URL : String := "https://t.me/s/Ghajarvpn"

def Subscription.isBlank (s : Subscription) : Bool := Text.isBlank s.url.toList

/-- The group `addToLocalSub` adds to, if there is one. -/
def localSub (subs : List Subscription) (name : String) : Option Subscription :=
  subs.find? fun s => s.name = name && s.isBlank

/-- `identity` of `upsertSubscription`. -/
def identity (sub : Subscription) (c : Config) : String :=
  if sub.url = SOURCE_URL then c.signature else c.sig

/-- `tagged`: a fetched configuration takes over the id of an old one, each of them once. -/
def tagged (sub : Subscription) : List Config → List Config → List Config
  | _, [] => []
  | old, f :: fetched =>
    let kept := old.find? fun c => identity sub c = identity sub f
    { f with subId := sub.id, id := (kept.map (·.id)).getD f.id } ::
      tagged sub (old.filter fun c => identity sub c ≠ identity sub f) fetched

/-- What the map of `update` does to one entry. -/
def updated (config existing : Config) : Config :=
  if existing.id ≠ config.id then existing
  else if existing.locked then { existing with name := config.name }
  else config

namespace Op

/-- The list an operation assigns, for the list it read. `associateBy` keeps the last
of those with one identity, so the old ones are searched from the end. -/
def configs (op : Op) (subs : List Subscription) (configs : List Config) : List Config :=
  match op with
  | .add config => configs ++ [config]
  | .addToLocalSub name added newId =>
    let subId := ((localSub subs name).map (·.id)).getD newId
    configs ++ added.map fun c => { c with subId := subId }
  | .update config => configs.map (updated config)
  | .upsertSubscription sub fetched =>
    let old := (configs.filter fun c => c.subId = sub.id).reverse
    (configs.filter fun c => c.subId ≠ sub.id) ++ tagged sub old fetched
  | .delete id => configs.filter fun c => c.id ≠ id

/-- The subscriptions an operation assigns. -/
def subscriptions (op : Op) (subs : List Subscription) : List Subscription :=
  match op with
  | .addToLocalSub name _ newId =>
    if (localSub subs name).isNone then ⟨newId, name, ""⟩ :: subs else subs
  | .upsertSubscription sub _ =>
    let index := subs.findIdx fun s => s.id = sub.id
    let withoutSub := subs.filter fun s => s.id ≠ sub.id
    if index < subs.length then withoutSub.insertIdx (min index withoutSub.length) sub
    else sub :: withoutSub
  | _ => subs

/-- `if (configs.isEmpty()) return` of `addToLocalSub`. -/
def returns : Op → Bool
  | .addToLocalSub _ added _ => added.isEmpty
  | _ => false

end Op

def ids (l : List Config) : List String := l.map (·.id)

/-! ## What an operation removes and adds -/

theorem mem_ids {l : List Config} {i : String} : i ∈ ids l ↔ ∃ c ∈ l, c.id = i := List.mem_map

theorem ids_append (l m : List Config) : ids (l ++ m) = ids l ++ ids m := List.map_append

theorem updated_id (config existing : Config) : (updated config existing).id = existing.id := by
  unfold updated
  split
  · rfl
  · rename_i h
    split
    · rfl
    · exact (Decidable.not_not.1 h).symm

/-- Only `delete` and the refresh of a subscription remove a configuration. -/
theorem removed_by {op : Op} {subs : List Subscription} {l : List Config} {i : String}
    (hi : i ∈ ids l) (hr : i ∉ ids (op.configs subs l)) :
    op = .delete i ∨ ∃ sub fetched, op = .upsertSubscription sub fetched ∧
      ∃ c ∈ l, c.id = i ∧ c.subId = sub.id := by
  cases op with
  | add config | addToLocalSub name added newId =>
    simp only [Op.configs, ids_append, List.mem_append, not_or] at hr
    exact absurd hi hr.1
  | update config =>
    obtain ⟨c, hc, rfl⟩ := mem_ids.1 hi
    exact absurd (mem_ids.2 ⟨_, List.mem_map_of_mem hc, updated_id config c⟩) hr
  | upsertSubscription sub fetched =>
    obtain ⟨c, hc, rfl⟩ := mem_ids.1 hi
    simp only [Op.configs, ids_append, List.mem_append, not_or] at hr
    by_cases hsub : c.subId = sub.id
    · exact .inr ⟨sub, fetched, rfl, c, hc, rfl, hsub⟩
    · exact absurd (mem_ids.2 ⟨c, List.mem_filter.2 ⟨hc, by simpa using hsub⟩, rfl⟩) hr.1
  | delete id =>
    obtain ⟨c, hc, rfl⟩ := mem_ids.1 hi
    by_cases hid : c.id = id
    · exact .inl (by rw [hid])
    · exact absurd (mem_ids.2 ⟨c, List.mem_filter.2 ⟨hc, by simpa using hid⟩, rfl⟩) hr

/-! ## The threads -/

/-- The coroutine of `init`. -/
inductive Load where
  | reading
  | loaded (cfgs : List Config) (subs : List Subscription)
  | published (subs : List Subscription)
  | done
  deriving DecidableEq, Repr

/-- Where the operations are; they come one after the other. -/
inductive Pc where
  | idle
  | read (op : Op)
  | assign (op : Op) (before : List Config) (configs : List Config) (subs : List Subscription)
  | snapshot
  deriving DecidableEq, Repr

/-- The disk, the memory, the threads. `writes` is the queue of the writer. `wanted` is not in
the source: the ids of the stored configurations that no operation removed and of those that
one added. -/
structure Sys where
  disk : List Config
  diskSubs : List Subscription
  configs : List Config
  subscriptions : List Subscription
  load : Load
  pc : Pc
  writes : List (List Config)
  wanted : List String
  deriving DecidableEq, Repr

inductive Act where
  | load
  | call (op : Op)
  | run
  | write
  deriving DecidableEq, Repr

/-- An operation that read `before` assigned `after`. -/
def account (wanted before after : List String) : List String :=
  wanted.filter (fun i => i ∉ before || i ∈ after) ++ after.filter fun i => i ∉ before

def stepLoad (s : Sys) : Option Sys :=
  match s.load with
  | .reading => some { s with load := .loaded s.disk s.diskSubs }
  | .loaded cfgs subs => some { s with configs := cfgs, load := .published subs }
  | .published subs => some { s with subscriptions := subs, load := .done }
  | .done => none

def stepRun (s : Sys) : Option Sys :=
  match s.pc with
  | .idle => none
  | .read op =>
    if op.returns then some { s with pc := .idle }
    else
      some { s with
        pc := .assign op s.configs (op.configs s.subscriptions s.configs)
          (op.subscriptions s.subscriptions) }
  | .assign _ before configs subs =>
    some { s with
      configs := configs
      subscriptions := subs
      wanted := account s.wanted (ids before) (ids configs)
      pc := .snapshot }
  | .snapshot => some { s with writes := s.writes ++ [s.configs], pc := .idle }

def step (s : Sys) : Act → Option Sys
  | .load => stepLoad s
  | .call op => if s.pc = .idle then some { s with pc := .read op } else none
  | .run => stepRun s
  | .write =>
    match s.writes with
    | [] => none
    | snapshot :: rest => some { s with disk := snapshot, writes := rest }

/-- The store is created over what is on the disk. -/
def Sys.fresh (disk : List Config) (subs : List Subscription) : Sys :=
  ⟨disk, subs, [], [], .reading, .idle, [], ids disk⟩

/-- The load and all operations have finished. -/
def Sys.finished (s : Sys) : Prop := s.load = .done ∧ s.pc = .idle ∧ s.writes = []

instance (s : Sys) : Decidable s.finished := by
  unfold Sys.finished
  infer_instance

/-- Nothing is lost, neither from memory nor from the disk. -/
def Kept (s : Sys) : Prop := ∀ i ∈ s.wanted, i ∈ ids s.configs ∧ i ∈ ids s.disk

instance (s : Sys) : Decidable (Kept s) := by
  unfold Kept
  infer_instance

/-! ## Nothing is lost -/

/-- The load has published its list. -/
def Load.ready : Load → Bool
  | .published _ | .done => true
  | .reading | .loaded _ _ => false

/-- **The condition**: an operation reads the list only when the load has published it. -/
def Ready (s : Sys) : Act → Prop
  | .run => s.load.ready = true ∨ ∀ op, s.pc ≠ .read op
  | _ => True

instance (s : Sys) (a : Act) : Decidable (Ready s a) := by
  cases a with
  | run =>
    unfold Ready
    cases hp : s.pc with
    | read op => exact decidable_of_iff (s.load.ready = true) (by simp)
    | _ => exact .isTrue (.inr fun op h => (by cases h))
  | _ => exact .isTrue trivial

/-- What is wanted is in a list. -/
def Sys.In (s : Sys) (l : List Config) : Prop := ∀ i ∈ s.wanted, i ∈ ids l

/-- The list that the disk will hold when the writer is done. -/
def Sys.last (s : Sys) : List Config := s.writes.getLast?.getD s.disk

/-- Before the load publishes, nothing has happened; after it, the memory holds what is
wanted, and so does the last snapshot, unless one is about to be taken. -/
structure Inv (s : Sys) : Prop where
  before : s.load.ready = false → (s.pc = .idle ∨ ∃ op, s.pc = .read op) ∧ s.writes = []
  loaded : ∀ cfgs subs, s.load = .loaded cfgs subs → s.In cfgs
  memory : s.load.ready = true → s.In s.configs
  assign : ∀ op b l subs, s.pc = .assign op b l subs → b = s.configs
  disk : s.pc ≠ .snapshot → s.In s.last

theorem mem_account {wanted before after : List String} {i : String}
    (h : i ∈ account wanted before after) : i ∈ after ∨ (i ∈ wanted ∧ i ∉ before) := by
  rcases List.mem_append.1 h with h | h
  · obtain ⟨hw, hb⟩ := List.mem_filter.1 h
    by_cases ha : i ∈ after
    · exact .inl ha
    · exact .inr ⟨hw, by simpa [ha] using hb⟩
  · exact .inl (List.mem_filter.1 h).1

theorem load_inv {s s' : Sys} (h : Inv s) (hs : stepLoad s = some s') : Inv s' := by
  unfold stepLoad at hs
  cases hl : s.load with
  | reading =>
    rw [hl] at hs
    cases hs
    have hb := h.before (by rw [hl]; rfl)
    have hnot : s.pc ≠ .snapshot := by
      rcases hb.1 with hp | ⟨op, hp⟩ <;> simp [hp]
    refine ⟨fun _ => hb, fun cfgs subs he => ?_, fun hr => (by cases hr), h.assign, h.disk⟩
    cases he
    have hlast : s.last = s.disk := by simp [Sys.last, hb.2]
    have hd := h.disk hnot
    rw [hlast] at hd
    exact hd
  | loaded cfgs subs =>
    rw [hl] at hs
    cases hs
    obtain ⟨hp, -⟩ := h.before (by rw [hl]; rfl)
    refine ⟨fun hr => (by cases hr), fun c t he => (by cases he), fun _ => h.loaded cfgs subs hl,
      fun op b l t hpc => ?_, h.disk⟩
    have hpc : s.pc = .assign op b l t := hpc
    rcases hp with hp | ⟨op', hp⟩ <;> rw [hp] at hpc <;> cases hpc
  | published subs =>
    rw [hl] at hs
    cases hs
    exact ⟨fun hr => (by cases hr), fun c t he => (by cases he),
      fun _ => h.memory (by rw [hl]; rfl), h.assign, h.disk⟩
  | done =>
    rw [hl] at hs
    cases hs

theorem run_op_inv {s s' : Sys} (h : Inv s) (hc : Ready s .run) (hs : stepRun s = some s') :
    Inv s' := by
  unfold stepRun at hs
  cases hp : s.pc with
  | idle =>
    rw [hp] at hs
    cases hs
  | read op =>
    rw [hp] at hs
    simp only at hs
    have hready : s.load.ready = true := hc.resolve_right fun hn => hn op hp
    have hd := h.disk (by simp [hp])
    split at hs
    · cases hs
      refine ⟨fun hr => ?_, h.loaded, h.memory, fun o b l t he => (by cases he), fun _ => hd⟩
      have hr : s.load.ready = false := hr
      rw [hready] at hr
      cases hr
    · cases hs
      refine ⟨fun hr => ?_, h.loaded, h.memory, fun o b l t he => ?_, fun _ => hd⟩
      · have hr : s.load.ready = false := hr
        rw [hready] at hr
        cases hr
      · cases he
        rfl
  | assign op b l subs =>
    rw [hp] at hs
    cases hs
    have hready : s.load.ready = true := by
      cases hr : s.load.ready with
      | true => rfl
      | false =>
        rcases (h.before hr).1 with hi | ⟨op', hi⟩ <;> rw [hi] at hp <;> cases hp
    have hb : b = s.configs := h.assign op b l subs hp
    have hmem := h.memory hready
    refine ⟨fun hr => ?_, fun cfgs t he => ?_, fun _ i hi => ?_, fun o b' l' t he => (by cases he),
      fun hn => absurd rfl hn⟩
    · have hr : s.load.ready = false := hr
      rw [hready] at hr
      cases hr
    · have he : s.load = .loaded cfgs t := he
      rw [he] at hready
      cases hready
    · -- what it read was all that is wanted
      rcases mem_account hi with hi | ⟨hw, hn⟩
      · exact hi
      · subst hb
        exact absurd (hmem i hw) hn
  | snapshot =>
    rw [hp] at hs
    cases hs
    have hready : s.load.ready = true := by
      cases hr : s.load.ready with
      | true => rfl
      | false =>
        rcases (h.before hr).1 with hi | ⟨op', hi⟩ <;> rw [hi] at hp <;> cases hp
    refine ⟨fun hr => ?_, h.loaded, h.memory, fun o b l t he => (by cases he), fun _ => ?_⟩
    · have hr : s.load.ready = false := hr
      rw [hready] at hr
      cases hr
    · have hm := h.memory hready
      simpa [Sys.In, Sys.last] using hm

theorem step_inv (s : Sys) (a : Act) (s' : Sys) (h : Inv s) (hc : Ready s a)
    (hs : step s a = some s') : Inv s' := by
  cases a with
  | load => exact load_inv h hs
  | call op =>
    simp only [step] at hs
    split at hs
    · rename_i hp
      cases hs
      have hd := h.disk (by simp [hp])
      exact ⟨fun hr => ⟨.inr ⟨op, rfl⟩, (h.before hr).2⟩, h.loaded, h.memory,
        fun o b l t he => (by cases he), fun _ => hd⟩
    · cases hs
  | run => exact run_op_inv h hc hs
  | write =>
    simp only [step] at hs
    split at hs
    · cases hs
    · rename_i snapshot rest hw
      cases hs
      refine ⟨fun hr => ?_, h.loaded, h.memory, h.assign, fun hp => ?_⟩
      · have hn := (h.before hr).2
        rw [hw] at hn
        cases hn
      · have hd := h.disk hp
        unfold Sys.last at hd ⊢
        rw [hw, List.getLast?_cons] at hd
        exact hd

theorem fresh_inv (disk : List Config) (subs : List Subscription) : Inv (.fresh disk subs) :=
  ⟨fun _ => ⟨.inl rfl, rfl⟩, fun c t he => (by cases he), fun hr => (by cases hr),
    fun o b l t he => (by cases he), fun _ i hi => hi⟩

/-- **No configuration is lost at start-up**, if no operation is faster than the load. -/
theorem loaded_kept {disk : List Config} {subs : List Subscription} {as : List Act} {s : Sys}
    (hc : Meets step Ready (.fresh disk subs) as) (hr : run step (.fresh disk subs) as = some s)
    (hf : s.finished) : Kept s := by
  have h := run_inv step_inv (fresh_inv disk subs) hc hr
  obtain ⟨hl, hp, hw⟩ := hf
  have hd := h.disk (by simp [hp])
  intro i hi
  refine ⟨h.memory (by rw [hl]; rfl) i hi, ?_⟩
  have := hd i hi
  simpa [Sys.last, hw] using this

def server (id : String) : Config := ⟨id, "", "", false, "", ""⟩

/-- A configuration is added to a stored one when it is loaded. -/
def addedLater : List Act :=
  [.load, .load, .load, .call (.add (server "b")), .run, .run, .run, .write]

theorem addedLater_kept : ∃ s, run step (.fresh [server "a"] []) addedLater = some s ∧
    ids s.disk = ["a", "b"] ∧ Kept s := by
  have hc : Meets step Ready (.fresh [server "a"] []) addedLater := by decide
  exact ⟨_, rfl, by decide, loaded_kept hc rfl (by decide)⟩

/-- The same configuration is added between the read and the publication of the list. -/
def addedEarly : List Act :=
  [.load, .call (.add (server "b")), .run, .run, .run, .load, .load, .write]

/-- The memory has only the stored configuration, the disk only the added one. -/
theorem addedEarly_lost : ∃ s, run step (.fresh [server "a"] []) addedEarly = some s ∧
    s.finished ∧ ids s.configs = ["a"] ∧ ids s.disk = ["b"] ∧ ¬Kept s :=
  ⟨_, rfl, by decide, by decide, by decide, by decide⟩

end Ghajar.Store
