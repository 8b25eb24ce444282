import Ghajar.Download.Queue

/-!
# What the queue promises

`Consistent`: one writer for a file, every live job in the table, the counter is
the number of jobs, no update lost, nothing reopened after it was closed, nothing
left queued. `Careful` is the condition on a step, `Inv` the invariant of the
runs that meet it: the store, the table and the jobs (`Base`), where each thread
is (`PcOk`), who starts which job, who serves what is queued.
-/

namespace Ghajar.Download.Queue

open Run

namespace Job

/-- From its entry into the table until `onTerminal` removes it. -/
def inTable (j : Job) : Bool := j.stage = .placed || j.stage = .counted || j.stage = .running

/-- From `activeCount++` for it until its `onTerminal` takes it off again. -/
def active (j : Job) : Bool := j.stage = .counted || j.stage = .running || j.stage = .closing

/-- From `start` until it calls `onTerminal`. -/
def live (j : Job) : Bool := j.stage = .running

end Job

/-- Nothing is done any more on any thread. -/
def Sys.idle (s : Sys) : Prop :=
  s.main = .idle ∧ (∀ k, s.workers k = .idle) ∧ ∀ j ∈ s.jobs, j.stage = .ended

def isTerminal (state : DownloadState) : Prop :=
  state = .completed ∨ state = .failed ∨ state = .cancelled

structure Consistent (s : Sys) : Prop where
  oneWriter : ∀ (a b : Nat) (ja jb : Job), s.jobs[a]? = some ja → s.jobs[b]? = some jb →
    ja.live = true → jb.live = true →
    (ja.item.id = jb.item.id ∨ ja.item.fileName = jb.item.fileName) → a = b
  reachable : ∀ (k : Nat) (j : Job), s.jobs[k]? = some j → j.live = true →
    s.table j.item.id = some k
  counted : s.activeCount = s.jobs.countP Job.active ∧ s.activeCount ≤ MAX_CONCURRENT
  atMost : s.jobs.countP Job.live ≤ MAX_CONCURRENT
  exact : (∀ j ∈ s.jobs, j.active = true → j.live = true) →
    s.activeCount = s.jobs.countP Job.live
  kept : ∀ id, s.find id = s.latest id
  closed : ∀ id, s.closed id = true → ∃ r, s.find id = some r ∧ isTerminal r.state
  served : s.idle → ∀ r ∈ s.store, r.state ≠ .queued

/-! ## The condition -/

/-- No job of the record is in the table or about to be removed from it. -/
def Free (s : Sys) (id : Nat) : Prop := ∀ j ∈ s.jobs, j.inTable = true → j.item.id ≠ id

instance (s : Sys) (id : Nat) : Decidable (Free s id) := by unfold Free; infer_instance

/-- Nothing was saved since a list was loaded, and a command saves a record in the
state it read it in; a job is entered only for a queued record that has none; the
counter is written as it was read, and raised only below its bound; a record is
cancelled only while it has no job. -/
def careful (s : Sys) (self : Option Nat) : Pc → Prop
  | .cancelJob id | .removeJob id => Free s id
  | .save w items =>
    items = s.store ∧ (self = none →
      (s.find w.item.id).map (·.state) = w.read ∧
        (w.item.state = .cancelled → Free s w.item.id))
  | .put item _ => (s.find item.id).map (·.state) = some .queued ∧ Free s item.id
  | .count _ n _ => n = s.activeCount ∧ n < MAX_CONCURRENT
  | .uncount n => n = s.activeCount
  | _ => True

instance (s : Sys) (self : Option Nat) (pc : Pc) : Decidable (careful s self pc) := by
  unfold careful
  split <;> infer_instance

/-- The condition on a step; a service with queued records is created by a start
without an action. -/
def Careful (s : Sys) : Act → Prop
  | .main => careful s none s.main
  | .worker k => careful s (some k) (s.workers k)
  | .restart c => (∃ r ∈ s.store, r.state = .queued) → c = .recover
  | _ => True

instance (s : Sys) (a : Act) : Decidable (Careful s a) := by
  unfold Careful
  split <;> infer_instance

/-! ## The invariant -/

/-- The record is stored, under its name. -/
def Known (s : Sys) (r : Record) : Prop :=
  (r.id, r.fileName) ∈ s.store.map fun r => (r.id, r.fileName)

/-- The record has an id and a name nobody has. -/
def Unused (s : Sys) (r : Record) : Prop :=
  (∀ r' ∈ s.store, r'.id ≠ r.id ∧ r'.fileName ≠ r.fileName) ∧ r.id < s.nextId

def RoundOk (K : Record → Prop) (t : Round) : Prop :=
  K t.item ∧ t.item.state = .queued ∧ closes t.read = false

/-- A round that starts a job is ahead. -/
def Starts (todo : List Round) : Prop := ∃ t ∈ todo, t.starts = true

/-- The rounds left of `recoverPending`; the last of them starts a job. -/
def RoundsOk (K : Record → Prop) (todo : List Round) : Prop :=
  (∀ t ∈ todo, RoundOk K t) ∧ ∀ t ∈ todo.getLast?, t.starts = true

/-- What a command persists: a record it cancels, or one it queues and goes on to start. -/
def WriteOk (K U : Record → Prop) (w : Write) : Prop :=
  (K w.item ∨ (U w.item ∧ w.read = none ∧ w.after = .start [])) ∧
    match w.after with
    | .stop => w.item.state = .cancelled
    | .start todo =>
      w.item.state = .queued ∧ (∀ st, w.read = some st → closes st = false) ∧ RoundsOk K todo
    | .loop todo =>
      w.item.state = .queued ∧ (∀ st, w.read = some st → closes st = false) ∧
        RoundsOk K todo ∧ Starts todo
    | .terminal => False

def MainOk (K U : Record → Prop) : Pc → Prop
  | .idle | .pause _ | .cancelJob _ | .removeJob _ | .enqueue _ | .pending | .find _ => True
  | .unpause w | .load w | .save w _ => WriteOk K U w
  | .check item todo | .put item todo => K item ∧ RoundsOk K todo
  | .readCount _ todo | .count _ _ todo | .launch _ todo | .loop todo => RoundsOk K todo
  | .remove | .readLive | .uncount _ | .next => False

/-- A job persists what it reports. -/
def ReportOk (j : Job) (w : Write) : Prop :=
  w.item.id = j.item.id ∧ w.item.fileName = j.item.fileName ∧ w.item.state ≠ .queued ∧
    ((w.item.state = .running ∧ w.after = .stop) ∨
      (w.item.state ≠ .running ∧ w.after = .terminal))

/-- What is left of `onTerminal` once the job is off the counter. -/
def EndOk (K : Record → Prop) : Pc → Prop
  | .idle | .next => True
  | .check item todo | .put item todo => K item ∧ todo = []
  | .readCount _ todo | .count _ _ todo | .launch _ todo | .loop todo => todo = []
  | _ => False

/-- Where the thread of a job is. -/
def WorkerOk (K : Record → Prop) (job : Option Job) (pc : Pc) : Prop :=
  match job with
  | none => pc = .idle
  | some j =>
    match j.stage with
    | .placed | .counted => pc = .idle ∧ j.done = false
    | .running =>
      (j.done = false ∧ (pc = .idle ∨ ∃ w, (pc = .load w ∨ ∃ items, pc = .save w items) ∧
        ReportOk j w)) ∨ (j.done = true ∧ pc = .remove)
    | .closing => pc = .readLive ∨ ∃ n, pc = .uncount n
    | .ended => EndOk K pc

/-- The job a thread is about to start, and how far it is. -/
def childOf : Pc → Option (Nat × Stage)
  | .readCount k _ | .count k _ _ => some (k, .placed)
  | .launch k _ => some (k, .counted)
  | _ => none

/-- The thread will start a job, or look for a queued record. -/
def Commits : Pc → Prop
  | .unpause w | .load w | .save w _ =>
    match w.after with
    | .start _ => True
    | .loop todo => Starts todo
    | _ => False
  | .check _ _ | .put _ _ | .readCount _ _ | .count _ _ _ | .pending | .next => True
  | .launch _ todo | .loop todo => Starts todo
  | _ => False

def Sys.pc (s : Sys) : Option Nat → Pc
  | none => s.main
  | some k => s.workers k

/-- What holds of the store, the table, the jobs and the counter. -/
structure Base (s : Sys) : Prop where
  ids : (s.store.map (·.id)).Nodup
  names : (s.store.map (·.fileName)).Nodup
  bound : ∀ r ∈ s.store, r.id < s.nextId
  kept : ∀ id, s.find id = s.latest id
  closed : ∀ id, s.closed id = true → (∃ r, s.find id = some r ∧ closes r.state = true) ∧
    ∀ j ∈ s.jobs, j.inTable = true → j.item.id = id → j.done = true
  known : ∀ j ∈ s.jobs, Known s j.item
  unique : ∀ (a b : Nat) (ja jb : Job), s.jobs[a]? = some ja → s.jobs[b]? = some jb →
    ja.inTable = true → jb.inTable = true → ja.item.id = jb.item.id → a = b
  table : ∀ (k : Nat) (j : Job), s.jobs[k]? = some j → j.inTable = true →
    s.table j.item.id = some k
  count : s.activeCount = s.jobs.countP Job.active
  max : s.activeCount ≤ MAX_CONCURRENT

/-- A queued record will be served. -/
def Served (s : Sys) : Prop :=
  (∃ r ∈ s.store, r.state = .queued) →
    (∃ j ∈ s.jobs, j.active = true) ∨ ∃ who, Commits (s.pc who)

def PcOk (s : Sys) (who : Option Nat) (pc : Pc) : Prop :=
  match who with
  | none => MainOk (Known s) (Unused s) pc
  | some k => WorkerOk (Known s) s.jobs[k]? pc

structure Inv (s : Sys) : Prop where
  base : Base s
  pcs : ∀ who, PcOk s who (s.pc who)
  children : ∀ who k st, childOf (s.pc who) = some (k, st) →
    (∃ j, s.jobs[k]? = some j ∧ j.stage = st) ∧
      ∀ who' st', childOf (s.pc who') = some (k, st') → who' = who
  served : Served s

/-! ## The store -/

theorem known_find {s : Sys} {r : Record} (h : Known s r) : ∃ r', s.find r.id = some r' := by
  obtain ⟨r', hm, he⟩ := List.mem_map.1 h
  cases hf : s.find r.id with
  | some r' => exact ⟨r', rfl⟩
  | none => exact absurd (Prod.mk.inj he).1 (Keyed.get_none hf hm)

/-- A known record stands under its own name. -/
theorem known_name {s : Sys} {r r' : Record} (hn : (s.store.map (·.id)).Nodup) (h : Known s r)
    (hf : s.find r.id = some r') : r'.fileName = r.fileName := by
  obtain ⟨r2, hm, he⟩ := List.mem_map.1 h
  obtain ⟨hid, hname⟩ := Prod.mk.inj he
  have hg : s.find r2.id = some r2 := Keyed.get_of_mem hn hm
  rw [hid] at hg
  rw [← hname, Option.some.inj (hf.symm.trans hg)]

theorem known_mem {s : Sys} {r : Record} (h : r ∈ s.store) : Known s r :=
  List.mem_map_of_mem (f := fun r : Record => (r.id, r.fileName)) h

theorem known_copy {s : Sys} {r r' : Record} (h : Known s r) (hid : r'.id = r.id)
    (hname : r'.fileName = r.fileName) : Known s r' := by
  unfold Known
  rw [hid, hname]
  exact h

/-- Saving a known record changes no id and no name. -/
theorem write_keys {s : Sys} {w : Write} (hn : (s.store.map (·.id)).Nodup)
    (h : Known s w.item) {β : Type} (f : Nat × String → β) :
    (write s w s.store).store.map (fun r => f (r.id, r.fileName)) =
      s.store.map fun r => f (r.id, r.fileName) := by
  obtain ⟨r, hr⟩ := known_find h
  have hid : r.id = w.item.id := Keyed.get_key hr
  have hname := known_name hn h hr
  exact Keyed.map_put_of_get _ hr (by rw [hid, hname])

theorem write_known {s : Sys} {w : Write} (hn : (s.store.map (·.id)).Nodup)
    (h : Known s w.item) (r : Record) : Known (write s w s.store) r ↔ Known s r := by
  have hk := write_keys hn h id
  simp only [id_eq] at hk
  unfold Known
  rw [hk]

theorem write_unused {s : Sys} {w : Write} (hn : (s.store.map (·.id)).Nodup)
    (h : Known s w.item) {r : Record} (hu : Unused s r) : Unused (write s w s.store) r := by
  refine ⟨fun r' hr' => ?_, hu.2⟩
  obtain ⟨r2, hm, he⟩ := List.mem_map.1 ((write_known hn h r').1 (known_mem hr'))
  obtain ⟨hid, hname⟩ := Prod.mk.inj he
  rw [← hid, ← hname]
  exact hu.1 r2 hm

theorem unused_find {s : Sys} {r : Record} (h : Unused s r) : s.find r.id = none := by
  cases hf : s.find r.id with
  | none => rfl
  | some r' => exact absurd (Keyed.get_key hf) (h.1 r' (Keyed.get_mem hf)).1

theorem write_append {s : Sys} {w : Write} (h : Unused s w.item) :
    (write s w s.store).store = s.store ++ [w.item] :=
  Keyed.put_of_get_none (unused_find h)

/-- What a save leaves known. -/
theorem known_write {s : Sys} {w : Write} (hn : (s.store.map (·.id)).Nodup)
    (h : Known s w.item ∨ Unused s w.item) {r : Record} (hr : Known s r ∨ r = w.item) :
    Known (write s w s.store) r := by
  rcases h with h | h
  · refine (write_known hn h r).2 ?_
    rcases hr with hr | rfl
    · exact hr
    · exact h
  · unfold Known
    rw [write_append h, List.map_append]
    rcases hr with hr | rfl
    · exact List.mem_append_left _ hr
    · exact List.mem_append_right _ (by simp)

theorem find_write {s : Sys} {w : Write} (id : Nat) :
    (write s w s.store).find id = if id = w.item.id then some w.item else s.find id := by
  by_cases h : id = w.item.id
  · subst h
    simp only [if_true]
    exact Keyed.get_put_self
  · simp only [h, if_false]
    exact Keyed.get_put_ne h

/-- **A save keeps the store**, if it closes nothing that can still be reported. -/
theorem Base.write {s : Sys} {w : Write} (h : Base s) (hk : Known s w.item ∨ Unused s w.item)
    (hc : s.closed w.item.id = true ∨ closes w.item.state = true →
      closes w.item.state = true ∧
        ∀ j ∈ s.jobs, j.inTable = true → j.item.id = w.item.id → j.done = true) :
    Base (write s w s.store) := by
  have hkeys : ((Queue.write s w s.store).store.map (·.id)).Nodup ∧
      ((Queue.write s w s.store).store.map (·.fileName)).Nodup ∧
      ∀ r ∈ (Queue.write s w s.store).store, r.id < s.nextId := by
    rcases hk with hk | hk
    · rw [write_keys h.ids hk Prod.fst, write_keys h.ids hk Prod.snd]
      refine ⟨h.ids, h.names, fun r hr => ?_⟩
      obtain ⟨r2, hm, he⟩ := List.mem_map.1 ((write_known h.ids hk r).1 (known_mem hr))
      rw [← (Prod.mk.inj he).1]
      exact h.bound r2 hm
    · rw [write_append hk, List.map_append, List.map_append]
      refine ⟨?_, ?_, fun r hr => ?_⟩
      · refine List.nodup_append.2 ⟨h.ids, by simp, ?_⟩
        intro a ha b hb
        obtain ⟨r, hm, rfl⟩ := List.mem_map.1 ha
        rw [List.map_singleton, List.mem_singleton] at hb
        exact hb ▸ (hk.1 r hm).1
      · refine List.nodup_append.2 ⟨h.names, by simp, ?_⟩
        intro a ha b hb
        obtain ⟨r, hm, rfl⟩ := List.mem_map.1 ha
        rw [List.map_singleton, List.mem_singleton] at hb
        exact hb ▸ (hk.1 r hm).2
      · rcases List.mem_append.1 hr with hr | hr
        · exact h.bound r hr
        · rw [List.mem_singleton.1 hr]
          exact hk.2
  refine ⟨hkeys.1, hkeys.2.1, hkeys.2.2, fun id => ?_, fun id hid => ?_,
    fun j hj => known_write h.ids hk (.inl (h.known j hj)), h.unique, h.table, h.count, h.max⟩
  · rw [find_write]
    by_cases he : id = w.item.id
    · subst he
      simp [Queue.write]
    · simp only [he, if_false, Queue.write, Function.update_of_ne he]
      exact h.kept id
  · rw [find_write]
    by_cases he : id = w.item.id
    · subst he
      simp only [Queue.write, Function.update_self, Bool.or_eq_true] at hid
      obtain ⟨hst, hj⟩ := hc hid
      exact ⟨⟨w.item, by simp, hst⟩, hj⟩
    · simp only [Queue.write, Function.update_of_ne he] at hid
      simp only [he, if_false]
      exact h.closed id hid

/-! ## The jobs -/

theorem countP_modify {α : Type} (p : α → Bool) {f : α → α} {l : List α} {k : Nat} {a : α}
    (h : l[k]? = some a) :
    (l.modify k f).countP p + (if p a then 1 else 0) =
      l.countP p + (if p (f a) then 1 else 0) := by
  induction l generalizing k with
  | nil => cases h
  | cons b l ih =>
    cases k with
    | zero =>
      cases h
      simp only [List.modify_zero_cons, List.countP_cons]
      omega
    | succ k =>
      have := ih (k := k) h
      simp only [List.modify_succ_cons, List.countP_cons]
      omega

theorem mem_modify {α : Type} {f : α → α} {l : List α} {k : Nat} {u : α}
    (hu : u ∈ l.modify k f) : u ∈ l ∨ ∃ a, l[k]? = some a ∧ u = f a := by
  obtain ⟨m, hm⟩ := List.getElem?_of_mem hu
  rw [List.getElem?_modify] at hm
  obtain ⟨a, ha, rfl⟩ := Option.map_eq_some_iff.1 hm
  split
  · rename_i he
    subst he
    exact .inr ⟨a, ha, rfl⟩
  · exact .inl (List.mem_of_getElem? ha)

/-- One job changes, but not its record. -/
theorem Base.modify {s : Sys} {k n : Nat} {j : Job} {f : Job → Job} {t : Nat → Option Nat}
    (h : Base s) (hj : s.jobs[k]? = some j) (hitem : (f j).item = j.item)
    (hin : (f j).inTable = true → j.inTable = true) (hdone : j.done = true → (f j).done = true)
    (hn : n + (if j.active then 1 else 0) = s.activeCount + (if (f j).active then 1 else 0))
    (hmax : n ≤ MAX_CONCURRENT)
    (ht : ∀ (m : Nat) (u : Job), s.jobs[m]? = some u → u.inTable = true →
      (m = k → (f j).inTable = true) → t u.item.id = some m) :
    Base { s with activeCount := n, table := t, jobs := s.jobs.modify k f } := by
  have hget : ∀ {m : Nat} {u : Job}, (s.jobs.modify k f)[m]? = some u →
      ∃ v, s.jobs[m]? = some v ∧ u.item = v.item ∧ (u.inTable = true → v.inTable = true) ∧
        (v.done = true → u.done = true) ∧ (m = k → u = f j) := by
    intro m u hu
    rw [List.getElem?_modify] at hu
    obtain ⟨v, hv, rfl⟩ := Option.map_eq_some_iff.1 hu
    split
    · rename_i he
      subst he
      obtain rfl : j = v := Option.some.inj (hj.symm.trans hv)
      exact ⟨j, hj, hitem, hin, hdone, fun _ => rfl⟩
    · rename_i he
      exact ⟨v, hv, rfl, id, id, fun he' => absurd he'.symm he⟩
  refine ⟨h.ids, h.names, h.bound, h.kept, fun id hid => ?_, fun u hu => ?_,
    fun a b ja jb ha hb hia hib he => ?_, fun m u hu hi => ?_, ?_, hmax⟩
  · obtain ⟨hf, hd⟩ := h.closed id hid
    refine ⟨hf, fun u hu hi he => ?_⟩
    obtain ⟨m, hm⟩ := List.getElem?_of_mem hu
    obtain ⟨v, hv, hvi, hvin, hvd, -⟩ := hget hm
    exact hvd (hd v (List.mem_of_getElem? hv) (hvin hi) (hvi ▸ he))
  · obtain ⟨m, hm⟩ := List.getElem?_of_mem hu
    obtain ⟨v, hv, hvi, -⟩ := hget hm
    have hkn := h.known v (List.mem_of_getElem? hv)
    rw [← hvi] at hkn
    exact hkn
  · obtain ⟨va, hva, hai, hain, -⟩ := hget ha
    obtain ⟨vb, hvb, hbi, hbin, -⟩ := hget hb
    exact h.unique a b va vb hva hvb (hain hia) (hbin hib) (hai ▸ hbi ▸ he)
  · obtain ⟨v, hv, hvi, hvin, -, hk⟩ := hget hu
    rw [hvi]
    exact ht m v hv (hvin hi) fun hm => by
      rw [← hk hm]
      exact hi
  · have hc := countP_modify Job.active (f := f) hj
    have hcount := h.count
    show n = (s.jobs.modify k f).countP Job.active
    omega

/-- A change of flags changes nothing else. -/
theorem Base.flags {s : Sys} {k : Nat} {f : Job → Job} (h : Base s)
    (hf : ∀ j, (f j).item = j.item ∧ (f j).stage = j.stage ∧ (j.done = true → (f j).done = true)) :
    Base (onJob s k f) := by
  cases hj : s.jobs[k]? with
  | none =>
    have hm : s.jobs.modify k f = s.jobs := by
      refine List.modify_eq_self ?_
      simpa using hj
    unfold onJob
    rw [hm]
    exact h
  | some j =>
    obtain ⟨hi, hs, hd⟩ := hf j
    have hin : (f j).inTable = j.inTable := by simp [Job.inTable, hs]
    have hac : (f j).active = j.active := by simp [Job.active, hs]
    exact h.modify hj hi (by rw [hin]; exact id) hd (by rw [hac]) h.max
      fun m u hu hui _ => h.table m u hu hui

/-! ## Where the threads are -/

section Monotone

variable {K K' U U' : Record → Prop} (hK : ∀ r, K r → K' r)

include hK

theorem RoundsOk.mono {todo : List Round} (h : RoundsOk K todo) : RoundsOk K' todo :=
  ⟨fun t ht => ⟨hK _ (h.1 t ht).1, (h.1 t ht).2⟩, h.2⟩

theorem WriteOk.mono {w : Write} (hU : ∀ r, U r → U' r) (h : WriteOk K U w) :
    WriteOk K' U' w := by
  obtain ⟨item, read, after⟩ := w
  refine ⟨h.1.imp (hK _) fun hu => ⟨hU _ hu.1, hu.2⟩, ?_⟩
  have h2 := h.2
  cases after with
  | stop => exact h2
  | start todo => exact ⟨h2.1, h2.2.1, h2.2.2.mono hK⟩
  | loop todo => exact ⟨h2.1, h2.2.1, h2.2.2.1.mono hK, h2.2.2.2⟩
  | terminal => exact h2

theorem MainOk.mono {pc : Pc} (hU : ∀ r, U r → U' r) (h : MainOk K U pc) : MainOk K' U' pc := by
  cases pc with
  | unpause w | load w | save w items => exact WriteOk.mono hK hU h
  | check item todo | put item todo => exact ⟨hK _ h.1, RoundsOk.mono hK h.2⟩
  | readCount k todo | count k n todo | launch k todo | loop todo =>
    exact RoundsOk.mono hK h
  | _ => exact h

theorem EndOk.mono {pc : Pc} (h : EndOk K pc) : EndOk K' pc := by
  cases pc with
  | check item todo | put item todo => exact ⟨hK _ h.1, h.2⟩
  | _ => exact h

theorem WorkerOk.mono {job : Option Job} {pc : Pc} (h : WorkerOk K job pc) :
    WorkerOk K' job pc := by
  cases job with
  | none => exact h
  | some j =>
    obtain ⟨item, stage, cancelled, paused, ran, done⟩ := j
    cases stage with
    | ended => exact EndOk.mono hK h
    | _ => exact h

end Monotone

def Sys.setPc (s : Sys) (who : Option Nat) (pc : Pc) : Sys :=
  match who with
  | none => { s with main := pc }
  | some k => { s with workers := Function.update s.workers k pc }

theorem setPc_self (s : Sys) (who : Option Nat) (pc : Pc) : (s.setPc who pc).pc who = pc := by
  cases who with
  | none => rfl
  | some k => exact Function.update_self ..

theorem setPc_other (s : Sys) {who w : Option Nat} (pc : Pc) (h : w ≠ who) :
    (s.setPc who pc).pc w = s.pc w := by
  cases who with
  | none =>
    cases w with
    | none => exact absurd rfl h
    | some m => rfl
  | some k =>
    cases w with
    | none => rfl
    | some m =>
      have hm : m ≠ k := fun he => h (by rw [he])
      exact Function.update_of_ne hm ..

/-- What the other threads see of a step. -/
structure Frame (s s1 : Sys) (who : Option Nat) : Prop where
  pc : s1.main = s.main ∧ s1.workers = s.workers
  other : ∀ w, w ≠ who → ∀ pc, PcOk s w pc → PcOk s1 w pc
  stage : ∀ w, w ≠ who → ∀ k st, childOf (s.pc w) = some (k, st) →
    ∃ j, s1.jobs[k]? = some j ∧ j.stage = st

/-- **A step of a thread**: what it must show for the invariant. -/
theorem Inv.move {s s1 : Sys} {who : Option Nat} {pc : Pc} (h : Inv s) (hb : Base s1)
    (hf : Frame s s1 who) (hown : PcOk s1 who pc)
    (hchild : ∀ k st, childOf pc = some (k, st) → (∃ j, s1.jobs[k]? = some j ∧ j.stage = st) ∧
      ∀ w, w ≠ who → ∀ st', childOf (s.pc w) ≠ some (k, st'))
    (hserved : (∃ r ∈ s1.store, r.state = .queued) →
      (∃ j ∈ s1.jobs, j.active = true) ∨ Commits pc ∨ ∃ w, w ≠ who ∧ Commits (s.pc w)) :
    Inv (s1.setPc who pc) := by
  have hpc : ∀ w, w ≠ who → (s1.setPc who pc).pc w = s.pc w := by
    intro w hw
    rw [setPc_other s1 pc hw]
    cases w with
    | none => exact hf.pc.1
    | some k => exact congrFun hf.pc.2 k
  have hok : ∀ w p, PcOk s1 w p → PcOk (s1.setPc who pc) w p := by
    intro w p hp
    cases who <;> exact hp
  have hjobs : (s1.setPc who pc).jobs = s1.jobs := by cases who <;> rfl
  have hstore : (s1.setPc who pc).store = s1.store := by cases who <;> rfl
  refine ⟨?_, fun w => ?_, fun w k st hw => ?_, fun hq => ?_⟩
  · cases who <;>
      exact ⟨hb.ids, hb.names, hb.bound, hb.kept, hb.closed, hb.known, hb.unique, hb.table,
        hb.count, hb.max⟩
  · by_cases hw : w = who
    · subst hw
      rw [setPc_self]
      exact hok w pc hown
    · rw [hpc w hw]
      exact hok w _ (hf.other w hw _ (h.pcs w))
  · rw [hjobs]
    by_cases hwho : w = who
    · subst hwho
      rw [setPc_self] at hw
      obtain ⟨hj, hno⟩ := hchild k st hw
      refine ⟨hj, fun w' st' hw' => ?_⟩
      by_contra hne
      rw [hpc w' hne] at hw'
      exact hno w' hne st' hw'
    · rw [hpc w hwho] at hw
      refine ⟨hf.stage w hwho k st hw, fun w' st' hw' => ?_⟩
      by_cases hw'who : w' = who
      · subst hw'who
        rw [setPc_self] at hw'
        exact absurd hw ((hchild k st' hw').2 w hwho st)
      · rw [hpc w' hw'who] at hw'
        exact (h.children w k st hw).2 w' st' hw'
  · rw [hstore] at hq
    rw [hjobs]
    rcases hserved hq with hj | hc | ⟨w, hw, hc⟩
    · exact .inl hj
    · exact .inr ⟨who, by rwa [setPc_self]⟩
    · exact .inr ⟨w, by rwa [hpc w hw]⟩

/-- A step that touches nothing but its own thread. -/
theorem Frame.refl (h : Inv s) (who : Option Nat) : Frame s s who :=
  ⟨⟨rfl, rfl⟩, fun _ _ _ hp => hp, fun w _ k st hw => (h.children w k st hw).1⟩

/-- Where a queued record is served, a thread that does not leave it keeps it so. -/
theorem Inv.serve {s s1 : Sys} {who : Option Nat} {pc : Pc} (h : Inv s)
    (hstore : (∃ r ∈ s1.store, r.state = .queued) → ∃ r ∈ s.store, r.state = .queued)
    (hjobs : (∃ j ∈ s.jobs, j.active = true) → (∃ j ∈ s1.jobs, j.active = true) ∨ Commits pc)
    (hcom : Commits (s.pc who) → (∃ r ∈ s.store, r.state = .queued) →
      (∃ j ∈ s1.jobs, j.active = true) ∨ Commits pc) :
    (∃ r ∈ s1.store, r.state = .queued) →
      (∃ j ∈ s1.jobs, j.active = true) ∨ Commits pc ∨ ∃ w, w ≠ who ∧ Commits (s.pc w) := by
  intro hq
  have hq := hstore hq
  rcases h.served hq with hj | ⟨w, hw⟩
  · rcases hjobs hj with hj | hc
    · exact .inl hj
    · exact .inr (.inl hc)
  · by_cases hwho : w = who
    · subst hwho
      rcases hcom hw hq with hj | hc
      · exact .inl hj
      · exact .inr (.inl hc)
    · exact .inr (.inr ⟨w, hwho, hw⟩)

/-- A step that only moves its thread. -/
theorem Inv.goto {s : Sys} {who : Option Nat} {pc : Pc} (h : Inv s) (hown : PcOk s who pc)
    (hchild : childOf pc = none ∨ ∃ k, childOf (s.pc who) = some (k, .placed) ∧
      childOf pc = some (k, .placed))
    (hcom : Commits (s.pc who) → (∃ r ∈ s.store, r.state = .queued) →
      (∃ j ∈ s.jobs, j.active = true) ∨ Commits pc) : Inv (s.setPc who pc) := by
  refine h.move h.base (Frame.refl h who) hown (fun k st hk => ?_) (h.serve id .inl hcom)
  rcases hchild with hn | ⟨m, hm, hp⟩
  · rw [hn] at hk
    cases hk
  · rw [hp] at hk
    cases hk
    obtain ⟨hj, huniq⟩ := h.children who k .placed hm
    exact ⟨hj, fun w hw st' hw' => hw (huniq w st' hw')⟩

/-- Flags of jobs and the table change, and stages do not. -/
theorem flags_pcs {s : Sys} {k : Nat} {f : Job → Job} {t : Nat → Option Nat} {n : Nat} (h : Inv s)
    (who : Option Nat)
    (hf : ∀ j, (f j).item = j.item ∧ (f j).stage = j.stage ∧ (f j).done = j.done) :
    Frame s { s with activeCount := n, table := t, jobs := s.jobs.modify k f } who := by
  have hget : ∀ m : Nat, (s.jobs.modify k f)[m]? = none ∧ s.jobs[m]? = none ∨
      ∃ v u : Job, s.jobs[m]? = some v ∧ (s.jobs.modify k f)[m]? = some u ∧ u.item = v.item ∧
        u.stage = v.stage ∧ u.done = v.done := by
    intro m
    rw [List.getElem?_modify]
    cases hv : s.jobs[m]? with
    | none => exact .inl ⟨rfl, rfl⟩
    | some v =>
      refine .inr ⟨v, _, rfl, rfl, ?_⟩
      split
      · exact hf v
      · exact ⟨rfl, rfl, rfl⟩
  refine ⟨⟨rfl, rfl⟩, fun w _ pc hp => ?_, fun w _ c st hw => ?_⟩
  · cases w with
    | none => exact hp
    | some m =>
      unfold PcOk at hp ⊢
      rcases hget m with ⟨h1, h2⟩ | ⟨v, u, hv, hu, hi, hs, hd⟩
      · simp only [h1, h2] at hp ⊢
        exact hp
      · simp only [hv, hu] at hp ⊢
        obtain ⟨vi, vs, vc, vp, vr, vd⟩ := v
        obtain ⟨ui, us, uc, up, ur, ud⟩ := u
        cases hi
        cases hs
        cases hd
        cases vs <;> exact hp
  · obtain ⟨⟨j, hj, hs⟩, -⟩ := h.children w c st hw
    rcases hget c with ⟨-, h2⟩ | ⟨v, u, hv, hu, -, hs', -⟩
    · rw [h2] at hj
      cases hj
    · obtain rfl : j = v := Option.some.inj (hj.symm.trans hv)
      exact ⟨u, hu, hs'.trans hs⟩

/-! ## The programs -/

/-- Only the main thread is here. -/
def Pc.mainOnly : Pc → Bool
  | .pause _ | .cancelJob _ | .removeJob _ | .find _ | .unpause _ | .enqueue _ | .pending => true
  | _ => false

/-- In `startJob`, or in the loop around it. -/
def Pc.starting : Pc → Bool
  | .check _ _ | .put _ _ | .readCount _ _ | .count _ _ _ | .launch _ _ | .loop _ => true
  | _ => false

theorem worker_ok {s : Sys} {k : Nat} {job : Option Job} {pc : Pc} (hj : s.jobs[k]? = job) :
    PcOk s (some k) pc ↔ WorkerOk (Known s) job pc := by
  rw [← hj]
  exact Iff.rfl

/-- Where the thread of a job can be while it is not idle. -/
theorem worker_cases {s : Sys} {k : Nat} {pc : Pc} (h : PcOk s (some k) pc) :
    pc = .idle ∨ ∃ j, s.jobs[k]? = some j ∧
      ((j.stage = .running ∧ j.done = false ∧
          ∃ w, (pc = .load w ∨ ∃ items, pc = .save w items) ∧ ReportOk j w) ∨
        (j.stage = .running ∧ j.done = true ∧ pc = .remove) ∨
        (j.stage = .closing ∧ (pc = .readLive ∨ ∃ n, pc = .uncount n)) ∨
        (j.stage = .ended ∧ EndOk (Known s) pc)) := by
  have hw : WorkerOk (Known s) s.jobs[k]? pc := h
  cases hj : s.jobs[k]? with
  | none =>
    rw [hj] at hw
    exact .inl hw
  | some j =>
    rw [hj] at hw
    obtain ⟨item, stage, c, p, r, d⟩ := j
    cases stage with
    | placed | counted => exact .inl hw.1
    | running =>
      rcases hw with ⟨hd, rfl | hw⟩ | ⟨hd, hw⟩
      · exact .inl rfl
      · exact .inr ⟨_, rfl, .inl ⟨rfl, hd, hw⟩⟩
      · exact .inr ⟨_, rfl, .inr (.inl ⟨rfl, hd, hw⟩)⟩
    | closing => exact .inr ⟨_, rfl, .inr (.inr (.inl ⟨rfl, hw⟩))⟩
    | ended => exact .inr ⟨_, rfl, .inr (.inr (.inr ⟨rfl, hw⟩))⟩

theorem mainOnly_main {s : Sys} {who : Option Nat} {pc : Pc} (h : PcOk s who pc)
    (hm : pc.mainOnly = true) : who = none := by
  cases who with
  | none => rfl
  | some k =>
    rcases worker_cases h with rfl | ⟨j, -, hr | hr | hr | ⟨-, he⟩⟩
    · cases hm
    · obtain ⟨-, -, w, rfl | ⟨items, rfl⟩, -⟩ := hr <;> cases hm
    · obtain ⟨-, -, rfl⟩ := hr
      cases hm
    · obtain ⟨-, rfl | ⟨n, rfl⟩⟩ := hr <;> cases hm
    · cases pc with
      | idle | next | check | put | readCount | count | launch | loop => cases hm
      | _ => exact he.elim

/-- A thread that starts a job: the main thread, or one whose job has ended. -/
def Starter (s : Sys) (who : Option Nat) : Prop :=
  ∀ k, who = some k → ∃ j, s.jobs[k]? = some j ∧ j.stage = .ended

def StartOk (K : Record → Prop) (who : Option Nat) : Pc → Prop
  | .check item todo | .put item todo => K item ∧ RoundsOk K todo ∧ (who ≠ none → todo = [])
  | .readCount _ todo | .count _ _ todo | .launch _ todo | .loop todo =>
    RoundsOk K todo ∧ (who ≠ none → todo = [])
  | _ => False

theorem roundsOk_nil (K : Record → Prop) : RoundsOk K [] :=
  ⟨fun _ ht => (List.not_mem_nil ht).elim, fun _ ht => by cases ht⟩

theorem starter_ok {s : Sys} {who : Option Nat} {pc : Pc} (h : PcOk s who pc)
    (hs : pc.starting = true) : Starter s who ∧ StartOk (Known s) who pc := by
  cases who with
  | none =>
    refine ⟨fun k hk => (by cases hk), ?_⟩
    cases pc with
    | check item todo | put item todo => exact ⟨h.1, h.2, fun hn => absurd rfl hn⟩
    | readCount k todo | count k n todo | launch k todo | loop todo =>
      exact ⟨h, fun hn => absurd rfl hn⟩
    | _ => cases hs
  | some k =>
    rcases worker_cases h with rfl | ⟨j, hj, hr | hr | hr | ⟨hst, he⟩⟩
    · cases hs
    · obtain ⟨-, -, w, rfl | ⟨items, rfl⟩, -⟩ := hr <;> cases hs
    · obtain ⟨-, -, rfl⟩ := hr
      cases hs
    · obtain ⟨-, rfl | ⟨n, rfl⟩⟩ := hr <;> cases hs
    · refine ⟨fun m hm => ?_, ?_⟩
      · cases hm
        exact ⟨j, hj, hst⟩
      · cases pc with
        | check item todo | put item todo =>
          obtain ⟨hk, rfl⟩ := he
          exact ⟨hk, roundsOk_nil _, fun _ => rfl⟩
        | readCount k todo | count k n todo | launch k todo | loop todo =>
          obtain rfl : todo = [] := he
          exact ⟨roundsOk_nil _, fun _ => rfl⟩
        | _ => cases hs

theorem ok_starter {s : Sys} {who : Option Nat} {pc : Pc} (h : Starter s who)
    (hs : StartOk (Known s) who pc) : PcOk s who pc := by
  cases who with
  | none =>
    cases pc with
    | check item todo | put item todo => exact ⟨hs.1, hs.2.1⟩
    | readCount k todo | count k n todo | launch k todo | loop todo => exact hs.1
    | _ => cases hs
  | some k =>
    obtain ⟨⟨item, stage, c, p, r, d⟩, hj, hst⟩ := h k rfl
    obtain rfl : stage = .ended := hst
    unfold PcOk
    simp only [hj]
    cases pc with
    | check item todo | put item todo => exact ⟨hs.1, hs.2.2 (by simp)⟩
    | readCount k todo | count k n todo | launch k todo | loop todo => exact hs.2 (by simp)
    | _ => cases hs

theorem ok_idle {s : Sys} {who : Option Nat} (h : Starter s who) : PcOk s who .idle := by
  cases who with
  | none => trivial
  | some k =>
    obtain ⟨⟨item, stage, c, p, r, d⟩, hj, hst⟩ := h k rfl
    obtain rfl : stage = .ended := hst
    unfold PcOk
    simp only [hj]
    trivial

end Ghajar.Download.Queue
