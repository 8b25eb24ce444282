import Mathlib.Logic.Function.Basic
import Ghajar.Lib.Keyed
import Ghajar.Lib.Run
import Ghajar.Download.Planner

/-!
# The download service

`GhajarDownloadService`: the commands on the main thread, the callbacks on the
threads of the jobs, over the stored list, the table of jobs and the counter.
Where a thread is in a command or a callback is its `Pc`; `storage.load()` and
`storage.save()` are steps of their own, and so are the read and the write of
`activeCount` and every use of the table.

A job reports what it likes, in the order of `DownloadEngine.Job.run`: that it
runs, then one last state, then `onTerminal`. Part files and notifications are
not kept. `latest` and `closed` are not in the source: the last record saved
under each id, and whether one was saved as cancelled or completed.
-/

namespace Ghajar.Download.Queue

def MAX_CONCURRENT : Nat := 3

/-- A `DownloadItem`, as far as the service changes it. -/
structure Record where
  id : Nat
  fileName : String
  state : DownloadState
  downloadedBytes : Int
  segments : List Segment
  error : String
  deriving DecidableEq, Repr

inductive Command where
  | pause (id : Nat)
  | resume (id : Nat)
  | retry (id : Nat)
  | cancel (id : Nat)
  | enqueue (fileName : String)
  /-- No action, or an unknown one. -/
  | recover
  deriving DecidableEq, Repr

/-- One round of the loops of `recoverPending`: what it persists, the state it read it
in, whether it starts a job. -/
structure Round where
  item : Record
  read : DownloadState
  starts : Bool
  deriving DecidableEq, Repr

/-- What follows a `persist`. -/
inductive After where
  | stop
  | start (todo : List Round)
  | loop (todo : List Round)
  | terminal
  deriving DecidableEq, Repr

/-- What is persisted, and the state the command read the record in. -/
structure Write where
  item : Record
  read : Option DownloadState
  after : After
  deriving DecidableEq, Repr

inductive Pc where
  | idle
  | pause (id : Nat)
  | cancelJob (id : Nat)
  | removeJob (id : Nat)
  /-- `storage.load().firstOrNull { it.id == id }` of a command. -/
  | find (c : Command)
  | unpause (w : Write)
  | enqueue (fileName : String)
  /-- `storage.pending()` of `recoverPending`, and its loops. -/
  | pending
  | loop (todo : List Round)
  | load (w : Write)
  | save (w : Write) (items : List Record)
  /-- `startJob`. -/
  | check (item : Record) (todo : List Round)
  | put (item : Record) (todo : List Round)
  | readCount (job : Nat) (todo : List Round)
  | count (job n : Nat) (todo : List Round)
  | launch (job : Nat) (todo : List Round)
  /-- `onTerminal`. -/
  | remove
  | readLive
  | uncount (n : Nat)
  | next
  deriving DecidableEq, Repr

/-- From the table to the end of `onTerminal`. -/
inductive Stage where
  | placed
  | counted
  | running
  | closing
  | ended
  deriving DecidableEq, Repr

/-- A `DownloadEngine.Job`: its item, its flags, what it has reported. -/
structure Job where
  item : Record
  stage : Stage
  cancelled : Bool
  paused : Bool
  ran : Bool
  done : Bool
  deriving DecidableEq, Repr

structure Sys where
  store : List Record
  table : Nat → Option Nat
  activeCount : Nat
  jobs : List Job
  nextId : Nat
  main : Pc
  workers : Nat → Pc
  latest : Nat → Option Record
  closed : Nat → Bool

/-- A stored record by its id. -/
def Sys.find (s : Sys) (id : Nat) : Option Record := Keyed.get Record.id s.store id

/-! ## The steps of a thread -/

/-- `item.copy(state = …)` of the three commands, where the state is the one they ask for. -/
def Command.change (c : Command) (r : Record) : Option Record :=
  match c with
  | .resume _ => if r.state = .paused then some { r with state := .queued } else none
  | .retry _ =>
    if r.state = .failed then
      some { r with state := .queued, downloadedBytes := 0, segments := [], error := "" }
    else none
  | .cancel _ => some { r with state := .cancelled, error := "" }
  | _ => none

def Command.id : Command → Option Nat
  | .pause id | .resume id | .retry id | .cancel id => some id
  | _ => none

/-- Where a command goes on when it has found its record. -/
def Command.found (c : Command) (w : Write) : Pc :=
  match c with
  | .resume _ => .unpause w
  | _ => .load w

def Command.after : Command → After
  | .cancel _ => .stop
  | _ => .start []

def Command.first : Command → Pc
  | .pause id => .pause id
  | .cancel id => .cancelJob id
  | .enqueue fileName => .enqueue fileName
  | .recover => .pending
  | c => .find c

/-- The rounds of `recoverPending` for what it loaded. -/
def rounds (store : List Record) : List Round :=
  let queue := store.filter fun r => r.state = .queued ∨ r.state = .running
  ((queue.filter fun r => r.state = .running).map fun r =>
    ⟨{ r with state := .queued, error := "" }, .running, false⟩) ++
  queue.map fun r => ⟨{ r with state := .queued, segments := [], error := "" }, .queued, true⟩

def onJob (s : Sys) (k : Nat) (f : Job → Job) : Sys := { s with jobs := s.jobs.modify k f }

/-- The table's job of a record, if there is one. -/
def onTable (s : Sys) (id : Nat) (f : Job → Job) : Sys :=
  match s.table id with
  | none => s
  | some k => onJob s k f

/-- A job is entered for a record. -/
def enter (s : Sys) (item : Record) : Sys :=
  { s with
    jobs := s.jobs ++ [⟨item, .placed, false, false, false, false⟩]
    table := Function.update s.table item.id (some s.jobs.length) }

/-- The last state a record is stored in, or one more may follow. -/
def closes (state : DownloadState) : Bool := state = .cancelled ∨ state = .completed

/-- `storage.save`: the record, in the list that was loaded. -/
def write (s : Sys) (w : Write) (items : List Record) : Sys :=
  { s with
    store := Keyed.put Record.id items w.item
    latest := Function.update s.latest w.item.id (some w.item)
    closed := Function.update s.closed w.item.id (s.closed w.item.id || closes w.item.state) }

/-- One step of a thread; `self` is the job of a worker, `none` the main thread. -/
def exec (s : Sys) (self : Option Nat) : Pc → Sys × Pc
  | .idle => (s, .idle)
  | .pause id => (onTable s id fun j => { j with paused := true }, .idle)
  | .cancelJob id => (onTable s id fun j => { j with cancelled := true }, .removeJob id)
  | .removeJob id => ({ s with table := Function.update s.table id none }, .find (.cancel id))
  | .find c =>
    match c.id.bind s.find with
    | none => (s, .idle)
    | some r =>
      match c.change r with
      | none => (s, .idle)
      | some item => (s, c.found ⟨item, some r.state, c.after⟩)
  | .unpause w => (onTable s w.item.id fun j => { j with paused := false }, .load w)
  | .enqueue fileName =>
    ({ s with nextId := s.nextId + 1 },
      .load ⟨⟨s.nextId, resolveDuplicateName (s.store.map (·.fileName)) fileName, .queued, 0, [],
        ""⟩, none, .start []⟩)
  | .pending => (s, .loop (rounds s.store))
  | .loop [] => (s, .idle)
  | .loop (r :: todo) =>
    (s, .load ⟨r.item, some r.read, if r.starts then .start todo else .loop todo⟩)
  | .load w => (s, .save w s.store)
  | .save w items =>
    match w.after with
    | .stop => (write s w items, .idle)
    | .start todo => (write s w items, .check w.item todo)
    | .loop todo => (write s w items, .loop todo)
    | .terminal =>
      (onJob (write s w items) (self.getD 0) fun j => { j with done := true }, .remove)
  | .check item todo => (s, if s.activeCount ≥ MAX_CONCURRENT then .loop todo else .put item todo)
  | .put item todo => (enter s item, .readCount s.jobs.length todo)
  | .readCount k todo => (s, .count k s.activeCount todo)
  | .count k n todo =>
    (onJob { s with activeCount := n + 1 } k fun j => { j with stage := .counted },
      .launch k todo)
  | .launch k todo => (onJob s k fun j => { j with stage := .running }, .loop todo)
  | .remove =>
    let k := self.getD 0
    (onJob { s with table := ((s.jobs[k]?).elim s.table fun j =>
      Function.update s.table j.item.id none) } k fun j => { j with stage := .closing }, .readLive)
  | .readLive => (s, .uncount s.activeCount)
  | .uncount n =>
    (onJob { s with activeCount := n - 1 } (self.getD 0) fun j => { j with stage := .ended }, .next)
  | .next =>
    match s.store.find? fun r => r.state = .queued with
    | none => (s, .idle)
    | some item => (s, .check item [])

/-! ## The service -/

inductive Act where
  /-- A command arrives on the main thread. -/
  | command (c : Command)
  | main
  | worker (k : Nat)
  /-- A job reports a state of its item. -/
  | report (k : Nat) (state : DownloadState) (downloadedBytes : Int) (segments : List Segment)
    (error : String)
  /-- The process dies; the service is created anew for a command. -/
  | restart (c : Command)
  deriving DecidableEq, Repr

/-- A job reports that it runs, then one last state. -/
def Job.reports (j : Job) (state : DownloadState) : Bool :=
  j.stage = .running && !j.done &&
    match state with
    | .running => !j.ran
    | .paused => j.ran && j.paused
    | .cancelled => j.ran && j.cancelled
    | .completed => j.ran
    | .failed => true
    | _ => false

def step (s : Sys) : Act → Option Sys
  | .command c => if s.main = .idle then some { s with main := c.first } else none
  | .main =>
    if s.main = .idle then none
    else
      let r := exec s none s.main
      some { r.1 with main := r.2 }
  | .worker k =>
    if s.workers k = .idle then none
    else
      let r := exec s (some k) (s.workers k)
      some { r.1 with workers := Function.update s.workers k r.2 }
  | .report k state bytes segments error =>
    match s.jobs[k]? with
    | none => none
    | some j =>
      if j.reports state ∧ s.workers k = .idle then
        let item := { j.item with
          state := state, downloadedBytes := bytes, segments := segments, error := error }
        let after := if state = .running then After.stop else .terminal
        some { onJob s k fun j => { j with ran := j.ran || state = .running } with
          workers := Function.update s.workers k (.load ⟨item, none, after⟩) }
      else none
  | .restart c =>
    some { s with
      table := fun _ => none
      activeCount := 0
      jobs := []
      main := c.first
      workers := fun _ => .idle }

/-- The service when it is created for the first time. -/
def Sys.fresh : Sys :=
  { store := []
    table := fun _ => none
    activeCount := 0
    jobs := []
    nextId := 0
    main := .idle
    workers := fun _ => .idle
    latest := fun _ => none
    closed := fun _ => false }

end Ghajar.Download.Queue
