import Ghajar.Lib.File
import Ghajar.Lib.Run
import Ghajar.Download.Planner

/-!
# The download engine

`DownloadEngine.Job` for one record: any number of jobs, each with its thread
for `run` and one worker for each segment, over the part file and the stored
record. A byte of the part file remembers for which offset the server sent it.

The commands of the service are the environment: they store a new state, start
a job, set the flags of a job, delete the part file; the process may die at any
step. Headers, the digest and what only the notifications show are not kept.
-/

namespace Ghajar.Download

/-- A byte of a reply; `offset` is not in the source: the offset it was sent for. -/
structure Sent where
  offset : Option Nat
  byte : UInt8
  deriving DecidableEq, Repr

abbrev PartFile := RandomFile Sent

/-- What the engine reads of a `DownloadItem`. -/
structure Item where
  state : DownloadState
  totalBytes : Int
  acceptRanges : Bool
  segments : List Segment
  deriving DecidableEq, Repr

/-- The answer to `HEAD`; `contentLength` is `-1` where the header is missing. -/
structure Head where
  status : Nat
  acceptRanges : Bool
  contentLength : Int
  deriving DecidableEq, Repr

/-- The answer to `GET`; `rangeStart` is where its `Content-Range` begins. -/
structure Reply where
  status : Nat
  rangeStart : Option Nat
  body : List UInt8
  deriving DecidableEq, Repr

/-- The offset for which a reply sends its first byte. -/
def Reply.base (r : Reply) : Option Nat :=
  if r.status = 206 then r.rangeStart else if r.status = 200 then some 0 else none

/-- `code in 200..299`. -/
def success (status : Nat) : Bool := 200 ≤ status && status ≤ 299

/-! ## The part file -/

/-- The files of the directory: the one named as the part, and every file a
worker may still have open. -/
structure Disk where
  part : Option Nat
  files : List PartFile

namespace Disk

def file (d : Disk) (fd : Nat) : PartFile := d.files.getD fd .empty

/-- `part.length()`. -/
def partLength (d : Disk) : Nat := d.part.elim 0 fun fd => (d.file fd).length

/-- `RandomAccessFile(part, "rw")`. -/
def openPart (d : Disk) : Disk × Nat :=
  match d.part with
  | some fd => (d, fd)
  | none => (⟨some d.files.length, d.files ++ [.empty]⟩, d.files.length)

def update (d : Disk) (fd : Nat) (f : PartFile) : Disk := { d with files := d.files.set fd f }

def deletePart (d : Disk) : Disk := { d with part := none }

end Disk

/-! ## Workers -/

def BUFFER_SIZE : Nat := 64 * 1024

/-- `toInt` of a `Long`. -/
def toInt (x : Int) : Int := Int.bmod x (2 ^ 32)

/-- How much one read asks for. -/
def readLimit (last : Int) (position : Nat) : Nat :=
  min BUFFER_SIZE (max (toInt (last - position + 1)) 1).toNat

/-- A read does not go past the end. -/
theorem readLimit_le {last : Int} {position : Nat} (h : (position : Int) ≤ last) :
    (position + readLimit last position : Int) ≤ last + 1 := by
  have hb : toInt (last - position + 1) ≤ last - position + 1 := by
    simp only [toInt, Int.bmod]
    omega
  unfold readLimit
  omega

inductive Phase where
  /-- At the head of the loop of `downloadSegment`. -/
  | loop
  | get (from_ : Nat)
  /-- In `copyCapped`: what is left of the body, and for which offset it is. -/
  | copy (fd : Nat) (position : Nat) (offset : Option Nat) (body : List UInt8)
  | ended
  deriving DecidableEq, Repr

structure Worker where
  segment : Segment
  phase : Phase
  deriving DecidableEq, Repr

/-- `read` bytes that were sent for `offset` on. -/
def sent (offset : Option Nat) (bytes : List UInt8) : List Sent :=
  bytes.mapIdx fun i b => ⟨offset.map (· + i), b⟩

namespace Worker

def advance (w : Worker) (n : Nat) : Segment :=
  { w.segment with downloaded := w.segment.downloaded + n }

/-- A step of `downloadSegment` that needs no reply; `stop` are the two flags,
`n` how much is read. -/
def work (w : Worker) (d : Disk) (stop : Bool) (n : Nat) : Option (Disk × Worker) :=
  match w.phase with
  | .loop =>
    if decide w.segment.full || stop then some (d, { w with phase := .ended })
    else some (d, { w with phase := .get (w.segment.start + w.segment.downloaded) })
  | .copy fd position offset body =>
    if w.segment.last < position || stop || body.isEmpty then some (d, { w with phase := .loop })
    else if 1 ≤ n ∧ n ≤ body.length ∧ n ≤ readLimit w.segment.last position then
      some (d.update fd ((d.file fd).write position (sent offset (body.take n))),
        ⟨w.advance n, .copy fd (position + n) (offset.map (· + n)) (body.drop n)⟩)
    else none
  | _ => none

/-- The reply to a request. -/
def reply (w : Worker) (d : Disk) (r : Reply) : Option (Disk × Worker) :=
  match w.phase with
  | .get from_ =>
    if r.status = 416 then some (d, { w with phase := .ended })
    else if success r.status then
      let o := d.openPart
      some (o.1, { w with phase := .copy o.2 from_ r.base r.body })
    else some (d, { w with phase := .ended })
  | _ => none

/-- An exception: the thread ends. -/
def throw (w : Worker) (d : Disk) : Option (Disk × Worker) :=
  if w.phase = .ended then none else some (d, { w with phase := .ended })

end Worker

/-! ## Jobs -/

inductive Main where
  | probe
  | plan
  | create
  | join
  | checkPaused
  | measure
  | move
  | ended
  deriving DecidableEq, Repr

structure Job where
  item : Item
  phase : Main
  cancelled : Bool
  paused : Bool
  workers : List Worker
  deriving DecidableEq, Repr

structure Sys where
  stored : Item
  disk : Disk
  target : Option PartFile
  jobs : List Job

namespace Job

/-- The item with the counters of the workers. -/
def current (j : Job) : Item :=
  if j.workers.isEmpty then j.item
  else { j.item with segments := j.workers.map (·.segment) }

def new (item : Item) : Job :=
  ⟨item, if item.totalBytes ≤ 0 then .probe else .plan, false, false, []⟩

/-- `finish` and `fail`: the item is stored in its last state. -/
def finish (j : Job) (s : Sys) (state : DownloadState) : Sys × Job :=
  let item := { j.current with state := state }
  ({ s with stored := item }, { j with item := item, phase := .ended })

/-- The item once it is planned. -/
def planned (item : Item) : Item :=
  { item with
    state := .running
    segments :=
      if item.segments.isEmpty then
        planSegments item.totalBytes (segmentCount item.acceptRanges item.totalBytes)
      else item.segments }

/-- `!part.exists() || part.length() != current.totalBytes`, where the length is known. -/
def recreates (j : Job) (d : Disk) : Bool :=
  decide (0 < j.item.totalBytes) &&
    (d.part.isNone || decide ((d.partLength : Int) ≠ j.item.totalBytes))

def createPart (j : Job) (d : Disk) : Disk :=
  if j.recreates d then
    let o := d.openPart
    o.1.update o.2 ((o.1.file o.2).setLength j.item.totalBytes.toNat)
  else d

/-- A step of `run` that needs no reply. -/
def main (j : Job) (s : Sys) : Option (Sys × Job) :=
  match j.phase with
  | .plan =>
    let item := planned j.item
    some ({ s with stored := item }, { j with item := item, phase := .create })
  | .create =>
    some ({ s with disk := j.createPart s.disk },
      { j with phase := .join, workers := j.item.segments.map (⟨·, .loop⟩) })
  | .join =>
    if j.workers.all (·.phase == .ended) then
      if j.cancelled then some (j.finish s .cancelled)
      else some (s, { j with phase := .checkPaused })
    else none
  | .checkPaused =>
    if j.paused then some (j.finish s .paused) else some (s, { j with phase := .measure })
  | .measure =>
    if 0 < j.item.totalBytes ∧ (s.disk.partLength : Int) < j.item.totalBytes then
      some (j.finish s .failed)
    else some (s, { j with phase := .move })
  | .move =>
    match s.disk.part with
    | none => some (j.finish s .failed)
    | some fd =>
      let item := { j.current with
        state := .completed
        totalBytes := (s.disk.file fd).length }
      some ({ s with stored := item, disk := s.disk.deletePart, target := some (s.disk.file fd) },
        { j with item := item, phase := .ended })
  | _ => none

/-- The reply to `HEAD`, `none` for an exception. -/
def probe (j : Job) (s : Sys) (h : Option Head) : Option (Sys × Job) :=
  if j.phase = .probe then
    match h with
    | none => some (j.finish s .failed)
    | some h =>
      if success h.status then
        let item := { j.item with
          acceptRanges := h.acceptRanges
          totalBytes := if h.contentLength > 0 then h.contentLength else j.item.totalBytes }
        some (s, { j with item := item, phase := .plan })
      else some (j.finish s .failed)
  else none

/-- An I/O exception in `run`, where no worker is running. -/
def throw (j : Job) (s : Sys) : Option (Sys × Job) :=
  if j.phase = .create ∨ j.phase = .measure ∨ j.phase = .move then some (j.finish s .failed)
  else none

/-- A step of one worker. -/
def worker (j : Job) (s : Sys) (k : Nat) (step : Worker → Option (Disk × Worker)) :
    Option (Sys × Job) :=
  match j.workers[k]? with
  | none => none
  | some w =>
    (step w).map fun r => ({ s with disk := r.1 }, { j with workers := j.workers.set k r.2 })

end Job

inductive Act where
  /-- `resume`, `recoverPending`, `retry`, `cancel` of the service: what they store. -/
  | resume
  | recover
  | retry
  | discard
  | deletePart
  /-- `startJob` with the stored record. -/
  | start
  | pause (n : Nat)
  | unpause (n : Nat)
  | cancel (n : Nat)
  | die
  | main (n : Nat)
  | head (n : Nat) (h : Option Head)
  | work (n k bytes : Nat)
  | reply (n k : Nat) (r : Reply)
  | throw (n : Nat)
  | throwWorker (n k : Nat)
  deriving DecidableEq, Repr

namespace Sys

/-- A step of a job. -/
def onJob (s : Sys) (n : Nat) (step : Job → Option (Sys × Job)) : Option Sys :=
  match s.jobs[n]? with
  | none => none
  | some j => (step j).map fun r => { r.1 with jobs := s.jobs.set n r.2 }

def setFlags (s : Sys) (n : Nat) (f : Job → Job) : Option Sys :=
  s.onJob n fun j => some (s, f j)

end Sys

def step (s : Sys) : Act → Option Sys
  | .resume =>
    if s.stored.state = .paused then some { s with stored := { s.stored with state := .queued } }
    else none
  | .recover =>
    if s.stored.state = .queued ∨ s.stored.state = .running then
      some { s with stored := { s.stored with state := .queued, segments := [] } }
    else none
  | .retry =>
    if s.stored.state = .failed then
      some { s with
        disk := s.disk.deletePart
        stored := { s.stored with state := .queued, segments := [] } }
    else none
  | .discard => some { s with stored := { s.stored with state := .cancelled } }
  | .deletePart => some { s with disk := s.disk.deletePart }
  | .start =>
    if s.stored.state = .queued then some { s with jobs := s.jobs ++ [.new s.stored] } else none
  | .pause n => s.setFlags n fun j => { j with paused := true }
  | .unpause n => s.setFlags n fun j => { j with paused := false }
  | .cancel n => s.setFlags n fun j => { j with cancelled := true }
  | .die => some { s with jobs := [] }
  | .main n => s.onJob n fun j => j.main s
  | .head n h => s.onJob n fun j => j.probe s h
  | .work n k bytes =>
    s.onJob n fun j => j.worker s k fun w => w.work s.disk (j.cancelled || j.paused) bytes
  | .reply n k r => s.onJob n fun j => j.worker s k fun w => w.reply s.disk r
  | .throw n => s.onJob n fun j => j.throw s
  | .throwWorker n k => s.onJob n fun j => j.worker s k fun w => w.throw s.disk

/-- A record that was just queued, and what lies on the disk under the name of its part. -/
def Sys.fresh (totalBytes : Int) (acceptRanges : Bool) (part : Option PartFile) : Sys :=
  { stored := ⟨.queued, totalBytes, acceptRanges, []⟩
    disk := ⟨part.map fun _ => 0, part.toList⟩
    target := none
    jobs := [] }

end Ghajar.Download
