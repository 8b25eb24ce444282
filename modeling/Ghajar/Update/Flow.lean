import Mathlib.Logic.Function.Basic
import Ghajar.Lib.Run

/-!
# The update flow

`GhajarUpdateFlow` and `GhajarUpdateInstaller`: the offer, the commands of the dialog,
and the download jobs. A job reads, writes, reports its progress and verifies in steps of
its own, each with what the network and the system make of it (`Event`). Cancelling a job
sets a flag that it looks at before each read and whenever it comes back to the main thread.

Files are inodes under names, so that a stream goes on writing to what it has opened.
SHA-256 and the signature check are parameters (`Checks`). The dialog, messages and the
page of a release are left out. `handed` is not in the source: what `install` was called
with, and the release that was available then.
-/

namespace Ghajar.Update

abbrev Bytes := List UInt8

structure ReleaseAsset where
  name : String
  sizeBytes : Nat
  deriving DecidableEq, Repr

/-- `UpdateChecker.Result.Available`; `parseSha256Sums` gives a hash in lower case. -/
structure Release where
  version : String
  apk : Option ReleaseAsset
  apkSha256 : Option String
  deriving DecidableEq, Repr

/-- The digest of a file in lower case, and whether the signing certificates of an APK are
those of the installed app. -/
structure Checks where
  sha256 : Bytes → String
  signed : Bytes → Bool

/-! ## Files -/

structure Disk where
  names : String → Option Nat
  inodes : Nat → Bytes
  next : Nat

namespace Disk

def empty : Disk := ⟨fun _ => none, fun _ => [], 0⟩

def content (d : Disk) (name : String) : Option Bytes := (d.names name).map d.inodes

/-- `outputStream()`: a file of the name is truncated, else one is made. -/
def create (d : Disk) (name : String) : Disk × Nat :=
  match d.names name with
  | some i => ({ d with inodes := Function.update d.inodes i [] }, i)
  | none =>
    (⟨Function.update d.names name (some d.next), Function.update d.inodes d.next [], d.next + 1⟩,
      d.next)

/-- A stream writes at its own position. -/
def write (d : Disk) (i pos : Nat) (bytes : Bytes) : Disk :=
  let old := d.inodes i
  let before := old.take pos ++ List.replicate (pos - old.length) 0
  { d with inodes := Function.update d.inodes i (before ++ bytes ++ old.drop (pos + bytes.length)) }

def delete (d : Disk) (name : String) : Disk :=
  { d with names := Function.update d.names name none }

def rename (d : Disk) (source target : String) : Option Disk :=
  (d.names source).map fun i =>
    { d with names := Function.update (Function.update d.names target (some i)) source none }

/-- `copyTo`, where there is no target. -/
def copy (d : Disk) (source target : String) : Option Disk :=
  (d.content source).map fun bytes =>
    ⟨Function.update d.names target (some d.next), Function.update d.inodes d.next bytes,
      d.next + 1⟩

end Disk

def ReleaseAsset.dest (a : ReleaseAsset) : String := a.name

def ReleaseAsset.tmp (a : ReleaseAsset) : String := a.name ++ ".part"

/-! ## Jobs -/

inductive VerifyResult where
  | ok
  | mismatch
  | unavailable
  deriving DecidableEq, Repr

/-- `verifySha256`, for a file that is there. -/
def verifySha256 (c : Checks) (bytes : Bytes) (expectedHex : Option String) : VerifyResult :=
  match expectedHex with
  | none => .unavailable
  | some hex => if c.sha256 bytes = hex then .ok else .mismatch

def verifySignatureMatchesInstalled (c : Checks) (bytes : Bytes) : VerifyResult :=
  if c.signed bytes then .ok else .mismatch

/-- Where a job is; from `success` and `failed` on it comes back to the main thread. -/
inductive Pc where
  | dispatch
  | connect
  | outputStream
  | check
  | read
  | write (bytes : Bytes)
  | progress
  | rename
  | failed
  | success
  | checksum
  | signature (checksum : VerifyResult)
  | decide (checksum signature : VerifyResult)
  | done
  deriving DecidableEq, Repr

structure Job where
  upd : Release
  apk : ReleaseAsset
  cancelled : Bool
  pc : Pc
  inode : Nat
  bytesRead : Nat
  total : Nat
  deriving DecidableEq, Repr

def Job.running (j : Job) : Bool := j.pc ≠ .done

/-- `isActive`. -/
def Job.active (j : Job) : Bool := j.running && !j.cancelled

/-- What the network and the system make of a step: it throws, or it gives a length, a
chunk (none at the end of the stream), the permission to install. -/
structure Event where
  throws : Bool
  contentLength : Nat
  chunk : Bytes
  canInstall : Bool
  deriving DecidableEq, Repr

inductive Stage where
  | offer
  | downloading
  | verifying
  | ready
  | error
  deriving DecidableEq, Repr

/-- The state of the flow; `progress` is a fraction. -/
structure Sys where
  available : Option Release
  stage : Stage
  progress : Nat × Nat
  readyFile : Option String
  job : Option Nat
  jobs : List Job
  disk : Disk
  handed : List (Option Bytes × Option Release)

/-- `read / total`, at most one; zero where the total is not known. -/
def ratio (bytesRead total : Nat) : Nat × Nat :=
  if total > 0 then (min bytesRead total, total) else (0, 1)

namespace Sys

def setJob (s : Sys) (k : Nat) (j : Job) : Sys := { s with jobs := s.jobs.set k j }

/-- An exception of the download: the part file is deleted. -/
def abort (s : Sys) (k : Nat) (j : Job) : Sys :=
  { s with disk := s.disk.delete j.apk.tmp }.setJob k { j with pc := .failed }

/-- `renameTo`, or the copy it falls back to. -/
def moveTo (s : Sys) (k : Nat) (j : Job) (throws : Bool) : Sys :=
  match if throws then none else s.disk.rename j.apk.tmp j.apk.dest with
  | some disk => { s with disk := disk }.setJob k { j with pc := .success }
  | none =>
    let disk := s.disk.delete j.apk.dest
    match disk.copy j.apk.tmp j.apk.dest with
    | some disk =>
      { s with disk := disk.delete j.apk.tmp }.setJob k { j with pc := .success }
    | none => { s with disk := disk }.abort k j

/-- The file is handed to the installer. -/
def install (s : Sys) (file : String) : Sys :=
  { s with handed := s.handed ++ [(s.disk.content file, s.available)] }

/-- The end of a job that has verified its file. -/
def decide (s : Sys) (k : Nat) (j : Job) (checksum signature : VerifyResult)
    (canInstall : Bool) : Sys :=
  if checksum = .ok ∧ signature = .ok then
    let s := { s with readyFile := some j.apk.dest, stage := .ready }.setJob k { j with pc := .done }
    if canInstall then s.install j.apk.dest else s
  else
    { s with disk := s.disk.delete j.apk.dest, stage := .error }.setJob k { j with pc := .done }

/-- A job goes on in another thread, unless it is cancelled. -/
def resume (s : Sys) (k : Nat) (j : Job) (f : Sys → Sys) : Sys :=
  if j.cancelled then s.setJob k { j with pc := .done } else f s

/-- One step of a job. A file that is gone when it is to be verified ends the job. -/
def runJob (c : Checks) (s : Sys) (k : Nat) (j : Job) (e : Event) : Option Sys :=
  match j.pc with
  | .dispatch => some (s.resume k j fun s => s.setJob k { j with pc := .connect })
  | .connect =>
    if e.throws then some (s.abort k j)
    else
      let total := if e.contentLength > 0 then e.contentLength else j.apk.sizeBytes
      some (s.setJob k { j with pc := .outputStream, total := total })
  | .outputStream =>
    if e.throws then some (s.abort k j)
    else
      let r := s.disk.create j.apk.tmp
      some ({ s with disk := r.1 }.setJob k { j with pc := .check, inode := r.2, bytesRead := 0 })
  | .check =>
    if j.cancelled then
      some ({ s with disk := s.disk.delete j.apk.tmp }.setJob k { j with pc := .done })
    else some (s.setJob k { j with pc := .read })
  | .read =>
    if e.throws then some (s.abort k j)
    else if e.chunk.isEmpty then some (s.setJob k { j with pc := .rename })
    else some (s.setJob k { j with pc := .write e.chunk })
  | .write bytes =>
    if e.throws then some (s.abort k j)
    else
      some ({ s with disk := s.disk.write j.inode j.bytesRead bytes }.setJob k
        { j with pc := .progress, bytesRead := j.bytesRead + bytes.length })
  | .progress =>
    some ({ s with progress := ratio j.bytesRead j.total }.setJob k { j with pc := .check })
  | .rename => some (s.moveTo k j e.throws)
  | .failed =>
    some (s.resume k j fun s => { s with stage := .error }.setJob k { j with pc := .done })
  | .success =>
    some (s.resume k j fun s => { s with stage := .verifying }.setJob k { j with pc := .checksum })
  | .checksum =>
    match s.disk.content j.apk.dest with
    | none => some (s.setJob k { j with pc := .done })
    | some bytes =>
      some (s.setJob k { j with pc := .signature (verifySha256 c bytes j.upd.apkSha256) })
  | .signature checksum =>
    some (s.resume k j fun s =>
      match s.disk.content j.apk.dest with
      | none => s.setJob k { j with pc := .decide checksum .unavailable }
      | some bytes =>
        s.setJob k { j with pc := .decide checksum (verifySignatureMatchesInstalled c bytes) })
  | .decide checksum signature =>
    some (s.resume k j fun s => s.decide k j checksum signature e.canInstall)
  | .done => none

/-! ## Commands -/

def offer (s : Sys) (result : Release) : Sys :=
  let s :=
    if s.available.map (·.version) ≠ some result.version then
      { s with stage := .offer, progress := (0, 1), readyFile := none }
    else s
  { s with available := some result }

/-- `newer` is `UpdateChecker.isNewer` of the offered version. -/
def clearIfInstalled (s : Sys) (newer : Bool) : Sys :=
  if s.available.isSome ∧ newer = false then { s with available := none, stage := .offer } else s

def cancel (s : Sys) : Sys :=
  { s with
    jobs := match s.job with
      | none => s.jobs
      | some k => s.jobs.modify k fun j => { j with cancelled := true }
    job := none
    stage := .offer
    progress := (0, 1) }

/-- `job?.isActive == true`. -/
def jobActive (s : Sys) : Bool := (s.job.bind fun k => s.jobs[k]?).any Job.active

/-- The download `start` would launch. -/
def launches (s : Sys) : Option (Release × ReleaseAsset) :=
  s.available.bind fun upd => upd.apk.bind fun apk =>
    if s.jobActive then none else some (upd, apk)

def start (s : Sys) : Sys :=
  match s.launches with
  | none => s
  | some (upd, apk) =>
    { s with
      stage := .downloading
      progress := (0, 1)
      job := some s.jobs.length
      jobs := s.jobs ++ [⟨upd, apk, false, .dispatch, 0, 0, 0⟩] }

def fresh : Sys := ⟨none, .offer, (0, 1), none, none, [], .empty, []⟩

end Sys

inductive Act where
  | offer (result : Release)
  | clearIfInstalled (newer : Bool)
  | cancel
  | start
  /-- The button of the dialog, where the file is ready. -/
  | install
  | run (k : Nat) (e : Event)
  deriving DecidableEq, Repr

def step (c : Checks) (s : Sys) : Act → Option Sys
  | .offer result => some (s.offer result)
  | .clearIfInstalled newer => some (s.clearIfInstalled newer)
  | .cancel => some s.cancel
  | .start => some s.start
  | .install => if s.stage = .ready then s.readyFile.map s.install else none
  | .run k e => s.jobs[k]?.bind fun j => s.runJob c k j e

end Ghajar.Update
