import Mathlib
import Ghajar.Engine.Sidecars

/-!
# Files with credentials

`SidecarRunner.start` and `SingBoxRunner.start`: the files they write into their working
directories and the ways they end. Files are deleted behind the wait for the port, and where
sing-box rejects the profile or cannot be run; the other exits leave them. `secrets_gone_iff` says
for both which calls leave nothing.
-/

namespace Ghajar.Secrets

open Ghajar

/-! ## The helper -/

structure SidecarLaunch where
  binary : String
  files : List (String × String)
  secretFiles : List String

/-- A working directory: the files and what they hold. -/
abbrev Dir := String → Option String

/-- How a file is written. A file that was opened is there, also when the write fails. -/
inductive Write where
  | complete
  | broken
  | refused
  deriving DecidableEq

/-- How the wait for the port ends. -/
inductive Wait where
  | ready
  | stopped
  | exited
  | timedOut
  /-- `Thread.sleep` throws. -/
  | interrupted
  deriving DecidableEq

/-- What is outside of one call of `SidecarRunner.start`. -/
structure SideEnv where
  binary : Bool
  write : String → Write
  /-- The exception that the process is not started with. -/
  spawn : Option String
  wait : Wait
  /-- What the helper printed last, and whether it is alive. -/
  last : String
  alive : Bool
  delete : String → Bool
  dir : String
  port2 : Option Nat

/-- The placeholders filled in. -/
def SideEnv.fill (e : SideEnv) (port : Nat) (s : String) : String :=
  Npv.replace Sidecar.DIR e.dir (Npv.replace Sidecar.PORT (toString port)
    (Npv.replace Sidecar.PORT2 (toString (e.port2.getD 0)) s))

def cut (n : Nat) (s : String) : String := String.ofList (s.toList.take n)

/-- A call gives nothing or a reason, or throws. -/
inductive End where
  | returned (reason : Option String)
  | thrown
  deriving DecidableEq

/-- The directory, the files that the call wrote, and whether its process runs. -/
structure Place where
  dir : Dir
  wrote : List String := []
  running : Bool := false

def removeSuffix (s suffix : String) : String :=
  if s.endsWith suffix then String.ofList (s.toList.take (s.toList.length - suffix.toList.length))
  else s

/-- The name of a helper in a message. -/
def SidecarLaunch.shown (l : SidecarLaunch) : String :=
  removeSuffix (if l.binary.startsWith "lib" then String.ofList (l.binary.toList.drop 3)
    else l.binary) ".so"

def writeText (write : Write) (name content : String) (p : Place) : Bool × Place :=
  match write with
  | .complete =>
    (true, { p with dir := Function.update p.dir name (some content), wrote := name :: p.wrote })
  | .broken =>
    (false, { p with dir := Function.update p.dir name (some ""), wrote := name :: p.wrote })
  | .refused => (false, p)

def writeAll (e : SideEnv) (port : Nat) : List (String × String) → Place → Bool × Place
  | [], p => (true, p)
  | f :: files, p =>
    let r := writeText (e.write f.1) f.1 (e.fill port f.2) p
    if r.1 then writeAll e port files r.2 else r

def delete (deletes : String → Bool) (p : Place) (name : String) : Place :=
  if deletes name then { p with dir := Function.update p.dir name none } else p

/-- `SidecarRunner.start`; `stop` is what it begins and fails with. -/
def SidecarRunner.start (e : SideEnv) (launch : SidecarLaunch) (port : Nat) (dir : Dir) :
    End × Place :=
  let p : Place := { dir := dir }
  if !e.binary then (.returned (launch.shown ++ " is not in this build"), p)
  else
    let w := writeAll e port launch.files p
    if !w.1 then (.returned "could not write the engine configuration", w.2)
    else match e.spawn with
    | some cls => (.returned (launch.binary ++ " could not be started: " ++ cls), w.2)
    | none =>
      let p := { w.2 with running := true }
      if e.wait = .interrupted then (.thrown, p)
      else
        let p := launch.secretFiles.foldl (delete e.delete) p
        if e.wait = .ready then (.returned none, p)
        else
          let p := { p with running := false }
          if e.alive then (.returned (launch.shown ++ " did not open its local port"), p)
          else (.returned (launch.shown ++ " exited: " ++ cut 200 e.last), p)

/-! ## The proxy -/

/-- How `sing-box check` ends. -/
inductive Check where
  | timedOut
  | threw (cls : String)
  | exited (code : Int) (out : String)
  deriving DecidableEq

/-- What the call makes of the specification: the launch of its helper if it has one, or why there
is none; the specification with the helper's port; and the configuration, or what is thrown. -/
structure Profile where
  spec : String
  launch : Option (Except String SidecarLaunch)
  effective : Nat → String
  full : String → Nat → Except String String

/-- What is outside of one call of `SingBoxRunner.start`. -/
structure MainEnv where
  binary : Bool
  freePort : Option Nat
  sidePort : Option Nat
  side : SideEnv
  write : Write
  check : Check
  /-- The exception that sing-box is not started with. -/
  run : Option String
  wait : Wait
  last : String
  delete : Bool
  redact : String → String

/-- The two working directories. -/
structure Places where
  main : Place
  side : Place

def CONFIG : String := "config.json"

/-- The processes are ended; the files stay. -/
def stop (p : Places) : Places :=
  { main := { p.main with running := false }, side := { p.side with running := false } }

/-- The last line that is not blank, redacted and cut. -/
def MainEnv.reason (e : MainEnv) (out : String) : String :=
  let lines := (out.parts '\n').filter fun l => !l.blank
  cut 240 (e.redact (lines.getLast?.getD ""))

/-- `startInner` from where the configuration is known. -/
def startConfigured (e : MainEnv) (json : String) (p : Places) : End × Places :=
  let w := writeText e.write CONFIG json p.main
  let p := { p with main := w.2 }
  let deleted := { p with main := delete (fun _ => e.delete) p.main CONFIG }
  if !w.1 then (.thrown, p)
  else match e.check with
  | .timedOut => (.returned "sing-box check timed out", p)
  | .threw cls => (.returned ("sing-box could not be started: " ++ cls), p)
  | .exited code out =>
    if code ≠ 0 then (.returned ("sing-box rejected the profile: " ++ e.reason out), deleted)
    else match e.run with
    | some cls => (.returned ("sing-box could not be started: " ++ cls), deleted)
    | none =>
      if e.wait = .interrupted then (.thrown, { p with main := { p.main with running := true } })
      else
        let deleted := { deleted with main := { deleted.main with running := true } }
        if e.wait = .ready then (.returned none, deleted)
        else
          let last := cut 240 e.last
          (.returned ("sing-box did not open its local proxy" ++
            if last.blank then "" else ": " ++ last), stop deleted)

/-- The port that is asked for, or a free one. -/
def MainEnv.chosen (e : MainEnv) (port : Nat) : Option Nat :=
  if port > 0 then some port else e.freePort

def startInner (e : MainEnv) (prof : Profile) (port : Nat) (p : Places) : End × Places :=
  if !e.binary then (.returned "sing-box is not in this build", p)
  else match e.chosen port with
  | none => (.returned "no free local port", p)
  | some chosen =>
    let go (effective : String) (p : Places) : End × Places :=
      match prof.full effective chosen with
      | .error cls => (.returned ("bad profile: " ++ cls), p)
      | .ok json => startConfigured e json p
    match prof.launch with
    | none => go prof.spec p
    | some (.error message) => (.returned message, p)
    | some (.ok launch) =>
      match e.sidePort with
      | none => (.returned "no free local port", p)
      | some sidePort =>
        let r := SidecarRunner.start e.side launch sidePort p.side.dir
        let p := { p with side := r.2 }
        match r.1 with
        | .returned none => go (prof.effective sidePort) p
        | failed => (failed, p)

/-- `SingBoxRunner.start`: what a failed call has started is stopped again. -/
def SingBoxRunner.start (e : MainEnv) (prof : Profile) (port : Nat) (main side : Dir) :
    End × Places :=
  let r := startInner e prof port ⟨{ dir := main }, { dir := side }⟩
  match r.1 with
  | .returned (some reason) => (.returned (some reason), stop r.2)
  | done => (done, r.2)

/-! ## What the helper's runner leaves -/

section Side

variable {e : SideEnv} {launch : SidecarLaunch} {port : Nat} {dir : Dir}

/-- The names that are opened for writing. -/
def opened (write : String → Write) : List String → List String
  | [] => []
  | f :: files =>
    match write f with
    | .complete => f :: opened write files
    | .broken => [f]
    | .refused => []

/-- The files that a call writes. -/
def SideEnv.written (e : SideEnv) (launch : SidecarLaunch) : List String :=
  if e.binary then opened e.write (launch.files.map Prod.fst) else []

/-- The helper's process starts. -/
structure SideEnv.Started (e : SideEnv) (launch : SidecarLaunch) : Prop where
  binary : e.binary = true
  written : ∀ f ∈ launch.files, e.write f.1 = .complete
  spawned : e.spawn = none

/-- The helper's process starts and the wait for its port comes to an end. -/
def SideEnv.Waited (e : SideEnv) (launch : SidecarLaunch) : Prop :=
  e.Started launch ∧ e.wait ≠ .interrupted

/-- No file of the helper's secrets that the call wrote is there at its end. -/
def SideClean (launch : SidecarLaunch) (r : End × Place) : Prop :=
  ∀ f ∈ r.2.wrote, f ∈ launch.secretFiles → r.2.dir f = none

/-- Every secret that is written can be deleted, and the call comes to that. -/
def SideEnv.Deletes (e : SideEnv) (launch : SidecarLaunch) : Prop :=
  ∀ f ∈ e.written launch, f ∈ launch.secretFiles → e.Waited launch ∧ e.delete f = true

theorem writeAll_done {files : List (String × String)} {p : Place} :
    (writeAll e port files p).1 = true ↔ ∀ f ∈ files, e.write f.1 = .complete := by
  induction files generalizing p with
  | nil => simp [writeAll]
  | cons f files ih =>
    rw [writeAll, List.forall_mem_cons]
    cases hf : e.write f.1 with
    | complete => simp [writeText, ih]
    | broken => simp [writeText]
    | refused => simp [writeText]

theorem writeAll_wrote {files : List (String × String)} {p : Place} {f : String} :
    f ∈ (writeAll e port files p).2.wrote ↔
      f ∈ opened e.write (files.map Prod.fst) ∨ f ∈ p.wrote := by
  induction files generalizing p with
  | nil => simp [writeAll, opened]
  | cons g files ih =>
    rw [writeAll, List.map_cons, opened]
    cases hf : e.write g.1 with
    | complete =>
      simp only [writeText, if_true, ih, List.mem_cons]
      tauto
    | broken => simp [writeText]
    | refused => simp [writeText]

/-- What was written is there. -/
theorem writeAll_dir {files : List (String × String)} {p : Place}
    (hp : ∀ f ∈ p.wrote, p.dir f ≠ none) :
    ∀ f ∈ (writeAll e port files p).2.wrote, (writeAll e port files p).2.dir f ≠ none := by
  have hadd (name content : String) (p : Place) (hp : ∀ f ∈ p.wrote, p.dir f ≠ none) :
      ∀ f ∈ name :: p.wrote, Function.update p.dir name (some content) f ≠ none := by
    intro f hf
    by_cases hn : f = name
    · subst hn
      rw [Function.update_self]
      exact Option.some_ne_none content
    · rw [Function.update_of_ne hn]
      exact hp f ((List.mem_cons.1 hf).resolve_left hn)
  induction files generalizing p with
  | nil => exact hp
  | cons g files ih =>
    rw [writeAll]
    cases hf : e.write g.1 with
    | complete => exact ih (hadd g.1 _ p hp)
    | broken => exact hadd g.1 _ p hp
    | refused => exact hp

theorem delete_all {deletes : String → Bool} {names : List String} {p : Place} {f : String} :
    (names.foldl (delete deletes) p).wrote = p.wrote ∧
      (names.foldl (delete deletes) p).dir f =
        if f ∈ names ∧ deletes f = true then none else p.dir f := by
  induction names generalizing p with
  | nil => simp
  | cons n names ih =>
    rw [List.foldl_cons]
    obtain ⟨hw, hd⟩ := ih (p := delete deletes p n)
    rw [hw, hd]
    unfold delete
    by_cases hdel : deletes n = true
    · rw [if_pos hdel]
      refine ⟨rfl, ?_⟩
      by_cases hn : f = n
      · subst hn
        simp [hdel]
      · simp [hn]
    · rw [if_neg hdel]
      refine ⟨rfl, ?_⟩
      by_cases hn : f = n
      · subst hn
        simp [hdel]
      · simp [hn]

/-- What a call of the helper's runner amounts to. -/
structure SideResult (e : SideEnv) (launch : SidecarLaunch) (r : End × Place) : Prop where
  succeeded : r.1 = .returned none ↔ e.Started launch ∧ e.wait = .ready
  wrote : ∀ f, f ∈ r.2.wrote ↔ f ∈ e.written launch
  gone : ∀ f ∈ r.2.wrote,
    r.2.dir f = none ↔ e.Waited launch ∧ f ∈ launch.secretFiles ∧ e.delete f = true

/-- A call that ends before the process has been waited for leaves all it wrote. -/
theorem side_result_early {r : End × Place} (hns : ¬e.Waited launch) (hr : r.1 ≠ .returned none)
    (hw : ∀ f, f ∈ r.2.wrote ↔ f ∈ e.written launch)
    (hthere : ∀ f ∈ r.2.wrote, r.2.dir f ≠ none) : SideResult e launch r := by
  refine ⟨iff_of_false hr fun ⟨hst, hready⟩ => hns ⟨hst, ?_⟩, hw, fun f hf => ?_⟩
  · rw [hready]
    decide
  · exact iff_of_false (hthere f hf) fun h => hns h.1

theorem side_result : SideResult e launch (SidecarRunner.start e launch port dir) := by
  unfold SidecarRunner.start
  by_cases hb : e.binary = true
  swap
  · have hw : e.written launch = [] := if_neg hb
    rw [if_pos (by simpa using hb)]
    refine side_result_early (fun h => hb h.1.binary) (by simp) (fun f => ?_) ?_
    · rw [hw]
    · intro f hf
      cases hf
  have hwrote (f : String) : f ∈ (writeAll e port launch.files { dir := dir }).2.wrote ↔
      f ∈ e.written launch := by
    rw [writeAll_wrote, SideEnv.written, if_pos hb]
    simp
  have hthere := @writeAll_dir e port launch.files { dir := dir } fun f hf => by cases hf
  rw [if_neg (by simp [hb])]
  dsimp only
  by_cases hdone : (writeAll e port launch.files { dir := dir }).1 = true
  swap
  · rw [if_pos (by simpa using hdone)]
    exact side_result_early (fun h => hdone (writeAll_done.2 h.1.written)) (by simp) hwrote hthere
  rw [if_neg (by simp [hdone])]
  cases hspawn : e.spawn with
  | some cls =>
    refine side_result_early (fun h => ?_) (by simp) hwrote hthere
    have := h.1.spawned
    rw [hspawn] at this
    cases this
  | none =>
    have hst : e.Started launch := ⟨hb, writeAll_done.1 hdone, hspawn⟩
    dsimp only
    by_cases hint : e.wait = .interrupted
    · rw [if_pos hint]
      exact side_result_early (fun h => h.2 hint) (by simp) hwrote hthere
    rw [if_neg hint]
    have hdel (f : String) := @delete_all e.delete launch.secretFiles
      { (writeAll e port launch.files { dir := dir }).2 with running := true } f
    -- behind the wait the directory is that of the deletions, whatever is said of the process
    have hend : ∀ r : End × Place, (r.1 = .returned none ↔ e.wait = .ready) →
        r.2.wrote = (writeAll e port launch.files { dir := dir }).2.wrote →
        r.2.dir = (launch.secretFiles.foldl (delete e.delete)
          { (writeAll e port launch.files { dir := dir }).2 with running := true }).dir →
        SideResult e launch r := by
      intro r hs hw hd
      refine ⟨hs.trans ⟨fun h => ⟨hst, h⟩, fun h => h.2⟩, fun f => hw ▸ hwrote f, fun f hf => ?_⟩
      rw [hd, (hdel f).2]
      rw [hw] at hf
      by_cases hdf : f ∈ launch.secretFiles ∧ e.delete f = true
      · rw [if_pos hdf]
        exact iff_of_true rfl ⟨⟨hst, hint⟩, hdf⟩
      · rw [if_neg hdf]
        exact iff_of_false (hthere f hf) fun h => hdf h.2
    by_cases hready : e.wait = .ready
    · rw [if_pos hready]
      exact hend _ (iff_of_true rfl hready) (hdel "").1 rfl
    · rw [if_neg hready]
      split
      · exact hend _ (iff_of_false (by simp) hready) (hdel "").1 rfl
      · exact hend _ (iff_of_false (by simp) hready) (hdel "").1 rfl

theorem sideClean_iff {r : End × Place} (h : SideResult e launch r) :
    SideClean launch r ↔ e.Deletes launch := by
  constructor
  · intro hc f hf hs
    have hf' := (h.wrote f).2 hf
    obtain ⟨hst, -, hd⟩ := (h.gone f hf').1 (hc f hf' hs)
    exact ⟨hst, hd⟩
  · intro hd f hf hs
    obtain ⟨hst, hdel⟩ := hd f ((h.wrote f).1 hf) hs
    exact (h.gone f hf).2 ⟨hst, hs, hdel⟩

end Side

/-! ## What the proxy's runner leaves -/

section Main

variable {e : MainEnv} {prof : Profile} {port : Nat} {main side : Dir}

/-- The helper of this launch is started. -/
structure CallsSide (e : MainEnv) (prof : Profile) (port : Nat) (launch : SidecarLaunch) : Prop where
  binary : e.binary = true
  port : (e.chosen port).isSome
  launch : prof.launch = some (.ok launch)
  sidePort : e.sidePort.isSome

/-- What is turned into a configuration, where the helper is up or there is none. -/
inductive Effective (e : MainEnv) (prof : Profile) (port : Nat) : String → Prop
  | plain (h : prof.launch = none) : Effective e prof port prof.spec
  | helped {launch : SidecarLaunch} {sidePort : Nat} (h : CallsSide e prof port launch)
      (hp : e.sidePort = some sidePort) (hs : e.side.Started launch)
      (hw : e.side.wait = .ready) : Effective e prof port (prof.effective sidePort)

/-- The call comes to the configuration. -/
def ToConfig (e : MainEnv) (prof : Profile) (port : Nat) : Prop :=
  e.binary = true ∧ ∃ chosen effective json, e.chosen port = some chosen ∧
    Effective e prof port effective ∧ prof.full effective chosen = .ok json

/-- The wait for sing-box is interrupted. -/
def Interrupted (e : MainEnv) : Prop :=
  (∃ out, e.check = .exited 0 out) ∧ e.run = none ∧ e.wait = .interrupted

/-- The check has come to an end by itself, and the configuration that it has read is deleted. -/
structure DeletesConfig (e : MainEnv) : Prop where
  written : e.write = .complete
  checked : ∃ code out, e.check = .exited code out
  waited : ¬Interrupted e
  deleted : e.delete = true

/-- Neither the configuration nor a file of the helper's secrets that the call wrote is there at
its end. -/
def MainClean (prof : Profile) (r : End × Places) : Prop :=
  (CONFIG ∈ r.2.main.wrote → r.2.main.dir CONFIG = none) ∧
    ∀ launch, prof.launch = some (.ok launch) →
      ∀ f ∈ r.2.side.wrote, f ∈ launch.secretFiles → r.2.side.dir f = none

/-- What `startConfigured` amounts to. -/
structure Configured (e : MainEnv) (p : Places) (r : End × Places) : Prop where
  sideDir : r.2.side.dir = p.side.dir
  sideWrote : r.2.side.wrote = p.side.wrote
  wrote : CONFIG ∈ r.2.main.wrote ↔ e.write ≠ .refused
  gone : CONFIG ∈ r.2.main.wrote → (r.2.main.dir CONFIG = none ↔ DeletesConfig e)

/-- The deletion takes the file away exactly where it works. -/
theorem delete_config {ok : Bool} {q : Place} (hq : q.dir CONFIG ≠ none) :
    ((delete (fun _ => ok) q CONFIG).dir CONFIG = none ↔ ok = true) ∧
      (delete (fun _ => ok) q CONFIG).wrote = q.wrote := by
  unfold delete
  by_cases hok : ok = true
  · rw [if_pos hok]
    have hup : Function.update q.dir CONFIG none CONFIG = none := Function.update_self ..
    exact ⟨iff_of_true hup hok, rfl⟩
  · rw [if_neg hok]
    exact ⟨iff_of_false hq hok, rfl⟩

theorem configured {json : String} {p : Places} (hp : p.main.wrote = []) :
    Configured e p (startConfigured e json p) := by
  unfold startConfigured
  cases hw : e.write with
  | broken =>
    have hn : ¬DeletesConfig e := fun h => by
      have := h.written
      rw [hw] at this
      cases this
    refine ⟨rfl, rfl, iff_of_true List.mem_cons_self (by rw [hw]; decide), fun _ => ?_⟩
    refine iff_of_false ?_ hn
    have hup : Function.update p.main.dir CONFIG (some "") CONFIG = some "" :=
      Function.update_self ..
    exact fun h => absurd (hup.symm.trans h) (Option.some_ne_none _)
  | refused =>
    have hnot : CONFIG ∉ p.main.wrote := by
      rw [hp]
      exact List.not_mem_nil
    exact ⟨rfl, rfl, iff_of_false hnot (fun h => h hw), fun h => absurd h hnot⟩
  | complete =>
    have hwr : e.write ≠ .refused := by
      rw [hw]
      decide
    have hthere : Function.update p.main.dir CONFIG (some json) CONFIG ≠ none := by
      rw [Function.update_self]
      exact Option.some_ne_none json
    obtain ⟨hgone, hwrote⟩ := @delete_config e.delete
      ⟨Function.update p.main.dir CONFIG (some json), CONFIG :: p.main.wrote, p.main.running⟩ hthere
    have hin : CONFIG ∈ (delete (fun _ => e.delete)
        ⟨Function.update p.main.dir CONFIG (some json), CONFIG :: p.main.wrote, p.main.running⟩
        CONFIG).wrote := by
      rw [hwrote]
      exact List.mem_cons_self
    -- an exit that leaves the configuration, and one that deletes it
    have hleft : ∀ r : End × Places, ¬DeletesConfig e → r.2.side.dir = p.side.dir →
        r.2.side.wrote = p.side.wrote → CONFIG ∈ r.2.main.wrote →
        r.2.main.dir = Function.update p.main.dir CONFIG (some json) → Configured e p r := by
      intro r hn hd hs hm hdir
      refine ⟨hd, hs, iff_of_true hm hwr, fun _ => iff_of_false ?_ hn⟩
      rw [hdir]
      exact hthere
    have hdeleted : ∀ r : End × Places, (∃ code out, e.check = .exited code out) →
        ¬Interrupted e → r.2.side.dir = p.side.dir → r.2.side.wrote = p.side.wrote →
        r.2.main.wrote = (delete (fun _ => e.delete) ⟨Function.update p.main.dir CONFIG (some json),
          CONFIG :: p.main.wrote, p.main.running⟩ CONFIG).wrote →
        r.2.main.dir = (delete (fun _ => e.delete) ⟨Function.update p.main.dir CONFIG (some json),
          CONFIG :: p.main.wrote, p.main.running⟩ CONFIG).dir → Configured e p r := by
      intro r hc hi hd hs hm hdir
      refine ⟨hd, hs, ?_, fun _ => ?_⟩
      · rw [hm]
        exact iff_of_true hin hwr
      · rw [hdir]
        exact hgone.trans ⟨fun h => ⟨hw, hc, hi, h⟩, DeletesConfig.deleted⟩
    simp only [writeText, Bool.not_true, Bool.false_eq_true, if_false]
    cases hc : e.check with
    | timedOut =>
      refine hleft _ (fun h => ?_) rfl rfl List.mem_cons_self rfl
      obtain ⟨code, out, h⟩ := h.checked
      rw [hc] at h
      cases h
    | threw cls =>
      refine hleft _ (fun h => ?_) rfl rfl List.mem_cons_self rfl
      obtain ⟨code, out, h⟩ := h.checked
      rw [hc] at h
      cases h
    | exited code out =>
      have hint : Interrupted e ↔ code = 0 ∧ e.run = none ∧ e.wait = .interrupted := by
        rw [Interrupted, hc]
        simp
      dsimp only
      by_cases hcode : code ≠ 0
      · rw [if_pos hcode]
        exact hdeleted _ ⟨code, out, hc⟩ (fun h => hcode (hint.1 h).1) rfl rfl rfl rfl
      rw [if_neg hcode]
      cases hrun : e.run with
      | some cls =>
        refine hdeleted _ ⟨code, out, hc⟩ (fun h => ?_) rfl rfl rfl rfl
        have := (hint.1 h).2.1
        rw [hrun] at this
        cases this
      | none =>
        dsimp only
        by_cases hwait : e.wait = .interrupted
        · rw [if_pos hwait]
          exact hleft _ (fun h => h.waited (hint.2 ⟨not_not.1 hcode, hrun, hwait⟩)) rfl rfl
            List.mem_cons_self rfl
        rw [if_neg hwait]
        have hni : ¬Interrupted e := fun h => hwait (hint.1 h).2.2
        by_cases hready : e.wait = .ready
        · rw [if_pos hready]
          exact hdeleted _ ⟨code, out, hc⟩ hni rfl rfl rfl rfl
        · rw [if_neg hready]
          exact hdeleted _ ⟨code, out, hc⟩ hni rfl rfl rfl rfl

theorem Effective.unique {a b : String} (ha : Effective e prof port a)
    (hb : Effective e prof port b) : a = b := by
  cases ha with
  | plain ha =>
    cases hb with
    | plain => rfl
    | helped hb => rw [hb.launch] at ha; cases ha
  | helped ha hpa =>
    cases hb with
    | plain hb => rw [ha.launch] at hb; cases hb
    | helped hb hpb =>
      rw [hpa] at hpb
      injection hpb with hpb
      rw [hpb]

/-- What `startInner` amounts to behind the helper. -/
structure Behind (e : MainEnv) (prof : Profile) (port : Nat) (p : Place) (r : End × Places) :
    Prop where
  sideDir : r.2.side.dir = p.dir
  sideWrote : r.2.side.wrote = p.wrote
  wrote : CONFIG ∈ r.2.main.wrote ↔ ToConfig e prof port ∧ e.write ≠ .refused
  gone : CONFIG ∈ r.2.main.wrote → (r.2.main.dir CONFIG = none ↔ DeletesConfig e)

theorem behind_early {x : End} {p : Places} (hp : p.main.wrote = [])
    (hn : ¬ToConfig e prof port) : Behind e prof port p.side (x, p) := by
  have hnot : CONFIG ∉ p.main.wrote := by
    rw [hp]
    exact List.not_mem_nil
  exact ⟨rfl, rfl, iff_of_false hnot fun h => hn h.1, fun h => absurd h hnot⟩

theorem behind_late {p : Places} {effective : String} {chosen : Nat} (hp : p.main.wrote = [])
    (hb : e.binary = true) (hch : e.chosen port = some chosen)
    (he : Effective e prof port effective) :
    Behind e prof port p.side (match prof.full effective chosen with
      | .error cls => (.returned ("bad profile: " ++ cls), p)
      | .ok json => startConfigured e json p) := by
  cases hfull : prof.full effective chosen with
  | error cls =>
    refine behind_early hp ?_
    rintro ⟨-, chosen', effective', json, hch', he', hfull'⟩
    rw [hch] at hch'
    injection hch' with hch'
    rw [← hch', ← he.unique he', hfull] at hfull'
    cases hfull'
  | ok json =>
    have hto : ToConfig e prof port := ⟨hb, chosen, effective, json, hch, he, hfull⟩
    have hc := @configured e json _ hp
    exact ⟨hc.sideDir, hc.sideWrote, hc.wrote.trans ⟨fun h => ⟨hto, h⟩, fun h => h.2⟩, hc.gone⟩

/-- What the calls of the helper's runner are for the whole. -/
structure MainResult (e : MainEnv) (prof : Profile) (port : Nat) (r : End × Places) : Prop where
  wrote : CONFIG ∈ r.2.main.wrote ↔ ToConfig e prof port ∧ e.write ≠ .refused
  gone : CONFIG ∈ r.2.main.wrote → (r.2.main.dir CONFIG = none ↔ DeletesConfig e)
  secrets : ∀ launch, prof.launch = some (.ok launch) →
    ((∀ f ∈ r.2.side.wrote, f ∈ launch.secretFiles → r.2.side.dir f = none) ↔
      (CallsSide e prof port launch → e.side.Deletes launch))

/-- Where no helper is started, no file of one is written. -/
theorem mainResult_alone {p : Place} {r : End × Places} (hr : Behind e prof port p r)
    (hp : p.wrote = []) (hn : ∀ launch, ¬CallsSide e prof port launch) :
    MainResult e prof port r := by
  refine ⟨hr.wrote, hr.gone, fun launch _ => ?_⟩
  refine iff_of_true (fun f hf => ?_) fun h => absurd h (hn launch)
  rw [hr.sideWrote, hp] at hf
  cases hf

theorem mainResult_helped {launch : SidecarLaunch} {q : End × Place} {r : End × Places}
    (hr : Behind e prof port q.2 r) (hq : SideResult e.side launch q)
    (hc : CallsSide e prof port launch) : MainResult e prof port r := by
  refine ⟨hr.wrote, hr.gone, fun launch' hl => ?_⟩
  rw [hc.launch] at hl
  injection hl with hl
  injection hl with hl
  subst hl
  rw [hr.sideWrote, hr.sideDir]
  exact (sideClean_iff hq).trans ⟨fun h _ => h, fun h => h hc⟩

theorem mainResult :
    MainResult e prof port (startInner e prof port ⟨{ dir := main }, { dir := side }⟩) := by
  unfold startInner
  by_cases hb : e.binary = true
  swap
  · rw [if_pos (by simpa using hb)]
    exact mainResult_alone (behind_early rfl fun h => hb h.1) rfl fun _ h => hb h.binary
  rw [if_neg (by simp [hb])]
  cases hch : e.chosen port with
  | none =>
    refine mainResult_alone (behind_early rfl ?_) rfl fun _ h => ?_
    · rintro ⟨-, chosen, -, -, h, -⟩
      rw [hch] at h
      cases h
    · have := h.port
      rw [hch] at this
      cases this
  | some chosen =>
    dsimp only
    cases hl : prof.launch with
    | none =>
      refine mainResult_alone (behind_late rfl hb hch (.plain hl)) rfl fun _ h => ?_
      have := h.launch
      rw [hl] at this
      cases this
    | some l =>
      -- without the helper there is no configuration
      have hto : (∀ launch, ¬(CallsSide e prof port launch ∧ e.side.Started launch ∧
          e.side.wait = .ready)) → ¬ToConfig e prof port := by
        rintro hn ⟨-, -, effective, -, -, he, -⟩
        cases he with
        | plain h => rw [hl] at h; cases h
        | helped h hp hs hw => exact hn _ ⟨h, hs, hw⟩
      cases l with
      | error message =>
        have hn : ∀ launch, ¬CallsSide e prof port launch := fun launch h => by
          have := h.launch
          rw [hl] at this
          cases this
        exact mainResult_alone (behind_early rfl (hto fun l h => hn l h.1)) rfl hn
      | ok launch =>
        cases hsp : e.sidePort with
        | none =>
          have hn : ∀ launch, ¬CallsSide e prof port launch := fun launch h => by
            have := h.sidePort
            rw [hsp] at this
            cases this
          exact mainResult_alone (behind_early rfl (hto fun l h => hn l h.1)) rfl hn
        | some sidePort =>
          have hcs : CallsSide e prof port launch :=
            ⟨hb, by rw [hch]; rfl, hl, by rw [hsp]; rfl⟩
          have hside : SideResult e.side launch (SidecarRunner.start e.side launch sidePort side) :=
            side_result
          dsimp only
          generalize SidecarRunner.start e.side launch sidePort side = q at hside ⊢
          obtain ⟨x, q⟩ := q
          by_cases hx : x = .returned none
          · subst hx
            obtain ⟨hst, hready⟩ := hside.succeeded.1 rfl
            exact mainResult_helped (q := (.returned none, q))
              (behind_late (p := ⟨{ dir := main }, q⟩) rfl hb hch (.helped hcs hsp hst hready))
              hside hcs
          · have hnot : ¬ToConfig e prof port := by
              refine hto fun l h => hx ?_
              have := h.1.launch
              rw [hl] at this
              injection this with this
              injection this with this
              subst this
              exact hside.succeeded.2 h.2
            cases x with
            | thrown =>
              exact mainResult_helped (q := (.thrown, q))
                (behind_early (p := ⟨{ dir := main }, q⟩) rfl hnot) hside hcs
            | returned reason =>
              cases reason with
              | none => exact absurd rfl hx
              | some reason =>
                exact mainResult_helped (q := (.returned (some reason), q))
                  (behind_early (p := ⟨{ dir := main }, q⟩) rfl hnot) hside hcs

/-- Ending the processes leaves the files as they are. -/
theorem start_places :
    let r := startInner e prof port ⟨{ dir := main }, { dir := side }⟩
    let s := SingBoxRunner.start e prof port main side
    s.2.main.dir = r.2.main.dir ∧ s.2.main.wrote = r.2.main.wrote ∧
      s.2.side.dir = r.2.side.dir ∧ s.2.side.wrote = r.2.side.wrote := by
  dsimp only
  unfold SingBoxRunner.start
  dsimp only
  split
  · exact ⟨rfl, rfl, rfl, rfl⟩
  · exact ⟨rfl, rfl, rfl, rfl⟩

/-- The secrets and the configuration that are written are gone when a call has ended exactly where
it comes to their deletion and this works: for the helper behind the wait for its port, for the
configuration where the check has come to an end by itself and the wait is not interrupted. -/
theorem secrets_gone_iff (e : MainEnv) (prof : Profile) (port : Nat) (launch : SidecarLaunch)
    (main side : Dir) :
    (SideClean launch (SidecarRunner.start e.side launch port side) ↔ e.side.Deletes launch) ∧
    (MainClean prof (SingBoxRunner.start e prof port main side) ↔
      (∀ launch, CallsSide e prof port launch → e.side.Deletes launch) ∧
      (ToConfig e prof port → e.write ≠ .refused → DeletesConfig e)) := by
  refine ⟨sideClean_iff side_result, ?_⟩
  have hm := @mainResult e prof port main side
  obtain ⟨hdir, hwrote, hsdir, hswrote⟩ := @start_places e prof port main side
  rw [MainClean, hdir, hwrote, hsdir, hswrote]
  constructor
  · rintro ⟨hc, hs⟩
    refine ⟨fun launch h => (hm.secrets launch h.launch).1 (hs launch h.launch) h, fun ht hw => ?_⟩
    have hin := hm.wrote.2 ⟨ht, hw⟩
    exact (hm.gone hin).1 (hc hin)
  · rintro ⟨hs, hc⟩
    refine ⟨fun hin => ?_, fun launch hl => (hm.secrets launch hl).2 (hs launch)⟩
    obtain ⟨ht, hw⟩ := hm.wrote.1 hin
    exact (hm.gone hin).2 (hc ht hw)

/-- The helper of an SSTP profile. -/
def sstpLaunch : SidecarLaunch :=
  { binary := "libghajarhelper.so", files := [("sstp.pass", "secret")], secretFiles := ["sstp.pass"] }

/-- A device where neither of the two can be executed. -/
def noExec : MainEnv where
  binary := true
  freePort := some 40000
  sidePort := some 40001
  side :=
    { binary := true
      write := fun _ => .complete
      spawn := some "IOException"
      wait := .ready
      last := ""
      alive := true
      delete := fun _ => true
      dir := "/data/sidecar"
      port2 := none }
  write := .complete
  check := .threw "IOException"
  run := none
  wait := .ready
  last := ""
  delete := true
  redact := id

/-- A profile that is run by sing-box alone. -/
def plainProfile : Profile where
  spec := "spec"
  launch := none
  effective := fun _ => "spec"
  full := fun _ _ => .ok "config"

/-- The helper that is not executed leaves its password and the check that is not the
configuration. -/
theorem secrets_left :
    ¬(∀ (e : MainEnv) (prof : Profile) (port : Nat) (launch : SidecarLaunch) (main side : Dir),
      SideClean launch (SidecarRunner.start e.side launch port side) ∧
        MainClean prof (SingBoxRunner.start e prof port main side)) ∧
    ¬SideClean sstpLaunch (SidecarRunner.start noExec.side sstpLaunch 40001 fun _ => none) ∧
    ¬MainClean plainProfile (SingBoxRunner.start noExec plainProfile 0 (fun _ => none)
      fun _ => none) := by
  have hside : ¬SideClean sstpLaunch
      (SidecarRunner.start noExec.side sstpLaunch 40001 fun _ => none) := by
    rw [sideClean_iff side_result]
    intro h
    have hs := (h "sstp.pass" (by decide) (by decide)).1.1.spawned
    cases hs
  refine ⟨fun h => hside (h noExec plainProfile 40001 sstpLaunch (fun _ => none) _).1, hside, ?_⟩
  intro h
  have := h.1 (by decide)
  cases this

end Main

end Ghajar.Secrets
