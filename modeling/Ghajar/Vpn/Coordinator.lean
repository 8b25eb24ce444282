import Ghajar.Lib.Run
import Ghajar.Lib.Threads

/-!
# The command coordinator and the bridge

`VpnCommandCoordinator`, `VpnBridge.handle`, `VpnLauncher.relaunch` and the
callbacks of `IkeController` and the OpenVPN bridge as threads over the shared
state they read and write. A thread is the list of statements it has left
(`Stmt`), in the order of the source; every read and every write of a shared
variable is a statement of its own, so any two threads interleave between them.

The main thread runs one task at a time: a command block, which never suspends
inside its mutex, or the body of a watchdog whose delay has passed. Handlers of
broadcasts run on a pool of threads, in any order. The texts of errors, the
counters and the active id are not kept.
-/

namespace Ghajar.Vpn

inductive Connection where
  | disconnected
  | connecting
  | connected
  | disconnecting
  | error
  deriving DecidableEq, Repr

/-- `Kind`, of a command and of its watchdog. -/
inductive Kind where
  | connect
  | disconnect
  deriving DecidableEq, Repr

/-- What a broadcast reports. -/
inductive Report where
  | connected
  | disconnected
  | error
  deriving DecidableEq, Repr

def Report.connection : Report → Connection
  | connected => .connected
  | disconnected => .disconnected
  | error => .error

def STALE_MS : Nat := 6000
def CONNECT_TIMEOUT_MS : Nat := 45000
def DISCONNECT_TIMEOUT_MS : Nat := 10000

inductive JobStatus where
  | waiting
  | cancelled
  | started
  deriving DecidableEq, Repr

/-- A watchdog: the generation it was armed for, when its delay ends. -/
structure Job where
  kind : Kind
  gen : Nat
  due : Nat
  status : JobStatus
  deriving DecidableEq, Repr

/-- The variables of the coordinator, the published state, `IkeController.active`,
the clock, every watchdog ever launched. `confirmedAt` is not in the source: the
generation at the last tunnel confirmation. -/
structure Shared where
  now : Nat
  state : Connection
  ikeActive : Bool
  generation : Nat
  lastCommand : Option Kind
  lastCommandAt : Nat
  connectWatchdog : Option Nat
  disconnectWatchdog : Option Nat
  jobs : List Job
  confirmedAt : Option Nat
  deriving DecidableEq, Repr

namespace Shared

def watchdog (s : Shared) : Kind → Option Nat
  | .connect => s.connectWatchdog
  | .disconnect => s.disconnectWatchdog

def setWatchdog (s : Shared) (k : Kind) (j : Option Nat) : Shared :=
  match k with
  | .connect => { s with connectWatchdog := j }
  | .disconnect => { s with disconnectWatchdog := j }

end Shared

inductive Guard where
  | ikeIdle
  | ikeActive
  | stateIn (cs : List Connection)
  /-- `generation == gen`. -/
  | current
  deriving DecidableEq, Repr

inductive Stmt where
  | bump
  | command (k : Kind)
  | stamp
  /-- Read a watchdog variable, to cancel what it refers to. -/
  | take (k : Kind)
  | cancel
  | forget (k : Kind)
  | clear
  | publish (c : Connection)
  | ike (active : Bool)
  | create (k : Kind) (timeout : Nat)
  | assign (k : Kind)
  /-- `val kind = lastCommand ?: return true`. -/
  | load
  /-- The rest of `acceptBroadcast`. -/
  | judge (r : Report)
  | stopUnless (g : Guard)
  | skipUnless (g : Guard)
  | await (ms : Nat)
  | delay (ms : Nat)
  deriving DecidableEq, Repr

inductive Role where
  | idle
  | command (k : Kind)
  | watchdog (k : Kind)
  | handler (r : Report)
  | entry
  deriving DecidableEq, Repr

/-- The local variables of a thread: `gen`, the job it created or is about to
cancel, the command it read, when its delay began. `accepted` and `published`
are not in the source. -/
structure Local where
  role : Role
  gen : Nat
  job : Option Nat
  cmd : Option Kind
  since : Nat
  accepted : Bool
  published : Bool
  deriving DecidableEq, Repr

def Local.init (role : Role) (gen since : Nat) : Local := ⟨role, gen, none, none, since, false, false⟩

abbrev Task := Thread Local Stmt

/-! ## The statements -/

def Guard.holds (s : Shared) (l : Local) : Guard → Bool
  | .ikeIdle => !s.ikeActive
  | .ikeActive => s.ikeActive
  | .stateIn cs => cs.contains s.state
  | .current => s.generation == l.gen

/-- A command and a report that contradict each other inside the window. -/
def contradicts : Kind → Report → Bool
  | .disconnect, r => r == .connected
  | .connect, r => r == .disconnected

/-- `acceptBroadcast` once the command has been read. -/
def accepts (s : Shared) (l : Local) (r : Report) : Bool :=
  decide (s.now - s.lastCommandAt > STALE_MS) || !l.cmd.any (contradicts · r)

def cancelJob (js : List Job) (j : Nat) : List Job :=
  js.modify j fun x => if x.status = .waiting then { x with status := .cancelled } else x

/-- What a statement does to the shared state. -/
def Stmt.effect (s : Shared) (l : Local) : Stmt → Shared
  | .bump => { s with generation := s.generation + 1 }
  | .command k => { s with lastCommand := some k }
  | .stamp => { s with lastCommandAt := s.now }
  | .cancel => { s with jobs := l.job.elim s.jobs (cancelJob s.jobs) }
  | .forget k => s.setWatchdog k none
  | .clear => { s with lastCommand := none }
  | .publish c =>
    { s with
      state := c
      confirmedAt := if c = .connected then some s.generation else s.confirmedAt }
  | .ike a => { s with ikeActive := a }
  | .create k timeout => { s with jobs := s.jobs ++ [⟨k, l.gen, s.now + timeout, .waiting⟩] }
  | .assign k => s.setWatchdog k l.job
  | _ => s

/-- What a statement does to the local state. -/
def Stmt.save (s : Shared) (l : Local) : Stmt → Local
  | .bump => { l with gen := s.generation + 1 }
  | .take k => { l with job := s.watchdog k }
  | .create _ _ => { l with job := some s.jobs.length }
  | .publish _ => { l with published := true }
  | .load => { l with cmd := s.lastCommand, accepted := s.lastCommand.isNone }
  | .judge r => { l with accepted := accepts s l r }
  | .await _ => { l with since := s.now }
  | .delay _ => { l with since := s.now }
  | _ => l

/-- The statements left after a statement. -/
def Stmt.next (s : Shared) (l : Local) (rest : List Stmt) : Stmt → List Stmt
  | .load => if s.lastCommand.isNone then rest.tail else rest
  | .judge r => if accepts s l r then rest else []
  | .stopUnless g => if g.holds s l then rest else []
  | .skipUnless g => if g.holds s l then rest else rest.tail
  | _ => rest

/-- A wait of `relaunch` that is not over yet blocks. -/
def Stmt.ready (s : Shared) (l : Local) : Stmt → Bool
  | .await ms => s.state == .disconnected || s.state == .error || decide (l.since + ms ≤ s.now)
  | .delay ms => decide (l.since + ms ≤ s.now)
  | _ => true

def exec (i : Stmt) (rest : List Stmt) (s : Shared) (l : Local) :
    Option (Shared × Local × List Stmt) :=
  if i.ready s l then some (i.effect s l, i.save s l, i.next s l rest) else none

theorem exec_some {i : Stmt} {rest code : List Stmt} {s s' : Shared} {l l' : Local}
    (h : exec i rest s l = some (s', l', code)) :
    s' = i.effect s l ∧ l' = i.save s l ∧ code = i.next s l rest := by
  unfold exec at h
  split at h
  · cases h
    exact ⟨rfl, rfl, rfl⟩
  · cases h

@[simp] theorem setWatchdog_state (s : Shared) (k : Kind) (j : Option Nat) :
    (s.setWatchdog k j).state = s.state := by cases k <;> rfl

@[simp] theorem setWatchdog_ikeActive (s : Shared) (k : Kind) (j : Option Nat) :
    (s.setWatchdog k j).ikeActive = s.ikeActive := by cases k <;> rfl

/-! ## The programs -/

/-- `connectWatchdog?.cancel(); connectWatchdog = null`. -/
def disarm (k : Kind) : List Stmt := [.take k, .cancel, .forget k]

def onTunnelConfirmed : List Stmt := disarm .connect ++ [.clear]

def onTunnelTeardown : List Stmt :=
  disarm .connect ++ disarm .disconnect ++
    [.clear, .stopUnless (.stateIn [.disconnecting]), .publish .disconnected]

def onTunnelFailed : List Stmt := disarm .connect ++ disarm .disconnect ++ [.clear]

/-- `armConnectWatchdog` and `armDisconnectWatchdog`. -/
def arm (k : Kind) (timeout : Nat) : List Stmt :=
  [.take k, .cancel, .create k timeout, .assign k]

/-- The body of a watchdog, after its delay. -/
def watchdogBody : Kind → List Stmt
  | .connect =>
    [.stopUnless .current, .skipUnless (.stateIn [.connecting]), .publish .error, .clear]
  | .disconnect => [.stopUnless .current, .publish .disconnected, .clear]

/-- What the launch of a connect command does at once: nothing while it waits for
a permission or a certificate pin, `setConnecting` again, or the IKE claim and connect. -/
inductive Launch where
  | pending
  | service
  | ike (starts : Bool)
  deriving DecidableEq, Repr

def Launch.script : Launch → List Stmt
  | pending => []
  | service => [.publish .connecting]
  | ike true => [.ike true, .publish .connecting, .ike true, .publish .connecting]
  | ike false => [.ike true, .publish .connecting, .ike true, .ike false, .publish .disconnected]

/-- What the stop of a disconnect command does at once: the stop intent, or
`IkeController.disconnect`, with or without `setDisconnected` behind it. -/
inductive Stop where
  | service
  | ike (publishes : Bool)
  deriving DecidableEq, Repr

def Stop.script : Stop → List Stmt
  | service => []
  | ike true => [.ike false, .publish .disconnected]
  | ike false => [.ike false]

def onConnectRequested (timeout : Nat) (l : Launch) : List Stmt :=
  [.bump, .command .connect, .stamp] ++ disarm .disconnect ++ [.publish .connecting] ++
    l.script ++ arm .connect timeout

def onDisconnectRequested (st : Stop) : List Stmt :=
  [.bump, .command .disconnect, .stamp] ++ disarm .connect ++
    [.skipUnless (.stateIn [.connected, .connecting]), .publish .disconnecting] ++
    st.script ++ arm .disconnect DISCONNECT_TIMEOUT_MS

/-- The part of `handle` behind `acceptBroadcast`. -/
def dispatch : Report → List Stmt
  | .connected => [.stopUnless .ikeIdle, .publish .connected] ++ onTunnelConfirmed
  | .error => [.stopUnless .ikeIdle, .publish .error] ++ onTunnelFailed
  | .disconnected => [.skipUnless .ikeIdle, .publish .disconnected] ++ onTunnelTeardown

def handle (r : Report) : List Stmt := [.load, .judge r] ++ dispatch r

/-- Code that publishes a state from outside the commands. -/
inductive Entry where
  | relaunch (refused : Bool)
  /-- The rest of a launch, once the permission or the pin is there. -/
  | lateLaunch
  | lateIke
  /-- The permission was denied. -/
  | denied
  /-- The launch threw. -/
  | launchFailed
  | ikeConnected
  | ikeEnded (error : Bool)
  /-- A round of the loop in `claim`. -/
  | ikeReclaim
  | ikeTimeout
  | ovpnConnected (fresh : Bool)
  | ovpnFailed (owns : Bool)
  deriving DecidableEq, Repr

def Entry.script : Entry → List Stmt
  | relaunch false => [.await 6000, .delay 400, .publish .connecting]
  | relaunch true => [.await 6000, .delay 400, .publish .connecting, .publish .disconnected]
  | lateLaunch => [.publish .connecting]
  | lateIke => [.ike true, .publish .connecting]
  | denied => [.publish .disconnected]
  | launchFailed => .publish .error :: onTunnelFailed
  | ikeConnected => [.publish .connected]
  | ikeEnded true => [.stopUnless .ikeActive, .ike false, .publish .error]
  | ikeEnded false => [.stopUnless .ikeActive, .ike false, .publish .disconnected]
  | ikeReclaim =>
    [.stopUnless .ikeActive, .stopUnless (.stateIn [.disconnected]), .publish .connecting]
  | ikeTimeout => [.stopUnless .ikeActive, .ike false, .publish .error]
  | ovpnConnected true => .publish .connecting :: .publish .connected :: onTunnelConfirmed
  | ovpnConnected false => .publish .connected :: onTunnelConfirmed
  | ovpnFailed true => .publish .error :: onTunnelFailed
  | ovpnFailed false => onTunnelFailed

/-! ## The system -/

structure Sys where
  sh : Shared
  main : Task
  /-- In the order their broadcasts were delivered. -/
  handlers : List Task
  outside : List Task
  deriving DecidableEq, Repr

inductive Act where
  | tick (ms : Nat)
  | connect (timeout : Nat) (l : Launch)
  | disconnect (st : Stop)
  /-- The delay of a watchdog has passed and it resumes on the main thread. -/
  | fire (j : Nat)
  | main
  | deliver (r : Report)
  | handler (n : Nat)
  | enter (e : Entry)
  | outside (n : Nat)
  deriving DecidableEq, Repr

namespace Sys

def mainIdle (s : Sys) : Bool := s.main.code.isEmpty

/-- A command is inside its block. -/
def inBlock (s : Sys) : Bool :=
  !s.mainIdle && match s.main.loc.role with | .command _ => true | _ => false

/-- Hand the main thread to a task. -/
def start (s : Sys) (role : Role) (gen : Nat) (code : List Stmt) : Option Sys :=
  if s.mainIdle then some { s with main := ⟨.init role gen s.sh.now, code⟩ } else none

def fire (s : Sys) (j : Nat) : Option Sys :=
  match s.sh.jobs[j]? with
  | none => none
  | some x =>
    if x.status = .waiting ∧ x.due ≤ s.sh.now then
      { s with sh := { s.sh with jobs := s.sh.jobs.set j { x with status := .started } } }.start
        (.watchdog x.kind) x.gen (watchdogBody x.kind)
    else none

end Sys

def step (s : Sys) : Act → Option Sys
  | .tick ms => some { s with sh := { s.sh with now := s.sh.now + ms } }
  | .connect timeout l => s.start (.command .connect) 0 (onConnectRequested timeout l)
  | .disconnect st => s.start (.command .disconnect) 0 (onDisconnectRequested st)
  | .fire j => s.fire j
  | .main => (Thread.step exec s.sh s.main).map fun r => { s with sh := r.1, main := r.2 }
  | .deliver r =>
    if s.mainIdle then
      some { s with handlers := s.handlers ++ [⟨.init (.handler r) 0 s.sh.now, handle r⟩] }
    else none
  | .handler n =>
    (Thread.move exec s.sh s.handlers n).map fun r => { s with sh := r.1, handlers := r.2 }
  | .enter e => some { s with outside := s.outside ++ [⟨.init .entry 0 s.sh.now, e.script⟩] }
  | .outside n =>
    (Thread.move exec s.sh s.outside n).map fun r => { s with sh := r.1, outside := r.2 }

/-- The app just started. -/
def Sys.fresh : Sys where
  sh := ⟨0, .disconnected, false, 0, none, 0, none, none, [], none⟩
  main := ⟨.init .idle 0 0, []⟩
  handlers := []
  outside := []

end Ghajar.Vpn
