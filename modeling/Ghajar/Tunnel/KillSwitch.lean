import Mathlib.Data.List.Infix
import Ghajar.Lib.Run
import Ghajar.Lib.Threads

/-!
# The kill switch

`GozarVpnService` again, as far as its two descriptors go: the tun of a session
(`tunFd`) and the blocking one (`blockFd`) that `enterKillSwitch` establishes. As in
the model of the engines, every operation and every coroutine is a thread, and every
read of a flag a statement of its own. `establish` of a blocking tun succeeds; a tun
that is replaced is deactivated by Android, so a descriptor is a `Bool`.

`stopped`, `restarted` and `owed` are not in the source: whether an `ACTION_STOP` was
delivered, whether a start was since, and whether a session that ended with an error has
been torn down, with neither a stop nor a new tun since.
-/

namespace Ghajar.KillSwitch

/-- The setting, and `oblivionOptions?.proxyOnly`. -/
structure Options where
  killSwitch : Bool
  proxyOnly : Bool
  deriving DecidableEq, Repr

/-- What goes wrong in a start: an exception before the tun, no tun granted, an engine. -/
inductive Fault where
  | none
  | thrown
  | tun
  | engine
  deriving DecidableEq, Repr

/-- `error` is `error != null` of `die`. -/
inductive Stmt where
  /-- The guard of the start command. -/
  | enterStart
  /-- `if (tearingDown) return` of `switchTunnel`. -/
  | enterSwitch
  /-- `if (tearingDown) return` of `die`. -/
  | unlessTearing (error : Bool)
  | tearingDown (b : Bool)
  | enginesReady (b : Bool)
  | unlessTun
  /-- `scope.launch` of `startTunnel`, and the assignment to `startJob`. -/
  | launchStart
  | assign
  | cancelStart
  | launchTeardown (error : Bool)
  | launchDestroy
  | lock
  | unlock
  | finish
  | ensureActive
  | openTun
  /-- `if (pfd != null) { blockFd?.close(); blockFd = null }`. -/
  | replaceBlock
  | engines
  | closeTun
  | closeBlock
  /-- The branch at the end of a teardown. -/
  | killSwitch (error : Bool)
  | openBlock
  | stopSelf
  | cancelScope
  deriving DecidableEq, Repr

inductive Role where
  | main
  | switch
  | other
  | start
  | teardown (error : Bool)
  | destroy
  deriving DecidableEq, Repr

structure Local where
  role : Role
  tid : Nat
  fault : Fault
  child : Option Nat
  pfd : Bool
  deriving DecidableEq, Repr

abbrev Task := Thread Local Stmt

structure Shared where
  enginesReady : Bool
  tearingDown : Bool
  tunFd : Bool
  blockFd : Bool
  engineLock : Option Nat
  startJob : Option Nat
  cancelled : List Nat
  finished : List Nat
  scopeCancelled : Bool
  selfStopped : Bool
  destroyed : Bool
  count : Nat
  launched : List Task
  stopped : Bool
  restarted : Bool
  owed : Bool
  deriving DecidableEq, Repr

namespace Shared

def isCancelled (s : Shared) (tid : Nat) : Bool := s.scopeCancelled || s.cancelled.contains tid

/-- `startJob?.isActive == true || enginesReady || tunFd != null`. -/
def started (s : Shared) : Bool :=
  s.startJob.any (fun j => !s.isCancelled j && !s.finished.contains j) || s.enginesReady || s.tunFd

end Shared

/-! ## The programs -/

def startTunnel : List Stmt := [.unlessTun, .tearingDown false, .launchStart, .assign]

def die (error : Bool) : List Stmt :=
  [.unlessTearing error, .tearingDown true, .enginesReady false, .cancelStart,
    .launchTeardown error]

/-- The last branch of `onStartCommand`; `json` says the intent carries a config. -/
def onStartCommand (json : Bool) : List Stmt :=
  .enterStart :: if json then startTunnel else die true

/-- `ACTION_STOP`. -/
def stopCommand : List Stmt := .closeBlock :: die false

def switchTunnel : List Stmt := [.enterSwitch, .closeTun] ++ startTunnel

def onDestroy : List Stmt :=
  [.tearingDown true, .enginesReady false, .cancelStart, .launchDestroy]

/-- The coroutine of `startTunnel`. -/
def startBody : List Stmt :=
  [.lock, .ensureActive, .openTun, .replaceBlock, .engines, .ensureActive, .enginesReady true,
    .unlock, .finish]

/-- The coroutine of `die`. -/
def teardownBody (error : Bool) : List Stmt := [.lock, .closeTun, .killSwitch error, .unlock]

/-- `enterKillSwitch`, and what follows it. -/
def enterKillSwitch : List Stmt := [.closeTun, .openBlock, .tearingDown false]

/-- The other end of a teardown. -/
def endSession : List Stmt := [.stopSelf]

/-- The coroutine of `onDestroy`. -/
def destroyBody : List Stmt := [.lock, .closeTun, .closeBlock, .unlock, .cancelScope]

/-! ## The statements -/

/-- Leave `withLock`, or the function where there is no lock to leave. -/
def leave (rest : List Stmt) : List Stmt := rest.dropWhile (· ≠ .unlock)

/-- What `establish` of a start returns, `false` for no tun. -/
def establish (o : Options) (l : Local) : Bool := l.fault ≠ .tun && !o.proxyOnly

/-- The start gives up before it has a tun. -/
def noTun (o : Options) (l : Local) : Bool :=
  l.fault = .thrown || (!establish o l && !o.proxyOnly)

def launch (s : Shared) (l : Local) (role : Role) (code : List Stmt) : Shared :=
  { s with
    count := s.count + 1
    launched := [⟨{ l with role := role, tid := s.count }, code⟩] }

/-- What a statement does to the service. -/
def Stmt.effect (o : Options) (s : Shared) (l : Local) : Stmt → Shared
  | .tearingDown b => { s with tearingDown := b }
  | .enginesReady b => { s with enginesReady := b }
  | .launchStart => launch s l .start startBody
  | .assign => { s with startJob := l.child }
  | .cancelStart => { s with cancelled := s.startJob.toList ++ s.cancelled }
  | .launchTeardown error => launch s l (.teardown error) (teardownBody error)
  | .launchDestroy => launch s l .destroy destroyBody
  | .lock => { s with engineLock := some l.tid }
  | .unlock => { s with engineLock := none, owed := s.owed || l.role = .teardown true }
  | .finish => { s with finished := l.tid :: s.finished }
  | .openTun =>
    if noTun o l then s
    else { s with tunFd := establish o l, owed := s.owed && !establish o l }
  | .replaceBlock => if l.pfd then { s with blockFd := false } else s
  | .closeTun => { s with tunFd := false }
  | .closeBlock => { s with blockFd := false }
  | .openBlock => { s with blockFd := true }
  | .stopSelf => { s with selfStopped := true }
  | .cancelScope => { s with scopeCancelled := true }
  | _ => s

/-- What a statement does to the local state. -/
def Stmt.save (o : Options) (s : Shared) (l : Local) : Stmt → Local
  | .launchStart => { l with child := some s.count }
  | .openTun => { l with pfd := establish o l }
  | _ => l

/-- The statements left after a statement. -/
def Stmt.next (o : Options) (s : Shared) (l : Local) (rest : List Stmt) : Stmt → List Stmt
  | .enterStart => if s.started then [] else rest
  | .enterSwitch => if s.tearingDown then [] else rest
  | .unlessTearing _ => if s.tearingDown then leave rest else rest
  | .unlessTun => if s.tunFd then [] else rest
  | .ensureActive => if s.isCancelled l.tid then leave rest else rest
  | .openTun => if noTun o l then die true ++ leave rest else rest
  | .engines => if l.fault = .engine then die true ++ leave rest else rest
  | .killSwitch error =>
    (if error && o.killSwitch && !o.proxyOnly then enterKillSwitch else endSession) ++ rest
  | _ => rest

/-- One statement; `engineLock.withLock` waits. -/
def exec (o : Options) (i : Stmt) (rest : List Stmt) (s : Shared) (l : Local) :
    Option (Shared × Local × List Stmt) :=
  if i = .lock ∧ s.engineLock ≠ none then none
  else some (i.effect o s l, i.save o s l, i.next o s l rest)

/-- What a cancelled coroutine has left when it is interrupted: it waits for the lock, or in
an engine that is being started. -/
def interrupted : List Stmt → Option (List Stmt)
  | .lock :: _ => some [.finish]
  | .engines :: rest => some (leave rest)
  | _ => none

/-! ## The service -/

structure Sys where
  sh : Shared
  threads : List Task
  deriving DecidableEq, Repr

inductive Act where
  | startCommand (json : Bool) (fault : Fault)
  | stopCommand
  /-- `onDestroy`, after `stopSelf`. -/
  | destroy
  | switch (fault : Fault)
  /-- `die` with a reason, on a thread that is not the main thread. -/
  | fail
  | run (n : Nat)
  | interrupt (n : Nat)
  deriving DecidableEq, Repr

namespace Sys

/-- The main thread runs nothing. -/
def mainIdle (s : Sys) : Bool := s.threads.all fun t => t.loc.role ≠ .main || t.code.isEmpty

/-- A new thread. -/
def begin (s : Sys) (role : Role) (fault : Fault) (code : List Stmt) : Sys :=
  { sh := { s.sh with count := s.sh.count + 1 }
    threads := s.threads ++ [⟨⟨role, s.sh.count, fault, none, false⟩, code⟩] }

/-- A command on the main thread; none comes after `onDestroy`. -/
def command (s : Sys) (fault : Fault) (code : List Stmt) (note : Shared → Shared) : Option Sys :=
  if s.mainIdle && !s.sh.destroyed then some ({ s with sh := note s.sh }.begin .main fault code)
  else none

/-- One statement of a thread; the coroutine it launched joins the others. -/
def runThread (o : Options) (s : Sys) (n : Nat) : Option Sys :=
  (Thread.move (exec o) s.sh s.threads n).map fun r =>
    ⟨{ r.1 with launched := [] }, r.2 ++ r.1.launched⟩

/-- Only `startJob` is ever cancelled alone. -/
def interrupt (s : Sys) (n : Nat) : Option Sys :=
  s.threads[n]?.bind fun t =>
    if s.sh.scopeCancelled || (t.loc.role = .start && s.sh.isCancelled t.loc.tid) then
      (interrupted t.code).map fun code => ⟨s.sh, s.threads.set n ⟨t.loc, code⟩⟩
    else none

end Sys

def step (o : Options) (s : Sys) : Act → Option Sys
  | .startCommand json fault =>
    s.command fault (onStartCommand json) fun sh => { sh with restarted := true }
  | .stopCommand =>
    s.command .none stopCommand fun sh =>
      { sh with stopped := true, restarted := false, owed := false }
  | .destroy =>
    if s.sh.selfStopped then
      s.command .none onDestroy fun sh => { sh with destroyed := true }
    else none
  | .switch fault => some (s.begin .switch fault switchTunnel)
  | .fail => some (s.begin .other .none (die true))
  | .run n => s.runThread o n
  | .interrupt n => s.interrupt n

/-- The service after `onCreate`. -/
def Sys.fresh : Sys :=
  { sh := ⟨false, false, false, false, none, none, [], [], false, false, false, 0, [], false,
      false, false⟩
    threads := [] }

end Ghajar.KillSwitch
