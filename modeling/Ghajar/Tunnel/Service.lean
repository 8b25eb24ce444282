import Mathlib.Logic.Function.Basic
import Ghajar.Lib.Run
import Ghajar.Lib.Threads

/-!
# The tunnel service

`GozarVpnService`: the start command, `switchTunnel`, `die`, `onDestroy` and the
coroutines they launch, as threads over the fields of the service. Commands run
on the main thread one at a time, `switchTunnel` and the other callers of `die`
on threads of their own; only the launched coroutines take `engineLock`. Every
read of a flag and every call of an engine is a statement of its own.

Notifications, polling, the underlying network and the restart of sing-box after
a change of network are not kept; nothing of them touches the two flags.
-/

namespace Ghajar.Tunnel

inductive Engine where
  | aether
  | psiphon
  | singbox
  | tor
  | zeptun
  | xray
  deriving DecidableEq, Repr

/-- A configuration: which specs it has, `routingMode` of its options, and
whether zeptun is switched on and bundled when it is started. -/
structure Config where
  id : Nat
  aether : Bool
  psiphon : Bool
  singbox : Bool
  tor : Bool
  proxyOnly : Bool
  zeptun : Bool
  deriving DecidableEq, Repr

namespace Config

/-- `AetherSpec.from`, `PsiphonSpec.from`, `SingBoxConfig.spec`, `TorController.spec`. -/
def spec (c : Config) (e : Engine) : Option Config :=
  match e with
  | .aether => if c.aether then some c else none
  | .psiphon => if c.psiphon then some c else none
  | .singbox => if c.singbox then some c else none
  | .tor => if c.tor then some c else none
  | .zeptun | .xray => none

end Config

/-- `options?.proxyOnly`: the options are those of `psiphonSpec`, else of `aetherSpec`. -/
def optionsProxyOnly (specs : Engine → Option Config) : Bool :=
  match specs .psiphon with
  | some c => c.proxyOnly
  | none => (specs .aether).any (·.proxyOnly)

/-- The engines that carry a configuration. -/
def Config.needs (c : Config) : Engine → Bool
  | .aether => c.aether
  | .psiphon => c.psiphon
  | .singbox => c.singbox
  | .tor => c.tor
  | .zeptun => optionsProxyOnly c.spec && c.zeptun
  | .xray => !optionsProxyOnly c.spec

/-- What goes wrong in a start: an exception before the tun, no tun granted, an
engine not bundled, an engine that fails. -/
inductive Fault where
  | none
  | thrown
  | tun
  | missing (e : Engine)
  | failed (e : Engine)
  deriving DecidableEq, Repr

inductive Stmt where
  /-- The guard of the start command. -/
  | enterStart
  /-- `if (tearingDown) return` of `switchTunnel`. -/
  | enterSwitch
  /-- `if (tearingDown) return` of `die`. -/
  | unlessTearing
  | tearingDown (b : Bool)
  | enginesReady (b : Bool)
  /-- `aetherSpec = …` and its like. -/
  | record (e : Engine)
  /-- `configName = …`. -/
  | configName
  | unlessTun
  /-- `scope.launch` of `startTunnel`, and the assignment to `startJob`. -/
  | launchStart
  | assign
  | cancelStart
  | launchTeardown
  | launchDestroy
  | lock
  | unlock
  | finish
  | ensureActive
  | openTun
  | closeTun
  | start (e : Engine)
  | stop (e : Engine)
  /-- `if (zeptunOwnsTun) { ZeptunEngine.stop(); zeptunOwnsTun = false }`. -/
  | stopZeptun
  | unlessKillSwitch
  | cancelScope
  deriving DecidableEq, Repr

inductive Role where
  | main
  | switch
  | other
  | start
  | teardown
  | destroy
  deriving DecidableEq, Repr

/-- The local variables of a thread, and what its operation was called with.
`kill` is `error != null` together with the setting of the kill switch. -/
structure Local where
  role : Role
  tid : Nat
  cfg : Config
  fault : Fault
  kill : Bool
  child : Option Nat
  pfd : Bool
  singbox : Option Config
  deriving DecidableEq, Repr

abbrev Task := Thread Local Stmt

/-- The fields of the service and the engines that run. `current` is the
configuration last recorded, `up e` the one engine `e` was started for since it
was last stopped; `count` numbers the threads. -/
structure Shared where
  enginesReady : Bool
  tearingDown : Bool
  tunFd : Bool
  zeptunOwnsTun : Bool
  oblivionProxyOnly : Bool
  specs : Engine → Option Config
  current : Option Config
  up : Engine → Option Config
  engineLock : Option Nat
  startJob : Option Nat
  cancelled : List Nat
  finished : List Nat
  scopeCancelled : Bool
  destroyed : Bool
  count : Nat
  launched : List Task

namespace Shared

def isCancelled (s : Shared) (tid : Nat) : Bool := s.scopeCancelled || s.cancelled.contains tid

/-- `startJob?.isActive == true || enginesReady || tunFd != null`. -/
def started (s : Shared) : Bool :=
  s.startJob.any (fun j => !s.isCancelled j && !s.finished.contains j) || s.enginesReady || s.tunFd

/-- What `ACTION_WARM` answers from. -/
def warm (s : Shared) : Bool := s.enginesReady && !s.tearingDown

def stopEngine (s : Shared) (e : Engine) : Shared := { s with up := Function.update s.up e none }

end Shared

/-! ## The programs -/

def startTunnel : List Stmt := [.unlessTun, .tearingDown false, .launchStart, .assign]

def die : List Stmt :=
  [.unlessTearing, .tearingDown true, .enginesReady false, .cancelStart, .launchTeardown]

/-- The last branch of `onStartCommand`; `json` says the intent carries a config. -/
def onStartCommand (json : Bool) : List Stmt :=
  [.enterStart, .record .aether, .record .psiphon, .record .tor, .record .singbox, .configName] ++
    if json then startTunnel else die

def switchTunnel : List Stmt :=
  [.enterSwitch, .stopZeptun, .stop .xray, .stop .aether, .stop .psiphon, .stop .tor,
    .stop .singbox, .closeTun, .record .aether, .record .singbox, .record .psiphon,
    .record .tor, .configName] ++ startTunnel

def onDestroy : List Stmt :=
  [.tearingDown true, .enginesReady false, .cancelStart, .stopZeptun, .launchDestroy]

/-- The coroutine of `startTunnel`. -/
def startBody : List Stmt :=
  [.lock, .ensureActive, .openTun, .start .aether, .start .psiphon, .start .singbox,
    .stop .xray, .ensureActive, .start .zeptun, .start .xray, .start .tor, .ensureActive,
    .enginesReady true, .unlock, .finish]

/-- The coroutine of `die`, with `enterKillSwitch` at its end. -/
def teardownBody : List Stmt :=
  [.lock, .stopZeptun, .stop .xray, .stop .psiphon, .stop .aether, .stop .tor, .stop .singbox,
    .closeTun, .unlessKillSwitch, .stopZeptun, .stop .xray, .closeTun, .tearingDown false, .unlock]

/-- The coroutine of `onDestroy`. -/
def destroyBody : List Stmt :=
  [.lock, .stop .xray, .stop .aether, .stop .psiphon, .stop .tor, .stop .singbox, .closeTun,
    .unlock, .cancelScope]

/-- What a start stops of an engine that failed, before it calls `die`. -/
def Engine.cleanup : Engine → List Stmt
  | .aether => [.stop .aether, .stop .tor]
  | .psiphon => [.stop .psiphon]
  | .singbox => [.stop .singbox]
  | .tor => [.stop .tor]
  | .zeptun | .xray => []

/-! ## The statements -/

/-- Leave `withLock`, or the function where there is no lock to leave. -/
def leave (rest : List Stmt) : List Stmt := rest.dropWhile (· ≠ .unlock)

/-- What the start gives an engine, if it starts it. -/
def attempt (s : Shared) (l : Local) : Engine → Option Config
  | .singbox => l.singbox
  | .zeptun => if s.zeptunOwnsTun && l.pfd then some l.cfg else none
  | .xray => if l.pfd && !s.zeptunOwnsTun then some l.cfg else none
  | e => s.specs e

def wantZeptun (s : Shared) (l : Local) : Bool := optionsProxyOnly s.specs && l.cfg.zeptun

/-- What `establish` returns, `false` for no tun. -/
def establish (s : Shared) (l : Local) : Bool :=
  l.fault ≠ .tun && (!optionsProxyOnly s.specs || wantZeptun s l)

/-- The start gives up before it has a tun. -/
def noTun (s : Shared) (l : Local) : Bool :=
  l.fault = .thrown || (!establish s l && !optionsProxyOnly s.specs)

def launch (s : Shared) (l : Local) (role : Role) (code : List Stmt) : Shared :=
  { s with
    count := s.count + 1
    launched := [⟨{ l with role := role, tid := s.count }, code⟩] }

/-- What a statement does to the service. -/
def Stmt.effect (s : Shared) (l : Local) : Stmt → Shared
  | .tearingDown b => { s with tearingDown := b }
  | .enginesReady b => { s with enginesReady := b }
  | .record e => { s with specs := Function.update s.specs e (l.cfg.spec e) }
  | .configName => { s with current := some l.cfg }
  | .launchStart => launch s l .start startBody
  | .assign => { s with startJob := l.child }
  | .cancelStart => { s with cancelled := s.startJob.toList ++ s.cancelled }
  | .launchTeardown => launch s l .teardown teardownBody
  | .launchDestroy => launch s l .destroy destroyBody
  | .lock => { s with engineLock := some l.tid }
  | .unlock => { s with engineLock := none }
  | .finish => { s with finished := l.tid :: s.finished }
  | .openTun =>
    if noTun s l then { s with oblivionProxyOnly := optionsProxyOnly s.specs }
    else
      { s with
        oblivionProxyOnly := optionsProxyOnly s.specs
        zeptunOwnsTun := wantZeptun s l && establish s l
        tunFd := establish s l }
  | .closeTun => { s with tunFd := false }
  | .start e =>
    match attempt s l e with
    | none => s
    | some c =>
      if l.fault = .missing e then s
      else if l.fault = .failed e then s.stopEngine e
      else { s with up := Function.update s.up e (some c) }
  | .stop e => s.stopEngine e
  | .stopZeptun =>
    if s.zeptunOwnsTun then { s.stopEngine .zeptun with zeptunOwnsTun := false } else s
  | .cancelScope => { s with scopeCancelled := true }
  | _ => s

/-- What a statement does to the local state. -/
def Stmt.save (s : Shared) (l : Local) : Stmt → Local
  | .launchStart => { l with child := some s.count }
  | .openTun => { l with pfd := establish s l, singbox := s.specs .singbox }
  | _ => l

/-- The statements left after a statement. -/
def Stmt.next (s : Shared) (l : Local) (rest : List Stmt) : Stmt → List Stmt
  | .enterStart => if s.started then [] else rest
  | .enterSwitch => if s.tearingDown then [] else rest
  | .unlessTearing => if s.tearingDown then leave rest else rest
  | .unlessTun => if s.tunFd then [] else rest
  | .ensureActive => if s.isCancelled l.tid then leave rest else rest
  | .openTun => if noTun s l then die ++ leave rest else rest
  | .start e =>
    if (attempt s l e).isNone then rest
    else if l.fault = .missing e then die ++ leave rest
    else if l.fault = .failed e then e.cleanup ++ (die ++ leave rest)
    else rest
  | .unlessKillSwitch => if l.kill && !s.oblivionProxyOnly then rest else leave rest
  | _ => rest

/-- One statement; `engineLock.withLock` waits. -/
def exec (i : Stmt) (rest : List Stmt) (s : Shared) (l : Local) :
    Option (Shared × Local × List Stmt) :=
  if i = .lock ∧ s.engineLock ≠ none then none
  else some (i.effect s l, i.save s l, i.next s l rest)

theorem exec_some {i : Stmt} {rest code : List Stmt} {s s' : Shared} {l l' : Local}
    (h : exec i rest s l = some (s', l', code)) :
    (i = .lock → s.engineLock = none) ∧ s' = i.effect s l ∧ l' = i.save s l ∧
      code = i.next s l rest := by
  unfold exec at h
  split at h
  · cases h
  · rename_i hn
    cases h
    refine ⟨fun hi => ?_, rfl, rfl, rfl⟩
    by_contra hl
    exact hn ⟨hi, hl⟩

/-- What a cancelled coroutine has left when it is interrupted: it waits for the
lock, or in an engine call that can be interrupted. -/
def interrupted : List Stmt → Option (List Stmt)
  | .lock :: _ => some [.finish]
  | .start e :: rest => if e = .zeptun then none else some (leave rest)
  | _ => none

/-! ## The service -/

structure Sys where
  sh : Shared
  threads : List Task

inductive Act where
  | startCommand (c : Config) (json : Bool) (fault : Fault) (kill : Bool)
  | stopCommand
  | destroy
  | switch (c : Config) (fault : Fault) (kill : Bool)
  /-- `die` on a thread that is not the main thread. -/
  | fail (kill : Bool)
  | run (n : Nat)
  | interrupt (n : Nat)
  deriving DecidableEq, Repr

namespace Sys

/-- The main thread runs nothing. -/
def mainIdle (s : Sys) : Bool :=
  s.threads.all fun t => t.loc.role ≠ .main || t.code.isEmpty

def emptyConfig : Config := ⟨0, false, false, false, false, false, false⟩

/-- A new thread. -/
def begin (s : Sys) (role : Role) (c : Config) (fault : Fault) (kill : Bool)
    (code : List Stmt) : Sys :=
  { sh := { s.sh with count := s.sh.count + 1 }
    threads := s.threads ++ [⟨⟨role, s.sh.count, c, fault, kill, none, false, none⟩, code⟩] }

/-- A command on the main thread; none comes after `onDestroy`. -/
def command (s : Sys) (c : Config) (fault : Fault) (kill : Bool) (code : List Stmt) :
    Option Sys :=
  if s.mainIdle && !s.sh.destroyed then some (s.begin .main c fault kill code) else none

/-- One statement of a thread; the coroutine it launched joins the others. -/
def runThread (s : Sys) (n : Nat) : Option Sys :=
  (Thread.move exec s.sh s.threads n).map fun r =>
    ⟨{ r.1 with launched := [] }, r.2 ++ r.1.launched⟩

def interrupt (s : Sys) (n : Nat) : Option Sys :=
  match s.threads[n]? with
  | none => none
  | some t =>
    if s.sh.isCancelled t.loc.tid then
      (interrupted t.code).map fun code => ⟨s.sh, s.threads.set n ⟨t.loc, code⟩⟩
    else none

end Sys

def step (s : Sys) : Act → Option Sys
  | .startCommand c json fault kill => s.command c fault kill (onStartCommand json)
  | .stopCommand => s.command Sys.emptyConfig .none false die
  | .destroy =>
    (s.command Sys.emptyConfig .none false onDestroy).map fun s' =>
      { s' with sh := { s'.sh with destroyed := true } }
  | .switch c fault kill => some (s.begin .switch c fault kill switchTunnel)
  | .fail kill => some (s.begin .other Sys.emptyConfig .none kill die)
  | .run n => s.runThread n
  | .interrupt n => s.interrupt n

/-- The service after `onCreate`. -/
def Sys.fresh : Sys :=
  { sh := ⟨false, false, false, false, false, fun _ => none, none, fun _ => none, none, none,
      [], [], false, false, 0, []⟩
    threads := [] }

end Ghajar.Tunnel
