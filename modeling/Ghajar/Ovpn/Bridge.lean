import Mathlib.Logic.Function.Basic
import Ghajar.Lib.Run
import Ghajar.Vpn.State

/-!
# The OpenVPN bridge

`GhajarOpenVpnBridge`: the state listener of the engine, `connectSaved`, `disconnect`
and `delete`. A command that stops the engine waits for it inside `stopEngineNow`, and
callbacks and other commands come meanwhile, so what follows the wait is a step of its
own (`resume`). Times are those of `elapsedRealtime`, in milliseconds.

`sessions` is not in the source: the starts of the engine, and which one a callback comes
from. Messages, byte counters, the per-app rules and the tests of a profile are left out.
-/

namespace Ghajar.Ovpn

open Vpn

inductive OvpnState where
  | disconnected
  | connecting
  | connected
  | error
  deriving DecidableEq, Repr

/-- `ConnectionStatus`. -/
inductive Level where
  | connected
  | vpnPaused
  | connectingServerReplied
  | connectingNoServerReplyYet
  | nonetwork
  | notConnected
  | start
  | authFailed
  | waitingForUserInput
  | unknown
  deriving DecidableEq, Repr

/-- The fields of the bridge; `engineState` says whether the raw state is `CONNECTED`. -/
structure Bridge where
  status : OvpnState
  activeUuid : Option Nat
  requestedUuid : Option Nat
  connectedConfirmed : Bool
  connectedAtElapsed : Nat
  explicitDisconnect : Bool
  requestStartedAt : Nat
  engineState : Bool
  vpn : VpnState
  deriving DecidableEq, Repr

namespace Bridge

def fresh : Bridge := ⟨.disconnected, none, none, false, 0, false, 0, false, .fresh⟩

/-! ## The listener -/

/-- A loss this soon after the connection is not shown. -/
def keepConnectedGrace (b : Bridge) (now : Nat) : Bool :=
  b.connectedConfirmed && now - b.connectedAtElapsed < 1200 && !b.explicitDisconnect

/-- `requestedUuid != null && elapsed in 0..7_999`. -/
def starting (b : Bridge) (now : Nat) : Bool :=
  b.requestedUuid.isSome && b.requestStartedAt ≤ now && now - b.requestStartedAt ≤ 7999

/-- `if (ownsGlobalTunnel()) …`. -/
def ifOwner (b : Bridge) (f : VpnState → VpnState) : VpnState :=
  if b.vpn.isOvpn then f b.vpn else b.vpn

def onConnected (b : Bridge) (now : Nat) : Bridge :=
  { b with
    connectedConfirmed := true
    connectedAtElapsed := now
    requestedUuid := none
    explicitDisconnect := false
    status := .connected
    vpn :=
      match b.activeUuid <|> b.requestedUuid with
      | none => b.vpn
      | some uuid =>
        (if b.vpn.activeId ≠ some (.ovpn uuid) then b.vpn.setConnecting (.ovpn uuid)
          else b.vpn).setConnected }

/-- The three levels that end a session with an error. -/
def onFailed (b : Bridge) : Bridge :=
  { b with
    requestedUuid := none
    connectedConfirmed := false
    activeUuid := none
    status := .error
    vpn := b.ifOwner VpnState.setError }

/-- The status after a loss. -/
def lossStatus (b : Bridge) (now : Nat) : OvpnState :=
  if b.explicitDisconnect then .disconnected
  else if b.keepConnectedGrace now then .connected
  else if b.starting now then .connecting
  else .disconnected

def onNotConnected (b : Bridge) (now : Nat) : Bridge :=
  if b.lossStatus now = .disconnected then
    { b with
      status := .disconnected
      connectedConfirmed := false
      requestedUuid := none
      vpn := b.ifOwner VpnState.setDisconnected }
  else { b with status := b.lossStatus now }

def onConnecting (b : Bridge) : Bridge :=
  if !b.connectedConfirmed && (b.requestedUuid.isSome || b.activeUuid.isSome) then
    { b with status := .connecting }
  else b

def onPaused (b : Bridge) : Bridge :=
  { b with
    connectedConfirmed := false
    status := .disconnected
    vpn := b.ifOwner VpnState.setDisconnected }

def onUnknown (b : Bridge) : Bridge :=
  if !b.connectedConfirmed && b.requestedUuid.isSome then { b with status := .connecting } else b

/-- `updateState`; `connected` says whether the raw state is `CONNECTED`. -/
def updateState (b : Bridge) (now : Nat) (connected : Bool) (level : Level) : Bridge :=
  let b := { b with engineState := connected }
  match level with
  | .connected => b.onConnected now
  | .authFailed | .nonetwork | .waitingForUserInput => b.onFailed
  | .notConnected => b.onNotConnected now
  | .start | .connectingServerReplied | .connectingNoServerReplyYet => b.onConnecting
  | .vpnPaused => b.onPaused
  | .unknown => b.onUnknown

/-- `setConnectedVPN`; a blank uuid is none. -/
def setConnectedVPN (b : Bridge) : Option Nat → Bridge
  | some clean =>
    if b.requestedUuid.isSome ∧ b.requestedUuid ≠ some clean then b
    else { b with activeUuid := some clean }
  | none =>
    let b := { b with activeUuid := none }
    if b.connectedConfirmed then
      { b with
        connectedConfirmed := false
        status := .disconnected
        vpn := b.ifOwner VpnState.setDisconnected }
    else b

/-! ## The commands -/

/-- A session that is already coming up for this profile is not restarted. -/
def comingUp (b : Bridge) (now uuid : Nat) : Bool :=
  b.requestedUuid = some uuid && b.status = .connecting && now - b.requestStartedAt < 6000

/-- A different profile owns the tunnel. -/
def otherOwner (b : Bridge) (uuid : Nat) : Bool :=
  (b.requestedUuid.isSome && b.requestedUuid ≠ some uuid) ||
    (b.engineState && b.activeUuid ≠ some uuid)

/-- The engine is asked to stop; if it cannot be bound, the bridge reports the loss itself. -/
def stopEngineNow (b : Bridge) (now : Nat) (bound : Bool) : Bridge :=
  if bound then b else b.updateState now false .notConnected

/-- The end of `connectSaved`; `starts` says whether the service start is accepted. -/
def request (b : Bridge) (now uuid : Nat) (starts : Bool) : Bridge :=
  let b : Bridge :=
    { b with
      requestedUuid := some uuid
      connectedConfirmed := false
      connectedAtElapsed := 0
      explicitDisconnect := false
      engineState := false
      requestStartedAt := now
      activeUuid := some uuid
      status := .connecting
      vpn := b.vpn.setConnecting (.ovpn uuid) }
  if starts then b
  else
    { b with
      requestedUuid := none
      connectedConfirmed := false
      activeUuid := none
      status := .error
      vpn := b.vpn.setError }

def owns (b : Bridge) (uuid : Nat) : Bool :=
  b.requestedUuid = some uuid || b.activeUuid = some uuid

/-- What `delete` and `disconnect` reset when the engine has stopped. -/
def reset (b : Bridge) : Bridge :=
  { b with
    engineState := false
    requestedUuid := none
    connectedConfirmed := false
    activeUuid := none
    status := .disconnected }

/-- The end of `disconnect`. -/
def disconnected (b : Bridge) : Bridge :=
  { b.reset with explicitDisconnect := false, vpn := b.ifOwner VpnState.setDisconnected }

end Bridge

/-! ## Runs -/

/-- A start of the engine: whose it is, whether it has not been disconnected, deleted or
replaced, whether it has reported that it is connected, its last level. -/
structure Session where
  uuid : Nat
  live : Bool
  reported : Bool
  last : Option Level
  deriving DecidableEq, Repr

/-- A command inside `stopEngineNow`. -/
inductive Waiting where
  | connect (uuid : Nat) (starts : Bool)
  | disconnect
  | delete (uuid : Nat)
  deriving DecidableEq, Repr

structure Sys where
  bridge : Bridge
  now : Nat
  waiting : List Waiting
  count : Nat
  sessions : Nat → Session

inductive Act where
  | tick (ms : Nat)
  | updateState (n : Nat) (connected : Bool) (level : Level)
  | setConnectedVPN (uuid : Option Nat)
  /-- `found` says whether the engine and the profile are there and complete. -/
  | connectSaved (uuid : Nat) (found starts bound : Bool)
  | disconnect (installed bound : Bool)
  | delete (uuid : Nat) (bound : Bool)
  | resume (i : Nat)
  deriving DecidableEq, Repr

def Session.hears (x : Session) (level : Level) : Session :=
  { x with reported := x.reported || level = .connected, last := some level }

def Session.ends (x : Session) : Session := { x with live := false }

namespace Sys

/-- The engine is started for a profile; the sessions before are replaced. -/
def begin (s : Sys) (uuid : Nat) (starts : Bool) : Sys :=
  { s with
    bridge := s.bridge.request s.now uuid starts
    count := s.count + 1
    sessions := Function.update (fun n => (s.sessions n).ends) s.count ⟨uuid, starts, false, none⟩ }

/-- The sessions of a profile end. -/
def drop (s : Sys) (uuid : Nat) : Nat → Session :=
  fun n => if (s.sessions n).uuid = uuid then (s.sessions n).ends else s.sessions n

/-- A command waits for the engine to stop. -/
def wait (s : Sys) (w : Waiting) (bound : Bool) : Sys :=
  { s with
    bridge := s.bridge.stopEngineNow s.now bound
    waiting := s.waiting ++ [w] }

def resume (s : Sys) : Waiting → Sys
  | .connect uuid starts => s.begin uuid starts
  | .disconnect =>
    { s with bridge := s.bridge.disconnected, sessions := fun n => (s.sessions n).ends }
  | .delete uuid => { s with bridge := s.bridge.reset, sessions := s.drop uuid }

def fresh : Sys := ⟨.fresh, 0, [], 0, fun _ => ⟨0, false, false, none⟩⟩

end Sys

def step (s : Sys) : Act → Option Sys
  | .tick ms => some { s with now := s.now + ms }
  | .updateState n connected level =>
    if n < s.count then
      some { s with
        bridge := s.bridge.updateState s.now connected level
        sessions := Function.update s.sessions n ((s.sessions n).hears level) }
    else none
  | .setConnectedVPN uuid => some { s with bridge := s.bridge.setConnectedVPN uuid }
  | .connectSaved uuid found starts bound =>
    if !found || s.bridge.comingUp s.now uuid then some s
    else if s.bridge.otherOwner uuid then some (s.wait (.connect uuid starts) bound)
    else some (s.begin uuid starts)
  | .disconnect installed bound =>
    if installed then
      some ({ s with bridge := { s.bridge with explicitDisconnect := true } }.wait .disconnect bound)
    else some s
  | .delete uuid bound =>
    if s.bridge.owns uuid then some (s.wait (.delete uuid) bound)
    else some { s with sessions := s.drop uuid }
  | .resume i =>
    match s.waiting[i]? with
    | none => none
    | some w => some ({ s with waiting := s.waiting.eraseIdx i }.resume w)

end Ghajar.Ovpn
