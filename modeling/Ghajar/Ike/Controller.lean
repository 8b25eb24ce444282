import Ghajar.Lib.Run
import Ghajar.Vpn.State

/-!
# The IKEv2 controller

`IkeController`: `claim`, `connect`, `disconnect`, what the callbacks of strongSwan's
state service publish, the watchdog of a connection. All of it runs on the main thread,
one call after the other. `ownership_exact` says in which runs `active` is exact and
the callbacks publish nothing they must not.

Profiles, statistics and messages are left out. `requested` is not in the source: an
IKEv2 session was requested and has neither failed, been disconnected nor ended.
-/

namespace Ghajar.Ike

open Run Vpn

/-- `VpnStateService.State`. -/
inductive State where
  | disabled
  | connecting
  | connected
  | disconnecting
  deriving DecidableEq, Repr

/-- `VpnStateService.ErrorState`. -/
inductive ErrorState where
  | noError
  | authFailed
  | peerAuthFailed
  | lookupFailed
  | unreachable
  | generic
  | passwordMissing
  | certificateUnavailable
  deriving DecidableEq, Repr

/-- How `connect` goes: the native library is missing, there is no profile, the service
start is refused, it is accepted. -/
inductive Outcome where
  | unloaded
  | noProfile
  | refused
  | started
  deriving DecidableEq, Repr

/-- The fields of the controller; `watchdog` says whether its coroutine still waits. -/
structure Controller where
  state : State
  error : ErrorState
  active : Bool
  service : Bool
  watchdog : Bool
  claimedId : Option Nat
  vpn : VpnState
  requested : Bool
  deriving DecidableEq, Repr

namespace Controller

def fresh : Controller := ⟨.disabled, .noError, false, false, false, none, .fresh, false⟩

/-- `pushState`, and what it publishes. -/
def pushState (c : Controller) (state : State) (error : ErrorState) :
    Controller × Option Connection :=
  let c := { c with state := state, error := error }
  match state with
  | .connected => ({ c with watchdog := false, vpn := c.vpn.setConnected }, some .connected)
  | .connecting | .disconnecting => (c, none)
  | .disabled =>
    if c.active then
      let c := { c with active := false, watchdog := false, requested := false }
      if error ≠ .noError then ({ c with vpn := c.vpn.setError }, some .error)
      else ({ c with vpn := c.vpn.setDisconnected }, some .disconnected)
    else ({ c with requested := false }, none)

def claim (c : Controller) (id : Nat) : Controller :=
  { c with
    active := true
    claimedId := some id
    vpn := c.vpn.setConnecting (.config id)
    requested := true }

/-- One round of the coroutine of `claim`. -/
def reclaim (c : Controller) : Controller :=
  match c.claimedId with
  | none => c
  | some id =>
    if c.active ∧ c.state ≠ .connected ∧ c.vpn.state = .disconnected then
      { c with vpn := c.vpn.setConnecting (.config id) }
    else c

/-- `connect`, and what it returns. -/
def connect (c : Controller) (id : Nat) : Outcome → Controller × Bool
  | .unloaded => ({ c with requested := false }, false)
  | .noProfile => ({ c with active := false, requested := false }, false)
  | .refused =>
    ({ c with
      active := false, vpn := c.vpn.setConnecting (.config id), watchdog := true,
      requested := false }, false)
  | .started =>
    ({ c with
      active := true, vpn := c.vpn.setConnecting (.config id), watchdog := true,
      requested := true }, true)

def disconnect (c : Controller) : Controller :=
  { c with
    active := false
    claimedId := none
    watchdog := false
    state := .disabled
    requested := false }

/-- The watchdog's delay has passed. -/
def expire (c : Controller) : Controller :=
  if c.active ∧ c.state ≠ .connected then
    let c := c.disconnect
    { c with vpn := c.vpn.setError }
  else { c with watchdog := false }

/-- `VpnBridge.handle`, for a report of another engine that the coordinator accepts. -/
def handle (c : Controller) (reported : Connection) : Controller :=
  if c.active then c
  else
    match reported with
    | .connected => { c with vpn := c.vpn.setConnected }
    | .error => { c with vpn := c.vpn.setError }
    | .disconnected => { c with vpn := c.vpn.setDisconnected }
    | _ => c

/-- While IKEv2 owns the connection, the other engines have no say. -/
theorem handle_active {c : Controller} (h : c.active = true) (reported : Connection) :
    c.handle reported = c := if_pos h

end Controller

inductive Act where
  | claim (id : Nat)
  | reclaim
  | connect (id : Nat) (outcome : Outcome)
  | disconnect
  /-- The coordinator publishes a disconnect before it runs it. -/
  | disconnecting
  | stateChanged (state : State) (error : ErrorState)
  | onServiceConnected (state : State) (error : ErrorState)
  | onServiceDisconnected
  | expire
  deriving DecidableEq, Repr

def step (c : Controller) : Act → Option Controller
  | .claim id => some (c.claim id)
  | .reclaim => some c.reclaim
  | .connect id outcome => some (c.connect id outcome).1
  | .disconnect => some c.disconnect
  | .disconnecting =>
    if c.vpn.state = .connected ∨ c.vpn.state = .connecting then
      some { c with vpn := c.vpn.setDisconnecting }
    else some c
  | .stateChanged state error => some (c.pushState state error).1
  | .onServiceConnected state error => some ({ c with service := true }.pushState state error).1
  | .onServiceDisconnected => some { c with service := false }
  | .expire => if c.watchdog then some c.expire else none

/-! ## Ownership -/

/-- `active` is true only for a session. -/
def Exact (c : Controller) : Prop := c.active = true → c.requested = true

/-- What a callback must not do. -/
structure Quiet (c : Controller) (state : State) (error : ErrorState) : Prop where
  late : c.active = false → (c.pushState state error).2 ≠ some .connected
  finished : state = .disabled → (c.pushState state error).1.vpn.state ≠ .connected

/-- **The law of a step.** -/
def lawful (c : Controller) (a : Act) : Prop :=
  (∀ c' ∈ step c a, Exact c') ∧
    match a with
    | .connect id outcome =>
      (c.connect id outcome).2 = false → (c.connect id outcome).1.active = false
    | .stateChanged state error | .onServiceConnected state error => Quiet c state error
    | _ => True

/-- A callback that says CONNECTED arrives while the controller is active; one of a finished
session does so too, or finds another state published. -/
def expectedState (c : Controller) : State → Prop
  | .connected => c.active = true
  | .disabled => c.active = true ∨ c.vpn.state ≠ .connected
  | _ => True

/-- **The condition.** -/
def expected (c : Controller) : Act → Prop
  | .connect _ .unloaded => c.active = false
  | .stateChanged state _ | .onServiceConnected state _ => expectedState c state
  | _ => True

instance (c : Controller) (state : State) : Decidable (expectedState c state) := by
  unfold expectedState
  split <;> infer_instance

instance (c : Controller) (a : Act) : Decidable (expected c a) := by
  unfold expected
  split <;> infer_instance

theorem quiet_iff {c : Controller} {state : State} {error : ErrorState} :
    Quiet c state error ↔ expectedState c state := by
  cases state with
  | connected =>
    constructor
    · intro h
      cases ha : c.active with
      | true => exact ha
      | false => exact absurd rfl (h.late ha)
    · intro ha
      refine ⟨fun hf => ?_, fun hd => (by cases hd)⟩
      have ha : c.active = true := ha
      rw [hf] at ha
      cases ha
  | connecting | disconnecting =>
    exact ⟨fun _ => trivial, fun _ => ⟨fun _ h => (by cases h), fun hd => (by cases hd)⟩⟩
  | disabled =>
    by_cases ha : c.active = true
    · refine ⟨fun _ => .inl ha, fun _ => ⟨fun hf => ?_, fun _ => ?_⟩⟩
      · rw [hf] at ha
        cases ha
      · by_cases he : error = .noError <;>
          simp [Controller.pushState, ha, he, VpnState.setError, VpnState.setDisconnected]
    · refine ⟨fun h => .inr ?_, fun h => ⟨fun _ => ?_, fun _ => ?_⟩⟩
      · simpa [Controller.pushState, ha] using h.finished rfl
      · simp [Controller.pushState, ha]
      · simpa [Controller.pushState, ha] using h.resolve_left ha

theorem pushState_exact {c : Controller} {state : State} {error : ErrorState} (h : Exact c) :
    Exact (c.pushState state error).1 := by
  cases state with
  | connected | connecting | disconnecting => exact h
  | disabled =>
    unfold Exact
    by_cases ha : c.active = true
    · by_cases he : error = .noError <;> simp [Controller.pushState, ha, he]
    · simp [Controller.pushState, ha]

theorem expire_exact {c : Controller} (h : Exact c) : Exact c.expire := by
  unfold Controller.expire
  split
  · exact fun ha => (by cases ha)
  · exact h

theorem reclaim_exact {c : Controller} (h : Exact c) : Exact c.reclaim := by
  unfold Controller.reclaim
  split
  · exact h
  · split <;> exact h

theorem lawful_iff {c : Controller} {a : Act} (h : Exact c) : lawful c a ↔ expected c a := by
  cases a with
  | claim id => exact ⟨fun _ => trivial, fun _ => ⟨fun c' hc => (by cases hc; exact fun _ => rfl), trivial⟩⟩
  | reclaim =>
    refine ⟨fun _ => trivial, fun _ => ⟨fun c' hc => ?_, trivial⟩⟩
    cases hc
    exact reclaim_exact h
  | connect id outcome =>
    cases outcome with
    | unloaded =>
      refine ⟨fun hl => hl.2 rfl, fun ha => ⟨fun c' hc => ?_, fun _ => ha⟩⟩
      cases hc
      intro ha'
      have ha' : c.active = true := ha'
      have ha : c.active = false := ha
      rw [ha] at ha'
      cases ha'
    | noProfile | refused =>
      refine ⟨fun _ => trivial, fun _ => ⟨fun c' hc => ?_, fun _ => rfl⟩⟩
      cases hc
      exact fun ha => (by cases ha)
    | started =>
      refine ⟨fun _ => trivial, fun _ => ⟨fun c' hc => ?_, fun hr => (by cases hr)⟩⟩
      cases hc
      exact fun _ => rfl
  | disconnect =>
    refine ⟨fun _ => trivial, fun _ => ⟨fun c' hc => ?_, trivial⟩⟩
    cases hc
    exact fun ha => (by cases ha)
  | disconnecting =>
    refine ⟨fun _ => trivial, fun _ => ⟨fun c' hc => ?_, trivial⟩⟩
    simp only [step] at hc
    split at hc <;> cases hc <;> exact h
  | stateChanged state error =>
    refine ⟨fun hl => quiet_iff.1 hl.2, fun he => ⟨fun c' hc => ?_, quiet_iff.2 he⟩⟩
    cases hc
    exact pushState_exact h
  | onServiceConnected state error =>
    refine ⟨fun hl => quiet_iff.1 hl.2, fun he => ⟨fun c' hc => ?_, quiet_iff.2 he⟩⟩
    cases hc
    exact pushState_exact h
  | onServiceDisconnected =>
    refine ⟨fun _ => trivial, fun _ => ⟨fun c' hc => ?_, trivial⟩⟩
    cases hc
    exact h
  | expire =>
    refine ⟨fun _ => trivial, fun _ => ⟨fun c' hc => ?_, trivial⟩⟩
    simp only [step] at hc
    split at hc
    · cases hc
      exact expire_exact h
    · cases hc

theorem lawful_exact (c : Controller) (a : Act) (c' : Controller) (hl : lawful c a)
    (hs : step c a = some c') : Exact c' := hl.1 c' hs

/-- **IKEv2 ownership is exact** in exactly the runs whose callbacks are expected and whose
connections do not fail for want of the library. -/
theorem ownership_exact (as : List Act) :
    Meets step lawful .fresh as ↔ Meets step expected .fresh as := by
  have hfresh : Exact .fresh := fun ha => by cases ha
  constructor
  · exact meets_of_inv (fun c a c' _ hl hs => lawful_exact c a c' hl hs)
      (fun c a h hl => (lawful_iff h).1 hl) hfresh
  · exact meets_of_inv (fun c a c' h he hs => lawful_exact c a c' ((lawful_iff h).2 he) hs)
      (fun c a h he => (lawful_iff h).2 he) hfresh

/-- A connection is confirmed after it was disconnected. -/
def confirmedLate : List Act :=
  [.claim 7, .connect 7 .started, .stateChanged .connecting .noError, .disconnecting,
    .disconnect, .stateChanged .connected .noError]

theorem confirmedLate_unlawful : ¬Meets step lawful .fresh confirmedLate := by
  rintro ⟨-, -, -, -, -, h, -⟩
  exact h.2.late rfl rfl

end Ghajar.Ike
