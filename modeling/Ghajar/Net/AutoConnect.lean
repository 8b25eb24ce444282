import Ghajar.Net.Watcher
import Ghajar.Vpn.State

/-!
# The rules per network

`NetworkRules` and `NetworkAutoConnect`: a change of the network decides what to do,
and a job does it after a delay, a wait for the store and, for the fastest server, a
measurement (`Pc`). Its `relaunch` is that of `VpnLauncher`, with a wait and a delay of
its own. The main thread runs a job from one of these to the next, so that a decision
which replaces the job is made at one of them.

`kind`, `live` and `disconnects` of a job and `moments` are not in the source: what the
job was decided for, the user's disconnects so far, and what held when a relaunch began
or its start was sent. `relaunches_present` says when these agree.
-/

namespace Ghajar.Net.AutoConnect

open Run Vpn

/-! ## The rules -/

inductive NetRuleAction where
  | off
  | last
  | fastest
  deriving DecidableEq, Repr

structure Snapshot where
  enabled : Bool
  wifi : NetRuleAction
  cellular : NetRuleAction
  other : NetRuleAction
  recoverOnChange : Bool
  deriving DecidableEq, Repr

def Snapshot.actionFor (r : Snapshot) : NetKind → NetRuleAction
  | .wifi => r.wifi
  | .cellular => r.cellular
  | .other => r.other

def Snapshot.idle (r : Snapshot) : Bool :=
  !r.enabled || (r.wifi = .off && r.cellular = .off && r.other = .off && !r.recoverOnChange)

/-- `CONNECTED` or `CONNECTING`. -/
def live (v : VpnState) : Bool := v.state = .connected || v.state = .connecting

/-- `DISCONNECTED` or `ERROR`. -/
def down (v : VpnState) : Bool := v.state = .disconnected || v.state = .error

/-- The decision of `onNetwork`; none where it returns. -/
def decision (r : Snapshot) (kind : NetKind) (live : Bool) : Option NetRuleAction :=
  if r.idle then none
  else
    let action := r.actionFor kind
    if live && r.recoverOnChange then some (if action = .off then .last else action)
    else if live then none
    else if action ≠ .off then some action
    else none

/-! ## The job -/

/-- Where a job waits. -/
inductive Pc where
  | settle
  | awaitReady
  | measure (candidates : List Nat)
  | stopping (config : Nat)
  | pause (config : Nat)
  deriving DecidableEq, Repr

structure Job where
  action : NetRuleAction
  kind : NetKind
  live : Bool
  disconnects : Nat
  pc : Pc
  deriving DecidableEq, Repr

/-- The relaunch has begun. -/
def Job.begun (j : Job) : Bool :=
  match j.pc with
  | .stopping _ | .pause _ => true
  | _ => false

/-- What holds when a relaunch begins, or when its start is sent. -/
structure Moment where
  job : Job
  kind : Option NetKind
  rules : Snapshot
  vpn : VpnState
  disconnects : Nat
  deriving DecidableEq, Repr

/-- A stored configuration; `interchangeable` is that of `AutoSelector`. -/
structure Server where
  id : Nat
  interchangeable : Bool
  deriving DecidableEq, Repr

structure Sys where
  lastKind : Option NetKind
  rules : Snapshot
  vpn : VpnState
  ready : Bool
  configs : List Server
  selectedId : Option Nat
  job : Option Job
  disconnects : Nat
  moments : List Moment
  deriving DecidableEq, Repr

/-- What the rest makes of a step of the job: a wait times out, the measurement ends, the
gates of `relaunch`, the system refuses the start. -/
structure Event where
  timeout : Bool
  fastest : Option Nat
  permission : Bool
  blocked : Bool
  removed : Bool
  refused : Bool
  deriving DecidableEq, Repr

namespace Sys

def onNetwork (s : Sys) (kind : Option NetKind) : Sys :=
  let previous := s.lastKind
  let s := { s with lastKind := kind }
  match kind with
  | none => s
  | some k =>
    if some k = previous then s
    else if s.vpn.isOvpn then s
    else
      match decision s.rules k (live s.vpn) with
      | none => s
      | some d => { s with job := some ⟨d, k, live s.vpn, s.disconnects, .settle⟩ }

def moment (s : Sys) (j : Job) : Moment := ⟨j, s.lastKind, s.rules, s.vpn, s.disconnects⟩

def finish (s : Sys) : Sys := { s with job := none }

/-- `VpnLauncher.relaunch` until it waits: the tunnel that is up is told to stop. -/
def relaunch (s : Sys) (j : Job) (config : Nat) (e : Event) : Sys :=
  if !e.permission || e.blocked || e.removed then s.finish
  else
    let pc := if down s.vpn then .pause config else .stopping config
    let j := { j with live := live s.vpn, pc := pc }
    { s with job := some j, moments := s.moments ++ [s.moment j] }

/-- `VpnLauncher.relaunch` after the delay. -/
def launch (s : Sys) (j : Job) (config : Nat) (refused : Bool) : Sys :=
  let vpn := s.vpn.setConnecting (.config config)
  { s with
    job := none
    vpn := if refused then vpn.setDisconnected else vpn
    moments := s.moments ++ [s.moment j] }

/-- The server that was used last, or the selected one; no stored id starts with `ovpn:`. -/
def lastUsed (s : Sys) : Option Nat :=
  let id :=
    match s.vpn.activeId with
    | some (.config id) => some id
    | some (.ovpn _) => none
    | none => s.selectedId
  id.filter fun id => s.configs.any (·.id == id)

/-- `apply` once the store is ready. -/
def choose (s : Sys) (j : Job) (e : Event) : Sys :=
  match j.action with
  | .fastest =>
    match (s.configs.filter (·.interchangeable)).map (·.id) with
    | [] => s.finish
    | [config] => s.relaunch j config e
    | candidates => { s with job := some { j with pc := .measure candidates } }
  | _ =>
    match s.lastUsed with
    | none => s.finish
    | some config => s.relaunch j config e

/-- The job goes on from where it waits. -/
def runJob (s : Sys) (j : Job) (e : Event) : Option Sys :=
  match j.pc with
  | .settle =>
    some (if s.ready then s.choose j e else { s with job := some { j with pc := .awaitReady } })
  | .awaitReady => if s.ready then some (s.choose j e) else none
  | .measure candidates =>
    match e.fastest with
    | none => some s.finish
    | some config => if config ∈ candidates then some (s.relaunch j config e) else none
  | .stopping config =>
    if down s.vpn || e.timeout then some { s with job := some { j with pc := .pause config } }
    else none
  | .pause config => some (s.launch j config e.refused)

/-- The user disconnects: `onDisconnectRequested` of the coordinator. -/
def disconnect (s : Sys) : Sys :=
  { s with
    vpn := if live s.vpn then s.vpn.setDisconnecting else s.vpn
    disconnects := s.disconnects + 1 }

def fresh (kind : Option NetKind) (rules : Snapshot) (vpn : VpnState) (configs : List Server)
    (selectedId : Option Nat) : Sys :=
  ⟨kind, rules, vpn, false, configs, selectedId, none, 0, []⟩

end Sys

/-- What the services and the other screens publish. -/
inductive Report where
  | connecting (id : ActiveId)
  | connected
  | disconnecting
  | error
  | disconnected
  deriving DecidableEq, Repr

def Report.apply (v : VpnState) : Report → VpnState
  | .connecting id => v.setConnecting id
  | .connected => v.setConnected
  | .disconnecting => v.setDisconnecting
  | .error => v.setError
  | .disconnected => v.setDisconnected

inductive Act where
  | network (kind : Option NetKind)
  | rules (r : Snapshot)
  | store (configs : List Server) (selectedId : Option Nat)
  | vpn (r : Report)
  | disconnect
  | job (e : Event)
  deriving DecidableEq, Repr

def step (s : Sys) : Act → Option Sys
  | .network kind => some (s.onNetwork kind)
  | .rules r => some { s with rules := r }
  | .store configs selectedId =>
    some { s with ready := true, configs := configs, selectedId := selectedId }
  | .vpn r => some { s with vpn := r.apply s.vpn }
  | .disconnect => some s.disconnect
  | .job e => s.job.bind fun j => s.runJob j e

/-! ## Relaunches act on the present -/

/-- The job was decided for the network and by the rules that hold now, for the tunnel that
was up when the relaunch began; nobody disconnected since, and OpenVPN is not active. -/
structure Present (m : Moment) : Prop where
  kind : m.kind = some m.job.kind
  decided : decision m.rules m.job.kind m.job.live = some m.job.action
  notOvpn : m.vpn.isOvpn = false
  notStopped : m.disconnects = m.job.disconnects

/-- On a network whose rule is `OFF` only a tunnel that was live is brought back. -/
theorem Present.off {m : Moment} (h : Present m) (hoff : m.rules.actionFor m.job.kind = .off) :
    m.job.live = true := by
  have hd := h.decided
  unfold decision at hd
  cases hl : m.job.live with
  | true => rfl
  | false => simp [hl, hoff] at hd

/-- The tunnel a pending job is decided for. -/
def Sys.liveOf (s : Sys) (j : Job) : Bool := if j.begun then j.live else live s.vpn

/-- `onNetwork` does not return early. -/
def Sys.acts (s : Sys) (kind : Option NetKind) : Bool :=
  kind.any fun k => !s.vpn.isOvpn && (decision s.rules k (live s.vpn)).isSome

/-- **The condition**: while a job is pending, a change of the network makes a new decision,
the rules and the tunnel change in no way that changes the decision, the user does not
disconnect and OpenVPN does not start. -/
def steady (s : Sys) (a : Act) : Prop :=
  ∀ j ∈ s.job,
    match a with
    | .network kind => kind = s.lastKind ∨ s.acts kind = true
    | .rules r => decision r j.kind (s.liveOf j) = some j.action
    | .store _ _ => True
    | .vpn r =>
      (r.apply s.vpn).isOvpn = false ∧
        (j.begun = false → decision s.rules j.kind (live (r.apply s.vpn)) = some j.action)
    | .disconnect => False
    | .job _ => True

instance (s : Sys) (a : Act) : Decidable (steady s a) := by
  unfold steady
  cases a <;> simp only <;> infer_instance

/-- A pending job would be decided in the same way now. -/
structure Current (s : Sys) (j : Job) : Prop where
  kind : s.lastKind = some j.kind
  decided : decision s.rules j.kind (s.liveOf j) = some j.action
  notOvpn : s.vpn.isOvpn = false
  notStopped : s.disconnects = j.disconnects

structure Inv (s : Sys) : Prop where
  job : ∀ j ∈ s.job, Current s j
  moments : ∀ m ∈ s.moments, Present m

section Steps

variable {s s' : Sys} {j : Job} {config : Nat} {e : Event}

theorem finish_inv (h : Inv s) : Inv s.finish := ⟨fun j hj => (by cases hj), h.moments⟩

/-- Another moment is recorded. -/
theorem Inv.record (h : Inv s) {m : Moment} (hm : Present m) :
    ∀ x ∈ s.moments ++ [m], Present x := by
  intro x hx
  rcases List.mem_append.1 hx with hx | hx
  · exact h.moments x hx
  · rw [List.mem_singleton.1 hx]
    exact hm

theorem liveOf_waiting (hb : j.begun = false) : s.liveOf j = live s.vpn := by
  unfold Sys.liveOf
  rw [hb]
  rfl

theorem liveOf_begun (hb : j.begun = true) : s.liveOf j = j.live := by
  unfold Sys.liveOf
  rw [if_pos hb]

theorem relaunch_inv (h : Inv s) (hj : Current s j) (hb : j.begun = false) :
    Inv (s.relaunch j config e) := by
  have hd : decision s.rules j.kind (live s.vpn) = some j.action := by
    rw [← liveOf_waiting hb]
    exact hj.decided
  unfold Sys.relaunch
  split
  · exact finish_inv h
  · simp only
    refine ⟨fun u hu => ?_, h.record ⟨hj.kind, hd, hj.notOvpn, hj.notStopped⟩⟩
    cases hu
    refine ⟨hj.kind, ?_, hj.notOvpn, hj.notStopped⟩
    rw [liveOf_begun]
    · exact hd
    · simp only [Job.begun]
      cases down s.vpn <;> rfl

theorem launch_inv (h : Inv s) (hj : Current s j) (hb : j.begun = true) (refused : Bool) :
    Inv (s.launch j config refused) := by
  have hd : decision s.rules j.kind j.live = some j.action := by
    rw [← liveOf_begun hb]
    exact hj.decided
  exact ⟨fun u hu => (by cases hu), h.record ⟨hj.kind, hd, hj.notOvpn, hj.notStopped⟩⟩

/-- The job goes on to wait for something else, and the relaunch has not begun. -/
theorem Inv.waits (h : Inv s) (hj : Current s j) {pc : Pc}
    (hb : ({ j with pc := pc } : Job).begun = j.begun) :
    Inv { s with job := some { j with pc := pc } } := by
  refine ⟨fun u hu => ?_, h.moments⟩
  cases hu
  refine ⟨hj.kind, ?_, hj.notOvpn, hj.notStopped⟩
  have hd := hj.decided
  unfold Sys.liveOf at hd ⊢
  rw [hb]
  exact hd

theorem choose_inv (h : Inv s) (hj : Current s j) (hb : j.begun = false) : Inv (s.choose j e) := by
  unfold Sys.choose
  split
  · split
    · exact finish_inv h
    · exact relaunch_inv h hj hb
    · exact h.waits hj (by rw [hb]; rfl)
  · split
    · exact finish_inv h
    · exact relaunch_inv h hj hb

theorem runJob_inv (h : Inv s) (hj : Current s j) (hs : s.runJob j e = some s') : Inv s' := by
  cases hpc : j.pc with
  | settle =>
    have hb : j.begun = false := by rw [Job.begun, hpc]
    simp only [Sys.runJob, hpc, Option.some.injEq] at hs
    subst hs
    split
    · exact choose_inv h hj hb
    · exact h.waits hj (by rw [hb]; rfl)
  | awaitReady =>
    have hb : j.begun = false := by rw [Job.begun, hpc]
    simp only [Sys.runJob, hpc] at hs
    split at hs
    · cases hs
      exact choose_inv h hj hb
    · cases hs
  | measure candidates =>
    have hb : j.begun = false := by rw [Job.begun, hpc]
    simp only [Sys.runJob, hpc] at hs
    split at hs
    · cases hs
      exact finish_inv h
    · split at hs
      · cases hs
        exact relaunch_inv h hj hb
      · cases hs
  | stopping config =>
    have hb : j.begun = true := by rw [Job.begun, hpc]
    simp only [Sys.runJob, hpc] at hs
    split at hs
    · cases hs
      exact h.waits hj (by rw [hb]; rfl)
    · cases hs
  | pause config =>
    have hb : j.begun = true := by rw [Job.begun, hpc]
    simp only [Sys.runJob, hpc, Option.some.injEq] at hs
    subst hs
    exact launch_inv h hj hb e.refused

theorem onNetwork_inv {kind : Option NetKind} (h : Inv s) (hc : steady s (.network kind)) :
    Inv (s.onNetwork kind) := by
  have hkept : ∀ u ∈ s.job, kind = s.lastKind → Current { s with lastKind := kind } u := by
    intro u hu hk
    rw [hk]
    exact h.job u hu
  -- an event that returns early finds no job, unless it brings nothing new
  have hearly : s.acts kind = false → Inv { s with lastKind := kind } := by
    intro ha
    refine ⟨fun u hu => ?_, h.moments⟩
    rcases hc u hu with hk | hk
    · exact hkept u hu hk
    · rw [ha] at hk
      cases hk
  unfold Sys.onNetwork
  cases kind with
  | none => exact hearly rfl
  | some k =>
    simp only
    split
    · rename_i hk
      exact ⟨fun u hu => hkept u hu hk, h.moments⟩
    · split
      · rename_i ho
        exact hearly (by simp [Sys.acts, ho])
      · rename_i ho
        split
        · rename_i hd
          exact hearly (by simp [Sys.acts, hd])
        · rename_i d hd
          refine ⟨fun u hu => ?_, h.moments⟩
          cases hu
          exact ⟨rfl, hd, by simpa using ho, rfl⟩

theorem step_inv (s : Sys) (a : Act) (s' : Sys) (h : Inv s) (hc : steady s a)
    (hs : step s a = some s') : Inv s' := by
  cases a with
  | network kind =>
    cases hs
    exact onNetwork_inv h hc
  | rules r =>
    cases hs
    refine ⟨fun u hu => ?_, h.moments⟩
    have hj := h.job u hu
    exact ⟨hj.kind, hc u hu, hj.notOvpn, hj.notStopped⟩
  | store configs selectedId =>
    cases hs
    refine ⟨fun u hu => ?_, h.moments⟩
    have hj := h.job u hu
    exact ⟨hj.kind, hj.decided, hj.notOvpn, hj.notStopped⟩
  | vpn r =>
    cases hs
    refine ⟨fun u hu => ?_, h.moments⟩
    have hj := h.job u hu
    obtain ⟨ho, hd⟩ := hc u hu
    refine ⟨hj.kind, ?_, ho, hj.notStopped⟩
    cases hb : u.begun with
    | false =>
      rw [liveOf_waiting hb]
      exact hd hb
    | true =>
      have hold := hj.decided
      rw [liveOf_begun hb] at hold ⊢
      exact hold
  | disconnect =>
    cases hs
    exact ⟨fun u hu => absurd (hc u hu) (fun hf => hf), h.moments⟩
  | job e =>
    obtain ⟨u, hu, hs⟩ := Option.bind_eq_some_iff.1 hs
    exact runJob_inv h (h.job u hu) hs

end Steps

theorem fresh_inv (kind : Option NetKind) (rules : Snapshot) (vpn : VpnState)
    (configs : List Server) (selectedId : Option Nat) :
    Inv (.fresh kind rules vpn configs selectedId) :=
  ⟨fun j hj => (by cases hj), fun m hm => absurd hm List.not_mem_nil⟩

/-- **Network rules act on the present.** -/
theorem relaunches_present {kind : Option NetKind} {rules : Snapshot} {vpn : VpnState}
    {configs : List Server} {selectedId : Option Nat} {as : List Act} {s : Sys}
    (hc : Meets step steady (.fresh kind rules vpn configs selectedId) as)
    (hr : run step (.fresh kind rules vpn configs selectedId) as = some s) :
    ∀ m ∈ s.moments, Present m :=
  (run_inv step_inv (fresh_inv kind rules vpn configs selectedId) hc hr).moments

/-! ## Two runs -/

/-- The last server on Wi-Fi, nothing on mobile data. -/
def wifiOnly : Snapshot := ⟨true, .last, .off, .off, true⟩

/-- All waits end and nothing is refused. -/
def smooth : Event := ⟨false, none, true, false, false, false⟩

/-- Nothing is up when the Wi-Fi comes. -/
def onWifi : Sys := .fresh none wifiOnly .fresh [⟨1, true⟩] (some 1)

def staysOnWifi : List Act :=
  [.store [⟨1, true⟩] (some 1), .network (some .wifi), .job smooth, .job smooth]

theorem staysOnWifi_present : ∃ s, run step onWifi staysOnWifi = some s ∧
    s.vpn = ⟨.connecting, some (.config 1)⟩ ∧ s.moments.length = 2 ∧
    ∀ m ∈ s.moments, Present m := by
  have hc : Meets step steady onWifi staysOnWifi := by decide
  exact ⟨_, rfl, rfl, rfl, relaunches_present hc rfl⟩

/-- The device leaves the Wi-Fi before the delay is over. -/
def leavesWifi : List Act :=
  [.store [⟨1, true⟩] (some 1), .network (some .wifi), .network (some .cellular), .job smooth,
    .job smooth]

/-- A tunnel comes up on mobile data, whose rule is `OFF`. -/
theorem leavesWifi_past : ∃ s, run step onWifi leavesWifi = some s ∧
    s.lastKind = some .cellular ∧ s.vpn = ⟨.connecting, some (.config 1)⟩ ∧
    ¬∀ m ∈ s.moments, Present m := by
  refine ⟨_, rfl, rfl, rfl, fun h => ?_⟩
  have hk := (h _ List.mem_cons_self).kind
  cases hk

end Ghajar.Net.AutoConnect
