import Ghajar.Vpn.Coordinator

/-!
# The published connection state

`VpnState`: the state every screen shows, and whose it is. Names, messages and times
are left out.
-/

namespace Ghajar.Vpn

/-- An id of a configuration, or `ovpn:` and the uuid of an OpenVPN profile. -/
inductive ActiveId where
  | config (id : Nat)
  | ovpn (uuid : Nat)
  deriving DecidableEq, Repr

/-- `startsWith("ovpn:")`. -/
def ActiveId.isOvpn : ActiveId → Bool
  | .ovpn _ => true
  | .config _ => false

structure VpnState where
  state : Connection
  activeId : Option ActiveId
  deriving DecidableEq, Repr

namespace VpnState

def fresh : VpnState := ⟨.disconnected, none⟩

def setConnecting (_ : VpnState) (id : ActiveId) : VpnState := ⟨.connecting, some id⟩

def setConnected (v : VpnState) : VpnState := { v with state := .connected }

def setDisconnecting (v : VpnState) : VpnState := { v with state := .disconnecting }

def setError (v : VpnState) : VpnState := { v with state := .error }

def setDisconnected (_ : VpnState) : VpnState := ⟨.disconnected, none⟩

/-- `activeId` starts with `ovpn:`. -/
def isOvpn (v : VpnState) : Bool := v.activeId.any ActiveId.isOvpn

end VpnState

end Ghajar.Vpn
