import Ghajar.Config.Builder

/-!
# The three ways to a tunnel

`QuickConnect.start`, `VpnLauncher.relaunch` and `GozarVpnService.switchTunnel`
each pass the options of the core's configuration and the specifications of the
engines by hand. The first two do it through the extras of an intent, which
`onStartCommand` reads back; the third sets the service's fields itself. The text
of a specification is modelled by the object it is printed from.
-/

namespace Ghajar

open ConfigBuilder

/-- What the specifications of the two remaining engines are computed by. -/
structure Engines where
  /-- `SingBoxConfig.spec` -/
  singBoxSpec : ProxyConfig → Option JSONObject
  /-- `TorController.spec` -/
  torSpec : ProxyConfig → String

/-- The settings of the store that a tunnel is built from. -/
structure Settings where
  fragment : Bool := false
  splitRouting : Bool := false
  sniffing : Bool := false
  sniffTypes : List String := ["http", "tls", "quic"]
  mux : Bool := false
  muxConcurrency : Int := 8
  adBlock : Bool := false
  fakeDns : Bool := false
  encryptedDns : Bool := false
  customDns : String := ""
  youtubeDirect : Bool := false
  noiseSpec : String := ""
  fragmentPackets : String := "tlshello"
  fragmentLength : String := "10-20"
  fragmentInterval : String := "10-20"
  onionRouting : Bool := false
  coreLogLevel : String := "warning"
  vpnShareEnabled : Bool := false
  vpnShareCredential : String × String := ("", "")
  /-- `hotspotInterfaceAddress()` -/
  hotspotInterfaceAddress : Option String := none

/-- Where a build runs: the platform, the lists of hosts and the engines. -/
structure World where
  platform : Platform
  hosts : Hosts
  engines : Engines

/-- The text of a specification, as it stands in an intent's extra. -/
inductive SpecText where
  | empty
  | object (o : JSONObject)

structure Extras where
  config : JSONObject
  aether : Option SpecText := none
  psiphon : Option SpecText := none
  singbox : Option JSONObject := none
  tor : Option String := none
  name : String
  address : String
  port : Int

/-- What the service starts a tunnel from. -/
structure Tunnel where
  configJson : JSONObject
  aetherSpec : Option AetherSpec
  psiphonSpec : Option PsiphonSpec
  singboxSpec : Option JSONObject
  torSpec : Option String
  configName : String
  configAddress : String
  configPort : Int

def readSpec {α : Type} (parse : JSONObject → α) : Option SpecText → Option α
  | some (.object o) => some (parse o)
  | _ => none

/-- The fields `onStartCommand` sets from an intent. -/
def onStartCommand (e : Extras) : Tunnel :=
  { configJson := e.config
    aetherSpec := readSpec AetherSpec.parse e.aether
    psiphonSpec := readSpec PsiphonSpec.parse e.psiphon
    singboxSpec := e.singbox
    torSpec := e.tor
    configName := e.name
    configAddress := e.address
    configPort := e.port }

variable (w : World) (s : Settings) (configs : List ProxyConfig) (c : ProxyConfig) (draw : Labels)

/-- What all three pass alike. -/
def Settings.options : Options :=
  { fragment := s.fragment
    splitRouting := s.splitRouting
    sniffing := s.sniffing
    sniffTypes := s.sniffTypes
    adBlock := s.adBlock
    fakeDns := s.fakeDns
    encryptedDns := s.encryptedDns
    customDns := s.customDns
    youtubeDirect := s.youtubeDirect
    noiseSpec := s.noiseSpec
    fragmentPackets := s.fragmentPackets
    fragmentLength := s.fragmentLength
    fragmentInterval := s.fragmentInterval
    onionRouting := s.onionRouting }

def byId (configs : List ProxyConfig) (id : String) : Option ProxyConfig :=
  configs.find? fun b => b.id = id

namespace QuickConnect

def options : Options :=
  { s.options with
    mux := s.mux
    muxConcurrency := s.muxConcurrency
    torBase := byId configs c.torBaseId
    chainBase := byId configs c.chainId
    coreLogLevel := s.coreLogLevel }

/-- `AetherController.spec` -/
def aetherText : Option AetherSpec → SpecText
  | some a => .object a.toJson
  | none => .empty

def torText : Option String :=
  if c.protocol = "tor" then some (w.engines.torSpec c)
  else if s.onionRouting then some "|1"
  else none

/-- What `start` puts in the intent; nothing where it throws on the way. -/
def start : Option Extras := do
  let json ← build w.platform w.hosts c (options s configs c) draw
  let aether ← AetherSpec.from w.platform c
  let psiphon ← PsiphonSpec.from w.platform c
  return {
    config := json
    aether := some (aetherText aether)
    psiphon := psiphon.map fun s => .object s.toJson
    singbox := w.engines.singBoxSpec c
    tor := torText w s c
    name := c.name
    address := c.address
    port := c.port }

end QuickConnect

namespace VpnLauncher

/-- What `relaunch` puts in the intent; nothing where it throws on the way. -/
def relaunch : Option Extras := do
  let json ← build w.platform w.hosts c s.options draw
  let aether ← AetherSpec.from w.platform c
  return {
    config := json
    aether := aether.map fun a => .object a.toJson
    singbox := w.engines.singBoxSpec c
    tor := if c.protocol = "tor" then some (w.engines.torSpec c) else none
    name := c.name
    address := c.address
    port := c.port }

end VpnLauncher

namespace GozarVpnService

def options : Options :=
  let credential := if s.vpnShareEnabled then s.vpnShareCredential else ("", "")
  { s.options with
    shareOnLan := s.vpnShareEnabled
    shareUser := credential.1
    sharePass := credential.2
    shareListenAddress :=
      if s.vpnShareEnabled then s.hotspotInterfaceAddress.getD "127.0.0.1" else "127.0.0.1" }

def switchTunnel : Option Tunnel := do
  let json ← build w.platform w.hosts c (options s) draw
  let aether ← AetherSpec.from w.platform c
  let psiphon ← PsiphonSpec.from w.platform c
  return {
    configJson := json
    aetherSpec := aether
    psiphonSpec := psiphon
    singboxSpec := w.engines.singBoxSpec c
    torSpec := if c.protocol = "tor" then some (w.engines.torSpec c) else none
    configName := c.name
    configAddress := c.address
    configPort := c.port }

end GozarVpnService

end Ghajar
