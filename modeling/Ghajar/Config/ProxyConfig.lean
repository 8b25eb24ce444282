import Ghajar.Lib.Json

/-!
# A server's configuration

The record the store keeps for each server, the options of the two engines that
share one settings text, and the specifications these engines are started from.
What the platform's libraries compute of a text stands in `Platform`.
-/

namespace Ghajar

structure Platform where
  /-- `JSONObject(raw)`, nothing where it throws. -/
  readObject : String → Option JSONObject
  /-- The long a number's text stands for, nothing where it is no number. -/
  readLong : String → Option Int
  lowercase : String → String
  mixedPort : Int
  httpSharePort : Int
  psiphonSocksPort : Int

inductive ConfigSource where
  | personal
  | community
  | premium
  deriving Repr, DecidableEq

structure ProxyConfig where
  name : String
  protocol : String
  address : String
  port : Int
  uuid : String := ""
  password : String := ""
  method : String := ""
  alterId : Int := 0
  encryption : String := "none"
  flow : String := ""
  network : String := "tcp"
  security : String := "none"
  sni : String := ""
  publicKey : String := ""
  shortId : String := ""
  fingerprint : String := "chrome"
  path : String := ""
  host : String := ""
  serviceName : String := ""
  mode : String := ""
  alpn : String := ""
  headerType : String := ""
  subId : String := ""
  privateKey : String := ""
  localAddress : String := ""
  mtu : Int := 0
  reserved : String := ""
  aetherMode : String := "masque"
  aetherScan : String := "balanced"
  aetherNoise : String := ""
  aetherHttp2 : Bool := true
  aetherExitLoc : String := ""
  aetherFragment : Bool := false
  aetherIpv6 : Bool := false
  hyObfs : String := ""
  hyObfsPassword : String := ""
  hyUpMbps : Int := 0
  hyDownMbps : Int := 0
  allowInsecure : Bool := false
  pinnedCertSha256 : String := ""
  cipherSuites : String := ""
  randomSubdomain : Bool := false
  maskType : String := ""
  maskDomain : String := ""
  maskPassword : String := ""
  echConfigList : String := ""
  torCountry : String := ""
  torThroughVpn : Bool := false
  torBaseId : String := ""
  chainId : String := ""
  psiphonMode : String := "auto"
  psiphonCountry : String := ""
  psiphonCdnIps : String := ""
  psiphonCdnSni : String := ""
  oblivionJson : String := ""
  extra : String := ""
  source : ConfigSource := .personal
  locked : Bool := false
  favorite : Bool := false
  id : String
  deriving Repr, DecidableEq

/-- `extra` as an object; empty when blank or unreadable. -/
def ProxyConfig.extraJson (p : Platform) (c : ProxyConfig) : JSONObject :=
  if c.extra.blank then [] else (p.readObject c.extra).getD []

/-- The settings of the Oblivion engines, as far as a tunnel is built from them. -/
structure OblivionOptions where
  data : JSONObject

namespace OblivionOptions

/-- Nothing where the text is no object and the constructor throws. -/
def read (p : Platform) (raw : String) : Option OblivionOptions :=
  if raw.blank then some ⟨[]⟩ else (p.readObject raw).map .mk

def defaults : List (String × String) :=
  [("core", "psiphon"), ("protocol", "masque"), ("transport", "h3"), ("scanMode", "balanced"),
    ("obfuscation", "balanced"), ("ipVersion", "v4"), ("logLevel", "info"), ("perfProfile", ""),
    ("echMode", ""), ("socksPort", "1819"), ("allowLan", "false"), ("routingMode", "vpn"),
    ("mtu", "1500"), ("overrideDns", "true"), ("dnsPrimary", "1.1.1.1"),
    ("dnsSecondary", "1.0.0.1"), ("fragment", "false"), ("fragmentSize", "16-32"),
    ("fragmentDelay", "2-10"), ("quickReconnect", "true"), ("dataCheck", "true"),
    ("validateSeconds", "10"), ("reconnectSeconds", "2"), ("wgKeepalive", "5"),
    ("wgProfileRetry", "true"), ("gatewayProxy", "false"), ("bypassSelected", "false")]

def default? (key : String) : Option String := defaults.lookup key

variable (o : OblivionOptions)

def text (key : String) : String := o.data.optString key ((default? key).getD "")

def number (key : String) : Int :=
  (Text.toIntOrNull (o.text key)).getD (((default? key).bind Text.toIntOrNull).getD 0)

def core : String := o.text "core"

def aether : Bool := o.core == "aether" || o.core == "chain"

def psiphon : Bool := o.core != "aether"

def socksPort : Int := o.number "socksPort"

/-- A sum of 32 bits. -/
def aetherPort : Int :=
  if o.core = "chain" then Int.bmod (o.socksPort + 10) 4294967296 else o.socksPort

end OblivionOptions

structure AetherSpec where
  mode : String := "masque"
  scan : String := "balanced"
  noise : String := ""
  http2 : Bool := false
  ipv6 : Bool := false
  oblivionJson : String := ""
  exitLoc : String := ""
  fragment : Bool := false
  deriving Repr, DecidableEq

namespace AetherSpec

def toJson (s : AetherSpec) : JSONObject :=
  JSONObject.put [] "oblivionJson" s.oblivionJson
    |>.put "mode" s.mode
    |>.put "scan" s.scan
    |>.put "noise" s.noise
    |>.put "http2" s.http2
    |>.put "ipv6" s.ipv6
    |>.put "exitLoc" s.exitLoc
    |>.put "fragment" s.fragment

/-- The outer level is nothing where the settings text is unreadable and this throws. -/
def «from» (p : Platform) (c : ProxyConfig) : Option (Option AetherSpec) := do
  let mine ←
    if c.protocol ≠ "aether" then
      if c.protocol = "psiphon" then (OblivionOptions.read p c.oblivionJson).map (·.aether)
      else some false
    else some true
  if !mine then return none
  return some
    { mode := c.aetherMode.ifBlank "masque"
      scan := c.aetherScan.ifBlank "balanced"
      noise := c.aetherNoise
      http2 := c.aetherHttp2
      ipv6 := c.aetherIpv6
      oblivionJson := c.oblivionJson
      exitLoc := c.aetherExitLoc
      fragment := c.aetherFragment }

def parse (o : JSONObject) : AetherSpec :=
  { mode := o.optString "mode" "masque"
    scan := o.optString "scan" "balanced"
    noise := o.optString "noise"
    http2 := o.optBoolean "http2"
    ipv6 := o.optBoolean "ipv6"
    oblivionJson := o.optString "oblivionJson"
    exitLoc := o.optString "exitLoc"
    fragment := o.optBoolean "fragment" }

theorem parse_toJson (s : AetherSpec) : parse s.toJson = s := by
  simp [parse, toJson, JSONObject.optString, JSONObject.optBoolean, Json.asString]

end AetherSpec

structure PsiphonSpec where
  mode : String := "auto"
  country : String := ""
  cdnIps : String := ""
  cdnSni : String := ""
  oblivionJson : String := ""
  deriving Repr, DecidableEq

namespace PsiphonSpec

def toJson (s : PsiphonSpec) : JSONObject :=
  JSONObject.put [] "mode" s.mode
    |>.put "country" s.country
    |>.put "cdnIps" s.cdnIps
    |>.put "cdnSni" s.cdnSni
    |>.put "oblivionJson" s.oblivionJson

/-- The outer level is nothing where the settings text is unreadable and this throws. -/
def «from» (p : Platform) (c : ProxyConfig) : Option (Option PsiphonSpec) := do
  if c.protocol ≠ "psiphon" then return none
  let options ← OblivionOptions.read p c.oblivionJson
  if !options.psiphon then return none
  return some
    { mode := c.psiphonMode.ifBlank "auto"
      country := c.psiphonCountry
      cdnIps := c.psiphonCdnIps
      cdnSni := c.psiphonCdnSni
      oblivionJson := c.oblivionJson }

def parse (o : JSONObject) : PsiphonSpec :=
  { mode := o.optString "mode" "auto"
    country := o.optString "country"
    cdnIps := o.optString "cdnIps"
    cdnSni := o.optString "cdnSni"
    oblivionJson := o.optString "oblivionJson" }

theorem parse_toJson (s : PsiphonSpec) : parse s.toJson = s := by
  simp [parse, toJson, JSONObject.optString, Json.asString]

end PsiphonSpec

end Ghajar
