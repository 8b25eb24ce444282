import Ghajar.Config.ProxyConfig

/-!
# The core's configuration

`build` puts together what the Xray core is started with, as one JSON object. The
lists of resolver and advertising hosts stand in `Hosts`, and the labels a random
subdomain is given in `Labels`: each outbound draws its own. Where the settings
text of an engine is unreadable the source throws and nothing is built.
-/

namespace Ghajar.ConfigBuilder

open Ghajar

/-- The fixed lists of hosts that rules are written about. -/
structure Hosts where
  doh : List String
  ads : List String

/-- The random label each outbound draws. -/
structure Labels where
  proxy : String
  torbase : String
  chain : String

/-! ## Noise and masks -/

namespace NoiseSpec

def item (type packet delay : String) : JSONObject :=
  JSONObject.put [] "type" type
    |>.put "packet" packet
    |>.putIf (delay != "") "delay" delay
    |>.put "applyTo" "ip"

def rand (length delay : String) : JSONObject := item "rand" length delay

def array (items : List JSONObject) : JSONArray := items.map .obj

def types : List String := ["rand", "str", "hex", "base64"]

/-- The noise a line asks for; a line that does not parse is dropped. -/
def parseLine (p : Platform) (raw : String) : Option JSONObject := do
  let line := raw.trimmed
  if line = "" then none
  match line.parts ':' with
  | type :: packet :: rest =>
    let type := p.lowercase type.trimmed
    if type ∉ types then none
    let packet := packet.trimmed
    if packet = "" then none
    let delay := (rest.head?.map String.trimmed).getD ""
    return item type packet delay
  | _ => none

def parse (p : Platform) (text : String) : Option JSONArray :=
  let lines := (text.parts '\n').flatMap (·.parts ';')
  let out := array (lines.filterMap (parseLine p))
  if out = [] then none else some out

def build (p : Platform) (spec : String) : Option JSONArray :=
  let text := spec.trimmed
  if text = "" ∨ text = "off" then none
  else if text = "light" then some (array [rand "10-30" "0-3"])
  else if text = "standard" then some (array [rand "50-100" "5-15", rand "50-100" "5-15"])
  else if text = "aggressive" then
    some (array [rand "200-400" "10-25", rand "200-400" "10-25", rand "200-400" "10-25"])
  else if text = "quic" then some (array [item "hex" "c00000000108" "0-5"])
  else parse p text

def buildMaskNoise (spec : String) : Option JSONArray :=
  let text := spec.trimmed
  if text = "" ∨ text = "off" then none
  else
    let lengths :=
      if text = "light" then [("10-30", "0-3")]
      else if text = "aggressive" then
        [("200-400", "10-25"), ("200-400", "10-25"), ("200-400", "10-25")]
      else [("50-100", "5-15"), ("50-100", "5-15")]
    some (lengths.map fun (r, d) => .obj (JSONObject.put [] "rand" r |>.put "delay" d))

end NoiseSpec

/-- One or more hashes, each of 64 hexadecimal digits. -/
def CertPin.isValid (pin : String) : Bool :=
  let hex (c : Char) : Bool :=
    ('0' ≤ c ∧ c ≤ '9') || ('a' ≤ c ∧ c ≤ 'f') || ('A' ≤ c ∧ c ≤ 'F')
  let parts := ((pin.parts ',').map fun s => s.trimmed.toList.filter (· ≠ ':')).filter (· ≠ [])
  parts != [] && parts.all fun s => s.length == 64 && s.all hex

variable (p : Platform)

def normalizeNetwork (n : String) : String :=
  match p.lowercase n.trimmed with
  | "" | "raw" => "tcp"
  | "mkcp" => "kcp"
  | "websocket" => "ws"
  | "h2" | "http2" => "http"
  | "splithttp" => "xhttp"
  | v => v

def csv (s : String) : List String := ((s.parts ',').map String.trimmed).filter (· ≠ "")

def csvArray (s : String) : JSONArray := (csv s).map .str

def randomLabel (label host : String) : String :=
  if host.blank then host else label ++ "." ++ host

/-- Which list of masks this one belongs in, or nothing for neither. -/
def maskSide (network type : String) : Option String :=
  if normalizeNetwork p network ∈ ["kcp", "hysteria"] then some "udp"
  else if type ∈ ["sudoku"] then some "tcp"
  else none

/-- The type of the mask and its entry, or nothing when there is none to add. -/
def maskEntry (c : ProxyConfig) : Option (String × JSONObject) := do
  let type := p.lowercase c.maskType.trimmed
  let settings ← match type with
    | "xdns" =>
      let domain := c.maskDomain.trimmed
      if domain = "" then none else some (JSONObject.put [] "domain" domain)
    | "sudoku" | "salamander" =>
      if c.maskPassword.blank then none
      else some (JSONObject.put [] "password" c.maskPassword)
    | "noise" => (NoiseSpec.buildMaskNoise "standard").map fun items =>
        JSONObject.put [] "noise" (.arr items)
    | _ => none
  return (type, JSONObject.put [] "type" type |>.put "settings" (.obj settings))

/-! ## The transport -/

def userAgent : String :=
  "Mozilla/5.0 (Windows NT 10.0; Win64; x64) AppleWebKit/537.36 (KHTML, like Gecko) " ++
    "Chrome/125.0.0.0 Safari/537.36"

def headers (c : ProxyConfig) : JSONObject :=
  JSONObject.putIf [] (c.host != "") "Host" (csvArray c.host)
    |>.put "User-Agent" (.arr [userAgent])
    |>.put "Accept-Encoding" (.arr ["gzip, deflate"])
    |>.put "Connection" (.arr ["keep-alive"])
    |>.put "Pragma" "no-cache"

/-- The settings of the transport, under the name they are put. -/
def transport (c : ProxyConfig) (net : String) : Option (String × JSONObject) :=
  let path := c.path.ifEmpty "/"
  match net with
  | "tcp" =>
    if Text.equalsIgnoreCase c.headerType "http" then
      let request := JSONObject.put [] "version" "1.1"
        |>.put "method" "GET"
        |>.put "path" (csvArray path)
        |>.put "headers" (.obj (headers c))
      some ("tcpSettings", JSONObject.put [] "header"
        (.obj (JSONObject.put [] "type" "http" |>.put "request" (.obj request))))
    else none
  | "kcp" =>
    some ("kcpSettings",
      JSONObject.put [] "header" (.obj (JSONObject.put [] "type" (c.headerType.ifEmpty "none")))
        |>.putIf (c.path != "") "seed" c.path)
  | "ws" =>
    some ("wsSettings", JSONObject.put [] "path" path
      |>.putIf (c.host != "") "headers" (.obj (JSONObject.put [] "Host" c.host)))
  | "httpupgrade" =>
    some ("httpupgradeSettings", JSONObject.put [] "path" path
      |>.putIf (c.host != "") "host" c.host)
  | "xhttp" =>
    some ("xhttpSettings", JSONObject.put [] "path" path
      |>.putIf (c.host != "") "host" c.host
      |>.putIf (c.mode != "") "mode" c.mode)
  | "grpc" =>
    some ("grpcSettings", JSONObject.put [] "serviceName" c.serviceName
      |>.put "multiMode" (decide (c.mode = "multi")))
  | "http" =>
    some ("httpSettings", JSONObject.put [] "path" path
      |>.putIf (c.host != "") "host" (csvArray c.host))
  | _ => none

def serverName (c : ProxyConfig) (label sni : String) : String :=
  if c.randomSubdomain then randomLabel label sni else sni

def realitySettings (c : ProxyConfig) (label : String) : JSONObject :=
  JSONObject.put [] "serverName" (serverName c label c.sni)
    |>.put "publicKey" c.publicKey
    |>.put "shortId" c.shortId
    |>.put "fingerprint" c.fingerprint
    |>.put "spiderX" "/"

def tlsSettings (c : ProxyConfig) (label : String) : JSONObject :=
  let baseSni := c.sni.ifEmpty ((c.host.substringBefore ',').trimmed.ifEmpty c.address)
  JSONObject.put [] "serverName" (serverName c label baseSni)
    |>.put "fingerprint" c.fingerprint
    |>.putIf (!c.cipherSuites.blank) "cipherSuites" c.cipherSuites.trimmed
    |>.putIf (CertPin.isValid c.pinnedCertSha256) "pinnedPeerCertSha256" c.pinnedCertSha256
    |>.putIf (c.alpn != "" && csv c.alpn != []) "alpn" (csvArray c.alpn)
    |>.putIf (!c.echConfigList.blank) "echConfigList" c.echConfigList.trimmed

def putSecurity (c : ProxyConfig) (label : String) (stream : JSONObject) : JSONObject :=
  match c.security with
  | "reality" => stream.put "security" "reality"
      |>.put "realitySettings" (.obj (realitySettings c label))
  | "tls" => stream.put "security" "tls" |>.put "tlsSettings" (.obj (tlsSettings c label))
  | _ => stream

def putMask (c : ProxyConfig) (net : String) (stream : JSONObject) : JSONObject :=
  match maskEntry p c with
  | none => stream
  | some (type, entry) =>
    match maskSide p net type with
    | some side => stream.put "finalmask" (.obj (JSONObject.put [] side (.arr [.obj entry])))
    | none => stream

def buildStream (c : ProxyConfig) (label : String) : JSONObject :=
  let net := normalizeNetwork p c.network
  let stream := JSONObject.put [] "network" net
  let stream := match transport c net with
    | some (key, settings) => stream.put key (.obj settings)
    | none => stream
  putMask p c net (putSecurity c label stream)

/-! ## The outbounds -/

def servers (server : JSONObject) : JSONObject := JSONObject.put [] "servers" (.arr [.obj server])

/-- An engine that publishes a local proxy is dialled there. -/
def localSocks (port : Int) : JSONObject :=
  JSONObject.put [] "tag" "proxy"
    |>.put "protocol" "socks"
    |>.put "settings" (.obj (servers
      (JSONObject.put [] "address" "127.0.0.1" |>.put "port" port)))

def torSocksPort : Int := 9150
def torBridgePort : Int := 10627

def buildTor : JSONObject := localSocks torSocksPort

def buildPsiphon : JSONObject := localSocks p.psiphonSocksPort

def buildAether (c : ProxyConfig) : Option JSONObject := do
  let port ←
    if c.oblivionJson.blank then some 1819
    else (OblivionOptions.read p c.oblivionJson).map (·.aetherPort)
  return localSocks port

def buildHysteria2 (c : ProxyConfig) : JSONObject :=
  let settings := JSONObject.put [] "version" (2 : Int)
    |>.put "address" c.address
    |>.put "port" c.port
  let tls := JSONObject.put [] "serverName" (c.sni.ifBlank (c.host.ifBlank c.address))
    |>.put "alpn" (csvArray (c.alpn.ifBlank "h3"))
    |>.putIf (CertPin.isValid c.pinnedCertSha256) "pinnedPeerCertSha256" c.pinnedCertSha256
  let hy := JSONObject.put [] "version" (2 : Int)
    |>.put "auth" c.password
    |>.put "udpIdleTimeout" (60 : Int)
    |>.putIf (decide (c.hyUpMbps > 0)) "up" (toString c.hyUpMbps ++ "mbps")
    |>.putIf (decide (c.hyDownMbps > 0)) "down" (toString c.hyDownMbps ++ "mbps")
  let obfs : JSONArray :=
    if c.hyObfsPassword.blank then []
    else [.obj (JSONObject.put [] "type" (c.hyObfs.ifBlank "salamander")
      |>.put "settings" (.obj (JSONObject.put [] "password" c.hyObfsPassword)))]
  let udpMasks : JSONArray := obfs ++ ((maskEntry p c).map fun m => Json.obj m.2).toList
  let stream := JSONObject.put [] "network" "hysteria"
    |>.put "security" "tls"
    |>.put "tlsSettings" (.obj tls)
    |>.put "hysteriaSettings" (.obj hy)
    |>.putIf (!udpMasks.isEmpty) "finalmask" (.obj (JSONObject.put [] "udp" (.arr udpMasks)))
  JSONObject.put [] "tag" "proxy"
    |>.put "protocol" "hysteria"
    |>.put "settings" (.obj settings)
    |>.put "streamSettings" (.obj stream)

def buildWireguard (c : ProxyConfig) : JSONObject :=
  let isWarpHost := Text.equalsIgnoreCase c.address "engage.cloudflareclient.com"
  let epAddress := if isWarpHost then "162.159.192.1" else c.address
  let epPort : Int := if isWarpHost then 2408 else c.port
  let peer := JSONObject.put [] "publicKey" c.publicKey
    |>.put "endpoint" (epAddress ++ ":" ++ toString epPort)
    |>.put "allowedIPs" (.arr ["0.0.0.0/0", "::/0"])
    |>.put "keepAlive" (25 : Int)
    |>.putIf (!c.password.blank) "preSharedKey" c.password
  let reserved := ((c.reserved.parts ',').map String.trimmed).filterMap Text.toIntOrNull
  let settings := JSONObject.put [] "secretKey" c.privateKey
    |>.put "address" (csvArray c.localAddress)
    |>.put "peers" (.arr [.obj peer])
    |>.putIf (decide (c.mtu > 0)) "mtu" c.mtu
    |>.put "noKernelTun" true
    |>.put "domainStrategy" "ForceIP"
    |>.putIf (reserved.length == 3) "reserved" (.arr (reserved.map fun n => (n : Json)))
  JSONObject.put [] "tag" "proxy"
    |>.put "protocol" "wireguard"
    |>.put "settings" (.obj settings)

/-- The user of a server of the VLESS and VMess kinds. -/
def vnextUser (c : ProxyConfig) : JSONObject :=
  let user := JSONObject.put [] "id" c.uuid
  if c.protocol = "vless" then
    user.put "encryption" c.encryption |>.putIf (c.flow != "") "flow" c.flow
  else
    user.put "alterId" c.alterId |>.put "security" (c.encryption.ifEmpty "auto")

def outboundSettings (c : ProxyConfig) : JSONObject :=
  let server := JSONObject.put [] "address" c.address |>.put "port" c.port
  match c.protocol with
  | "vless" | "vmess" =>
    JSONObject.put [] "vnext" (.arr [.obj (server.put "users" (.arr [.obj (vnextUser c)]))])
  | "trojan" =>
    servers (server.put "password" c.password |>.putIf (c.flow != "") "flow" c.flow)
  | "shadowsocks" => servers (server.put "method" c.method |>.put "password" c.password)
  | "http" | "socks" =>
    servers (server.putIf (c.uuid != "" || c.password != "") "users"
      (.arr [.obj (JSONObject.put [] "user" c.uuid |>.put "pass" c.password)]))
  | _ => []

/-- Whether the outbound of this one is Aether's; nothing where its settings are unreadable. -/
def dialsAether (c : ProxyConfig) : Option Bool :=
  if c.protocol = "aether" then some true
  else if c.protocol = "psiphon" then
    (OblivionOptions.read p c.oblivionJson).map fun o => !o.psiphon
  else some false

def buildOutbound (c : ProxyConfig) (label : String) : Option JSONObject := do
  if c.protocol = "wireguard" then return buildWireguard c
  if ← dialsAether p c then return ← buildAether p c
  if c.protocol = "psiphon" then return buildPsiphon p
  if c.protocol = "hysteria2" then return buildHysteria2 p c
  if c.protocol = "tor" then return buildTor
  return JSONObject.put [] "tag" "proxy"
    |>.put "protocol" c.protocol
    |>.put "settings" (.obj (outboundSettings c))
    |>.put "streamSettings" (.obj (buildStream p c label))

/-! ## The parts of the whole -/

/-- What a caller passes for each parameter, with the source's default where it passes none. -/
structure Options where
  fragment : Bool := false
  splitRouting : Bool := false
  sniffing : Bool := false
  sniffTypes : List String := ["http", "tls", "quic"]
  fragmentPackets : String := "tlshello"
  fragmentLength : String := "10-20"
  fragmentInterval : String := "10-20"
  mux : Bool := false
  muxConcurrency : Int := 8
  adBlock : Bool := false
  directOnly : Bool := false
  fakeDns : Bool := false
  encryptedDns : Bool := false
  customDns : String := ""
  youtubeDirect : Bool := false
  noiseSpec : String := ""
  torBase : Option ProxyConfig := none
  chainBase : Option ProxyConfig := none
  onionRouting : Bool := false
  coreLogLevel : String := "warning"
  shareOnLan : Bool := false
  shareUser : String := ""
  sharePass : String := ""
  shareListenAddress : String := "127.0.0.1"
  deriving DecidableEq

namespace Options

variable (o : Options) (c : ProxyConfig)

def onion : Bool := o.onionRouting && c.protocol != "tor"

def fake : Bool := o.fakeDns || o.onion c

def chosenDns : String := o.customDns.trimmed

def dnsOn : Bool := o.fake c || o.encryptedDns || o.chosenDns != ""

def shareAuthed : Bool := o.shareOnLan && !o.shareUser.blank && !o.sharePass.blank

def chained : Bool := o.chainBase.any fun b => b.id != c.id

def torBased : Bool := c.protocol == "tor" && o.torBase.isSome

end Options

def dns (o : Options) (c : ProxyConfig) : JSONObject :=
  let servers : List String :=
    (if o.fake c then ["fakedns"] else []) ++
    (if o.chosenDns != "" then [o.chosenDns] else []) ++
    (if o.encryptedDns then ["https://1.1.1.1/dns-query", "https://8.8.8.8/dns-query"] else []) ++
    ["1.1.1.1", "8.8.8.8"]
  JSONObject.put [] "servers" (.arr (servers.map .str)) |>.put "queryStrategy" "UseIPv4"

def expandSniffTypes (types : List String) : List String :=
  let out := types.flatMap fun t =>
    if t = "fakedns+others" then ["fakedns", "http", "tls", "quic"] else [t]
  let out := out.foldl (fun l t => if t ∈ l then l else l ++ [t]) []
  if out = [] then ["http", "tls"] else out

def tunIn (o : Options) (c : ProxyConfig) : JSONObject :=
  let types := if o.sniffing then expandSniffTypes o.sniffTypes else ["http", "tls", "quic"]
  let destOverride := types ++
    (if o.fake c ∧ "fakedns" ∉ types then ["fakedns"] else []) ++
    (if o.adBlock then ["http", "tls", "quic"].filter (· ∉ types) else [])
  JSONObject.put [] "tag" "tun-in"
    |>.put "port" (0 : Int)
    |>.put "protocol" "tun"
    |>.put "settings" (.obj (JSONObject.put [] "name" "xray0" |>.put "MTU" (1500 : Int)))
    |>.putIf (o.splitRouting || o.sniffing || o.adBlock || o.fake c) "sniffing"
      (.obj (JSONObject.put [] "enabled" true
        |>.put "destOverride" (.arr (destOverride.map .str))
        |>.put "routeOnly" (!o.adBlock && o.splitRouting && !o.sniffing)))

/-- The one account of a shared inbound. -/
def accounts (o : Options) : Json :=
  .arr [.obj (JSONObject.put [] "user" o.shareUser |>.put "pass" o.sharePass)]

def socksIn (o : Options) : JSONObject :=
  let settings := JSONObject.put [] "udp" true
    |>.putIf o.shareAuthed "auth" "password"
    |>.putIf o.shareAuthed "accounts" (accounts o)
  JSONObject.put [] "tag" "socks-in"
    |>.put "port" p.mixedPort
    |>.put "listen" (if o.shareAuthed then o.shareListenAddress else "127.0.0.1")
    |>.put "protocol" "socks"
    |>.put "settings" (.obj settings)
    |>.putIf (o.splitRouting || o.sniffing || o.adBlock) "sniffing"
      (.obj (JSONObject.put [] "enabled" true
        |>.put "destOverride" (.arr ["http", "tls", "quic"])
        |>.put "routeOnly" false))

def httpShareIn (o : Options) : JSONObject :=
  JSONObject.put [] "tag" "http-share-in"
    |>.put "port" p.httpSharePort
    |>.put "listen" o.shareListenAddress
    |>.put "protocol" "http"
    |>.put "settings" (.obj (JSONObject.put [] "accounts" (accounts o)))

def torIn : JSONObject :=
  JSONObject.put [] "tag" "tor-in"
    |>.put "port" torBridgePort
    |>.put "listen" "127.0.0.1"
    |>.put "protocol" "socks"
    |>.put "settings" (.obj (JSONObject.put [] "udp" false))

/-- A list of at most one, there where the condition holds. -/
def only (b : Bool) (o : JSONObject) : JSONArray := if b then [.obj o] else []

def inbounds (o : Options) (c : ProxyConfig) : JSONArray :=
  [.obj (tunIn o c), .obj (socksIn p o)] ++
    only o.shareAuthed (httpShareIn p o) ++
    only (c.protocol == "tor" || o.onion c) torIn

/-- Sends an outbound's own connections through another one. -/
def dialThrough (out : JSONObject) (tag : String) : JSONObject :=
  let stream := (out.optJSONObject "streamSettings").getD []
  out.put "streamSettings" (.obj (stream.put "sockopt"
    (.obj (JSONObject.put [] "dialerProxy" tag))))

/-- The outbound of the server itself, with what stands in front of it. -/
def proxyOut (o : Options) (c : ProxyConfig) (built : JSONObject) : JSONObject :=
  let out :=
    if o.chained c then dialThrough built "chain"
    else if o.fragment ∧ (built.optJSONObject "streamSettings").isSome then
      dialThrough built "fragment"
    else built
  out.putIf o.mux "mux" (.obj (JSONObject.put [] "enabled" true
    |>.put "concurrency" (max 1 (min o.muxConcurrency 128) : Int)))

def fragmentOut (o : Options) : JSONObject :=
  JSONObject.put [] "tag" "fragment"
    |>.put "protocol" "freedom"
    |>.put "settings" (.obj (JSONObject.put [] "fragment" (.obj
      (JSONObject.put [] "packets" (o.fragmentPackets.ifBlank "tlshello")
        |>.put "length" (o.fragmentLength.ifBlank "10-20")
        |>.put "interval" (o.fragmentInterval.ifBlank "10-20")))))

def directOut (o : Options) : JSONObject :=
  let direct := JSONObject.put [] "tag" "direct" |>.put "protocol" "freedom"
  match NoiseSpec.build p o.noiseSpec with
  | some noises => direct.put "settings" (.obj (JSONObject.put [] "noises" (.arr noises)))
  | none => direct

def freedomOut : JSONObject :=
  JSONObject.put [] "tag" "proxy"
    |>.put "protocol" "freedom"
    |>.put "settings" (.obj (JSONObject.put [] "domainStrategy" "UseIP"))

def torOut : JSONObject :=
  JSONObject.put [] "tag" "tor-out"
    |>.put "protocol" "socks"
    |>.put "settings" (.obj (servers
      (JSONObject.put [] "address" "127.0.0.1" |>.put "port" torSocksPort)))

/-- The outbound of a base, where there is one. -/
def baseOut (base : Option ProxyConfig) (label tag : String) : Option JSONArray :=
  match base with
  | none => some []
  | some b => (buildOutbound p b label).map fun out => [.obj (out.put "tag" tag)]

def outbounds (o : Options) (c : ProxyConfig) (draw : Labels) : Option JSONArray := do
  let built ← buildOutbound p c draw.proxy
  let main := if o.directOnly then freedomOut else proxyOut o c built
  let torbase ← baseOut p (if c.protocol = "tor" then o.torBase else none) draw.torbase "torbase"
  let chain ← baseOut p (if o.chained c then o.chainBase else none) draw.chain "chain"
  return [.obj main] ++
    only o.fragment (fragmentOut o) ++
    [.obj (directOut p o),
      .obj (JSONObject.put [] "tag" "block" |>.put "protocol" "blackhole")] ++
    only (o.onion c) torOut ++ torbase ++ chain ++
    only (o.dnsOn c) (JSONObject.put [] "tag" "dns-out" |>.put "protocol" "dns")

/-! ## Routing -/

def field : JSONObject := JSONObject.put [] "type" "field"

def shareRules : JSONArray :=
  let shared : Json := .arr ["socks-in", "http-share-in"]
  [.obj (field.put "inboundTag" shared |>.put "ip" (.arr ["geoip:private"])
      |>.put "outboundTag" "block"),
    .obj (field.put "inboundTag" shared |>.put "outboundTag" "proxy")]

def dnsRules (hosts : Hosts) : JSONArray :=
  [.obj (field.put "port" (53 : Int) |>.put "outboundTag" "dns-out"),
    .obj (field.put "domain" (.arr (hosts.doh.map fun h => .str ("domain:" ++ h)))
      |>.put "outboundTag" "block")]

def adRules (hosts : Hosts) : JSONArray :=
  let domains := ["geosite:category-ads-all", "geosite:ads"] ++ hosts.ads.map ("domain:" ++ ·)
  [.obj (field.put "domain" (.arr (domains.map .str)) |>.put "outboundTag" "block"),
    .obj (field.put "network" "udp" |>.put "port" "443" |>.put "outboundTag" "block")]

def youtubeRule : JSONObject :=
  field.put "domain" (.arr ["geosite:youtube", "domain:youtube.com", "domain:youtu.be",
      "domain:ytimg.com", "domain:googlevideo.com", "domain:youtube-nocookie.com",
      "domain:yt3.ggpht.com"])
    |>.put "outboundTag" "direct"

def splitRules : JSONArray :=
  [.obj (field.put "ip" (.arr ["geoip:private", "geoip:ir"]) |>.put "outboundTag" "direct"),
    .obj (field.put "domain" (.arr ["geosite:category-ir"]) |>.put "outboundTag" "direct")]

def rules (hosts : Hosts) (o : Options) (c : ProxyConfig) : JSONArray :=
  let proxied : JSONArray :=
    ["tun-in", "socks-in"] ++ if o.shareAuthed then ["http-share-in"] else []
  (if o.shareAuthed then shareRules else []) ++
    only (o.onion c) (field.put "domain" (.arr ["regexp:\\.onion$"])
      |>.put "outboundTag" "tor-out") ++
    only (o.torBased c) (field.put "inboundTag" (.arr ["tor-in"])
      |>.put "outboundTag" "torbase") ++
    (if o.dnsOn c then dnsRules hosts else []) ++
    (if o.adBlock then adRules hosts else []) ++
    only o.youtubeDirect youtubeRule ++
    (if o.splitRouting then splitRules else []) ++
    [.obj (field.put "inboundTag" (.arr proxied) |>.put "outboundTag" "proxy")]

/-! ## The whole -/

/-- The root object around the outbounds. -/
def root (hosts : Hosts) (o : Options) (c : ProxyConfig) (outbounds : JSONArray) : JSONObject :=
  JSONObject.put [] "log"
      (.obj (JSONObject.put [] "loglevel" (o.coreLogLevel.ifBlank "warning")))
    |>.putIf (o.fake c) "fakedns" (.arr [.obj (JSONObject.put [] "ipPool" "198.18.0.0/15"
      |>.put "poolSize" (65535 : Int))])
    |>.putIf (o.dnsOn c) "dns" (.obj (dns o c))
    |>.put "stats" (.obj [])
    |>.put "policy" (.obj (JSONObject.put [] "system" (.obj
      (JSONObject.put [] "statsOutboundUplink" true |>.put "statsOutboundDownlink" true))))
    |>.put "inbounds" (.arr (inbounds p o c))
    |>.put "outbounds" (.arr outbounds)
    |>.put "routing" (.obj (JSONObject.put [] "domainStrategy" "AsIs"
      |>.put "rules" (.arr (rules hosts o c))))

def build (hosts : Hosts) (c : ProxyConfig) (o : Options) (draw : Labels) : Option JSONObject :=
  (outbounds p o c draw).map (root p hosts o c)

end Ghajar.ConfigBuilder
