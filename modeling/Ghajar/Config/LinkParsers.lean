import Mathlib
import Ghajar.Config.AmneziaWg
import Ghajar.Config.LinkText
import Ghajar.Engine.Tailscale

/-!
# Parsers of share links

The parsers of `ConfigParser` whose links the add-server forms write. A parser gives nothing where
the source throws or refuses the profile.
-/

namespace Ghajar.LinkParsers

open Ghajar ShareLink

/-- What the parsers take from the platform: its texts, the host of a URI, and the parsers of the
schemes that no form writes. -/
structure Env where
  platform : Platform
  skip : Replaced
  /-- `java.net.URI(text).host`, nothing where it throws or there is none. -/
  uriHost : Chars → Option Chars
  other : Chars → Option ProxyConfig
  fresh : String

def text (cs : Chars) : String := String.ofList cs

def toIntOrNull (cs : Chars) : Option Int := Text.toIntOrNull (String.ofList cs)

def isOne (v : Chars) : Bool := v = ['1'] ∨ v = "true".toList

def insecure (p : Query) : Bool :=
  isOne ((p.get? "insecure").getD
    ((p.get? "allowInsecure").getD ((p.get? "allow_insecure").getD [])))

/-- A number within bounds, `0` where it is none. -/
def within (lo hi : Int) (v : Option Chars) : Int :=
  match v.bind toIntOrNull with
  | some n => if lo ≤ n ∧ n ≤ hi then n else 0
  | none => 0

/-- The part before the host. -/
def userOf (uhp : Chars) : Chars := if '@' ∈ uhp then beforeLast '@' uhp else []

def splitUserHostPort (uhp : Chars) : Option (Chars × Chars × Int) :=
  if '@' ∈ uhp then
    (splitHostPort (afterLast '@' uhp)).map fun hp => (beforeLast '@' uhp, hp.1, hp.2)
  else none

/-- The last check of most parsers. -/
def reachable (c : ProxyConfig) : Bool := !c.address.blank && 1 ≤ c.port && c.port ≤ 65535

section Parsers

variable (e : Env)

def lowercase (cs : Chars) : String := e.platform.lowercase (text cs)

def uuidOf (user : Chars) : String := text (pctDecode e.skip (before ':' user))

def passwordOf (user : Chars) : String := text (pctDecode e.skip (after ':' user))

def parseTuic (body : Chars) : Option ProxyConfig := do
  let (name, uhp, p) := splitUserUri e.skip body "TUIC".toList
  let (user, address, port) ← splitUserHostPort uhp
  let c : ProxyConfig :=
    { name := text name
      protocol := "tuic"
      address := text address
      port
      uuid := uuidOf e user
      password := if ':' ∈ user then passwordOf e user
        else text (pctDecode e.skip (p.get "password"))
      sni := text (p.get "sni")
      alpn := text (p.get "alpn")
      security := "tls"
      method := lowercase e ((p.get? "congestion_control").getD (p.get "congestion"))
      mode := lowercase e (p.get "udp_relay_mode")
      allowInsecure := insecure p
      id := e.fresh }
  if !c.uuid.blank && reachable c then some c else none

def parseAnyTls (body : Chars) : Option ProxyConfig := do
  let (name, uhp, p) := splitUserUri e.skip body "AnyTLS".toList
  let (password, address, port) ← splitUserHostPort uhp
  let c : ProxyConfig :=
    { name := text name
      protocol := "anytls"
      address := text address
      port
      password := text (pctDecode e.skip password)
      sni := text (ShareLink.ifEmpty (p.get "sni") (p.get "peer"))
      alpn := text (p.get "alpn")
      security := "tls"
      fingerprint := text (p.get "fp")
      allowInsecure := insecure p
      id := e.fresh }
  if !c.password.blank && reachable c then some c else none

def parseHysteria2 (body : Chars) : Option ProxyConfig := do
  let (name, uhp, p) := splitUserUri e.skip body "Hysteria2".toList
  let (password, address, port) ← splitUserHostPort uhp
  some
    { name := text name
      protocol := "hysteria2"
      address := text address
      port
      password := text (pctDecode e.skip password)
      sni := text (ShareLink.ifEmpty (p.get "sni") (p.get "peer"))
      host := text (p.get "host")
      alpn := text (p.get "alpn")
      security := "tls"
      hyObfs := text (p.get "obfs")
      hyObfsPassword := text (ShareLink.ifEmpty (p.get "obfs-password") (p.get "obfsParam"))
      hyUpMbps := (toIntOrNull ((p.get? "upmbps").getD (p.get "up"))).getD 0
      hyDownMbps := (toIntOrNull ((p.get? "downmbps").getD (p.get "down"))).getD 0
      allowInsecure := isOne ((p.get? "insecure").getD (p.get "allowInsecure"))
      id := e.fresh }

def parseMasque (body : Chars) : Option ProxyConfig := do
  let (name, uhp, p) := splitUserUri e.skip body "MASQUE".toList
  let (address, port) ← splitHostPortOrDefault (afterLast '@' uhp) 443
  let version := within 1 3 (p.get? "version")
  let c : ProxyConfig :=
    { name := text name
      protocol := "masque"
      address := text address
      port
      uuid := uuidOf e (userOf uhp)
      password := passwordOf e (userOf uhp)
      mode := toString (if version = 0 then 3 else version)
      path := text (pctDecode e.skip (p.get "path"))
      sni := text (p.get "sni")
      alpn := text (p.get "alpn")
      fingerprint := text (p.get "fp")
      pinnedCertSha256 := text (p.get "pin")
      security := "tls"
      allowInsecure := insecure p
      mtu := within 1280 9000 (p.get? "mtu")
      id := e.fresh }
  if reachable c then some c else none

def parseTailcat (body : Chars) : Option ProxyConfig := do
  let (name, uhp, p) := splitUserUri e.skip body "Tailcat".toList
  let derp := pctDecode e.skip (p.get "derp")
  let host := ShareLink.ifBlank (before ':' (afterLast '@' uhp))
    (ShareLink.ifBlank ((e.uriHost derp).getD []) "tailcat.dev".toList)
  let c : ProxyConfig :=
    { name := text name
      protocol := "tailcat"
      address := text host
      port := 443
      publicKey := text (pctDecode e.skip (p.get "pub"))
      uuid := text (pctDecode e.skip (p.get "disco"))
      password := text (pctDecode e.skip (p.get "psk"))
      privateKey := text (pctDecode e.skip (p.get "key"))
      host := text derp
      mode := match (p.get? "region").bind toIntOrNull with
        | some n => if n > 0 then toString n else ""
        | none => ""
      id := e.fresh }
  if !c.publicKey.blank && !c.uuid.blank then some c else none

/-- The text of a value in Base64, nothing where it is none. -/
def base64Text (raw : Chars) : Option Chars :=
  let bare := (raw.map fun c => if c = '+' then '-' else if c = '/' then '_' else c).reverse
  (Npv.decodeBase64 .urlSafe (text (bare.dropWhile (· = '=')).reverse)).map (Utf8.decode e.skip)

def notBlank (v : Option Chars) : Option Chars := v.filter fun v => !isBlank v

def putText (o : JSONObject) (key : String) (v : Option Chars) : JSONObject :=
  match notBlank v with
  | some v => o.put key (text v)
  | none => o

/-- Nothing where the address of the proxy cannot be read. -/
def sshTransportExtra (p : Query) : Option String :=
  let mode := lowercase e (p.get "mode")
  if mode.blank || mode == "direct" then some ""
  else do
    let t := JSONObject.put [] "mode" mode
    let t ← match notBlank (p.get? "proxy") with
      | none => some t
      | some v =>
        let secure : Bool := mode == "https-proxy" || Npv.contains "tls" mode || mode == "wss"
        (splitHostPortOrDefault v (if secure then 443 else 80)).map fun hp =>
          (t.put "proxyHost" (text hp.1)).put "proxyPort" hp.2
    let t := putText t "sni" (p.get? "sni")
    let t := match (notBlank (p.get? "payload")).bind (base64Text e) with
      | some v => t.put "payload" (text v)
      | none => t
    let t := putText t "wsPath" (p.get? "wspath")
    let t := putText t "wsHost" (p.get? "wshost")
    let t := putText t "ua" (p.get? "ua")
    let t := t.putIf (p.get? "wsframing" = some ['1']) "wsFraming" true
    let t := t.putIf (p.get? "verify" = some ['1']) "verify" true
    some (Json.obj (JSONObject.put [] "transport" t)).print

def parseSsh (body : Chars) : Option ProxyConfig := do
  let (name, uhp, p) := splitUserUri e.skip body "SSH".toList
  let (address, port) ← splitHostPortOrDefault (afterLast '@' uhp) 22
  let extra ← sshTransportExtra e p
  let c : ProxyConfig :=
    { name := text name
      protocol := "ssh"
      address := text address
      port
      uuid := uuidOf e (userOf uhp)
      password := passwordOf e (userOf uhp)
      privateKey := text (((notBlank (p.get? "pk")).bind (base64Text e)).getD [])
      publicKey := text (p.get "hostkey")
      extra
      id := e.fresh }
  if reachable c then some c else none

def startsWith (lower : Chars) (scheme : String) : Bool := scheme.toList.isPrefixOf lower

/-- `substringAfter("://")` -/
def afterScheme (link : Chars) : Chars :=
  match Search.index "://".toList link with
  | some i => link.drop (i + 3)
  | none => link

def parseNaive (link : Chars) : Option ProxyConfig := do
  let quic := startsWith (Awg.ConfigParser.lowercase link) "naive+quic://"
  let (name, uhp, p) := splitUserUri e.skip (afterScheme link) "NaiveProxy".toList
  let (address, port) ← splitHostPortOrDefault (afterLast '@' uhp) 443
  some
    { name := text name
      protocol := "naive"
      address := text address
      port
      uuid := uuidOf e (userOf uhp)
      password := passwordOf e (userOf uhp)
      sni := text (ShareLink.ifEmpty (p.get "sni") address)
      mode := if quic then "quic" else "https"
      security := "tls"
      id := e.fresh }

/-- The host with the port that stands for none. -/
def withPort (uhp : Chars) : Chars :=
  let hostPort := afterLast '@' uhp
  "x@".toList ++ if ':' ∈ afterLast ']' hostPort then hostPort else hostPort ++ ":443".toList

def parseSstp (body : Chars) : Option ProxyConfig := do
  let (name, uhp, p) := splitUserUri e.skip body "SSTP".toList
  let (_, address, port) ← splitUserHostPort (withPort uhp)
  let auth := Awg.ConfigParser.lowercase (p.get "auth")
  let c : ProxyConfig :=
    { name := text name
      protocol := "sstp"
      address := text address
      port
      uuid := uuidOf e (userOf uhp)
      password := passwordOf e (userOf uhp)
      sni := text (p.get "sni")
      method := if auth = "pap".toList ∨ auth = "mschapv2".toList then text auth else "auto"
      allowInsecure := insecure p
      pinnedCertSha256 := text (p.get "pin")
      security := "tls"
      mtu := within 576 1500 (p.get? "mtu")
      id := e.fresh }
  if !c.uuid.blank && reachable c then some c else none

def parseSoftEther (body : Chars) : Option ProxyConfig := do
  let (name, uhp, p) := splitUserUri e.skip body "SoftEther".toList
  let (_, address, port) ← splitUserHostPort (withPort uhp)
  let extra := JSONObject.put [] "hub" (text (ShareLink.ifBlank (p.get "hub") "DEFAULT".toList))
  let extra := extra.putIf (Text.equalsIgnoreCase (text (p.get "auth")) "plain") "plain" true
  let extra := ["ip", "gw", "dns"].foldl (fun extra k => putText extra k (p.get? k)) extra
  let c : ProxyConfig :=
    { name := text name
      protocol := "softether"
      address := text address
      port
      uuid := uuidOf e (userOf uhp)
      password := passwordOf e (userOf uhp)
      sni := text (p.get "sni")
      allowInsecure := insecure p
      pinnedCertSha256 := text (p.get "pin")
      security := "tls"
      mtu := within 576 1500 (p.get? "mtu")
      extra := (Json.obj extra).print
      id := e.fresh }
  if !c.uuid.blank && reachable c then some c else none

/-- `trim('[', ']')` -/
def trimBrackets (cs : Chars) : Chars := Awg.trim (fun c => c = '[' ∨ c = ']') cs

/-- The link as a whole, its scheme included. -/
def parseMieru (link : Chars) : Option ProxyConfig :=
  let name := ShareLink.ifEmpty (trim (formDecode e.skip (after '#' link))) "Mieru".toList
  let url := before '#' link
  let (host, port, user) : Chars × Int × String :=
    if startsWith (url.map Text.foldCase) "mierus://" then
      let (_, uhp, p) := splitUserUri e.skip (url.drop 9) "Mieru".toList
      (trimBrackets (before '/' (afterLast '@' uhp)),
        ((p.get? "port").bind fun v => toIntOrNull (before '-' v)).getD 0, uuidOf e (userOf uhp))
    else ([], 0, "")
  some
    { name := text name
      protocol := "mieru"
      address := text host
      port
      uuid := user
      extra := (Json.obj (JSONObject.put [] "url" (text url))).print
      id := e.fresh }

def parseOpenConnect (body : Chars) : Option ProxyConfig := do
  let (name, uhp, p) := splitUserUri e.skip body "OpenConnect".toList
  let (address, port) ← splitHostPortOrDefault (afterLast '@' uhp) 443
  let extra := putText [] "authGroup" (p.get? "authgroup")
  let extra := putText extra "reportedOs" (p.get? "os")
  let extra := putText extra "userAgent" (p.get? "ua")
  let extra := match (p.get? "reconnect").bind toIntOrNull with
    | some n => if n > 0 then extra.put "reconnect" n else extra
    | none => extra
  let extra := extra.putIf (p.get? "nodtls" = some ['1']) "noUdp" true
  let extra := extra.putIf (p.get? "noipv6" = some ['1']) "ipv6Off" true
  let c : ProxyConfig :=
    { name := text name
      protocol := "openconnect"
      address := text address
      port
      uuid := uuidOf e (userOf uhp)
      password := passwordOf e (userOf uhp)
      mode := (lowercase e (p.get "flavor")).ifEmpty "anyconnect"
      sni := text (p.get "sni")
      pinnedCertSha256 := text (p.get "pin")
      allowInsecure := insecure p
      mtu := within 576 9000 (p.get? "mtu")
      extra := if extra = [] then "" else (Json.obj extra).print
      id := e.fresh }
  if !c.address.blank then some c else none

def parse (uri : Chars) : Option ProxyConfig :=
  let trimmed := trim uri
  let lower := Awg.ConfigParser.lowercase trimmed
  if startsWith lower "hysteria2://" then parseHysteria2 e (trimmed.drop 12)
  else if startsWith lower "tuic://" then parseTuic e (trimmed.drop 7)
  else if startsWith lower "anytls://" then parseAnyTls e (trimmed.drop 9)
  else if startsWith lower "masque://" then parseMasque e (trimmed.drop 9)
  else if startsWith lower "tailscale://" then
    Tailscale.parseTailscale e.skip (trimmed.drop 12) .personal e.fresh
  else if startsWith lower "tailcat://" then parseTailcat e (trimmed.drop 10)
  else if startsWith lower "ssh://" then parseSsh e (trimmed.drop 6)
  else if startsWith lower "openconnect://" then parseOpenConnect e (trimmed.drop 14)
  else if startsWith lower "mieru://" || startsWith lower "mierus://" then parseMieru e trimmed
  else if startsWith lower "naive+https://" || startsWith lower "naive+quic://" ||
      startsWith lower "naive://" then parseNaive e trimmed
  else if startsWith lower "sstp://" then parseSstp e (trimmed.drop 7)
  else if startsWith lower "softether://" then parseSoftEther e (trimmed.drop 12)
  else e.other trimmed

end Parsers

end Ghajar.LinkParsers
