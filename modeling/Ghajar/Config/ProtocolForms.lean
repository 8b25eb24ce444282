import Mathlib
import Ghajar.Config.LinkParsers

/-!
# The add-server forms

`ProtocolForms`: the fields of each form that are filled in or required, the share link or the
configuration that a filled form is written as, and the profile that `ConfigParser` reads from it.
-/

namespace Ghajar.ProtocolForms

open Ghajar ShareLink LinkParsers

/-! ## Forms -/

structure Field where
  key : String
  label : String
  default : String := ""
  required : Bool := false

/-- The forms, in their order. -/
inductive Form where
  | openconnect
  | sstp
  | softether
  | wireguard
  | ssh
  | tuic
  | hysteria2
  | masque
  | tailscale
  | tailcat
  | anytls
  | naive
  | mieru
  | tor
  deriving DecidableEq

def forms : List Form :=
  [.openconnect, .sstp, .softether, .wireguard, .ssh, .tuic, .hysteria2, .masque, .tailscale,
    .tailcat, .anytls, .naive, .mieru, .tor]

def Form.id : Form → String
  | .openconnect => "openconnect"
  | .sstp => "sstp"
  | .softether => "softether"
  | .wireguard => "wireguard"
  | .ssh => "ssh"
  | .tuic => "tuic"
  | .hysteria2 => "hysteria2"
  | .masque => "masque"
  | .tailscale => "tailscale"
  | .tailcat => "tailcat"
  | .anytls => "anytls"
  | .naive => "naive"
  | .mieru => "mieru"
  | .tor => "tor"

def Form.title : Form → String
  | .openconnect => "OpenConnect"
  | .sstp => "SSTP"
  | .softether => "SoftEther"
  | .wireguard => "WireGuard / AmneziaWG"
  | .ssh => "SSH"
  | .tuic => "TUIC v5"
  | .hysteria2 => "Hysteria 2"
  | .masque => "MASQUE (CONNECT-IP)"
  | .tailscale => "Tailscale / Headscale"
  | .tailcat => "Tailcat (DERP)"
  | .anytls => "AnyTLS"
  | .naive => "NaiveProxy"
  | .mieru => "Mieru"
  | .tor => "Tor bridges"

def NAME : Field := ⟨"name", "f_name", "", false⟩
def server : Field := ⟨"server", "f_server", "", true⟩
def port (default : String) : Field := ⟨"port", "f_port", default, false⟩
def USER : Field := ⟨"user", "f_user", "", false⟩
def PASS : Field := ⟨"pass", "f_password", "", false⟩
def SNI : Field := ⟨"sni", "f_sni", "", false⟩
def PIN : Field := ⟨"pin", "f_pin", "", false⟩
def INSECURE : Field := ⟨"insecure", "f_insecure", "", false⟩
def MTU : Field := ⟨"mtu", "f_mtu", "", false⟩

def needed (f : Field) : Field := { f with required := true }

/-- A field that may be left empty. -/
def field (key label : String) (default : String := "") : Field := ⟨key, label, default, false⟩

def Form.fields : Form → List Field
  | .openconnect =>
    [NAME, server, port "443", field "flavor" "f_oc_protocol" "anyconnect", USER, PASS,
      field "authgroup" "f_oc_authgroup", PIN, SNI, MTU, field "reconnect" "f_oc_reconnect",
      field "ua" "f_oc_ua", field "os" "f_oc_os", field "cert" "f_oc_cert",
      field "key" "f_oc_key", field "nodtls" "f_oc_nodtls", field "noipv6" "f_oc_noipv6", INSECURE]
  | .sstp =>
    [NAME, server, port "443", needed USER, PASS, field "auth" "f_auth" "auto", SNI, PIN, INSECURE,
      MTU]
  | .softether =>
    [NAME, server, port "443", field "hub" "f_se_hub" "DEFAULT", needed USER, PASS,
      field "plain" "f_se_plain", SNI, PIN, INSECURE, field "ip" "f_se_ip", field "gw" "f_se_gw",
      field "dns" "f_dns", MTU]
  | .wireguard =>
    [NAME, needed (field "privkey" "f_wg_private"), needed (field "address" "f_wg_address"),
      needed (field "peerkey" "f_wg_peer"), needed (field "endpoint" "f_wg_endpoint"),
      field "psk" "f_wg_psk", field "dns" "f_dns", MTU,
      field "allowed" "f_wg_allowed" "0.0.0.0/0, ::/0", field "jc" "Jc", field "jmin" "Jmin",
      field "jmax" "Jmax", field "s1" "S1", field "s2" "S2", field "h1" "H1", field "h2" "H2",
      field "h3" "H3", field "h4" "H4"]
  | .ssh =>
    [NAME, server, port "22", needed USER, PASS, field "mode" "f_ssh_mode" "direct",
      field "sni" "f_sni",
      field "payload" "f_payload" "CONNECT [host_port] [protocol][crlf]Host: [host][crlf][crlf]",
      field "wspath" "f_ws_path" "/", field "wshost" "f_ws_host", field "proxy" "f_front_proxy",
      field "hostkey" "f_ssh_hostkey", field "pk" "f_ssh_pk"]
  | .tuic =>
    [NAME, server, port "443", needed (field "uuid" "UUID"), PASS, field "cc" "f_cc" "bbr",
      field "alpn" "ALPN" "h3", SNI, INSECURE]
  | .hysteria2 =>
    [NAME, server, port "443", needed PASS, field "obfs" "f_obfs_password", SNI, INSECURE]
  | .masque =>
    [NAME, server, port "443", USER, PASS, field "version" "f_http_version" "3",
      field "path" "f_masque_path", SNI, field "alpn" "ALPN", field "fp" "f_utls_fp", PIN, INSECURE,
      MTU]
  | .tailscale =>
    [NAME, needed (field "pass" "f_ts_authkey"), field "exit" "f_ts_exit",
      field "control" "f_ts_control", field "hostname" "f_ts_hostname",
      field "ephemeral" "f_ts_ephemeral" "1", field "routes" "f_ts_routes", field "lan" "f_ts_lan"]
  | .tailcat =>
    [NAME, needed (field "pubkey" "f_tc_pub"), needed (field "disco" "f_tc_disco"),
      field "psk" "f_tc_psk", field "privkey" "f_tc_key", field "derp" "f_tc_derp",
      field "region" "f_tc_region"]
  | .anytls => [NAME, server, port "443", needed PASS, SNI, INSECURE]
  | .naive => [NAME, server, port "443", USER, PASS, field "quic" "f_naive_quic"]
  | .mieru =>
    [NAME, server, needed (port ""), needed USER, needed PASS, field "transport" "f_transport" "TCP"]
  | .tor => [NAME, needed (field "bridges" "f_tor_bridges")]

def formOrNull (id : String) : Option Form := forms.find? fun f => f.id = id

theorem formOrNull_id (f : Form) : formOrNull f.id = some f := by
  cases f
  all_goals decide

/-! ## Values -/

/-- A map of texts. -/
abbrev Values := String → Option String

def Form.default? (f : Form) (key : String) : Option String :=
  (f.fields.reverse.find? fun d => d.default ≠ "" ∧ d.key = key).map Field.default

/-- The values that are not blank, and the defaults. -/
def Form.values (f : Form) (input : Values) (key : String) : Option String :=
  match input key with
  | some s => if s.blank then f.default? key else some s
  | none => f.default? key

/-- The first field that is required and has no value. -/
def Form.missing (f : Form) (v : Values) : Option Field :=
  f.fields.find? fun d => d.required && ((v d.key).getD "").blank

section Texts

variable (v : Values)

/-- `v[key].orEmpty()` -/
def raw (key : String) : Chars := ((v key).getD "").toList

/-- The text without the blanks around it. -/
def typed (key : String) : Chars := trim (raw v key)

def txt (key : String) : Option Chars := (v key).map String.toList

def on (key : String) : Bool := v key = some "true" ∨ v key = some "1"

/-- `if (on(key)) "1" else null` -/
def flag (key : String) : Option Chars := if on v key then some ['1'] else none

/-- The text, but for this one. -/
def otherThan (key word : String) : Option Chars :=
  (v key).bind fun s => if s = word then none else some s.toList

def base64 (cs : Chars) : Chars := Base64.encode .urlSafe false (Utf8.encode cs)

/-- The name of the profile. -/
def Form.nameOf (f : Form) : Chars := ShareLink.ifBlank (raw v "name") f.title.toList

/-! ## Links -/

/-- User, secret, host and port as most links have them. -/
def authority : Chars :=
  userInfo (raw v "user") (raw v "pass") ++ hostPort (raw v "server") (raw v "port")

def openconnectQuery : List (String × Option Chars) :=
  [("flavor", txt v "flavor"), ("authgroup", txt v "authgroup"), ("pin", txt v "pin"),
    ("sni", txt v "sni"), ("mtu", txt v "mtu"), ("reconnect", txt v "reconnect"),
    ("ua", txt v "ua"), ("os", txt v "os"), ("nodtls", flag v "nodtls"),
    ("noipv6", flag v "noipv6"), ("insecure", flag v "insecure")]

def sstpQuery : List (String × Option Chars) :=
  [("auth", otherThan v "auth" "auto"), ("sni", txt v "sni"), ("pin", txt v "pin"),
    ("mtu", txt v "mtu"), ("allow_insecure", flag v "insecure")]

def softetherQuery : List (String × Option Chars) :=
  [("hub", txt v "hub"), ("auth", if on v "plain" then some "plain".toList else none),
    ("sni", txt v "sni"), ("pin", txt v "pin"), ("allow_insecure", flag v "insecure"),
    ("ip", txt v "ip"), ("gw", txt v "gw"), ("dns", txt v "dns"), ("mtu", txt v "mtu")]

/-- The mode the form was filled in with. -/
def mode : String := (v "mode").getD ""

def sshQuery : List (String × Option Chars) :=
  [("mode", otherThan v "mode" "direct"),
    ("sni", if v "mode" ≠ some "direct" then txt v "sni" else none),
    ("payload", if (mode v).startsWith "payload" then (notBlank (txt v "payload")).map base64
      else none),
    ("wspath", if mode v = "ws" ∨ mode v = "wss" then txt v "wspath" else none),
    ("wshost", if mode v = "ws" ∨ mode v = "wss" then txt v "wshost" else none),
    ("proxy", if v "mode" ≠ some "direct" then txt v "proxy" else none),
    ("hostkey", txt v "hostkey"),
    ("pk", (v "pk").bind fun s =>
      if Npv.contains "PRIVATE KEY" s then some (base64 s.toList) else none)]

def tuicQuery : List (String × Option Chars) :=
  [("congestion_control", txt v "cc"), ("alpn", txt v "alpn"), ("sni", txt v "sni"),
    ("allow_insecure", flag v "insecure")]

def hysteria2Query : List (String × Option Chars) :=
  [("obfs", if isBlank (raw v "obfs") then none else some "salamander".toList),
    ("obfs-password", txt v "obfs"), ("sni", txt v "sni"), ("insecure", flag v "insecure")]

def anytlsQuery : List (String × Option Chars) :=
  [("sni", txt v "sni"), ("insecure", flag v "insecure")]

def masqueQuery : List (String × Option Chars) :=
  [("version", otherThan v "version" "3"), ("path", txt v "path"), ("sni", txt v "sni"),
    ("alpn", txt v "alpn"), ("fp", txt v "fp"), ("pin", txt v "pin"), ("mtu", txt v "mtu"),
    ("insecure", flag v "insecure")]

/-- The flags that are on. -/
def tailscaleFlags : List String := ["ephemeral", "routes", "lan"].filter (on v ·)

def tailscaleQuery : List (String × Option Chars) :=
  [("control", some (typed v "control")), ("exit", some (typed v "exit")),
    ("hostname", some (typed v "hostname")),
    ("flags", some (",".intercalate (tailscaleFlags v)).toList)]

/-- The host of the control server, or the one of Tailscale. -/
def controlHost (e : Env) : Chars :=
  ShareLink.ifBlank ((e.uriHost (typed v "control")).getD [])
    Tailscale.TAILSCALE_CONTROL.toList

def tailcatQuery : List (String × Option Chars) :=
  [("pub", some (typed v "pubkey")), ("disco", some (typed v "disco")), ("psk", txt v "psk"),
    ("key", txt v "privkey"), ("derp", some (typed v "derp")), ("region", txt v "region")]

def mieruQuery : List (String × Option Chars) :=
  [("port", txt v "port"), ("protocol", txt v "transport")]

/-- `"#" + enc(name)` -/
def tail (f : Form) : Chars := '#' :: enc (f.nameOf v)

/-- The link of a form that is written as one. -/
def link (e : Env) : Form → Option Chars
  | .openconnect =>
    some ("openconnect://".toList ++ authority v ++ query (openconnectQuery v) ++ tail v .openconnect)
  | .sstp => some ("sstp://".toList ++ authority v ++ query (sstpQuery v) ++ tail v .sstp)
  | .softether =>
    some ("softether://".toList ++ authority v ++ query (softetherQuery v) ++ tail v .softether)
  | .ssh => some ("ssh://".toList ++ authority v ++ query (sshQuery v) ++ tail v .ssh)
  | .tuic =>
    some ("tuic://".toList ++ (enc (raw v "uuid") ++ ':' :: enc (raw v "pass") ++ '@' ::
      hostPort (raw v "server") (raw v "port")) ++ query (tuicQuery v) ++ tail v .tuic)
  | .hysteria2 =>
    some ("hysteria2://".toList ++ (enc (raw v "pass") ++ '@' ::
      hostPort (raw v "server") (raw v "port")) ++ query (hysteria2Query v) ++ tail v .hysteria2)
  | .anytls =>
    some ("anytls://".toList ++ (enc (raw v "pass") ++ '@' ::
      hostPort (raw v "server") (raw v "port")) ++ query (anytlsQuery v) ++ tail v .anytls)
  | .masque => some ("masque://".toList ++ authority v ++ query (masqueQuery v) ++ tail v .masque)
  | .tailscale =>
    some ("tailscale://".toList ++ (enc (typed v "pass") ++ '@' :: controlHost v e) ++
      query (tailscaleQuery v) ++ tail v .tailscale)
  | .tailcat =>
    some ("tailcat://".toList ++ "tailcat.dev".toList ++ query (tailcatQuery v) ++ tail v .tailcat)
  | .naive =>
    some ((if on v "quic" then "naive+quic://" else "naive+https://").toList ++ authority v ++
      tail v .naive)
  | .mieru =>
    some ("mierus://".toList ++ (userInfo (raw v "user") (raw v "pass") ++ typed v "server") ++
      query (mieruQuery v) ++ tail v .mieru)
  | .wireguard | .tor => none

/-! ## The configuration of WireGuard -/

def line (label : String) (value : Chars) : Chars := label.toList ++ " = ".toList ++ value ++ ['\n']

/-- The line of a value, where there is one. -/
def lineOf (key label : String) : Chars :=
  if isBlank (raw v key) then [] else line label (typed v key)

/-- The values of the obfuscation and their labels. -/
def obfuscated : List (String × String) :=
  [("jc", "Jc"), ("jmin", "Jmin"), ("jmax", "Jmax"), ("s1", "S1"), ("s2", "S2"), ("h1", "H1"),
    ("h2", "H2"), ("h3", "H3"), ("h4", "H4")]

def wireguardConf : Chars :=
  "[Interface]\n".toList ++ line "PrivateKey" (typed v "privkey") ++
    line "Address" (typed v "address") ++ lineOf v "dns" "DNS" ++ lineOf v "mtu" "MTU" ++
    (obfuscated.flatMap fun o => lineOf v o.1 o.2) ++
    "[Peer]\n".toList ++ line "PublicKey" (typed v "peerkey") ++ lineOf v "psk" "PresharedKey" ++
    line "AllowedIPs" (ShareLink.ifBlank (raw v "allowed") "0.0.0.0/0, ::/0".toList) ++
    line "Endpoint" (typed v "endpoint")

end Texts

/-! ## Profiles -/

/-- Client certificate and key, which no link carries. -/
def withCertificate (e : Env) (v : Values) (c : ProxyConfig) : ProxyConfig :=
  if isBlank (raw v "cert") && isBlank (raw v "key") then c
  else
    let x : JSONObject := c.extraJson e.platform
    let x : JSONObject := match v "cert" with
      | some s => if Npv.contains "BEGIN CERTIFICATE" s then x.put "clientCert" (String.trimmed s)
        else x
      | none => x
    let x : JSONObject := match v "key" with
      | some s => if Npv.contains "PRIVATE KEY" s then x.put "clientKey" (String.trimmed s) else x
      | none => x
    { c with extra := (Json.obj x).print }

def buildWireGuard (e : Env) (v : Values) : Except String ProxyConfig :=
  match Awg.ConfigParser.parseWireguardConf (wireguardConf v) .personal e.fresh with
  | some c => .ok { c with name := text (Form.nameOf v .wireguard) }
  | none => .error "f_invalid"

/-- The profile, or the label of a field or of the failure. -/
def build (e : Env) (id : String) (input : Values) : Except String ProxyConfig :=
  match formOrNull id with
  | none => .error "f_invalid"
  | some f =>
    let v := f.values input
    match f.missing v with
    | some d => .error d.label
    | none =>
      match f with
      | .wireguard => buildWireGuard e v
      | .tor =>
        match parse e (typed v "bridges") with
        | some c => .ok { c with name := text (f.nameOf v) }
        | none => .error "f_tor_bridges"
      | f =>
        match (link v e f).bind (parse e) with
        | none => .error "f_invalid"
        | some c => .ok (if f = .openconnect then withCertificate e v c else c)

end Ghajar.ProtocolForms
