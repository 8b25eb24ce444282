import Mathlib
import Ghajar.Config.Codec
import Ghajar.Config.FormLinks

/-!
# What the forms keep

`entered` is the profile that holds each text where it belongs, and `Kept` says of a profile that it
is this one and that no number was typed as something else.
-/

namespace Ghajar.ProtocolForms

open Ghajar ShareLink LinkParsers

section Entered

variable (v : Values)

/-- A text that a number can hold. -/
def IsNumber (t : Chars) : Prop := (toIntOrNull t).isSome

instance (t : Chars) : Decidable (IsNumber t) := inferInstanceAs (Decidable (_ = true))

def number (t : Chars) : Int := (toIntOrNull t).getD 0

/-- The texts that are typed for a number. A range of ports begins with one. -/
def Form.numbers : Form → List Chars
  | .openconnect => [typed v "port", typed v "mtu", typed v "reconnect"]
  | .sstp | .softether | .masque => [typed v "port", typed v "mtu"]
  | .ssh | .tuic | .hysteria2 | .anytls | .naive => [typed v "port"]
  | .wireguard => [typed v "mtu", afterLast ':' (typed v "endpoint")]
  | .mieru => [before '-' (typed v "port")]
  | .tailscale | .tailcat | .tor => []

def putTyped (o : JSONObject) (key : String) (t : Chars) : JSONObject :=
  if t = [] then o else o.put key (text t)

namespace Entered

variable (e : Env)

def openconnectExtra : JSONObject :=
  let x := putTyped [] "authGroup" (typed v "authgroup")
  let x := putTyped x "reportedOs" (typed v "os")
  let x := putTyped x "userAgent" (typed v "ua")
  let x := if typed v "reconnect" = [] then x
    else x.put "reconnect" (number (typed v "reconnect"))
  let x := (x.putIf (on v "nodtls") "noUdp" true).putIf (on v "noipv6") "ipv6Off" true
  putTyped (putTyped x "clientCert" (typed v "cert")) "clientKey" (typed v "key")

def openconnect : ProxyConfig :=
  { name := text (trim (Form.nameOf v .openconnect))
    protocol := "openconnect"
    address := text (typed v "server")
    port := number (typed v "port")
    uuid := text (raw v "user")
    password := text (raw v "pass")
    mode := text (typed v "flavor")
    sni := text (typed v "sni")
    pinnedCertSha256 := text (typed v "pin")
    allowInsecure := on v "insecure"
    mtu := number (typed v "mtu")
    extra := if openconnectExtra v = [] then "" else (Json.obj (openconnectExtra v)).print
    id := e.fresh }

def sstp : ProxyConfig :=
  { name := text (trim (Form.nameOf v .sstp))
    protocol := "sstp"
    address := text (typed v "server")
    port := number (typed v "port")
    uuid := text (raw v "user")
    password := text (raw v "pass")
    sni := text (typed v "sni")
    method := text (typed v "auth")
    allowInsecure := on v "insecure"
    pinnedCertSha256 := text (typed v "pin")
    security := "tls"
    mtu := number (typed v "mtu")
    id := e.fresh }

def softetherExtra : JSONObject :=
  let x := (JSONObject.put [] "hub" (text (typed v "hub"))).putIf (on v "plain") "plain" true
  putTyped (putTyped (putTyped x "ip" (typed v "ip")) "gw" (typed v "gw")) "dns" (typed v "dns")

def softether : ProxyConfig :=
  { name := text (trim (Form.nameOf v .softether))
    protocol := "softether"
    address := text (typed v "server")
    port := number (typed v "port")
    uuid := text (raw v "user")
    password := text (raw v "pass")
    sni := text (typed v "sni")
    allowInsecure := on v "insecure"
    pinnedCertSha256 := text (typed v "pin")
    security := "tls"
    mtu := number (typed v "mtu")
    extra := (Json.obj (softetherExtra v)).print
    id := e.fresh }

/-- What a profile of WireGuard has no field for. -/
def obfuscates : Bool := obfuscated.any fun o => typed v o.1 ≠ [] ∧ typed v o.1 ≠ ['0']

/-- The lines of the configuration and what the reader is to find in them. -/
def wireguardRows : List (Chars × Awg.Line) :=
  let row (label key : String) (value : Chars) : Chars × Awg.Line :=
    (label.toList ++ " = ".toList ++ value, .entry key.toList (trim value))
  let rowOf (field label key : String) : List (Chars × Awg.Line) :=
    if isBlank (raw v field) then [] else [row label key (typed v field)]
  [("[Interface]".toList, .header .interface), row "PrivateKey" "privatekey" (typed v "privkey"),
    row "Address" "address" (typed v "address")] ++ rowOf "dns" "DNS" "dns" ++
    rowOf "mtu" "MTU" "mtu" ++ (obfuscated.flatMap fun o => rowOf o.1 o.2 o.1) ++
    [("[Peer]".toList, .header .peer), row "PublicKey" "publickey" (typed v "peerkey")] ++
    rowOf "psk" "PresharedKey" "presharedkey" ++
    [row "AllowedIPs" "allowedips" (ShareLink.ifBlank (raw v "allowed") "0.0.0.0/0, ::/0".toList),
      row "Endpoint" "endpoint" (typed v "endpoint")]

/-- The profile for the host and the port of the endpoint. -/
def wireguard (host : Chars) (port : Int) : ProxyConfig :=
  { name := text (Form.nameOf v .wireguard)
    protocol := if obfuscates v then "amneziawg" else "wireguard"
    address := text host
    port
    privateKey := text (typed v "privkey")
    publicKey := text (typed v "peerkey")
    password := if obfuscates v then "" else text (typed v "psk")
    localAddress := text (typed v "address")
    mtu := number (typed v "mtu")
    extra := if obfuscates v then
      (Json.obj (JSONObject.put [] "conf" (text (trim (wireguardConf v))))).print else ""
    id := e.fresh }

/-- The port that stands for none in the text of a proxy. -/
def proxyDefault : Int :=
  let mode := text (typed v "mode")
  if mode == "https-proxy" || Npv.contains "tls" mode || mode == "wss" then 443 else 80

def sshTransport (host : Chars) (port : Int) : JSONObject :=
  let t := JSONObject.put [] "mode" (text (typed v "mode"))
  let t := if typed v "proxy" = [] then t
    else (t.put "proxyHost" (text host)).put "proxyPort" port
  let t := putTyped t "sni" (typed v "sni")
  let t := if (mode v).startsWith "payload" then putTyped t "payload" (raw v "payload") else t
  if mode v = "ws" ∨ mode v = "wss" then
    putTyped (putTyped t "wsPath" (typed v "wspath")) "wsHost" (typed v "wshost")
  else t

/-- The profile for the host and the port of the proxy. -/
def ssh (host : Chars) (port : Int) : ProxyConfig :=
  { name := text (trim (Form.nameOf v .ssh))
    protocol := "ssh"
    address := text (typed v "server")
    port := number (typed v "port")
    uuid := text (raw v "user")
    password := text (raw v "pass")
    privateKey := text (raw v "pk")
    publicKey := text (typed v "hostkey")
    extra := if mode v = "direct" then ""
      else (Json.obj (JSONObject.put [] "transport" (sshTransport v host port))).print
    id := e.fresh }

def tuic : ProxyConfig :=
  { name := text (trim (Form.nameOf v .tuic))
    protocol := "tuic"
    address := text (typed v "server")
    port := number (typed v "port")
    uuid := text (raw v "uuid")
    password := text (raw v "pass")
    sni := text (typed v "sni")
    alpn := text (typed v "alpn")
    security := "tls"
    method := text (typed v "cc")
    allowInsecure := on v "insecure"
    id := e.fresh }

def hysteria2 : ProxyConfig :=
  { name := text (trim (Form.nameOf v .hysteria2))
    protocol := "hysteria2"
    address := text (typed v "server")
    port := number (typed v "port")
    password := text (raw v "pass")
    sni := text (typed v "sni")
    security := "tls"
    hyObfs := if typed v "obfs" = [] then "" else "salamander"
    hyObfsPassword := text (typed v "obfs")
    allowInsecure := on v "insecure"
    id := e.fresh }

def masque : ProxyConfig :=
  { name := text (trim (Form.nameOf v .masque))
    protocol := "masque"
    address := text (typed v "server")
    port := number (typed v "port")
    uuid := text (raw v "user")
    password := text (raw v "pass")
    mode := text (typed v "version")
    path := text (typed v "path")
    sni := text (typed v "sni")
    alpn := text (typed v "alpn")
    fingerprint := text (typed v "fp")
    pinnedCertSha256 := text (typed v "pin")
    security := "tls"
    allowInsecure := on v "insecure"
    mtu := number (typed v "mtu")
    id := e.fresh }

/-- The address is the host of the control server. -/
def tailscale : ProxyConfig :=
  { name := text (trim (Form.nameOf v .tailscale))
    protocol := "tailscale"
    address := text (removeBrackets (controlHost v e))
    port := 443
    password := text (typed v "pass")
    host := text (typed v "control")
    path := text (typed v "exit")
    sni := text (typed v "hostname")
    headerType := ",".intercalate (tailscaleFlags v)
    id := e.fresh }

def tailcat : ProxyConfig :=
  { name := text (trim (Form.nameOf v .tailcat))
    protocol := "tailcat"
    address := "tailcat.dev"
    port := 443
    publicKey := text (typed v "pubkey")
    uuid := text (typed v "disco")
    password := text (typed v "psk")
    privateKey := text (typed v "privkey")
    host := text (typed v "derp")
    mode := text (typed v "region")
    id := e.fresh }

def anytls : ProxyConfig :=
  { name := text (trim (Form.nameOf v .anytls))
    protocol := "anytls"
    address := text (typed v "server")
    port := number (typed v "port")
    password := text (raw v "pass")
    sni := text (typed v "sni")
    security := "tls"
    fingerprint := ""
    allowInsecure := on v "insecure"
    id := e.fresh }

/-- The server is its name to TLS, too. -/
def naive : ProxyConfig :=
  { name := text (trim (Form.nameOf v .naive))
    protocol := "naive"
    address := text (typed v "server")
    port := number (typed v "port")
    uuid := text (raw v "user")
    password := text (raw v "pass")
    sni := text (typed v "server")
    mode := if on v "quic" then "quic" else "https"
    security := "tls"
    id := e.fresh }

/-- The address of a link to Mieru, where user, secret, ports and transport stand. -/
def mieruUrl : Chars :=
  "mierus://".toList ++ (userInfo (raw v "user") (raw v "pass") ++ typed v "server") ++
    query (mieruQuery v)

def mieru : ProxyConfig :=
  { name := text (trim (Form.nameOf v .mieru))
    protocol := "mieru"
    address := text (typed v "server")
    port := number (before '-' (typed v "port"))
    uuid := text (raw v "user")
    extra := (Json.obj (JSONObject.put [] "url" (text (mieruUrl v)))).print
    id := e.fresh }

end Entered

/-- Host and port that a text stands for, the host in brackets or not. -/
def StandsFor (t host : Chars) (port : Int) : Prop :=
  ∃ p, toInt p = some port ∧ (t = host ++ ':' :: p ∨ t = '[' :: host ++ ']' :: ':' :: p)

/-- A proxy may be written without a port. -/
def ProxyFor (t host : Chars) (port fallback : Int) : Prop :=
  StandsFor t host port ∨ (port = fallback ∧ (t = host ∨ t = '[' :: host ++ [']']))

/-- The lines of a configuration and what each of them is to the reader. -/
def rows (t : Chars) : List (Chars × Awg.Line) :=
  (Awg.ConfigParser.lines t).map fun l => (l, Awg.ConfigParser.readLine l)

variable (e : Env) (c : ProxyConfig)

/-- The profile holds each text where it belongs. Of plain WireGuard there is no place for DNS
servers and allowed addresses, with obfuscation all lines are handed over. Bridges have no fields. -/
def Holds : Form → Prop
  | .openconnect => c = Entered.openconnect v e
  | .sstp => c = Entered.sstp v e
  | .softether => c = Entered.softether v e
  | .wireguard => ∃ host port, StandsFor (typed v "endpoint") host port ∧
    c = Entered.wireguard v e host port ∧
    if Entered.obfuscates v then rows (trim (wireguardConf v)) = Entered.wireguardRows v
    else typed v "dns" = [] ∧ raw v "allowed" = "0.0.0.0/0, ::/0".toList
  | .ssh => ∃ host port, (mode v ≠ "direct" → typed v "proxy" ≠ [] →
    ProxyFor (typed v "proxy") host port (Entered.proxyDefault v)) ∧ c = Entered.ssh v e host port
  | .tuic => c = Entered.tuic v e
  | .hysteria2 => c = Entered.hysteria2 v e
  | .masque => c = Entered.masque v e
  | .tailscale => c = Entered.tailscale v e
  | .tailcat => c = Entered.tailcat v e
  | .anytls => c = Entered.anytls v e
  | .naive => c = Entered.naive v e
  | .mieru => c = Entered.mieru v e
  | .tor => False

/-- What was typed is kept, and what was typed for a number is one. -/
def Kept (f : Form) : Prop := Holds v e c f ∧ ∀ t ∈ f.numbers v, t = [] ∨ IsNumber t

end Entered

/-- Server and port are read as they are written. -/
structure ServerRead (v : Values) : Prop where
  chars : Unseparated (typed v "server")
  host : Host (typed v "server")
  port : IsNumber (typed v "port")

/-- No text, or a number that is taken over: within bounds, or the one that stands for none. -/
def Bounded (lo hi : Int) (t : Chars) : Prop :=
  t = [] ∨ ∃ n, toIntOrNull t = some n ∧ (n = 0 ∨ lo ≤ n ∧ n ≤ hi)

/-! ## Values of a query -/

section Read

variable {e : Env} {v : Values} {kv : List (String × Option Chars)} {k key : String} {t : Chars}
  {lo hi : Int}

theorem value_txt (v : Values) (key : String) :
    value (txt v key) = if typed v key = [] then none else some (typed v key) := by
  unfold txt typed raw
  cases v key with
  | none => rfl
  | some s =>
    rw [Option.map_some, value, Option.getD_some]
    by_cases hb : isBlank s.toList = true
    · rw [if_pos hb, if_pos (trim_eq_nil_iff.2 hb)]
    · rw [if_neg hb, if_neg fun h => hb (trim_eq_nil_iff.1 h)]

theorem get?_txt (hk : Names (kv.map Prod.fst)) (hm : (k, txt v key) ∈ kv) :
    (kept kv).get? k = if typed v key = [] then none else some (typed v key) := by
  rw [get?_query hk hm, value_txt]

theorem get_txt (hk : Names (kv.map Prod.fst)) (hm : (k, txt v key) ∈ kv) :
    (kept kv).get k = typed v key := by
  rw [Query.get, get?_txt hk hm]
  split
  · exact (‹typed v key = []›).symm
  · rfl

theorem value_flag (v : Values) (key : String) :
    value (flag v key) = if on v key then some ['1'] else none := by
  unfold flag
  split
  · rfl
  · rfl

theorem get?_flag (hk : Names (kv.map Prod.fst)) (hm : (k, flag v key) ∈ kv) :
    (kept kv).get? k = if on v key then some ['1'] else none := by
  rw [get?_query hk hm, value_flag]

theorem within_iff : (within lo hi (if t = [] then none else some t) = number t ∧
    (t = [] ∨ IsNumber t)) ↔ Bounded lo hi t := by
  unfold Bounded IsNumber number
  by_cases ht : t = []
  · subst ht
    exact iff_of_true ⟨rfl, .inl rfl⟩ (.inl rfl)
  rw [if_neg ht, within, Option.bind_some]
  cases hn : toIntOrNull t with
  | none => simp [ht]
  | some n =>
    simp only [ht, Option.getD_some, Option.isSome_some, or_true, and_true, false_or,
      Option.some.injEq, exists_eq_left']
    split
    · rename_i hb
      exact iff_of_true rfl (.inr hb)
    · rename_i hb
      constructor
      · exact fun h => .inl h.symm
      · exact fun h => (h.resolve_right hb).symm

end Read

/-! ## Links with a server -/

/-- The forms whose link names a server and a port behind the scheme. -/
def served : List Form :=
  [.openconnect, .sstp, .softether, .ssh, .tuic, .hysteria2, .masque, .anytls]

section Served

variable (v : Values)

/-- What stands before the server. -/
def before_server : Form → Chars
  | .tuic => enc (raw v "uuid") ++ ':' :: enc (raw v "pass") ++ ['@']
  | .hysteria2 | .anytls => enc (raw v "pass") ++ ['@']
  | _ => userInfo (raw v "user") (raw v "pass")

def queryOf : Form → List (String × Option Chars)
  | .openconnect => openconnectQuery v
  | .sstp => sstpQuery v
  | .softether => softetherQuery v
  | .ssh => sshQuery v
  | .tuic => tuicQuery v
  | .hysteria2 => hysteria2Query v
  | .masque => masqueQuery v
  | .anytls => anytlsQuery v
  | _ => []

def body (f : Form) : Chars :=
  before_server v f ++ hostPort (raw v "server") (raw v "port") ++
    (query (queryOf v f) ++ '#' :: enc (f.nameOf v))

def reading : Form → Reading
  | .openconnect | .masque => .orDefault 443
  | .ssh => .orDefault 22
  | .sstp | .softether => .filled
  | _ => .strict

variable {v} {e : Env} {f : Form} {c : ProxyConfig} {input : Values} {m : Int} {l : Chars}

/-- The names of the values. -/
def Form.names : Form → List String
  | .openconnect => ["flavor", "authgroup", "pin", "sni", "mtu", "reconnect", "ua", "os", "nodtls",
      "noipv6", "insecure"]
  | .sstp => ["auth", "sni", "pin", "mtu", "allow_insecure"]
  | .softether => ["hub", "auth", "sni", "pin", "allow_insecure", "ip", "gw", "dns", "mtu"]
  | .ssh => ["mode", "sni", "payload", "wspath", "wshost", "proxy", "hostkey", "pk"]
  | .tuic => ["congestion_control", "alpn", "sni", "allow_insecure"]
  | .hysteria2 => ["obfs", "obfs-password", "sni", "insecure"]
  | .masque => ["version", "path", "sni", "alpn", "fp", "pin", "mtu", "insecure"]
  | .anytls => ["sni", "insecure"]
  | _ => []

theorem queryOf_names (f : Form) : (queryOf v f).map Prod.fst = f.names := by
  cases f
  all_goals rfl

theorem names_query (f : Form) : Names ((queryOf v f).map Prod.fst) := by
  rw [queryOf_names]
  cases f
  all_goals exact names_of (by decide) (by decide)

theorem get?_other {key : String} (h : (f.names.all fun k => !Text.equalsIgnoreCase k key) = true) :
    (kept (queryOf v f)).get? key = none := by
  refine get?_absent key fun k hk => ?_
  rw [queryOf_names] at hk
  simpa using List.all_eq_true.1 h k hk

theorem get_other {key : String} (h : (f.names.all fun k => !Text.equalsIgnoreCase k key) = true) :
    (kept (queryOf v f)).get key = [] := by
  rw [Query.get, get?_other h]
  rfl

theorem link_eq (hf : f ∈ served) :
    link v e f = some (f.id.toList ++ ("://".toList ++ body v f)) := by
  simp only [served, List.mem_cons, List.not_mem_nil, or_false] at hf
  rcases hf with rfl | rfl | rfl | rfl | rfl | rfl | rfl | rfl
  all_goals
    simp [link, body, before_server, queryOf, authority, tail, Form.id]

theorem quiet_before : Quiet (before_server v f) := by
  have hat : Quiet ['@'] := quiet_cons (by decide) quiet_nil
  cases f
  case tuic => exact quiet_append (quiet_append quiet_enc (quiet_cons (by decide) quiet_enc)) hat
  case hysteria2 => exact quiet_append quiet_enc hat
  case anytls => exact quiet_append quiet_enc hat
  all_goals exact quiet_userInfo

/-- The values of a form are not blank. -/
def Filled (v : Values) : Prop := ∀ k s, v k = some s → s.blank = false

theorem default_not_blank {k s : String} (h : f.default? k = some s) : s.blank = false := by
  obtain ⟨d, hd, rfl⟩ := Option.map_eq_some_iff.1 h
  have hmem := List.mem_reverse.1 (List.mem_of_find?_eq_some hd)
  have hne : d.default ≠ "" := by
    have := List.find?_some hd
    simp only [ne_eq, decide_eq_true_eq] at this
    exact this.1
  have hall : ∀ f : Form, ∀ d ∈ f.fields, d.default = "" ∨ d.default.blank = false := by
    intro f
    cases f
    all_goals decide
  exact (hall f d hmem).resolve_left hne

theorem filled_values (f : Form) (input : Values) : Filled (f.values input) := by
  intro k s h
  unfold Form.values at h
  split at h
  · split at h
    · exact default_not_blank h
    · rename_i s' _ hb
      injection h with h
      rw [← h]
      simpa using hb
  · exact default_not_blank h

theorem typed_eq_nil (hv : Filled v) {k : String} : typed v k = [] ↔ raw v k = [] := by
  unfold typed raw
  rw [trim_eq_nil_iff]
  cases hk : v k with
  | none => simp [isBlank]
  | some s =>
    have hs : isBlank s.toList = false := hv k s hk
    constructor
    · intro h
      rw [Option.getD_some, hs] at h
      cases h
    · intro h
      rw [h]
      rfl

theorem typed_of_required (h : f.missing v = none) {d : Field} (hd : d ∈ f.fields)
    (hr : d.required = true) : typed v d.key ≠ [] := by
  unfold Form.missing at h
  rw [List.find?_eq_none] at h
  have := h d hd
  rw [hr, Bool.true_and, Bool.not_eq_true] at this
  intro hn
  rw [typed, trim_eq_nil_iff] at hn
  change isBlank _ = false at this
  rw [raw, this] at hn
  cases hn

theorem typed_of_default {k s : String} (h : f.default? k = some s) :
    typed (f.values input) k ≠ [] := by
  have hs : ∃ t, f.values input k = some t := by
    unfold Form.values
    split
    · split
      · exact ⟨s, h⟩
      · exact ⟨_, rfl⟩
    · exact ⟨s, h⟩
  obtain ⟨t, ht⟩ := hs
  have hb : isBlank t.toList = false := filled_values f input k t ht
  rw [typed, raw, ht, ne_eq, trim_eq_nil_iff, Option.getD_some, hb]
  decide

theorem nameOf_not_blank : isBlank (f.nameOf v) = false := by
  unfold Form.nameOf ShareLink.ifBlank
  split
  · cases f
    all_goals decide
  · simpa using ‹¬isBlank (raw v "name") = true›

/-- What a build of a form with a link comes from. -/
theorem build_link (hw : f ≠ .wireguard) (ht : f ≠ .tor) (h : build e f.id input = .ok c) :
    f.missing (f.values input) = none ∧ ∃ l c', link (f.values input) e f = some l ∧
      parse e l = some c' ∧
      c = if f = .openconnect then withCertificate e (f.values input) c' else c' := by
  unfold build at h
  rw [formOrNull_id] at h
  dsimp only at h
  cases hm : f.missing (f.values input) with
  | some d =>
    rw [hm] at h
    cases h
  | none =>
    rw [hm] at h
    refine ⟨rfl, ?_⟩
    cases f
    case wireguard => exact absurd rfl hw
    case tor => exact absurd rfl ht
    all_goals
      dsimp only at h
      split at h
      · cases h
      · rename_i hb
        obtain ⟨l, hl, hp⟩ := Option.bind_eq_some_iff.1 hb
        injection h with h
        exact ⟨l, _, hl, hp, h.symm⟩

theorem build_served (hf : f ∈ served) (h : build e f.id input = .ok c) :
    f.missing (f.values input) = none ∧ ∃ c', parserOf e f (body (f.values input) f) = some c' ∧
      c = if f = .openconnect then withCertificate e (f.values input) c' else c' := by
  have hnot : f ≠ .wireguard ∧ f ≠ .tor ∧ f ∉ [Form.naive, .mieru, .wireguard, .tor] := by
    revert hf
    cases f
    all_goals decide
  obtain ⟨hm, l, c', hl, hp, hc⟩ := build_link hnot.1 hnot.2.1 h
  rw [link_eq hf] at hl
  injection hl with hl
  have hne : body (f.values input) f ≠ [] :=
    List.append_ne_nil_of_right_ne_nil _ (List.append_ne_nil_of_right_ne_nil _ (List.cons_ne_nil _ _))
  have hclosed : Closed (body (f.values input) f) := by
    rw [body, ← List.append_assoc]
    exact closed_tail nameOf_not_blank
  rw [← hl, parse_link hnot.2.2 hne hclosed] at hp
  exact ⟨hm, c', hp, hc⟩

end Served

end Ghajar.ProtocolForms
