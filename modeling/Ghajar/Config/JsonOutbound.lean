import Mathlib
import Ghajar.Config.TextPlatform
import Ghajar.Config.Builder

/-!
# An outbound that is read again

`ConfigParser.parseJsonOutbounds` on what `ConfigBuilder.buildOutbound` builds. The two go
by transport and by security, each on its own: a path that is empty is built as a slash, a
list is read by its first entry, and `mode`, the pin and the authority of gRPC are on one
side only. `reread_iff` is the exact condition under which nothing is lost.
-/

namespace Ghajar.JsonOutbound

open Ghajar ConfigBuilder

variable (p : Platform)

/-! ## Documents -/

def objectOf : Json → Option JSONObject
  | .obj o => some o
  | _ => none

/-- `optJSONObject(0)` of an array that may be missing. -/
def first (arr : Option JSONArray) : Option JSONObject := arr.bind fun l => l.head?.bind objectOf

/-- `optString(0)` of an array that may be missing. -/
def firstString (arr : Option JSONArray) : String :=
  ((arr.bind List.head?).map Json.asString).getD ""

/-- An object that may be missing is one without fields. -/
def sub (o : JSONObject) (k : String) : JSONObject := (o.optJSONObject k).getD []

def looksLikeSingBox (root : JSONObject) : Bool :=
  (((root.optJSONArray "outbounds").or (root.optJSONArray "endpoints")).getD []).any fun v =>
    (objectOf v).any fun o => (o.opt "type").isSome && (o.opt "protocol").isNone

def collect (o : JSONObject) : List (JSONObject × String) :=
  match o.optJSONArray "outbounds" with
  | some arr =>
    let labels := ["remarks", "remark", "name", "ps", "tag"].map fun k => o.optString k
    (arr.filterMap objectOf).map (·, (labels.find? (· != "")).getD "")
  | none => [(o, "")]

/-- The outbounds of a text, with the label of what they stand in; nothing where a constructor
throws. -/
def nodes (readArray : String → Option JSONArray) (text : String) :
    Option (List (JSONObject × String)) :=
  let t := text.trimmed
  if t.toList.head? = some '[' then
    (readArray t).map fun arr => (arr.filterMap objectOf).flatMap collect
  else (p.readObject t).map collect

/-! ## An outbound -/

def normalizeHeaderType (t : String) : String :=
  let v := p.lowercase t.trimmed
  if v = "none" then "" else v

structure Server where
  address : String
  port : Int
  uuid : String := ""
  password : String := ""
  method : String := ""
  encryption : String := ""
  flow : String
  alterId : Int := 0

def server (protocol : String) (settings : JSONObject) : Option Server :=
  match protocol with
  | "vless" | "vmess" =>
    (first (settings.optJSONArray "vnext")).map fun v =>
      let u := (first (v.optJSONArray "users")).getD []
      { address := v.optString "address"
        port := optInt p v "port"
        uuid := u.optString "id"
        flow := u.optString "flow"
        alterId := optInt p u "alterId"
        encryption :=
          if protocol = "vless" then (u.optString "encryption").ifEmpty "none"
          else (u.optString "security").ifEmpty "auto" }
  | "trojan" | "shadowsocks" | "socks" | "http" =>
    (first (settings.optJSONArray "servers")).map fun v =>
      let u := first (v.optJSONArray "users")
      { address := v.optString "address"
        port := optInt p v "port"
        uuid := (u.map (·.optString "user")).getD ""
        password := (v.optString "password").ifEmpty ((u.map (·.optString "pass")).getD "")
        method := v.optString "method"
        flow := v.optString "flow" }
  | _ => none

structure Transport where
  host : String := ""
  path : String := ""
  headerType : String := ""
  serviceName : String := ""
  deriving DecidableEq

def readTransport (stream : JSONObject) (network : String) : Transport :=
  match network with
  | "tcp" =>
    let header := sub (sub stream "tcpSettings") "header"
    let req := sub header "request"
    { headerType := normalizeHeaderType p (header.optString "type")
      path := firstString (req.optJSONArray "path")
      host := firstString ((sub req "headers").optJSONArray "Host") }
  | "kcp" =>
    let kcp := sub stream "kcpSettings"
    { headerType := normalizeHeaderType p ((sub kcp "header").optString "type")
      path := kcp.optString "seed" }
  | "ws" =>
    let ws := sub stream "wsSettings"
    { path := ws.optString "path"
      host := ((sub ws "headers").optString "Host").ifEmpty (ws.optString "host") }
  | "httpupgrade" =>
    let hu := sub stream "httpupgradeSettings"
    { path := hu.optString "path", host := hu.optString "host" }
  | "xhttp" =>
    let xh := sub stream "xhttpSettings"
    { path := xh.optString "path", host := xh.optString "host" }
  | "grpc" =>
    let g := sub stream "grpcSettings"
    { serviceName := g.optString "serviceName", host := g.optString "authority" }
  | "http" =>
    let h := sub stream "httpSettings"
    { path := h.optString "path", host := firstString (h.optJSONArray "host") }
  | _ => {}

def outboundToConfig (source : ConfigSource) (id : String) (o : JSONObject)
    (parentLabel : String) : Option ProxyConfig :=
  let protocol := p.lowercase (o.optString "protocol")
  if protocol = "" ∨ protocol ∈ ["freedom", "blackhole", "dns", "tun", "loopback"] then none
  else
    let stream := sub o "streamSettings"
    let tag := o.optString "tag"
    match server p protocol (sub o "settings") with
    | none => none
    | some v =>
      if v.address = "" ∨ v.port ≤ 0 then none
      else
        let network := normalizeNetwork p ((stream.optString "network").ifEmpty "tcp")
        let security := (stream.optString "security").ifEmpty "none"
        let tls := stream.optJSONObject "tlsSettings"
        let reality := stream.optJSONObject "realitySettings"
        let sec := (tls.or reality).getD []
        let transport := readTransport p stream network
        let sni := sec.optString "serverName"
        let name :=
          if parentLabel != "" then parentLabel
          else if tag != "" && tag != "proxy" then tag
          else if sni != "" then sni
          else v.address ++ ":" ++ toString v.port
        some
          { name := name
            protocol := protocol
            address := v.address
            port := v.port
            uuid := v.uuid
            password := v.password
            method := v.method
            encryption := v.encryption
            flow := v.flow
            alterId := v.alterId
            network := network
            security := if reality.isSome then "reality" else security
            sni := sni
            alpn := ",".intercalate (((sec.optJSONArray "alpn").getD []).map Json.asString)
            host := transport.host
            path := transport.path
            headerType := transport.headerType
            serviceName := transport.serviceName
            fingerprint := (sec.optString "fingerprint").ifEmpty "chrome"
            publicKey := (reality.getD []).optString "publicKey"
            shortId := (reality.getD []).optString "shortId"
            allowInsecure := sec.optBoolean "allowInsecure"
            source := source
            id := id }

/-- `singBox` reads the documents of another program; `draw` are the ids. -/
def parseJsonOutbounds (readArray : String → Option JSONArray)
    (singBox : JSONObject → ConfigSource → List ProxyConfig) (draw : Nat → String)
    (text : String) (source : ConfigSource) : List ProxyConfig :=
  match (p.readObject text.trimmed).filter looksLikeSingBox with
  | some root => singBox root source
  | none =>
    let found := (nodes p readArray text).getD []
    (found.mapIdx fun n (o, label) => outboundToConfig p source (draw n) o label).reduceOption

/-! ## What is to come back -/

def credentials (c : ProxyConfig) : List String × Int :=
  match c.protocol with
  | "vless" => ([c.uuid, c.encryption], 0)
  | "vmess" => ([c.uuid, c.encryption], c.alterId)
  | "trojan" => ([c.password], 0)
  | _ => ([c.method, c.password], 0)

def transportOf (c : ProxyConfig) : Transport := ⟨c.host, c.path, c.headerType, c.serviceName⟩

structure Same (c d : ProxyConfig) : Prop where
  server : d.protocol = c.protocol ∧ d.address = c.address ∧ d.port = c.port
  credentials : credentials d = credentials c ∧ d.flow = c.flow
  network : d.network = c.network
  transport : transportOf d = transportOf c ∧ d.mode = c.mode
  security : d.security = c.security
  sni : d.sni = c.sni
  tls : d.alpn = c.alpn ∧ d.fingerprint = c.fingerprint
  reality : d.publicKey = c.publicKey ∧ d.shortId = c.shortId
  certificate : d.allowInsecure = c.allowInsecure ∧ d.pinnedCertSha256 = c.pinnedCertSha256

/-- A list of which the first entry is all that there is. -/
def Whole (s : String) : Prop := (csv s).head? = some s

def TransportCarried (c : ProxyConfig) : Prop :=
  match c.network with
  | "tcp" =>
    c.serviceName = "" ∧
      if c.headerType = "http" then Whole c.path ∧ (c.host ≠ "" → Whole c.host)
      else c.headerType = "" ∧ c.path = "" ∧ c.host = ""
  | "kcp" =>
    normalizeHeaderType p (c.headerType.ifEmpty "none") = c.headerType ∧
      c.host = "" ∧ c.serviceName = ""
  | "ws" | "httpupgrade" | "xhttp" => c.path ≠ "" ∧ c.headerType = "" ∧ c.serviceName = ""
  | "grpc" => c.path = "" ∧ c.host = "" ∧ c.headerType = ""
  | "http" => c.path ≠ "" ∧ (c.host ≠ "" → Whole c.host) ∧ c.headerType = "" ∧ c.serviceName = ""
  | _ => c.path = "" ∧ c.host = "" ∧ c.headerType = "" ∧ c.serviceName = ""

/-- No label is put before the name of the server. -/
def NameKept (c : ProxyConfig) : Prop := c.randomSubdomain = true → c.sni.blank = true

def SecurityCarried (c : ProxyConfig) : Prop :=
  match c.security with
  | "reality" => NameKept c ∧ c.alpn = "" ∧ c.fingerprint ≠ ""
  | "tls" =>
    c.sni ≠ "" ∧ NameKept c ∧ ",".intercalate (csv c.alpn) = c.alpn ∧ c.fingerprint ≠ "" ∧
      c.publicKey = "" ∧ c.shortId = ""
  | security =>
    security = "none" ∧ c.sni = "" ∧ c.alpn = "" ∧ c.fingerprint = "chrome" ∧
      c.publicKey = "" ∧ c.shortId = ""

structure Carried (c : ProxyConfig) : Prop where
  server : c.address ≠ "" ∧ 0 < c.port
  encryption : c.protocol ∈ ["vless", "vmess"] → c.encryption ≠ ""
  flow : c.protocol ∈ ["vmess", "shadowsocks"] → c.flow = ""
  network : normalizeNetwork p c.network = c.network
  transport : TransportCarried p c
  security : SecurityCarried c
  unread : c.mode = "" ∧ c.allowInsecure = false ∧ c.pinnedCertSha256 = ""

/-! ## What is read of what was built -/

/-- Lower case changes ASCII text as it should, and nothing the second time. -/
structure Lowers (p : Platform) : Prop where
  ascii : ∀ s : String, (∀ c ∈ s.toList, c.toNat < 128) → p.lowercase s = s.lowercase
  again : ∀ s : String, p.lowercase (p.lowercase s.trimmed).trimmed = p.lowercase s.trimmed

section Read

variable {p} {c : ProxyConfig} {label : String}

theorem Lowers.literal (hl : Lowers p) {s : String}
    (h : (s.toList.all fun c => c.toNat < 128) = true ∧ s.lowercase = s) : p.lowercase s = s :=
  (hl.ascii s fun c hc => by simpa using List.all_eq_true.1 h.1 c hc).trans h.2

theorem normalizeNetwork_known (hl : Lowers p) {n : String}
    (h : (n.toList.all fun c => c.toNat < 128) = true ∧ n.lowercase = n) (ht : n.trimmed = n)
    (hn : n ∉ ["", "raw", "mkcp", "websocket", "h2", "http2", "splithttp"]) :
    normalizeNetwork p n = n := by
  simp only [List.mem_cons, List.not_mem_nil, or_false, not_or] at hn
  unfold normalizeNetwork
  rw [ht, hl.literal h]
  split <;> first | rfl | simp_all

theorem normalizeNetwork_again (hl : Lowers p) (n : String) :
    normalizeNetwork p (normalizeNetwork p n) = normalizeNetwork p n := by
  generalize hv : normalizeNetwork p n = v
  unfold normalizeNetwork at hv
  split at hv
  case h_8 =>
    subst hv
    unfold normalizeNetwork
    rw [hl.again]
    split <;> first | rfl | simp_all
  all_goals exact hv ▸ normalizeNetwork_known hl (by decide) (by decide) (by decide)

/-! ### The stream -/

theorem putMask_opt (net : String) (o : JSONObject) {k : String} (hk : k ≠ "finalmask") :
    (putMask p c net o).opt k = o.opt k := by
  unfold putMask
  split
  · rfl
  · split
    · exact JSONObject.opt_put_ne hk.symm
    · rfl

theorem putSecurity_opt (o : JSONObject) (k : String) : (putSecurity c label o).opt k =
    if c.security = "reality" then
      if k = "realitySettings" then some (.obj (realitySettings c label))
      else if k = "security" then some (.str "reality") else o.opt k
    else if c.security = "tls" then
      if k = "tlsSettings" then some (.obj (tlsSettings c label))
      else if k = "security" then some (.str "tls") else o.opt k
    else o.opt k := by
  unfold putSecurity
  split
  case h_1 h =>
    simp only [h, if_true, JSONObject.opt_put]
    simp only [eq_comm]
  case h_2 h =>
    simp only [h, if_true, JSONObject.opt_put]
    simp only [eq_comm]
    simp
  case h_3 h1 h2 => rw [if_neg h1, if_neg h2]

/-- What is put for the transport. -/
theorem transport_key {net key : String} {o : JSONObject} (h : transport c net = some (key, o)) :
    key ∉ ["network", "security", "tlsSettings", "realitySettings", "finalmask"] := by
  unfold transport at h
  split at h
  · split at h
    · cases h
      decide
    · cases h
  all_goals cases h <;> decide

/-- The stream before security and masks. -/
def base (c : ProxyConfig) (net : String) : JSONObject :=
  match transport c net with
  | some (key, settings) => (JSONObject.put [] "network" net).put key (.obj settings)
  | none => JSONObject.put [] "network" net

theorem buildStream_eq : buildStream p c label =
    putMask p c (normalizeNetwork p c.network)
      (putSecurity c label (base c (normalizeNetwork p c.network))) := rfl

theorem base_network (net : String) : (base c net).opt "network" = some (.str net) := by
  unfold base
  split
  case h_1 key settings h =>
    have hk := transport_key h
    rw [JSONObject.opt_put_ne (by rintro rfl; exact hk (by decide)), JSONObject.opt_put_self]
  case h_2 => exact JSONObject.opt_put_self

theorem base_opt {net k : String} (hk : k ≠ "network") : (base c net).opt k =
    match transport c net with
    | some (key, settings) => if key = k then some (.obj settings) else none
    | none => none := by
  unfold base
  split
  case h_1 key settings h =>
    rw [JSONObject.opt_put, JSONObject.opt_put_ne hk.symm, JSONObject.opt_nil]
  case h_2 =>
    rw [JSONObject.opt_put_ne hk.symm, JSONObject.opt_nil]

/-- A name that security has something under is none of the transport. -/
theorem base_none {net k : String}
    (hk : k ∈ ["security", "tlsSettings", "realitySettings"]) : (base c net).opt k = none := by
  have hn : k ≠ "network" := by
    rintro rfl
    revert hk
    decide
  rw [base_opt hn]
  split
  case h_1 key settings h =>
    refine if_neg ?_
    rintro rfl
    refine transport_key h ?_
    simp only [List.mem_cons, List.not_mem_nil, or_false] at hk ⊢
    rcases hk with rfl | rfl | rfl <;> simp
  case h_2 => rfl

theorem stream_network : (buildStream p c label).optString "network" =
    normalizeNetwork p c.network := by
  rw [buildStream_eq, JSONObject.optString, putMask_opt _ _ (by decide), putSecurity_opt]
  simp [base_network, Json.asString]

theorem stream_reality : (buildStream p c label).optJSONObject "realitySettings" =
    if c.security = "reality" then some (realitySettings c label) else none := by
  rw [buildStream_eq, JSONObject.optJSONObject, putMask_opt _ _ (by decide), putSecurity_opt]
  by_cases h : c.security = "reality"
  · simp [h]
  · by_cases ht : c.security = "tls" <;> simp [h, ht, base_none]

theorem stream_tls : (buildStream p c label).optJSONObject "tlsSettings" =
    if c.security = "tls" then some (tlsSettings c label) else none := by
  rw [buildStream_eq, JSONObject.optJSONObject, putMask_opt _ _ (by decide), putSecurity_opt]
  by_cases h : c.security = "reality"
  · simp [h, base_none]
  · by_cases ht : c.security = "tls" <;> simp [h, ht, base_none]

theorem stream_security : (buildStream p c label).optString "security" =
    if c.security = "reality" ∨ c.security = "tls" then c.security else "" := by
  rw [buildStream_eq, JSONObject.optString, putMask_opt _ _ (by decide), putSecurity_opt]
  by_cases h : c.security = "reality"
  · simp [h, Json.asString]
  · by_cases ht : c.security = "tls" <;> simp [h, ht, base_none, Json.asString]

/-- The settings of a transport, as the reader finds them. -/
theorem stream_sub {k : String}
    (hk : k ∉ ["network", "security", "tlsSettings", "realitySettings", "finalmask"]) :
    sub (buildStream p c label) k =
      match transport c (normalizeNetwork p c.network) with
      | some (key, settings) => if key = k then settings else []
      | none => [] := by
  simp only [List.mem_cons, List.not_mem_nil, or_false, not_or] at hk
  rw [sub, buildStream_eq, JSONObject.optJSONObject, putMask_opt _ _ hk.2.2.2.2, putSecurity_opt]
  simp only [hk.2.1, hk.2.2.1, hk.2.2.2.1, if_false, ite_self, base_opt hk.1]
  cases transport c (normalizeNetwork p c.network) with
  | none => rfl
  | some e =>
    by_cases hkey : e.1 = k <;> simp [hkey]

/-- The transport as it comes back. -/
def built (p : Platform) (c : ProxyConfig) (net : String) : Transport :=
  let path := c.path.ifEmpty "/"
  let firstOf (s : String) : String := (csv s).head?.getD ""
  match net with
  | "tcp" =>
    if Text.equalsIgnoreCase c.headerType "http" then
      { headerType := "http", path := firstOf path, host := firstOf c.host }
    else {}
  | "kcp" => { headerType := normalizeHeaderType p (c.headerType.ifEmpty "none"), path := c.path }
  | "ws" | "httpupgrade" | "xhttp" => { path := path, host := c.host }
  | "grpc" => { serviceName := c.serviceName }
  | "http" => { path := path, host := firstOf c.host }
  | _ => {}

theorem firstString_csvArray (s : String) :
    firstString (some (csvArray s)) = (csv s).head?.getD "" := by
  unfold firstString csvArray
  cases csv s with
  | nil => rfl
  | cons a l => rfl

@[simp] theorem optString_put_self {o : JSONObject} {k s : String} :
    (o.put k (.str s)).optString k = s := by
  simp [JSONObject.optString, Json.asString]

@[simp] theorem optString_put_ne {o : JSONObject} {k k' : String} {v : Json} (h : k ≠ k') :
    (o.put k v).optString k' = o.optString k' := by
  rw [JSONObject.optString, JSONObject.opt_put_ne h, JSONObject.optString]

@[simp] theorem optString_putIf_ne {o : JSONObject} {k k' : String} {b : Bool} {v : Json}
    (h : k ≠ k') : (o.putIf b k v).optString k' = o.optString k' := by
  rw [JSONObject.optString, JSONObject.opt_putIf_ne h, JSONObject.optString]

@[simp] theorem optString_nil (k : String) : JSONObject.optString [] k = "" := rfl

/-- A text that is left out when it is empty reads as it is. -/
theorem optString_putIf {o : JSONObject} {k : String} (hk : o.opt k = none) (s : String) :
    (o.putIf (s != "") k (.str s)).optString k = s := by
  rw [JSONObject.optString, JSONObject.opt_putIf_self hk]
  by_cases h : s = "" <;> simp [h, Json.asString]

/-- So does the first entry of a list. -/
theorem firstString_putIf {o : JSONObject} {k : String} (hk : o.opt k = none) (s : String) :
    firstString ((o.putIf (s != "") k (.arr (csvArray s))).optJSONArray k) =
      (csv s).head?.getD "" := by
  rw [JSONObject.optJSONArray, JSONObject.opt_putIf_self hk]
  by_cases h : s = ""
  · subst h
    decide
  · rw [if_pos (by simpa using h)]
    exact firstString_csvArray s

theorem firstString_host : firstString ((headers c).optJSONArray "Host") =
    (csv c.host).head?.getD "" := by
  have hopt (k : String) (hk : k = "Host") : (headers c).opt k =
      (JSONObject.putIf [] (c.host != "") "Host" (csvArray c.host)).opt k := by
    subst hk
    unfold headers
    simp
  rw [JSONObject.optJSONArray, hopt _ rfl]
  exact firstString_putIf rfl c.host

theorem Lowers.headerType (hl : Lowers p) {s : String} (ht : s.trimmed = s)
    (h : (s.toList.all fun c => c.toNat < 128) = true ∧ s.lowercase = s) (hn : s ≠ "none") :
    normalizeHeaderType p s = s := by
  rw [normalizeHeaderType, ht, hl.literal h]
  exact if_neg hn

theorem readTransport_built (hl : Lowers p) {net : String}
    (hnet : normalizeNetwork p c.network = net) :
    readTransport p (buildStream p c label) net = built p c net := by
  have hhttp := hl.headerType (s := "http") (by decide) (by decide) (by decide)
  have hempty := hl.headerType (s := "") (by decide) (by decide) (by decide)
  unfold readTransport built
  split
  case h_1 =>
    rw [stream_sub (by decide), hnet, transport]
    by_cases hh : Text.equalsIgnoreCase c.headerType "http" = true
    · simp [hh, sub, JSONObject.optJSONObject, hhttp, firstString_host]
      simp [JSONObject.optJSONArray, firstString_csvArray]
    · simp [hh, sub, hempty, firstString, JSONObject.optJSONObject, JSONObject.optJSONArray]
  case h_2 =>
    rw [stream_sub (by decide), hnet, transport]
    simp only [if_true]
    rw [optString_putIf (by simp)]
    simp [sub, JSONObject.optJSONObject]
  case h_3 =>
    rw [stream_sub (by decide), hnet, transport]
    by_cases hc : c.host = "" <;>
      simp [sub, JSONObject.optJSONObject, JSONObject.opt_putIf, String.ifEmpty, hc]
  case h_4 =>
    rw [stream_sub (by decide), hnet, transport]
    simp only [if_true]
    rw [optString_putIf (by simp)]
    simp
  case h_5 =>
    rw [stream_sub (by decide), hnet, transport]
    simp only [if_true]
    rw [@optString_putIf_ne _ _ "host" _ _ (by decide), optString_putIf (by simp)]
    simp
  case h_6 =>
    rw [stream_sub (by decide), hnet, transport]
    simp
  case h_7 =>
    rw [stream_sub (by decide), hnet, transport]
    simp only [if_true]
    rw [firstString_putIf (by simp)]
    simp
  case h_8 => rfl

/-! ### The server -/

/-- The server as it comes back. -/
def builtServer (c : ProxyConfig) : Server :=
  match c.protocol with
  | "vless" =>
    { address := c.address, port := c.port, uuid := c.uuid, flow := c.flow
      encryption := c.encryption.ifEmpty "none" }
  | "vmess" =>
    { address := c.address, port := c.port, uuid := c.uuid, flow := "", alterId := c.alterId
      encryption := c.encryption.ifEmpty "auto" }
  | "trojan" => { address := c.address, port := c.port, password := c.password, flow := c.flow }
  | _ =>
    { address := c.address, port := c.port, password := c.password, method := c.method, flow := "" }

def Shared (c : ProxyConfig) : Prop := c.protocol ∈ ["vless", "vmess", "trojan", "shadowsocks"]

instance (c : ProxyConfig) : Decidable (Shared c) :=
  inferInstanceAs (Decidable (c.protocol ∈ _))

theorem server_built (hp : p.ReadsBack) (hc : Shared c) (hport : IsInt c.port)
    (halter : IsInt c.alterId) :
    server p c.protocol (outboundSettings c) = some (builtServer c) := by
  have hagain (s d : String) : (s.ifEmpty d).ifEmpty d = s.ifEmpty d := by
    by_cases hs : s = "" <;> by_cases hd : d = "" <;> simp [String.ifEmpty, hs, hd]
  have hpass : c.password.ifEmpty "" = c.password := by
    by_cases h : c.password = "" <;> simp [String.ifEmpty, h]
  simp only [Shared, List.mem_cons, List.not_mem_nil, or_false] at hc
  rcases hc with h | h | h | h
  · simp only [server, outboundSettings, builtServer, h]
    simp [first, objectOf, JSONObject.optJSONArray, vnextUser, h, optString_putIf, optInt,
      hp.int hport]
  · simp only [server, outboundSettings, builtServer, h]
    simp [first, objectOf, JSONObject.optJSONArray, vnextUser, h, optInt, hp.int hport,
      hp.int halter, hagain]
  · simp only [server, outboundSettings, builtServer, h]
    simp [first, objectOf, JSONObject.optJSONArray, servers, optString_putIf, hpass, optInt,
      hp.int hport]
  · simp only [server, outboundSettings, builtServer, h]
    simp [first, objectOf, JSONObject.optJSONArray, servers, hpass, optInt, hp.int hport]

/-- The outbound of one of the four protocols. -/
theorem buildOutbound_shared (hc : Shared c) : buildOutbound p c label =
    some (JSONObject.put [] "tag" "proxy"
      |>.put "protocol" c.protocol
      |>.put "settings" (.obj (outboundSettings c))
      |>.put "streamSettings" (.obj (buildStream p c label))) := by
  simp only [Shared, List.mem_cons, List.not_mem_nil, or_false] at hc
  rcases hc with h | h | h | h <;> simp [buildOutbound, dialsAether, h]

/-! ### The whole -/

/-- The settings of the security, as the reader finds them. -/
def sec (c : ProxyConfig) (label : String) : JSONObject :=
  if c.security = "reality" then realitySettings c label
  else if c.security = "tls" then tlsSettings c label
  else []

/-- The configuration that comes back, but for what it is called. -/
def reread (p : Platform) (c : ProxyConfig) (label name id : String) (source : ConfigSource) :
    ProxyConfig :=
  let v := builtServer c
  let transport := built p c (normalizeNetwork p c.network)
  let reality := if c.security = "reality" then realitySettings c label else []
  { name := name
    protocol := c.protocol
    address := c.address
    port := c.port
    uuid := v.uuid
    password := v.password
    method := v.method
    encryption := v.encryption
    flow := v.flow
    alterId := v.alterId
    network := normalizeNetwork p c.network
    security := if c.security = "reality" ∨ c.security = "tls" then c.security else "none"
    sni := (sec c label).optString "serverName"
    alpn := ",".intercalate ((((sec c label).optJSONArray "alpn").getD []).map Json.asString)
    host := transport.host
    path := transport.path
    headerType := transport.headerType
    serviceName := transport.serviceName
    fingerprint := ((sec c label).optString "fingerprint").ifEmpty "chrome"
    publicKey := reality.optString "publicKey"
    shortId := reality.optString "shortId"
    allowInsecure := (sec c label).optBoolean "allowInsecure"
    source := source
    id := id }

theorem normalizeNetwork_ne (n : String) : normalizeNetwork p n ≠ "" := by
  unfold normalizeNetwork
  split <;> first | decide | assumption

theorem builtServer_dials (c : ProxyConfig) :
    (builtServer c).address = c.address ∧ (builtServer c).port = c.port := by
  unfold builtServer
  split <;> exact ⟨rfl, rfl⟩

theorem outboundToConfig_built (hp : p.ReadsBack) (hl : Lowers p) (hc : Shared c)
    (hport : IsInt c.port) (halter : IsInt c.alterId) {o : JSONObject}
    (ho : buildOutbound p c label = some o) (source : ConfigSource) (id parentLabel : String) :
    ∃ name, outboundToConfig p source id o parentLabel =
      if c.address = "" ∨ c.port ≤ 0 then none else some (reread p c label name id source) := by
  have hlow : p.lowercase c.protocol = c.protocol := by
    apply hl.literal
    simp only [Shared, List.mem_cons, List.not_mem_nil, or_false] at hc
    rcases hc with h | h | h | h <;> rw [h] <;> decide
  have hserved : ¬(c.protocol = "" ∨
      c.protocol ∈ ["freedom", "blackhole", "dns", "tun", "loopback"]) := by
    simp only [Shared, List.mem_cons, List.not_mem_nil, or_false] at hc
    rcases hc with h | h | h | h <;> rw [h] <;> decide
  rw [buildOutbound_shared hc] at ho
  cases ho
  have hsettings : sub (JSONObject.put [] "tag" "proxy"
      |>.put "protocol" c.protocol
      |>.put "settings" (.obj (outboundSettings c))
      |>.put "streamSettings" (.obj (buildStream p c label))) "settings" = outboundSettings c := by
    simp [sub, JSONObject.optJSONObject]
  have hstream : sub (JSONObject.put [] "tag" "proxy"
      |>.put "protocol" c.protocol
      |>.put "settings" (.obj (outboundSettings c))
      |>.put "streamSettings" (.obj (buildStream p c label))) "streamSettings" =
        buildStream p c label := by
    simp [sub, JSONObject.optJSONObject]
  obtain ⟨haddr, hprt⟩ := builtServer_dials c
  unfold outboundToConfig
  simp only [hsettings, hstream, optString_put_ne (show "streamSettings" ≠ "protocol" by decide),
    optString_put_ne (show "settings" ≠ "protocol" by decide), optString_put_self, hlow,
    if_neg hserved, server_built hp hc hport halter, haddr, hprt, stream_network, stream_security,
    stream_tls, stream_reality]
  have hnet : normalizeNetwork p ((normalizeNetwork p c.network).ifEmpty "tcp") =
      normalizeNetwork p c.network := by
    rw [String.ifEmpty, if_neg (normalizeNetwork_ne _), normalizeNetwork_again hl]
  have hsec : ((if c.security = "tls" then some (tlsSettings c label) else none).or
      (if c.security = "reality" then some (realitySettings c label) else none)).getD [] =
        sec c label := by
    by_cases h : c.security = "reality"
    · simp [sec, h]
    · by_cases ht : c.security = "tls" <;> simp [sec, h, ht]
  have hreality :
      (if c.security = "reality" then some (realitySettings c label) else none).getD [] =
        if c.security = "reality" then realitySettings c label else [] := by
    split <;> rfl
  have hsecurity : (if (if c.security = "reality" then some (realitySettings c label) else
        none).isSome = true then "reality"
      else
        (if c.security = "reality" ∨ c.security = "tls" then c.security else "").ifEmpty "none") =
        if c.security = "reality" ∨ c.security = "tls" then c.security else "none" := by
    by_cases h : c.security = "reality"
    · simp [h]
    · by_cases ht : c.security = "tls" <;> simp [h, ht, String.ifEmpty]
  rw [hnet, readTransport_built hl rfl, hsec, hreality, hsecurity]
  exact ⟨_, rfl⟩

/-! ## What is carried -/

theorem ifEmpty_eq {s d : String} (hd : d ≠ "") : s.ifEmpty d = s ↔ s ≠ "" := by
  by_cases h : s = "" <;> simp [String.ifEmpty, h, hd]

theorem credentials_iff (hc : Shared c) (name id : String) (source : ConfigSource) :
    credentials (reread p c label name id source) = credentials c ∧
        (reread p c label name id source).flow = c.flow ↔
      (c.protocol ∈ ["vless", "vmess"] → c.encryption ≠ "") ∧
        (c.protocol ∈ ["vmess", "shadowsocks"] → c.flow = "") := by
  simp only [Shared, List.mem_cons, List.not_mem_nil, or_false] at hc
  have hflow : "" = c.flow ↔ c.flow = "" := eq_comm
  rcases hc with h | h | h | h
  · simp [credentials, reread, builtServer, h, ifEmpty_eq]
  · simp [credentials, reread, builtServer, h, ifEmpty_eq, hflow]
  · simp [credentials, reread, builtServer, h]
  · simp [credentials, reread, builtServer, h, hflow]

/-- The first entry of a list that is one. -/
theorem first_eq {s : String} : (csv s).head?.getD "" = s ↔ s = "" ∨ Whole s := by
  unfold Whole
  cases hs : (csv s).head? with
  | none => simp [eq_comm]
  | some a =>
    simp only [Option.getD_some, Option.some.injEq]
    refine ⟨.inr, ?_⟩
    rintro (rfl | h)
    · cases hs
    · exact h

theorem transport_iff : built p c c.network = transportOf c ↔ TransportCarried p c := by
  unfold built transportOf TransportCarried
  have hwhole : (csv (c.path.ifEmpty "/")).head?.getD "" = c.path ↔ Whole c.path := by
    by_cases h : c.path = ""
    · simp only [h, Whole]
      decide
    · rw [String.ifEmpty, if_neg h, first_eq, or_iff_right h]
  have hslash : c.path.ifEmpty "/" = c.path ↔ c.path ≠ "" := ifEmpty_eq (by decide)
  have hhost : (csv c.host).head?.getD "" = c.host ↔ (c.host ≠ "" → Whole c.host) :=
    first_eq.trans or_iff_not_imp_left
  have hcomm (s : String) : "" = s ↔ s = "" := eq_comm
  split
  case h_1 =>
    by_cases hh : c.headerType = "http"
    · have he : Text.equalsIgnoreCase "http" "http" = true := by decide
      simp only [hh, he, if_true, Transport.mk.injEq, hwhole, hhost, hcomm, true_and]
      exact ⟨fun ⟨h1, h2, h3⟩ => ⟨h3, h2, h1⟩, fun ⟨h3, h2, h1⟩ => ⟨h1, h2, h3⟩⟩
    · by_cases he : Text.equalsIgnoreCase c.headerType "http" = true
      · have hne : c.headerType ≠ "" := by
          intro h
          rw [h] at he
          revert he
          decide
        simp only [he, if_true, if_neg hh, Transport.mk.injEq, hne, Ne.symm hh, false_and,
          and_false]
      · simp only [if_neg he, if_neg hh, Transport.mk.injEq, hcomm]
        exact ⟨fun ⟨h1, h2, h3, h4⟩ => ⟨h4, h3, h2, h1⟩, fun ⟨h4, h3, h2, h1⟩ => ⟨h1, h2, h3, h4⟩⟩
  case h_2 =>
    simp only [Transport.mk.injEq, hcomm, true_and]
    exact and_left_comm
  case h_3 => simp only [Transport.mk.injEq, hcomm, hslash, true_and]
  case h_4 => simp only [Transport.mk.injEq, hcomm, hslash, true_and]
  case h_5 => simp only [Transport.mk.injEq, hcomm, hslash, true_and]
  case h_6 =>
    simp only [Transport.mk.injEq, hcomm, and_true]
    exact and_left_comm
  case h_7 =>
    simp only [Transport.mk.injEq, hcomm, hslash, hhost]
    exact and_left_comm
  case h_8 =>
    simp only [Transport.mk.injEq, hcomm]
    exact and_left_comm

/-- A label before a name is seen. -/
theorem serverName_eq {s : String} : serverName c label s = s ↔
    (c.randomSubdomain = true → s.blank = true) := by
  unfold serverName randomLabel
  by_cases hr : c.randomSubdomain = true
  · by_cases hb : s.blank = true
    · simp [hr, hb]
    · have hlong : label ++ "." ++ s ≠ s := by
        intro h
        have hl := congrArg String.length h
        simp only [String.length_append] at hl
        have hdot : ".".length = 1 := rfl
        omega
      simp [hr, hb, hlong]
  · simp [hr]

theorem sec_insecure (c : ProxyConfig) (label : String) :
    (sec c label).optBoolean "allowInsecure" = false := by
  have h : (sec c label).opt "allowInsecure" = none := by
    unfold sec realitySettings tlsSettings
    split
    · simp
    · split <;> simp
  rw [JSONObject.optBoolean, h]

theorem reality_texts (c : ProxyConfig) (label : String) :
    (realitySettings c label).optString "serverName" = serverName c label c.sni ∧
      (realitySettings c label).optString "fingerprint" = c.fingerprint ∧
      (realitySettings c label).optString "publicKey" = c.publicKey ∧
      (realitySettings c label).optString "shortId" = c.shortId ∧
      (realitySettings c label).optJSONArray "alpn" = none := by
  simp [realitySettings, JSONObject.optJSONArray]

theorem tls_texts (c : ProxyConfig) (label : String) :
    (tlsSettings c label).optString "serverName" =
        serverName c label
          (c.sni.ifEmpty ((c.host.substringBefore ',').trimmed.ifEmpty c.address)) ∧
      (tlsSettings c label).optString "fingerprint" = c.fingerprint ∧
      ",".intercalate ((((tlsSettings c label).optJSONArray "alpn").getD []).map Json.asString) =
        ",".intercalate (csv c.alpn) := by
  refine ⟨by simp [tlsSettings], by simp [tlsSettings], ?_⟩
  have hopt : (tlsSettings c label).opt "alpn" =
      if c.alpn != "" && csv c.alpn != [] then some (.arr (csvArray c.alpn)) else none := by
    unfold tlsSettings
    rw [JSONObject.opt_putIf_ne (by decide), JSONObject.opt_putIf_self (by simp)]
  rw [JSONObject.optJSONArray, hopt]
  by_cases hs : csv c.alpn = []
  · simp [hs]
  · have ha : c.alpn ≠ "" := by
      rintro h
      rw [h] at hs
      exact hs (by decide)
    simp [hs, ha, csvArray, Json.asString, Function.comp_def]

/-- The name that is put for TLS is the one that was given, if one was. -/
theorem name_iff (ha : c.address ≠ "") : serverName c label
    (c.sni.ifEmpty ((c.host.substringBefore ',').trimmed.ifEmpty c.address)) = c.sni ↔
      c.sni ≠ "" ∧ NameKept c := by
  by_cases hs : c.sni = ""
  · have hbase : c.sni.ifEmpty ((c.host.substringBefore ',').trimmed.ifEmpty c.address) ≠ "" := by
      rw [String.ifEmpty, if_pos hs, String.ifEmpty]
      split
      · exact ha
      · assumption
    generalize c.sni.ifEmpty ((c.host.substringBefore ',').trimmed.ifEmpty c.address) = b at hbase
    have hne : serverName c label b ≠ "" := by
      unfold serverName randomLabel
      split
      · split
        · exact hbase
        · intro h
          have hl := congrArg String.length h
          simp only [String.length_append] at hl
          have hdot : ".".length = 1 := rfl
          have hzero : "".length = 0 := rfl
          omega
      · exact hbase
    simp [hs, hne]
  · rw [String.ifEmpty, if_neg hs, serverName_eq, NameKept]
    exact (and_iff_right hs).symm

theorem security_iff (ha : c.address ≠ "") (name id : String) (source : ConfigSource) :
    let d := reread p c label name id source
    (d.security = c.security ∧ d.sni = c.sni ∧ (d.alpn = c.alpn ∧ d.fingerprint = c.fingerprint) ∧
      d.publicKey = c.publicKey ∧ d.shortId = c.shortId) ↔ SecurityCarried c := by
  have hcomm (s : String) : "" = s ↔ s = "" := eq_comm
  have hfp : c.fingerprint.ifEmpty "chrome" = c.fingerprint ↔ c.fingerprint ≠ "" :=
    ifEmpty_eq (by decide)
  have halpn :
      ",".intercalate (List.map Json.asString ((JSONObject.optJSONArray [] "alpn").getD [])) =
        c.alpn ↔ c.alpn = "" := hcomm c.alpn
  have hchrome : "".ifEmpty "chrome" = c.fingerprint ↔ c.fingerprint = "chrome" := eq_comm
  have hnone : "none" = c.security ↔ c.security = "none" := eq_comm
  obtain ⟨hr1, hr2, hr3, hr4, hr5⟩ := reality_texts c label
  obtain ⟨ht1, ht2, ht3⟩ := tls_texts c label
  simp only [reread]
  by_cases hr : c.security = "reality"
  · simp [sec, SecurityCarried, hr, hr1, hr2, hr3, hr4, hr5, serverName_eq, hfp, hcomm, NameKept]
  · by_cases ht : c.security = "tls"
    · simp [sec, SecurityCarried, ht, ht1, ht2, ht3, hfp, hcomm, name_iff ha, and_assoc]
    · simp [sec, SecurityCarried, ht, hr, hcomm, halpn, hchrome, hnone, and_assoc]

/-- **What comes back is the same** where everything is carried. -/
theorem same_iff (hc : Shared c) (ha : c.address ≠ "") (hport : 0 < c.port)
    (name id : String) (source : ConfigSource) :
    Same c (reread p c label name id source) ↔ Carried p c := by
  have hcred := @credentials_iff p c label hc name id source
  have hsec := @security_iff p c label ha name id source
  constructor
  · intro h
    have hn : normalizeNetwork p c.network = c.network := h.network
    have ht : built p c (normalizeNetwork p c.network) = transportOf c := h.transport.1
    rw [hn] at ht
    obtain ⟨he, hf⟩ := hcred.1 h.credentials
    exact ⟨⟨ha, hport⟩, he, hf, hn, transport_iff.1 ht,
      hsec.1 ⟨h.security, h.sni, h.tls, h.reality⟩,
      h.transport.2.symm, h.certificate.1.symm.trans (sec_insecure c label),
      h.certificate.2.symm⟩
  · intro h
    have hn := h.network
    have ht := transport_iff.2 h.transport
    obtain ⟨h1, h2, h3, h4⟩ := hsec.2 h.security
    refine ⟨⟨rfl, rfl, rfl⟩, hcred.2 ⟨h.encryption, h.flow⟩, hn, ⟨?_, h.unread.1.symm⟩, h1, h2,
      h3, h4, (sec_insecure c label).trans h.unread.2.1.symm, h.unread.2.2.symm⟩
    change built p c (normalizeNetwork p c.network) = transportOf c
    rw [hn, ht]

end Read

/-! ## Texts -/

section Texts

variable {p} {c : ProxyConfig} {label : String} {readArray : String → Option JSONArray}

/-- A text whose outbounds are those; one that begins with a bracket is no object. -/
def Document (p : Platform) (readArray : String → Option JSONArray) (text : String)
    (found : List (JSONObject × String)) : Prop :=
  nodes p readArray text = some found ∧
    (text.trimmed.toList.head? = some '[' → p.readObject text.trimmed = none)

/-- A document with an outbound that names its protocol is not taken for the other program's. -/
theorem not_singBox {root : JSONObject} {parent : String} {o : JSONObject}
    (hproto : (o.opt "protocol").isSome = true) (hend : o.optJSONArray "endpoints" = none)
    (hfound : collect root = [(o, parent)]) : looksLikeSingBox root = false := by
  unfold collect at hfound
  rw [looksLikeSingBox, List.any_eq_false]
  intro v hv htype
  obtain ⟨o', ho', ht⟩ := Option.any_eq_true _ _ |>.1 htype
  rw [Bool.and_eq_true, Option.isNone_iff_eq_none] at ht
  cases harr : root.optJSONArray "outbounds" with
  | none =>
    rw [harr] at hfound hv
    cases hfound
    rw [Option.none_or, hend] at hv
    cases hv
  | some arr =>
    rw [harr] at hfound hv
    have hmem : o' ∈ arr.filterMap objectOf := List.mem_filterMap.2 ⟨v, hv, ho'⟩
    obtain ⟨x, hx, he⟩ := List.map_eq_singleton_iff.1 hfound
    cases he
    rw [hx, List.mem_singleton] at hmem
    subst hmem
    rw [ht.2] at hproto
    cases hproto

theorem document_not_singBox {text parent : String} {o : JSONObject}
    (hproto : (o.opt "protocol").isSome = true) (hend : o.optJSONArray "endpoints" = none)
    (hdoc : Document p readArray text [(o, parent)]) :
    (p.readObject text.trimmed).filter looksLikeSingBox = none := by
  obtain ⟨hn, hb⟩ := hdoc
  unfold nodes at hn
  by_cases hs : text.trimmed.toList.head? = some '['
  · rw [hb hs]
    rfl
  · simp only [if_neg hs] at hn
    obtain ⟨root, hroot, hfound⟩ := Option.map_eq_some_iff.1 hn
    rw [hroot, Option.filter_some, not_singBox hproto hend hfound]
    rfl

theorem parse_built (hp : p.ReadsBack) (hl : Lowers p) (hc : Shared c) (hport : IsInt c.port)
    (halter : IsInt c.alterId) {o : JSONObject} (ho : buildOutbound p c label = some o)
    {text parent : String} (hdoc : Document p readArray text [(o, parent)])
    (singBox : JSONObject → ConfigSource → List ProxyConfig) (draw : Nat → String)
    (source : ConfigSource) :
    ∃ name, parseJsonOutbounds p readArray singBox draw text source =
      if c.address = "" ∨ c.port ≤ 0 then [] else [reread p c label name (draw 0) source] := by
  have hbuilt := @buildOutbound_shared p c label hc
  rw [ho, Option.some.injEq] at hbuilt
  have hproto : (o.opt "protocol").isSome = true := by simp [hbuilt]
  have hend : o.optJSONArray "endpoints" = none := by simp [hbuilt, JSONObject.optJSONArray]
  obtain ⟨name, hread⟩ :=
    outboundToConfig_built hp hl hc hport halter ho source (draw 0) parent
  have hparse : parseJsonOutbounds p readArray singBox draw text source =
      [outboundToConfig p source (draw 0) o parent].reduceOption := by
    rw [parseJsonOutbounds, document_not_singBox hproto hend hdoc]
    simp only
    rw [hdoc.1]
    rfl
  refine ⟨name, ?_⟩
  rw [hparse, hread]
  split <;> rfl

theorem trimmed_braces {s : String} {cs : List Char} (h : s.toList = '\x7b' :: (cs ++ ['\x7d'])) :
    s.trimmed = s := by
  have hopen : Text.isWhitespace '\x7b' = false := by decide
  have hclose : Text.isWhitespace '\x7d' = false := by decide
  rw [String.trimmed, h, List.dropWhile_cons_of_neg (by simp [hopen]), ← List.cons_append,
    List.reverse_append, List.reverse_singleton, List.singleton_append,
    List.dropWhile_cons_of_neg (by simp [hclose]), List.reverse_cons, List.reverse_reverse,
    List.cons_append, ← h, String.ofList_toList]

/-- A text of a plain object holds what the object does. -/
theorem document_print (hp : p.ReadsBack) {root : JSONObject} (hroot : Json.Plain (.obj root)) :
    Document p readArray (Json.obj root).print (collect root) := by
  have hprint := @Json.print_obj root
  have ht := trimmed_braces hprint
  have hs : ¬(Json.obj root).print.toList.head? = some '[' := by
    rw [hprint, List.head?_cons]
    decide
  refine ⟨?_, fun h => ?_⟩
  · rw [nodes]
    simp only [ht, if_neg hs, hp.object root hroot]
    rfl
  · rw [ht] at h
    exact absurd h hs

open Json

theorem plain_putIf {o : JSONObject} {k : String} {v : Json} {b : Bool} (h : Plain (.obj o))
    (hv : Plain v) : Plain (.obj (o.putIf b k v)) := by
  unfold JSONObject.putIf
  split
  · exact plain_put h hv
  · exact h

theorem plain_one {o : JSONObject} (h : Plain (.obj o)) : Plain (.arr [.obj o]) :=
  plain_arr fun v hv => by
    rw [List.mem_singleton.1 hv]
    exact h

theorem plain_csvArray (s : String) : Plain (.arr (csvArray s)) :=
  plain_arr fun v hv => by
    obtain ⟨t, -, rfl⟩ := List.mem_map.1 hv
    exact plain_str t

theorem plain_headers (c : ProxyConfig) : Plain (.obj (headers c)) := by
  have hone (t : String) : Plain (.arr [.str t]) := plain_arr fun v hv => by
    rw [List.mem_singleton.1 hv]
    exact plain_str t
  unfold headers
  repeat' first | apply plain_put | apply plain_putIf
  all_goals first | exact plain_nil | exact plain_str _ | exact hone _ | exact plain_csvArray _

theorem plain_transport {net key : String} {o : JSONObject} (h : transport c net = some (key, o)) :
    Plain (.obj o) := by
  unfold transport at h
  split at h
  · split at h
    · cases h
      repeat' first | with_reducible apply plain_put | apply plain_putIf
      all_goals first | exact plain_nil | exact plain_str _ | exact plain_csvArray _ |
        exact plain_headers _
    · cases h
  all_goals
    cases h <;>
      (repeat' first | apply plain_put | apply plain_putIf) <;>
      first | exact plain_nil | exact plain_str _ | exact plain_bool _ | exact plain_csvArray _

theorem plain_mask {type : String} {o : JSONObject} (h : maskEntry p c = some (type, o)) :
    Plain (.obj o) := by
  have hentry {settings : JSONObject} (hs : Plain (.obj settings)) (t : String) :
      Plain (.obj ((JSONObject.put [] "type" (.str t)).put "settings" (.obj settings))) :=
    plain_put (plain_put plain_nil (plain_str t)) hs
  simp only [maskEntry] at h
  split at h
  · split at h
    · cases h
    · cases h
      exact hentry (plain_put plain_nil (plain_str _)) _
  · split at h
    · cases h
    · cases h
      exact hentry (plain_put plain_nil (plain_str _)) _
  · split at h
    · cases h
    · cases h
      exact hentry (plain_put plain_nil (plain_str _)) _
  · obtain ⟨settings, hs, he⟩ := Option.bind_eq_some_iff.1 h
    cases he
    obtain ⟨items, hi, rfl⟩ := Option.map_eq_some_iff.1 hs
    refine hentry (plain_put plain_nil ?_) _
    unfold NoiseSpec.buildMaskNoise at hi
    simp only at hi
    split at hi
    · cases hi
    · cases hi
      refine plain_arr fun v hv => ?_
      obtain ⟨e, -, rfl⟩ := List.mem_map.1 hv
      exact plain_put (plain_put plain_nil (plain_str _)) (plain_str _)
  · cases h

theorem plain_buildStream (c : ProxyConfig) (label : String) :
    Plain (.obj (buildStream p c label)) := by
  have hbase (net : String) : Plain (.obj (base c net)) := by
    have hnet := plain_put plain_nil (plain_str net) (k := "network")
    unfold base
    split
    case h_1 h => exact plain_put hnet (plain_transport h)
    case h_2 => exact hnet
  have hsec {o : JSONObject} (h : Plain (.obj o)) : Plain (.obj (putSecurity c label o)) := by
    unfold putSecurity
    split
    · unfold realitySettings
      repeat' first | with_reducible apply plain_put
      all_goals first | exact h | exact plain_nil | exact plain_str _
    · unfold tlsSettings
      repeat' first | with_reducible apply plain_put | apply plain_putIf
      all_goals first | exact h | exact plain_nil | exact plain_str _ | exact plain_csvArray _
    · exact h
  rw [buildStream_eq]
  unfold putMask
  split
  · exact hsec (hbase _)
  case h_2 type entry hm =>
    split
    · exact plain_put (hsec (hbase _)) (plain_put plain_nil (plain_one (plain_mask hm)))
    · exact hsec (hbase _)

theorem plain_settings (hc : Shared c) : Plain (.obj (outboundSettings c)) := by
  simp only [Shared, List.mem_cons, List.not_mem_nil, or_false] at hc
  have huser : Plain (.obj (vnextUser c)) := by
    unfold vnextUser
    split
    · exact plain_putIf (plain_put (plain_put plain_nil (plain_str _)) (plain_str _)) (plain_str _)
    · exact plain_put (plain_put (plain_put plain_nil (plain_str _)) (plain_int _)) (plain_str _)
  rcases hc with h | h | h | h <;> simp only [outboundSettings, servers, h] <;>
    (repeat' first | with_reducible apply plain_put | apply plain_putIf | apply plain_one) <;>
    first | exact plain_nil | exact plain_str _ | exact plain_int _ | exact huser

/-- What is built stands alone in its text, and in the list of another. -/
theorem built_documents (hp : p.ReadsBack) (hc : Shared c) {o : JSONObject}
    (ho : buildOutbound p c label = some o) :
    Document p readArray (Json.obj o).print [(o, "")] ∧
      Document p readArray (Json.obj (JSONObject.put [] "outbounds" (.arr [.obj o]))).print
        [(o, "")] := by
  have hbuilt := @buildOutbound_shared p c label hc
  rw [ho, Option.some.injEq] at hbuilt
  have hplain : Plain (.obj o) := by
    rw [hbuilt]
    exact plain_put (plain_put (plain_put (plain_put plain_nil (plain_str _)) (plain_str _))
      (plain_settings hc)) (plain_buildStream c label)
  have hone : collect o = [(o, "")] := by
    have harr : o.optJSONArray "outbounds" = none := by simp [hbuilt, JSONObject.optJSONArray]
    rw [collect, harr]
  refine ⟨hone ▸ document_print hp hplain, ?_⟩
  exact document_print hp (plain_put plain_nil (plain_one hplain))

end Texts

/-! ## Two servers -/

section Lower

theorem letter_not_blank {c : Char} (h : c.isAlpha = true) : Text.isWhitespace c = false := by
  have hr : 65 ≤ c.toNat ∧ c.toNat ≤ 122 := by
    simp only [Char.isAlpha, Char.isUpper, Char.isLower, Bool.or_eq_true, Bool.and_eq_true,
      decide_eq_true_eq, ge_iff_le, UInt32.le_iff_toNat_le] at h
    change (65 ≤ c.toNat ∧ c.toNat ≤ 90) ∨ (97 ≤ c.toNat ∧ c.toNat ≤ 122) at h
    omega
  rw [← Bool.not_eq_true]
  simp only [Text.isWhitespace, Bool.or_eq_true, Bool.and_eq_true, decide_eq_true_eq, beq_iff_eq]
  omega

theorem isWhitespace_toLower (c : Char) : Text.isWhitespace c.toLower = Text.isWhitespace c := by
  by_cases h : c.isAlpha = true
  · rw [letter_not_blank h, letter_not_blank ((Char.isAlpha_toLower_eq_isAlpha c).trans h)]
  · rw [Char.toLower_eq_of_not_isUpper]
    intro hu
    rw [Char.isAlpha, hu] at h
    exact h rfl

/-- A text without blanks at the ends. -/
def trim (l : List Char) : List Char :=
  ((l.dropWhile Text.isWhitespace).reverse.dropWhile Text.isWhitespace).reverse

theorem trim_trim (l : List Char) : trim (trim l) = trim l := by
  have hpre : trim l <+: l.dropWhile Text.isWhitespace := List.rdropWhile_prefix _ _
  have hfirst : (trim l).dropWhile Text.isWhitespace = trim l := by
    refine List.dropWhile_eq_self_iff.2 fun h => ?_
    have he := hpre.getElem h
    rw [he]
    exact List.dropWhile_get_zero_not _ _ (h.trans_le hpre.length_le)
  calc trim (trim l) = (trim l).rdropWhile Text.isWhitespace := by
        rw [trim, hfirst]
        rfl
    _ = trim l := List.rdropWhile_idempotent _ _

theorem trim_map (l : List Char) : trim (l.map Char.toLower) = (trim l).map Char.toLower := by
  have hp : Text.isWhitespace ∘ Char.toLower = Text.isWhitespace := funext isWhitespace_toLower
  unfold trim
  rw [List.dropWhile_map, hp, ← List.map_reverse, List.dropWhile_map, hp, ← List.map_reverse]

theorem textPlatform_lowers : Lowers textPlatform := by
  have hlow (s : String) : (textPlatform.lowercase s).toList = s.toList.map Char.toLower :=
    String.toList_map
  constructor
  · intro s _
    rw [String.lowercase, ← hlow, String.ofList_toList]
  · intro s
    have htrim (t : String) : t.trimmed.toList = trim t.toList := String.toList_ofList
    have hagain : Char.toLower ∘ Char.toLower = Char.toLower :=
      funext Char.toLower_toLower_eq_toLower
    apply String.toList_injective
    rw [hlow, htrim, hlow, htrim, trim_map, trim_trim, List.map_map, hagain]

end Lower

def home : ProxyConfig where
  name := "home"
  protocol := "vless"
  address := "example.com"
  port := 443
  uuid := "27848739"
  flow := "xtls-rprx-vision"
  security := "reality"
  sni := "example.org"
  publicKey := "pbk"
  shortId := "6ba8"
  id := "1"

/-- The text with the one outbound of a server. -/
def shared (c : ProxyConfig) : String :=
  (Json.obj (JSONObject.put [] "outbounds"
    (.arr [.obj ((buildOutbound textPlatform c "l").getD [])]))).print

theorem document_shared {c : ProxyConfig} (hc : Shared c) :
    ∃ o, buildOutbound textPlatform c "l" = some o ∧
      Document textPlatform (fun _ => none) (shared c) [(o, "")] := by
  have ho := @buildOutbound_shared textPlatform _ "l" hc
  refine ⟨_, ho, ?_⟩
  rw [shared, ho]
  exact (built_documents textPlatform_readsBack hc ho).2

/-- A mode of XHTTP is built, and not read. -/
def tuned : ProxyConfig := { home with network := "xhttp", path := "/x", mode := "packet-up" }

end Ghajar.JsonOutbound
