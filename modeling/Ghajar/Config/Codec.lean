import Mathlib
import Ghajar.Config.Subscription
import Ghajar.Lib.JsonText
import Ghajar.Share.Gsb2

/-!
# Configurations and groups as JSON

What is kept of a configuration and of a group in a file: each field is written and read
by name. `fromJson_toJson` says that no field is lost, `plain_toJson` that what is written
can be read back as a text.
-/

namespace Ghajar

def IsInt (n : Int) : Prop := -2 ^ 31 ≤ n ∧ n < 2 ^ 31

def IsLong (n : Int) : Prop := -2 ^ 63 ≤ n ∧ n < 2 ^ 63

/-- The platform reads the text of a plain object, and the numbers it writes. -/
structure Platform.ReadsBack (p : Platform) : Prop where
  object : ∀ o : JSONObject, Json.Plain (.obj o) → p.readObject (Json.obj o).print = some o
  long : ∀ n : Int, IsLong n → p.readLong (toString n) = some n

/-- A number is cut to 32 bits, a text is the nearest of them. -/
def optInt (p : Platform) (o : JSONObject) (k : String) : Int :=
  match o.opt k with
  | some (.num t) => ((p.readLong t).getD 0).bmod 4294967296
  | some (.str t) => max (-2147483648) (min ((p.readLong t).getD 0) 2147483647)
  | _ => 0

def ConfigSource.name : ConfigSource → String
  | .personal => "PERSONAL"
  | .community => "COMMUNITY"
  | .premium => "PREMIUM"

/-- A name that is none is the default's. -/
def ConfigSource.valueOf (name : String) : ConfigSource :=
  if name = "COMMUNITY" then .community
  else if name = "PREMIUM" then .premium
  else .personal

namespace ProxyConfig

def toJson (c : ProxyConfig) : JSONObject :=
  JSONObject.put [] "id" c.id
    |>.put "name" c.name
    |>.put "protocol" c.protocol
    |>.put "address" c.address
    |>.put "port" c.port
    |>.put "uuid" c.uuid
    |>.put "password" c.password
    |>.put "method" c.method
    |>.put "alterId" c.alterId
    |>.put "encryption" c.encryption
    |>.put "flow" c.flow
    |>.put "network" c.network
    |>.put "security" c.security
    |>.put "sni" c.sni
    |>.put "publicKey" c.publicKey
    |>.put "shortId" c.shortId
    |>.put "fingerprint" c.fingerprint
    |>.put "path" c.path
    |>.put "host" c.host
    |>.put "serviceName" c.serviceName
    |>.put "mode" c.mode
    |>.put "alpn" c.alpn
    |>.put "source" c.source.name
    |>.put "headerType" c.headerType
    |>.put "subId" c.subId
    |>.put "privateKey" c.privateKey
    |>.put "localAddress" c.localAddress
    |>.put "mtu" c.mtu
    |>.put "reserved" c.reserved
    |>.put "locked" c.locked
    |>.put "favorite" c.favorite
    |>.put "aetherMode" c.aetherMode
    |>.put "aetherScan" c.aetherScan
    |>.put "aetherNoise" c.aetherNoise
    |>.put "aetherHttp2" c.aetherHttp2
    |>.put "aetherExitLoc" c.aetherExitLoc
    |>.put "aetherFragment" c.aetherFragment
    |>.put "aetherIpv6" c.aetherIpv6
    |>.put "oblivionJson" c.oblivionJson
    |>.put "hyObfs" c.hyObfs
    |>.put "hyObfsPassword" c.hyObfsPassword
    |>.put "hyUpMbps" c.hyUpMbps
    |>.put "hyDownMbps" c.hyDownMbps
    |>.put "allowInsecure" c.allowInsecure
    |>.put "pinnedCertSha256" c.pinnedCertSha256
    |>.put "cipherSuites" c.cipherSuites
    |>.put "randomSubdomain" c.randomSubdomain
    |>.put "maskType" c.maskType
    |>.put "maskDomain" c.maskDomain
    |>.put "maskPassword" c.maskPassword
    |>.put "echConfigList" c.echConfigList
    |>.put "torCountry" c.torCountry
    |>.put "torThroughVpn" c.torThroughVpn
    |>.put "torBaseId" c.torBaseId
    |>.put "chainId" c.chainId
    |>.put "psiphonMode" c.psiphonMode
    |>.put "psiphonCountry" c.psiphonCountry
    |>.put "psiphonCdnIps" c.psiphonCdnIps
    |>.put "psiphonCdnSni" c.psiphonCdnSni
    |>.put "extra" c.extra

/-- `fresh` is the id that is drawn where there is none. -/
def fromJson (p : Platform) (fresh : String) (o : JSONObject) : ProxyConfig :=
  { name := o.optString "name"
    protocol := o.optString "protocol"
    address := o.optString "address"
    port := optInt p o "port"
    uuid := o.optString "uuid"
    password := o.optString "password"
    method := o.optString "method"
    alterId := optInt p o "alterId"
    encryption := o.optString "encryption" "none"
    flow := o.optString "flow"
    network := o.optString "network" "tcp"
    security := o.optString "security" "none"
    sni := o.optString "sni"
    publicKey := o.optString "publicKey"
    shortId := o.optString "shortId"
    fingerprint := o.optString "fingerprint" "chrome"
    path := o.optString "path"
    host := o.optString "host"
    serviceName := o.optString "serviceName"
    mode := o.optString "mode"
    alpn := o.optString "alpn"
    headerType := o.optString "headerType"
    subId := o.optString "subId"
    privateKey := o.optString "privateKey"
    localAddress := o.optString "localAddress"
    mtu := optInt p o "mtu"
    reserved := o.optString "reserved"
    aetherMode := o.optString "aetherMode" "masque"
    aetherScan := o.optString "aetherScan" "balanced"
    aetherNoise := o.optString "aetherNoise"
    aetherHttp2 := o.optBoolean "aetherHttp2"
    aetherExitLoc := o.optString "aetherExitLoc"
    aetherFragment := o.optBoolean "aetherFragment"
    aetherIpv6 := o.optBoolean "aetherIpv6"
    oblivionJson := o.optString "oblivionJson"
    hyObfs := o.optString "hyObfs"
    hyObfsPassword := o.optString "hyObfsPassword"
    hyUpMbps := optInt p o "hyUpMbps"
    hyDownMbps := optInt p o "hyDownMbps"
    allowInsecure := o.optBoolean "allowInsecure"
    pinnedCertSha256 := o.optString "pinnedCertSha256"
    cipherSuites := o.optString "cipherSuites"
    randomSubdomain := o.optBoolean "randomSubdomain"
    maskType := o.optString "maskType"
    maskDomain := o.optString "maskDomain"
    maskPassword := o.optString "maskPassword"
    echConfigList := o.optString "echConfigList"
    torCountry := o.optString "torCountry"
    torThroughVpn := o.optBoolean "torThroughVpn"
    torBaseId := o.optString "torBaseId"
    chainId := o.optString "chainId"
    psiphonMode := o.optString "psiphonMode" "auto"
    psiphonCountry := o.optString "psiphonCountry"
    psiphonCdnIps := o.optString "psiphonCdnIps"
    psiphonCdnSni := o.optString "psiphonCdnSni"
    extra := o.optString "extra"
    source := ConfigSource.valueOf (o.optString "source" "PERSONAL")
    locked := o.optBoolean "locked"
    favorite := o.optBoolean "favorite"
    id := o.optString "id" fresh }

/-- The numbers are of 32 bits. -/
structure Fits (c : ProxyConfig) : Prop where
  port : IsInt c.port
  alterId : IsInt c.alterId
  mtu : IsInt c.mtu
  hyUpMbps : IsInt c.hyUpMbps
  hyDownMbps : IsInt c.hyDownMbps

end ProxyConfig

namespace Subscription

def toJson (s : Subscription) : JSONObject :=
  JSONObject.put [] "id" s.id
    |>.put "name" s.name
    |>.put "url" s.url
    |>.put "used" s.used
    |>.put "total" s.total
    |>.put "expire" s.expire
    |>.put "lastUpdated" s.lastUpdated
    |>.put "serviceUsername" s.serviceUsername

def fromJson (p : Platform) (fresh : String) (o : JSONObject) : Subscription :=
  { name := o.optString "name"
    url := o.optString "url"
    used := Gsb2.optLong p o "used"
    total := Gsb2.optLong p o "total"
    expire := Gsb2.optLong p o "expire"
    lastUpdated := Gsb2.optLong p o "lastUpdated"
    serviceUsername := o.optString "serviceUsername"
    id := o.optString "id" fresh }

/-- The numbers are of 64 bits. -/
structure Fits (s : Subscription) : Prop where
  used : IsLong s.used
  total : IsLong s.total
  expire : IsLong s.expire
  lastUpdated : IsLong s.lastUpdated

end Subscription

/-! ## Arrays of objects -/

def objects (l : List JSONObject) : JSONArray := l.map .obj

/-- Nothing where there is something else and the call throws. -/
def getJSONObject : Json → Option JSONObject
  | .obj o => some o
  | _ => none

theorem mapM_objects (l : List JSONObject) : (objects l).mapM getJSONObject = some l := by
  induction l with
  | nil => rfl
  | cons o l ih =>
    unfold objects at ih ⊢
    rw [List.map_cons, List.mapM_cons, ih]
    rfl

theorem plain_objects {l : List JSONObject} (h : ∀ o ∈ l, Json.Plain (.obj o)) :
    Json.Plain (.arr (objects l)) := by
  refine Json.plain_arr fun w hw => ?_
  obtain ⟨o, ho, rfl⟩ := List.mem_map.1 hw
  exact h o ho

/-- What is drawn does not matter where each object has its id. -/
theorem mapIdx_toJson {α : Type} {f : Nat → JSONObject → α} {g : α → JSONObject} {l : List α}
    (h : ∀ a ∈ l, ∀ n, f n (g a) = a) : (l.map g).mapIdx f = l := by
  apply List.ext_getElem (by simp)
  intro n h1 h2
  rw [List.getElem_mapIdx, List.getElem_map]
  exact h _ (List.getElem_mem h2) n

/-! ## No field is lost -/

section RoundTrip

variable {p : Platform} {c : ProxyConfig} {s : Subscription} {n : Int}

theorem Platform.ReadsBack.int (hp : p.ReadsBack) (h : IsInt n) :
    ((p.readLong n.repr).getD 0).bmod 4294967296 = n := by
  unfold IsInt at h
  have hl : p.readLong n.repr = some n := hp.long n ⟨by omega, by omega⟩
  rw [hl, Option.getD_some]
  exact Int.bmod_eq_of_le (by omega) (by omega)

theorem ConfigSource.valueOf_name (s : ConfigSource) : valueOf s.name = s := by
  cases s <;> decide

theorem ProxyConfig.fromJson_toJson (hp : p.ReadsBack) (h : c.Fits) (fresh : String) :
    fromJson p fresh c.toJson = c := by
  simp [fromJson, toJson, optInt, JSONObject.optString, JSONObject.optBoolean, Json.asString,
    ConfigSource.valueOf_name, hp.int h.port, hp.int h.alterId, hp.int h.mtu, hp.int h.hyUpMbps,
    hp.int h.hyDownMbps]

theorem Subscription.fromJson_toJson (hp : p.ReadsBack) (h : s.Fits) (fresh : String) :
    fromJson p fresh s.toJson = s := by
  have hlong (n : Int) (hn : IsLong n) : p.readLong n.repr = some n := hp.long n hn
  simp [fromJson, toJson, Gsb2.optLong, JSONObject.optString, Json.asString, hlong _ h.used,
    hlong _ h.total, hlong _ h.expire, hlong _ h.lastUpdated]

open Json in
theorem ProxyConfig.plain_toJson (c : ProxyConfig) : Plain (.obj c.toJson) := by
  unfold toJson
  repeat' apply plain_put
  all_goals first | exact plain_nil | exact plain_str _ | exact plain_bool _ | exact plain_int _

open Json in
theorem Subscription.plain_toJson (s : Subscription) : Plain (.obj s.toJson) := by
  unfold toJson
  repeat' apply plain_put
  all_goals first | exact plain_nil | exact plain_str _ | exact plain_int _

end RoundTrip

end Ghajar
