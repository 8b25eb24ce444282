import Mathlib
import Ghajar.Config.ShareLink
import Ghajar.Lib.Digest
import Ghajar.Lib.Json

/-!
# The state directories of Tailscale profiles

A directory is named by six bytes of the SHA-256 of `joined`, which puts the control server, the
host name and the name of the profile together and leaves the key out. `separate_iff` and
`unmoved_iff` say when two profiles, and a profile and itself renamed, have directories as they
should.
-/

namespace Ghajar.Tailscale

open Ghajar ShareLink

/-! ## Profiles -/

def TAILSCALE_CONTROL : String := "controlplane.tailscale.com"

def TAILSCALE_FLAGS : List String := ["ephemeral", "routes", "lan"]

/-- Nothing where the parser throws. -/
def parseTailscale (skip : Replaced) (body : Chars) (source : ConfigSource) (fresh : String) :
    Option ProxyConfig :=
  let (name, uhp, p) := splitUserUri skip body "Tailscale".toList
  (splitHostPortOrDefault (ShareLink.ifBlank (afterLast '@' uhp) TAILSCALE_CONTROL.toList) 443).map
    fun hp =>
    { name := String.ofList name
      protocol := "tailscale"
      address := (String.ofList hp.1).ifBlank TAILSCALE_CONTROL
      port := hp.2
      password := if '@' ∈ uhp then String.ofList (pctDecode skip (beforeLast '@' uhp)) else ""
      host := String.ofList (pctDecode skip (p.get "control"))
      path := String.ofList (pctDecode skip (p.get "exit"))
      sni := String.ofList (pctDecode skip (p.get "hostname"))
      headerType := ",".intercalate
        ((((String.ofList (p.get "flags")).parts ',').map String.trimmed).filter
          (· ∈ TAILSCALE_FLAGS))
      source := source
      id := fresh }

/-- `take(n)`, which counts UTF-16 units. Half of a pair is written as `?`. -/
def takeUnits : Nat → Chars → Chars
  | 0, _ | _, [] => []
  | n + 1, c :: cs =>
    if c.toNat < 65536 then c :: takeUnits n cs
    else match n with
      | 0 => ['?']
      | n + 1 => c :: takeUnits n cs

/-- The name a profile gets, nothing where it stays as it is. -/
def newName (typed : String) : String := String.ofList (takeUnits 120 typed.trimmed.toList)

def renameConfig (configs : List ProxyConfig) (id typed : String) : List ProxyConfig :=
  if newName typed = "" then configs
  else configs.map fun c => if c.id = id then { c with name := newName typed } else c

/-! ## Endpoints -/

/-- The text that is hashed. -/
def joined (c : ProxyConfig) : String := c.host ++ "|" ++ c.sni ++ "|" ++ c.name

/-- `MessageDigest.getInstance("SHA-256")` and what is taken of its digest. -/
def truncated (sha : Digest.Hash) (s : String) : List UInt8 :=
  Digest.short sha 6 (Utf8.encode s.toList)

def stateId (sha : Digest.Hash) (c : ProxyConfig) : String :=
  String.ofList (Digest.hex (truncated sha (joined c)))

def putOption (o : JSONObject) (key : String) (value : Option String) : JSONObject :=
  match value with
  | some v => if v.blank then o else o.put key v
  | none => o

def controlUrl (c : ProxyConfig) : Option String :=
  if c.host.startsWith "https://" ∨ c.host.startsWith "http://" then some c.host else none

/-- `SingBoxConfig.proxy` of a Tailscale profile. -/
def proxy (sha : Digest.Hash) (c : ProxyConfig) : JSONObject :=
  let flags := (c.headerType.parts ',').map String.trimmed
  let o := JSONObject.put [] "tag" "proxy"
  let o := (o.put "type" "tailscale").put "state_directory" ("tailscale-" ++ stateId sha c)
  let o := putOption (putOption o "auth_key" c.password) "control_url" (controlUrl c)
  let o := putOption (o.put "hostname" (c.sni.ifBlank "ghajar-android")) "exit_node" c.path
  let o := o.putIf (flags.contains "ephemeral") "ephemeral" true
  let o := o.putIf (flags.contains "routes") "accept_routes" true
  o.putIf (flags.contains "lan" && !c.path.blank) "exit_node_allow_lan_access" true

def spec (sha : Digest.Hash) (c : ProxyConfig) : JSONObject :=
  JSONObject.put [] "endpoint" (proxy sha c)

/-- The directory an endpoint keeps its node in. -/
def stateDirectory (spec : JSONObject) : String :=
  ((spec.optJSONObject "endpoint").getD []).optString "state_directory"

/-! ## Directories -/

section Directories

variable {sha : Digest.Hash} {a b : ProxyConfig}

theorem opt_putOption_ne {o : JSONObject} {k k' : String} {v : Option String} (h : k ≠ k') :
    JSONObject.opt (putOption o k v) k' = JSONObject.opt o k' := by
  unfold putOption
  split
  · split
    · rfl
    · exact JSONObject.opt_put_ne h
  · rfl

theorem stateDirectory_spec (sha : Digest.Hash) (c : ProxyConfig) :
    stateDirectory (spec sha c) = "tailscale-" ++ stateId sha c := by
  have hp : JSONObject.opt (proxy sha c) "state_directory" =
      some (.str ("tailscale-" ++ stateId sha c)) := by
    unfold proxy
    simp only [JSONObject.opt_putIf_ne, JSONObject.opt_put_ne, JSONObject.opt_put_self,
      opt_putOption_ne, ne_eq, String.reduceEq, not_false_eq_true]
  have he : JSONObject.optJSONObject (spec sha c) "endpoint" = some (proxy sha c) := by
    unfold spec JSONObject.optJSONObject
    rw [JSONObject.opt_put_self]
  rw [stateDirectory, he, Option.getD_some, JSONObject.optString, hp]
  rfl

theorem stateId_eq_iff :
    stateId sha a = stateId sha b ↔ truncated sha (joined a) = truncated sha (joined b) := by
  constructor
  · intro h
    have hc : String.toList (stateId sha a) = String.toList (stateId sha b) := congrArg _ h
    rw [stateId, stateId, String.toList_ofList, String.toList_ofList] at hc
    exact Digest.hex_inj hc
  · intro h
    rw [stateId, stateId, h]

/-- Where the digests of these texts do not collide the texts are all that tells directories
apart. -/
theorem stateDirectory_eq_iff {texts : Set String} (hsha : Set.InjOn (truncated sha) texts)
    (ha : joined a ∈ texts) (hb : joined b ∈ texts) :
    stateDirectory (spec sha a) = stateDirectory (spec sha b) ↔ joined a = joined b := by
  rw [stateDirectory_spec, stateDirectory_spec, String.append_right_inj, stateId_eq_iff]
  exact hsha.eq_iff ha hb

/-- Without bars in the two fields before the name the text says what the three fields are. -/
theorem joined_inj (hah : '|' ∉ a.host.toList) (has : '|' ∉ a.sni.toList)
    (hbh : '|' ∉ b.host.toList) (hbs : '|' ∉ b.sni.toList) :
    joined a = joined b ↔ a.host = b.host ∧ a.sni = b.sni ∧ a.name = b.name := by
  have hbar : String.toList "|" = ['|'] := by decide
  constructor
  · intro h
    have hl := congrArg String.toList h
    simp only [joined, String.toList_append, hbar, List.append_assoc, List.cons_append, List.nil_append] at hl
    obtain ⟨h1, hl⟩ := sep_inj hah hbh hl
    obtain ⟨h2, h3⟩ := sep_inj has hbs hl
    exact ⟨String.toList_inj.1 h1, String.toList_inj.1 h2, String.toList_inj.1 h3⟩
  · rintro ⟨h1, h2, h3⟩
    rw [joined, joined, h1, h2, h3]

theorem renameConfig_getElem? {configs : List ProxyConfig} {id typed : String} {i : Nat}
    {c c' : ProxyConfig} (hc : configs[i]? = some c)
    (hc' : (renameConfig configs id typed)[i]? = some c') :
    c' = if newName typed ≠ "" ∧ c.id = id then { c with name := newName typed } else c := by
  unfold renameConfig at hc'
  by_cases hn : newName typed = ""
  · rw [if_pos hn, hc] at hc'
    rw [if_neg fun h => h.1 hn]
    exact (Option.some.inj hc').symm
  · rw [if_neg hn, List.getElem?_map, hc] at hc'
    rw [← Option.some.inj hc']
    dsimp only
    by_cases hi : c.id = id
    · rw [if_pos hi, if_pos ⟨hn, hi⟩]
    · rw [if_neg hi, if_neg fun h => hi h.2]

theorem joined_rename {s : String} : joined { a with name := s } = joined a ↔ s = a.name := by
  simp only [joined, String.append_right_inj]

/-- A profile has its directory after a renaming exactly where its name stays. -/
theorem joined_renamed {configs : List ProxyConfig} {id typed : String} {i : Nat}
    {c c' : ProxyConfig} (hc : configs[i]? = some c)
    (hc' : (renameConfig configs id typed)[i]? = some c') :
    joined c' = joined c ↔ (c.id = id → newName typed = "" ∨ newName typed = c.name) := by
  rw [renameConfig_getElem? hc hc']
  by_cases hn : newName typed = ""
  · rw [if_neg fun h => h.1 hn]
    exact iff_of_true rfl fun _ => .inl hn
  by_cases hi : c.id = id
  · rw [if_pos ⟨hn, hi⟩, joined_rename]
    exact ⟨fun h _ => .inr h, fun h => (h hi).resolve_left hn⟩
  · rw [if_neg fun h => hi h.2]
    exact iff_of_true rfl fun h => absurd h hi

end Directories

/-! ## Profiles of links -/

/-- They belong to two control servers or to two keys. -/
def Apart (a b : ProxyConfig) : Prop := a.host ≠ b.host ∨ a.password ≠ b.password

theorem own_directories {skip : Replaced} {sha : Digest.Hash} {link link' : Chars}
    {source source' : ConfigSource} {fresh fresh' : String} {a b : ProxyConfig}
    (_ha : parseTailscale skip link source fresh = some a)
    (_hb : parseTailscale skip link' source' fresh' = some b)
    {configs : List ProxyConfig} {id typed : String} {i : Nat} {c' : ProxyConfig}
    (hc : configs[i]? = some a) (hc' : (renameConfig configs id typed)[i]? = some c')
    (hsha : Set.InjOn (truncated sha) {joined a, joined b, joined c'}) :
    (Apart a b → stateDirectory (spec sha a) ≠ stateDirectory (spec sha b)) ∧
        stateDirectory (spec sha c') = stateDirectory (spec sha a) ↔
      (Apart a b → joined a ≠ joined b) ∧
        (a.id = id → newName typed = "" ∨ newName typed = a.name) := by
  rw [← joined_renamed hc hc', stateDirectory_eq_iff hsha (by simp) (by simp), ne_eq,
    stateDirectory_eq_iff hsha (by simp) (by simp)]

/-- Two links with a key each and one name. -/
def homeLink (key : String) : Chars := (key ++ "@controlplane.tailscale.com#home").toList

def home (key : String) : ProxyConfig :=
  { name := "home", protocol := "tailscale", address := TAILSCALE_CONTROL, port := 443,
    password := key, id := "a" }

/-- The digests of the texts of `home` and of a profile named `work`. -/
def someSha : Digest.Hash := fun text =>
  if text = Utf8.encode "||home".toList then
    ⟨[38, 191, 102, 207, 61, 181, 3, 196, 238, 186, 3, 181, 68, 170, 9, 19, 207, 165, 192, 157, 104,
      145, 179, 130, 240, 43, 177, 36, 79, 114, 77, 111], rfl⟩
  else
    ⟨[77, 33, 31, 3, 190, 79, 94, 66, 224, 176, 117, 49, 21, 238, 98, 41, 201, 53, 42, 222, 101, 229,
      80, 94, 93, 202, 106, 187, 32, 12, 159, 63], rfl⟩

theorem parse_home :
    parseTailscale (fun _ => 1) (homeLink "key1") .personal "a" = some (home "key1") ∧
      parseTailscale (fun _ => 1) (homeLink "key2") .personal "a" = some (home "key2") := by
  decide +kernel

theorem someSha_injOn :
    Set.InjOn (truncated someSha)
      {joined (home "key1"), joined (home "key2"),
        joined { home "key1" with name := "work" }} := by
  have hne : truncated someSha "||home" ≠ truncated someSha "||work" := by decide +kernel
  rintro s (rfl | rfl | rfl) t (rfl | rfl | rfl) h
  · rfl
  · rfl
  · exact absurd h hne
  · rfl
  · rfl
  · exact absurd h hne
  · exact absurd h.symm hne
  · exact absurd h.symm hne
  · rfl

theorem own_directories_home :
    (Apart (home "key1") (home "key2") →
          stateDirectory (spec someSha (home "key1")) ≠
            stateDirectory (spec someSha (home "key2"))) ∧
        stateDirectory (spec someSha { home "key1" with name := "work" }) =
          stateDirectory (spec someSha (home "key1")) ↔
      (Apart (home "key1") (home "key2") → joined (home "key1") ≠ joined (home "key2")) ∧
        ((home "key1").id = "a" → newName "work" = "" ∨ newName "work" = (home "key1").name) := by
  have hc : [home "key1"][0]? = some (home "key1") := rfl
  have hc' : (renameConfig [home "key1"] "a" "work")[0]? =
      some { home "key1" with name := "work" } := by decide +kernel
  exact own_directories parse_home.1 parse_home.2 hc hc' someSha_injOn

/-- Two keys with one directory, whatever the digests are, and a directory that a new name
takes away. -/
theorem key_shares_directory :
    (∃ a b, parseTailscale (fun _ => 1) (homeLink "key1") .personal "a" = some a ∧
        parseTailscale (fun _ => 1) (homeLink "key2") .personal "a" = some b ∧
        a.password ≠ b.password ∧
        ∀ sha, stateDirectory (spec sha a) = stateDirectory (spec sha b)) ∧
      (renameConfig [home "key1"] "a" "work").map (fun c => stateDirectory (spec someSha c)) ≠
        [stateDirectory (spec someSha (home "key1"))] := by
  refine ⟨⟨home "key1", home "key2", parse_home.1, parse_home.2, by decide, fun sha => ?_⟩,
    by decide +kernel⟩
  rw [stateDirectory_spec, stateDirectory_spec]
  rfl

end Ghajar.Tailscale
