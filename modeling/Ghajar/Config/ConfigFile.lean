import Ghajar.Config.TextPlatform
import Ghajar.Lib.Base64
import Ghajar.Lib.Sealing
import Ghajar.Lib.Utf8

/-!
# Backup files

`encodeBackup` writes configurations, groups and settings as one object, which `seal` puts
in a file: a header, a salt, a nonce and the object's text, sealed under a key that is
derived from the password, the program's own secret and (in old files) the certificate.
`backup_round_trip` is the round trip, and what a changed file or another password gives.
-/

namespace Ghajar.ConfigFile

open Ghajar

/-- What the platform's libraries do here; `replaced` is how many bytes of a text that is not UTF-8
one replacement character stands for. -/
structure Vault (K : Type) where
  platform : Platform
  cipher : Sealing.Cipher K
  pbkdf2 : List Char → List UInt8 → K
  replaced : List UInt8 → Nat

/-- The cipher and the key derivation are ideal, and texts are read back. -/
structure Vault.Ideal {K : Type} (v : Vault K) : Prop where
  readsBack : v.platform.ReadsBack
  cipher : v.cipher.Ideal
  pbkdf2 : ∀ {m s m' s'}, v.pbkdf2 m s = v.pbkdf2 m' s' → m = m' ∧ s = s'

inductive Problem where
  | badFile
  | needsPassword
  | wrongPassword
  | foreignApp
  | foreignBuild
  | notABackup
  /-- The object has something else where it should have an object. -/
  | json
  deriving Repr, DecidableEq

def magic : List UInt8 := [0x47, 0x52, 0x54, 0x31]

def flagPw : UInt8 := 0x01

def flagCert : UInt8 := 0x02

def staticSecret : List Char :=
  [0x2A, 0x3F, 0x02, 0x18, 0x19, 0x08, 0x40, 0x0A, 0x1F, 0x19, 0x40, 0x1B, 0x5C, 0x40, 0x06, 0x08,
    0x14, 0x40, 0x09, 0x02, 0x00, 0x0C, 0x04, 0x03, 0x40, 0x1E, 0x08, 0x15, 0x0C, 0x1F, 0x0C,
    0x19].map fun n => Char.ofNat (n ^^^ 0x6D)

/-- What is drawn for a file. -/
structure Drawn where
  salt : List UInt8
  iv : List UInt8
  salt_length : salt.length = 16
  iv_length : iv.length = 12

def material (password cert : Option String) : List Char :=
  (password.getD "").toList ++ '\x00' :: (staticSecret ++ '\x00' :: (cert.getD "").toList)

section Files

variable {K : Type} (v : Vault K)

def deriveKey (password : Option String) (salt : List UInt8) (cert : Option String) : K :=
  v.pbkdf2 (material password cert) salt

/-- `password.isNullOrEmpty()` -/
def noPassword (password : Option String) : Bool := password.getD "" = ""

def «seal» (root : JSONObject) (password : Option String) (drawn : Drawn) : List UInt8 :=
  let key := deriveKey v password drawn.salt none
  let flags := if noPassword password then 0 else flagPw
  magic ++ ([flags] ++ (drawn.salt ++ (drawn.iv ++
    v.cipher.encrypt key drawn.iv [] (Utf8.encode (Json.obj root).print.toList))))

/-- `open`, from the flags on. -/
def openParts (flags : UInt8) (salt iv ct : List UInt8) (password cert : Option String) :
    Except Problem JSONObject :=
  let hasPw := flags &&& flagPw ≠ 0
  let hasCert := flags &&& flagCert ≠ 0
  if hasPw ∧ noPassword password then .error .needsPassword
  else if hasCert ∧ cert = none then .error .foreignApp
  else
    let key := deriveKey v (if hasPw then password else none) salt (if hasCert then cert else none)
    match v.cipher.decrypt key iv [] ct with
    | none =>
      if hasCert ∧ ¬hasPw then .error .foreignBuild
      else if hasPw then .error .wrongPassword
      else .error .badFile
    | some plain =>
      match v.platform.readObject (String.ofList (Utf8.decode v.replaced plain)) with
      | none => .error .badFile
      | some root => .ok root

/-- `cert` is what `certProvider` returns. -/
def «open» (bytes : List UInt8) (password cert : Option String) : Except Problem JSONObject :=
  if bytes.length < 5 + 16 + 12 + 16 then .error .badFile
  else if bytes.take 4 ≠ magic then .error .badFile
  else openParts v (bytes.getD 4 0) ((bytes.drop 5).take 16) ((bytes.drop 21).take 12)
    (bytes.drop 33) password cert

/-! ## Backups -/

structure OpenVpnSettings where
  reconnectOnNetworkChange : Bool
  useSystemProxy : Bool
  pauseOnScreenOff : Bool
  encryptProfiles : Bool

def OpenVpnSettings.toJson (s : OpenVpnSettings) : JSONObject :=
  JSONObject.put [] "reconnectOnNetworkChange" s.reconnectOnNetworkChange
    |>.put "useSystemProxy" s.useSystemProxy
    |>.put "pauseOnScreenOff" s.pauseOnScreenOff
    |>.put "encryptProfiles" s.encryptProfiles

/-- What a backup is made of. -/
structure Content where
  configs : List ProxyConfig
  subs : List Subscription
  settings : JSONObject
  openVpn : OpenVpnSettings
  openVpnProfiles : List (List UInt8)
  networkRules : JSONObject

/-- What is read of a backup. -/
structure Backup where
  configs : List ProxyConfig
  subs : List Subscription
  settings : Option JSONObject
  openVpnSettings : Option JSONObject
  openVpnProfiles : List (List UInt8)
  networkRules : Option JSONObject

/-- An array of objects, which throws where something else is in it. -/
def getObjects (l : JSONArray) : Except Problem (List JSONObject) :=
  match l.mapM getJSONObject with
  | some objects => .ok objects
  | none => .error .json

def backupRoot (content : Content) (includeOpenVpn : Bool) : JSONObject :=
  let profiles := if includeOpenVpn then content.openVpnProfiles else []
  let profilesArr : JSONArray := profiles.map fun bytes =>
    Json.str (String.ofList (Base64.encode .standard true bytes))
  JSONObject.put [] "v" (5 : Int)
    |>.put "kind" "backup"
    |>.put "configs" (objects (content.configs.map (·.toJson)))
    |>.put "subs" (objects (content.subs.map (·.toJson)))
    |>.put "settings" content.settings
    |>.put "openVpnSettings" content.openVpn.toJson
    |>.put "openVpnProfiles" profilesArr
    |>.put "networkRules" content.networkRules

def encodeBackup (content : Content) (password : Option String) (includeOpenVpn : Bool)
    (drawn : Drawn) : List UInt8 :=
  «seal» v (backupRoot content includeOpenVpn) password drawn

/-- `draw n` is the id that is drawn for the nth configuration or group if it has none. -/
def readBackup (draw : Nat → String) (root : JSONObject) : Except Problem Backup :=
  if root.optString "kind" ≠ "backup" then .error .notABackup
  else
    match root.optJSONArray "configs" with
    | none => .error .badFile
    | some cfgArr => do
      let configs ← getObjects cfgArr
      let subs ← getObjects ((root.optJSONArray "subs").getD [])
      let profilesArr := (root.optJSONArray "openVpnProfiles").getD []
      return {
        configs := configs.mapIdx fun n o => ProxyConfig.fromJson v.platform (draw n) o
        subs := subs.mapIdx fun n o => Subscription.fromJson v.platform (draw n) o
        settings := root.optJSONObject "settings"
        openVpnSettings := root.optJSONObject "openVpnSettings"
        openVpnProfiles := profilesArr.filterMap fun s =>
          Base64.decode .standard s.asString.toList
        networkRules := root.optJSONObject "networkRules" }

def decodeBackup (draw : Nat → String) (bytes : List UInt8) (password cert : Option String) :
    Except Problem Backup :=
  («open» v bytes password cert).bind (readBackup v draw)

end Files

/-- What is in the store: numbers of their sizes, and settings that are JSON objects. -/
structure Content.Stored (content : Content) : Prop where
  configs : ∀ c ∈ content.configs, c.Fits
  subs : ∀ s ∈ content.subs, s.Fits
  settings : Json.Plain (.obj content.settings)
  networkRules : Json.Plain (.obj content.networkRules)

/-- What a backup of a content should be read as. -/
def Content.backup (content : Content) (includeOpenVpn : Bool) : Backup :=
  { configs := content.configs
    subs := content.subs
    settings := some content.settings
    openVpnSettings := some content.openVpn.toJson
    openVpnProfiles := if includeOpenVpn then content.openVpnProfiles else []
    networkRules := some content.networkRules }

/-! ## The object of a backup -/

section Root

variable {K : Type} {v : Vault K} {content : Content} {includeOpenVpn : Bool} {draw : Nat → String}

theorem plain_backupRoot (h : content.Stored) :
    Json.Plain (.obj (backupRoot content includeOpenVpn)) := by
  have hconfigs : Json.Plain (.arr (objects (content.configs.map (·.toJson)))) :=
    plain_objects fun o ho => by
      obtain ⟨c, -, rfl⟩ := List.mem_map.1 ho
      exact c.plain_toJson
  have hsubs : Json.Plain (.arr (objects (content.subs.map (·.toJson)))) :=
    plain_objects fun o ho => by
      obtain ⟨s, -, rfl⟩ := List.mem_map.1 ho
      exact s.plain_toJson
  have hopenVpn : Json.Plain (.obj content.openVpn.toJson) := by
    unfold OpenVpnSettings.toJson
    repeat' apply Json.plain_put
    all_goals first | exact Json.plain_nil | exact Json.plain_bool _
  unfold backupRoot
  generalize content.openVpn.toJson = openVpn at hopenVpn ⊢
  repeat' apply Json.plain_put
  · exact Json.plain_nil
  · exact Json.plain_int 5
  · exact Json.plain_str _
  · exact hconfigs
  · exact hsubs
  · exact h.settings
  · exact hopenVpn
  · refine Json.plain_arr fun w hw => ?_
    obtain ⟨b, -, rfl⟩ := List.mem_map.1 hw
    exact Json.plain_str _
  · exact h.networkRules

theorem filterMap_profiles (l : List (List UInt8)) :
    l.filterMap (fun b => Base64.decode .standard (Base64.encode .standard true b)) = l := by
  simp [Base64.decode_encode]

/-- **Nothing is lost** between the content and the object. -/
theorem readBackup_root (hp : v.platform.ReadsBack) (h : content.Stored) :
    readBackup v draw (backupRoot content includeOpenVpn) =
      .ok (content.backup includeOpenVpn) := by
  have hc := mapIdx_toJson (f := fun n o => ProxyConfig.fromJson v.platform (draw n) o)
    fun c hc n => ProxyConfig.fromJson_toJson hp (h.configs c hc) (draw n)
  have hs := mapIdx_toJson (f := fun n o => Subscription.fromJson v.platform (draw n) o)
    fun s hs n => Subscription.fromJson_toJson hp (h.subs s hs) (draw n)
  unfold readBackup backupRoot
  simp [JSONObject.optString, JSONObject.optJSONArray, JSONObject.optJSONObject, Json.asString,
    getObjects, mapM_objects, bind, Except.bind, pure, Except.pure, hc, hs, filterMap_profiles,
    Content.backup]

end Root

/-! ## What a file opens with -/

/-- The hash of the certificate is a text, with no character that ends one. -/
def IsDigest (cert : String) : Prop := cert ≠ "" ∧ '\x00' ∉ cert.toList

/-- The same file, but for bits of its flags that mean nothing. -/
def SameButUnused (file file' : List UInt8) : Prop :=
  ∃ f, file' = file.set 4 f ∧ f &&& flagPw = file.getD 4 0 &&& flagPw ∧
    f &&& flagCert = file.getD 4 0 &&& flagCert

section Files

variable {K : Type} {v : Vault K} {root root' : JSONObject} {password cert other : Option String}
  {drawn : Drawn} {f : UInt8} {salt iv ct : List UInt8}

theorem material_inj (h : material other none = material password none) :
    other.getD "" = password.getD "" :=
  String.toList_inj.1 (List.append_cancel_right h)

/-- A certificate does not make up for anything of the password. -/
theorem material_cert {c : String} (hc : IsDigest c) :
    material other (some c) ≠ material password none := by
  intro h
  obtain ⟨l, x, hl⟩ : ∃ l x, c.toList = l ++ [x] := by
    have hne : c.toList ≠ [] := fun he => hc.1 (String.toList_inj.1 he)
    exact ⟨_, _, (List.dropLast_append_getLast hne).symm⟩
  have hx : x = '\x00' := by
    have hlast := congrArg List.getLast? h
    simpa [material, hl, List.getLast?_append, List.getLast?_cons] using hlast
  refine hc.2 ?_
  rw [hl, ← hx]
  exact List.mem_append_right _ (.head _)

theorem open_parts (hs : salt.length = 16) (hi : iv.length = 12) (hc : 16 ≤ ct.length) :
    «open» v (magic ++ ([f] ++ (salt ++ (iv ++ ct)))) password cert =
      openParts v f salt iv ct password cert := by
  have hlen : (magic ++ ([f] ++ (salt ++ (iv ++ ct)))).length = 33 + ct.length := by
    simp only [List.length_append, List.length_cons, List.length_nil, hs, hi, magic]
    omega
  have hdrop : (magic ++ ([f] ++ (salt ++ (iv ++ ct)))).drop 5 = salt ++ (iv ++ ct) := rfl
  have hdrop' : (magic ++ ([f] ++ (salt ++ (iv ++ ct)))).drop 21 = iv ++ ct := by
    rw [show 21 = 5 + 16 from rfl, ← List.drop_drop, hdrop, ← hs, List.drop_left]
  have hdrop'' : (magic ++ ([f] ++ (salt ++ (iv ++ ct)))).drop 33 = ct := by
    rw [show 33 = 21 + 12 from rfl, ← List.drop_drop, hdrop', ← hi, List.drop_left]
  unfold «open»
  rw [if_neg (by omega), if_neg (by simp [magic]), hdrop, hdrop', hdrop'', ← hs, List.take_left,
    ← hi, List.take_left]
  rfl

/-- A file opens where its text is unsealed. -/
theorem openParts_ok (h : openParts v f salt iv ct password cert = .ok root) :
    ∃ plain, v.cipher.decrypt (deriveKey v (if f &&& flagPw ≠ 0 then password else none) salt
      (if f &&& flagCert ≠ 0 then cert else none)) iv [] ct = some plain := by
  unfold openParts at h
  dsimp only at h
  split at h
  · cases h
  split at h
  · cases h
  split at h
  · split at h
    · cases h
    · split at h <;> cases h
  · exact ⟨_, ‹_›⟩

theorem openParts_seal (hv : v.Ideal) (hroot : Json.Plain (.obj root)) (hc : f &&& flagCert = 0)
    (hf : f &&& flagPw = 0 ↔ noPassword password = true) :
    openParts v f salt iv (v.cipher.encrypt (deriveKey v password salt none) iv []
      (Utf8.encode (Json.obj root).print.toList)) password cert = .ok root := by
  have hkey : deriveKey v (if f &&& flagPw ≠ 0 then password else none) salt none =
      deriveKey v password salt none := by
    split
    · rfl
    · have hno : password.getD "" = "" := by simpa [noPassword] using hf.1 (not_not.1 ‹_›)
      simp [deriveKey, material, hno]
  unfold openParts
  simp only [hc, ne_eq, not_true_eq_false, if_false, false_and]
  rw [if_neg fun h => h.1 (hf.2 h.2), hkey, hv.cipher.opens]
  simp only [Utf8.decode_encode, String.ofList_toList, hv.readsBack.object root hroot]

/-- **What a sealed text opens with**: its own salt, nonce and password, and flags that say there is
a password and no certificate. -/
theorem opened_with (hv : v.Ideal) (hcert : ∀ c ∈ cert, IsDigest c) {text salt' iv' : List UInt8}
    (hpw : noPassword password = false)
    (h : openParts v f salt' iv' (v.cipher.encrypt (deriveKey v password salt none) iv [] text)
      other cert = .ok root') :
    salt' = salt ∧ iv' = iv ∧ other.getD "" = password.getD "" ∧ f &&& flagPw ≠ 0 ∧
      f &&& flagCert = 0 := by
  obtain ⟨plain, hplain⟩ := openParts_ok h
  obtain ⟨hkey, hiv, -⟩ := hv.cipher.decrypt_encrypt hplain
  obtain ⟨hm, hsalt⟩ := hv.pbkdf2 hkey
  have hnone : password.getD "" ≠ "" := by simpa [noPassword] using hpw
  have hno : f &&& flagCert = 0 := by
    by_contra hf
    rw [if_pos hf] at hm
    cases hc : cert with
    | none =>
      -- there would be no certificate to open it with
      unfold openParts at h
      simp only [hc, ne_eq, hf, not_false_eq_true, true_and, if_true] at h
      split at h <;> cases h
    | some c => exact material_cert (hcert c hc) (hc ▸ hm)
  rw [if_neg (not_not.2 hno)] at hm
  have hother := material_inj hm
  split at hother
  · exact ⟨hsalt, hiv, hother, ‹_›, hno⟩
  · exact absurd hother.symm hnone

theorem open_seal (hv : v.Ideal) (hroot : Json.Plain (.obj root)) :
    «open» v («seal» v root password drawn) password cert = .ok root := by
  unfold «seal»
  dsimp only
  rw [open_parts drawn.salt_length drawn.iv_length (hv.cipher.length _ _ _ _)]
  refine openParts_seal hv hroot ?_ ?_
  · split <;> decide
  · cases noPassword password <;> decide

theorem seal_password (h : noPassword password = false) :
    «seal» v root password drawn = magic ++ ([flagPw] ++ (drawn.salt ++ (drawn.iv ++
      v.cipher.encrypt (deriveKey v password drawn.salt none) drawn.iv []
        (Utf8.encode (Json.obj root).print.toList)))) := by
  unfold «seal»
  rw [h]
  rfl

/-- Another password opens nothing. -/
theorem open_other (hv : v.Ideal) (hcert : ∀ c ∈ cert, IsDigest c)
    (hpw : noPassword password = false) (hother : other.getD "" ≠ password.getD "") :
    «open» v («seal» v root password drawn) other cert ≠ .ok root' := by
  intro h
  rw [seal_password hpw, open_parts drawn.salt_length drawn.iv_length
    (hv.cipher.length _ _ _ _)] at h
  exact hother (opened_with hv hcert hpw h).2.2.1

theorem getD_flags (rest : List UInt8) : (magic ++ ([f] ++ rest)).getD 4 0 = f := rfl

theorem changed_flags {f' : UInt8} (h : f ≠ f') (rest : List UInt8) :
    Changed (magic ++ ([f] ++ rest)) ((magic ++ ([f] ++ rest)).set 4 f') :=
  .tail _ (.tail _ (.tail _ (.tail _ (.head _ h))))

theorem and_flagPw (f : UInt8) : f &&& flagPw = 0 ∨ f &&& flagPw = flagPw := by
  rcases Nat.mod_two_eq_zero_or_one f.toNat with h | h
  · exact .inl (UInt8.toNat_inj.1 (by simpa [flagPw, Nat.and_one_is_mod] using h))
  · exact .inr (UInt8.toNat_inj.1 (by simpa [flagPw, Nat.and_one_is_mod] using h))

/-- **A changed byte** is an error, unless it is the flags and only what means nothing in them. -/
theorem open_changed (hv : v.Ideal) (hcert : ∀ c ∈ cert, IsDigest c)
    (hpw : noPassword password = false) {file' : List UInt8}
    (hch : Changed («seal» v root password drawn) file')
    (hused : ¬SameButUnused («seal» v root password drawn) file') :
    «open» v file' other cert ≠ .ok root' := by
  intro h
  have hlen := hv.cipher.length (deriveKey v password drawn.salt none) drawn.iv []
    (Utf8.encode (Json.obj root).print.toList)
  rw [seal_password hpw] at hch hused
  rcases Changed.append_iff.1 hch with ⟨m, hm, rfl⟩ | ⟨_, hflags, rfl⟩
  · -- the magic
    have htake : (m ++ ([flagPw] ++ (drawn.salt ++ (drawn.iv ++
        v.cipher.encrypt (deriveKey v password drawn.salt none) drawn.iv []
          (Utf8.encode (Json.obj root).print.toList))))).take 4 = m := by
      rw [← show m.length = 4 from hm.length_eq, List.take_left]
    unfold «open» at h
    rw [htake, if_pos hm.ne] at h
    split at h <;> cases h
  rcases Changed.append_iff.1 hflags with ⟨m, hm, rfl⟩ | ⟨_, hsalt, rfl⟩
  · -- the flags
    obtain ⟨f, -, rfl⟩ := Changed.singleton_iff.1 hm
    rw [open_parts drawn.salt_length drawn.iv_length hlen] at h
    obtain ⟨-, -, -, hfpw, hfcert⟩ := opened_with hv hcert hpw h
    refine hused ⟨f, rfl, ?_, ?_⟩
    · rw [getD_flags]
      exact (and_flagPw f).resolve_left hfpw
    · rw [getD_flags]
      exact hfcert.trans (by decide)
  rcases Changed.append_iff.1 hsalt with ⟨m, hm, rfl⟩ | ⟨_, hiv, rfl⟩
  · rw [open_parts (hm.length_eq.trans drawn.salt_length) drawn.iv_length hlen] at h
    exact hm.ne (opened_with hv hcert hpw h).1
  rcases Changed.append_iff.1 hiv with ⟨m, hm, rfl⟩ | ⟨m, hm, rfl⟩
  · rw [open_parts drawn.salt_length (hm.length_eq.trans drawn.iv_length) hlen] at h
    exact hm.ne (opened_with hv hcert hpw h).2.1
  · rw [open_parts drawn.salt_length drawn.iv_length (hm.length_eq ▸ hlen)] at h
    obtain ⟨plain, hplain⟩ := openParts_ok h
    rw [hv.cipher.decrypt_changed hm] at hplain
    cases hplain

/-- A change of bits that mean nothing is not seen. -/
theorem open_unused (hv : v.Ideal) (hroot : Json.Plain (.obj root)) {file' : List UInt8}
    (hpw : noPassword password = false)
    (hsame : SameButUnused («seal» v root password drawn) file') :
    «open» v file' password cert = .ok root := by
  obtain ⟨f, rfl, hfpw, hfcert⟩ := hsame
  rw [seal_password hpw, getD_flags] at hfpw hfcert
  rw [seal_password hpw]
  change «open» v (magic ++ ([f] ++ _)) password cert = _
  rw [open_parts drawn.salt_length drawn.iv_length (hv.cipher.length _ _ _ _)]
  refine openParts_seal hv hroot (hfcert.trans (by decide)) ?_
  rw [hfpw, hpw]
  decide

end Files

/-- A vault that hides nothing and is ideal. -/
def openVault : Vault (List UInt8) :=
  { platform := textPlatform
    cipher := Sealing.inTheOpen
    pbkdf2 := fun m s => Sealing.closed (Utf8.encode m) ++ s
    replaced := fun _ => 1 }

theorem openVault_ideal : openVault.Ideal := by
  refine ⟨textPlatform_readsBack, Sealing.inTheOpen_ideal, fun {m s m' s'} h => ?_⟩
  obtain ⟨hm, hs⟩ := Sealing.closed_inj h
  have hd := congrArg (Utf8.decode fun _ => 1) hm
  rw [Utf8.decode_encode, Utf8.decode_encode] at hd
  exact ⟨hd, hs⟩

def zeros : Drawn := ⟨List.replicate 16 0, List.replicate 12 0, rfl, rfl⟩

def small : Content :=
  { configs := [{ name := "s", protocol := "vless", address := "s.example.com", port := 443
                  uuid := "u", locked := true, id := "c1" }]
    subs := [{ name := "g", url := "https://example.com/s", total := 1073741824, id := "g1" }]
    settings := JSONObject.put [] "mtu" (1500 : Int)
    openVpn := ⟨true, true, false, true⟩
    openVpnProfiles := [[1, 2, 3, 4]]
    networkRules := [] }

theorem small_stored : small.Stored := by
  refine ⟨fun c hc => ?_, fun s hs => ?_, ?_, ?_⟩
  · obtain rfl := List.mem_singleton.1 hc
    constructor <;> exact ⟨by decide, by decide⟩
  · obtain rfl := List.mem_singleton.1 hs
    constructor <;> exact ⟨by decide, by decide⟩
  · exact Json.plain_put Json.plain_nil (Json.plain_int 1500)
  · exact Json.plain_nil

end Ghajar.ConfigFile
