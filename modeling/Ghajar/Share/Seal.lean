import Mathlib
import Ghajar.Config.ConfigFile
import Ghajar.Config.TextPlatform
import Ghajar.Lib.Base64
import Ghajar.Lib.Sealing
import Ghajar.Lib.Utf8
import Ghajar.Share.Share

/-!
# Share files

`Gsb2.seal` and `Gsb2.open`. A file is a header of six bytes, a salt, a nonce, the key
itself where there is no password, and a sealed envelope with the payload and its
signature; the header goes with the envelope as data. `seal_opens` is the round trip, and
what another password or a changed byte gives.
-/

namespace Ghajar.Gsb2

open Ghajar

/-- What the platform's libraries do here; `sign` and `verify` are nothing where they throw. -/
structure Vault (K : Type) where
  platform : Platform
  cipher : Sealing.Cipher K
  pbkdf2 : List Char → List UInt8 → K
  secretKey : List UInt8 → K
  sign : String → List UInt8 → Option (List UInt8)
  verify : String → List UInt8 → List UInt8 → Option Bool
  replaced : List UInt8 → Nat

/-- The cipher and the key derivation are ideal, and texts are read back. -/
structure Vault.Ideal {K : Type} (v : Vault K) : Prop where
  readsBack : v.platform.ReadsBack
  cipher : v.cipher.Ideal
  pbkdf2 : ∀ {m s m' s'}, v.pbkdf2 m s = v.pbkdf2 m' s' → m = m' ∧ s = s'
  secretKey : ∀ {k k'}, v.secretKey k = v.secretKey k' → k = k'

/-- A private key and its public key: what the one signs, the other verifies. -/
def Vault.Pair {K : Type} (v : Vault K) (issuerPrivate issuerPublic : String) : Prop :=
  ∀ m, ∃ sig, v.sign issuerPrivate m = some sig ∧ v.verify issuerPublic m sig = some true

inductive OpenResult where
  | ok (share : Share)
  | needsPassword
  | wrongPassword
  | invalid (reason : String)

def magic : List UInt8 := [0x47, 0x53, 0x42, 0x32]

def version : UInt8 := 1

def flagPassword : UInt8 := 1

def maxFile : Nat := 4 * 1024 * 1024

/-- What is drawn for a file; the key is used where there is no password. -/
structure Randoms where
  salt : List UInt8
  iv : List UInt8
  rawKey : List UInt8
  salt_length : salt.length = 16
  iv_length : iv.length = 12
  rawKey_length : rawKey.length = 32

/-! ## The payload -/

def payloadJson (s : Share) : JSONObject :=
  JSONObject.put [] "v" (2 : Int)
    |>.put "id" s.id
    |>.put "name" s.name
    |>.put "note" s.note
    |>.put "createdAt" s.createdAt
    |>.put "expiresAt" s.expiresAt
    |>.put "duration" s.durationMs
    |>.put "quota" s.quotaBytes
    |>.put "hidden" s.hidden
    |>.put "configs" (objects (s.configs.map (·.toJson)))
    |>.put "subscriptions" (s.subscriptions.map Json.str : JSONArray)

/-- Nothing where there is no such field and the call throws. -/
def getString (o : JSONObject) (k : String) : Option String := (o.opt k).map (·.asString)

/-- Nothing where this throws. `draw n` is the id drawn for the nth configuration if it has none. -/
def parsePayload (p : Platform) (draw : Nat → String) (o : JSONObject) (pub : String) :
    Option Share := do
  let configs ← ((o.optJSONArray "configs").getD []).mapM getJSONObject
  let configs := configs.mapIdx fun n o => ProxyConfig.fromJson p (draw n) o
  let subs := ((o.optJSONArray "subscriptions").getD []).map (·.asString)
  if configs.isEmpty ∧ subs.isEmpty then none
  else
    let id ← getString o "id"
    return {
      id
      name := o.optString "name"
      note := o.optString "note"
      createdAt := optLong p o "createdAt"
      expiresAt := optLong p o "expiresAt"
      durationMs := optLong p o "duration"
      quotaBytes := optLong p o "quota"
      hidden := o.optBoolean "hidden" true
      configs
      subscriptions := subs
      issuerKey := pub }

/-- The numbers are of their sizes, and there is something to share. -/
structure Share.Sealable (s : Share) : Prop where
  createdAt : IsLong s.createdAt
  expiresAt : IsLong s.expiresAt
  durationMs : IsLong s.durationMs
  quotaBytes : IsLong s.quotaBytes
  configs : ∀ c ∈ s.configs, c.Fits
  nonempty : s.configs ≠ [] ∨ s.subscriptions ≠ []

section Payload

variable {p : Platform} {s : Share} {draw : Nat → String} {pub : String}

theorem plain_payloadJson : Json.Plain (.obj (payloadJson s)) := by
  have hconfigs : Json.Plain (.arr (objects (s.configs.map (·.toJson)))) :=
    plain_objects fun o ho => by
      obtain ⟨c, -, rfl⟩ := List.mem_map.1 ho
      exact c.plain_toJson
  have hsubs : Json.Plain (.arr (s.subscriptions.map Json.str)) := by
    refine Json.plain_arr fun w hw => ?_
    obtain ⟨t, -, rfl⟩ := List.mem_map.1 hw
    exact Json.plain_str t
  unfold payloadJson
  repeat' apply Json.plain_put
  all_goals first
    | exact Json.plain_nil
    | exact Json.plain_str _
    | exact Json.plain_int _
    | exact Json.plain_bool _
    | exact hconfigs
    | exact hsubs

/-- **Nothing of a share is lost** in its payload; it is read with the key it is verified by. -/
theorem parsePayload_payloadJson (hp : p.ReadsBack) (h : s.Sealable) :
    parsePayload p draw (payloadJson s) pub = some { s with issuerKey := pub } := by
  have hc := mapIdx_toJson (f := fun n o => ProxyConfig.fromJson p (draw n) o)
    fun c hc n => ProxyConfig.fromJson_toJson hp (h.configs c hc) (draw n)
  have hsubs : s.subscriptions.map (fun t => (Json.str t).asString) = s.subscriptions :=
    List.map_id'' (fun t => rfl) s.subscriptions
  have hlong (n : Int) (hn : IsLong n) : p.readLong n.repr = some n := hp.long n hn
  unfold parsePayload payloadJson
  simp [JSONObject.optString, JSONObject.optBoolean, JSONObject.optJSONArray, getString, optLong,
    Json.asString, mapM_objects, hc, hlong _ h.createdAt, hlong _ h.expiresAt,
    hlong _ h.durationMs, hlong _ h.quotaBytes]
  exact ⟨fun hn => h.nonempty.resolve_left (not_not.2 hn), hsubs⟩

end Payload

/-! ## Files -/

section Files

variable {K : Type} (v : Vault K)

/-- `password == null || password.isEmpty()` -/
def noPassword (password : Option (List Char)) : Bool := (password.getD []).isEmpty

def header (flags : UInt8) : List UInt8 := magic ++ [version, flags]

def envelopeJson (payload sig : List UInt8) (issuerPublic : String) : JSONObject :=
  JSONObject.put [] "payload" (String.ofList (Utf8.decode v.replaced payload))
    |>.put "sig" (String.ofList (Base64.encode .standard true sig))
    |>.put "pub" issuerPublic

/-- Nothing where the private key cannot be read and this throws. -/
def «seal» (share : Share) (issuerPrivate issuerPublic : String) (password : Option (List Char))
    (drawn : Randoms) : Option (List UInt8) := do
  let payload := Utf8.encode (Json.obj (payloadJson share)).print.toList
  let sig ← v.sign issuerPrivate payload
  let envelope := Utf8.encode (Json.obj (envelopeJson v payload sig issuerPublic)).print.toList
  let key :=
    if noPassword password then v.secretKey drawn.rawKey
    else v.pbkdf2 (password.getD []) drawn.salt
  let flags := if noPassword password then 0 else flagPassword
  let rawKey := if noPassword password then drawn.rawKey else []
  return magic ++ ([version] ++ ([flags] ++ (drawn.salt ++ (drawn.iv ++ (rawKey ++
    v.cipher.encrypt key drawn.iv (header flags) envelope)))))

def looksLike (bytes : List UInt8) : Bool := 6 < bytes.length && bytes.take 4 == magic

/-- A text of digits and padding only. -/
def unb64 (s : String) : Option (List UInt8) :=
  if s.toList.all (Base64.counts .standard) then Base64.decode .standard s.toList else none

/-- What is in an envelope, nothing where it is not read and this throws. -/
def readEnvelope (draw : Nat → String) (envelope : List UInt8) : Option OpenResult := do
  let env ← v.platform.readObject (String.ofList (Utf8.decode v.replaced envelope))
  let payload := Utf8.encode (← getString env "payload").toList
  let pub ← getString env "pub"
  let sig ← unb64 (← getString env "sig")
  let ok ← v.verify pub payload sig
  if !ok then return .invalid "امضای سازندهٔ این اشتراک معتبر نیست."
  else
    let o ← v.platform.readObject (String.ofList (Utf8.decode v.replaced payload))
    return .ok (← parsePayload v.platform draw o pub)

def openEnvelope (draw : Nat → String) (pw : Bool) (key : K) (iv header body : List UInt8) :
    OpenResult :=
  match v.cipher.decrypt key iv header body with
  | none =>
    if pw then .wrongPassword else .invalid "فایل GSB2 خراب یا دستکاری شده است."
  | some envelope =>
    (readEnvelope v draw envelope).getD (.invalid "محتوای فایل GSB2 معتبر نیست.")

/-- `open`, behind the nonce. -/
def openParts (draw : Nat → String) (flags : UInt8) (salt iv header rest : List UInt8)
    (password : Option (List Char)) : OpenResult :=
  if flags &&& flagPassword ≠ 0 then
    openEnvelope v draw true (v.pbkdf2 (password.getD []) salt) iv header rest
  else if rest.length < 32 + 16 then .invalid "فایل GSB2 ناقص است."
  else openEnvelope v draw false (v.secretKey (rest.take 32)) iv header (rest.drop 32)

/-- Nothing where the file ends within the nonce and this throws. -/
def «open» (draw : Nat → String) (bytes : List UInt8) (password : Option (List Char)) :
    Option OpenResult :=
  if !looksLike bytes || bytes.length > maxFile then some (.invalid "این فایل GSB2 نیست.")
  else if bytes.getD 4 0 ≠ version then
    some (.invalid "نسخهٔ این فایل GSB2 پشتیبانی نمی‌شود.")
  else if bytes.getD 5 0 &&& flagPassword ≠ 0 ∧ noPassword password then some .needsPassword
  else if bytes.length < 34 then none
  else
    some (openParts v draw (bytes.getD 5 0) ((bytes.drop 6).take 16) ((bytes.drop 22).take 12)
      (bytes.take 6) (bytes.drop 34) password)

end Files

/-- The file is the other one but for its salt. -/
def SaltOnly (file file' : List UInt8) : Prop :=
  file'.take 6 = file.take 6 ∧ file'.drop 22 = file.drop 22

/-! ## What a file opens with -/

section Files

variable {K : Type} {v : Vault K} {share : Share} {issuerPrivate issuerPublic : String}
  {password other : Option (List Char)} {drawn : Randoms} {draw : Nat → String} {f x : UInt8}
  {key : K} {m salt iv rest body data text s : List UInt8} {pw : Bool}

theorem open_parts (hs : salt.length = 16) (hi : iv.length = 12)
    (hmax : (magic ++ ([version] ++ ([f] ++ (salt ++ (iv ++ rest))))).length ≤ maxFile) :
    «open» v draw (magic ++ ([version] ++ ([f] ++ (salt ++ (iv ++ rest))))) password =
      if f &&& flagPassword ≠ 0 ∧ noPassword password then some .needsPassword
      else some (openParts v draw f salt iv (header f) rest password) := by
  have h4 : (magic ++ ([version] ++ ([f] ++ (salt ++ (iv ++ rest))))).getD 4 0 = version := rfl
  have h5 : (magic ++ ([version] ++ ([f] ++ (salt ++ (iv ++ rest))))).getD 5 0 = f := rfl
  have h6 : (magic ++ ([version] ++ ([f] ++ (salt ++ (iv ++ rest))))).take 6 = header f := rfl
  have hmagic : (magic ++ ([version] ++ ([f] ++ (salt ++ (iv ++ rest))))).take 4 = magic := rfl
  have hsalt : (magic ++ ([version] ++ ([f] ++ (salt ++ (iv ++ rest))))).drop 6 =
      salt ++ (iv ++ rest) := rfl
  have hiv : (magic ++ ([version] ++ ([f] ++ (salt ++ (iv ++ rest))))).drop 22 =
      iv ++ rest := by
    rw [show 22 = 6 + 16 from rfl, ← List.drop_drop, hsalt, ← hs, List.drop_left]
  have hrest : (magic ++ ([version] ++ ([f] ++ (salt ++ (iv ++ rest))))).drop 34 = rest := by
    rw [show 34 = 22 + 12 from rfl, ← List.drop_drop, hiv, ← hi, List.drop_left]
  have hlen : (magic ++ ([version] ++ ([f] ++ (salt ++ (iv ++ rest))))).length =
      34 + rest.length := by
    simp only [List.length_append, List.length_cons, List.length_nil, hs, hi, magic]
    omega
  generalize magic ++ ([version] ++ ([f] ++ (salt ++ (iv ++ rest)))) = file at *
  have hlooks : looksLike file = true := by
    simp only [looksLike, hmagic, beq_self_eq_true, Bool.and_true, decide_eq_true_eq]
    omega
  have hsize : ¬((!looksLike file || decide (file.length > maxFile)) = true) := by
    simp only [hlooks, Bool.not_true, Bool.false_or, decide_eq_true_eq]
    omega
  have hlong : ¬file.length < 34 := by omega
  unfold «open»
  rw [h4, h5, h6, hsalt, hiv, hrest, if_neg hsize, if_neg (fun h => h rfl), if_neg hlong, ← hs,
    List.take_left, ← hi, List.take_left]

/-- A share is opened where its envelope is. -/
theorem openEnvelope_ok (h : openEnvelope v draw pw key iv data body = .ok share) :
    ∃ t, v.cipher.decrypt key iv data body = some t := by
  unfold openEnvelope at h
  split at h
  · split at h <;> cases h
  · exact ⟨_, ‹_›⟩

theorem header_inj {f' : UInt8} (h : header f = header f') : f = f' := by
  simpa [header] using h

theorem readEnvelope_envelopeJson (hv : v.Ideal) (h : share.Sealable) {sig : List UInt8}
    (hverify : v.verify issuerPublic (Utf8.encode (Json.obj (payloadJson share)).print.toList) sig =
      some true) :
    readEnvelope v draw (Utf8.encode (Json.obj (envelopeJson v
      (Utf8.encode (Json.obj (payloadJson share)).print.toList) sig issuerPublic)).print.toList) =
        some (.ok { share with issuerKey := issuerPublic }) := by
  have hplain (payload : List UInt8) :
      Json.Plain (.obj (envelopeJson v payload sig issuerPublic)) := by
    unfold envelopeJson
    repeat' apply Json.plain_put
    all_goals first | exact Json.plain_nil | exact Json.plain_str _
  have hobject := hv.readsBack.object _ (hplain
    (Utf8.encode (Json.obj (payloadJson share)).print.toList))
  have hpayload := hv.readsBack.object _ (plain_payloadJson (s := share))
  have hsig : unb64 (String.ofList (Base64.encode .standard true sig)) = some sig := by
    unfold unb64
    rw [String.toList_ofList, if_pos (List.all_eq_true.2 fun c hc => Base64.counts_encode hc),
      Base64.decode_encode]
  unfold readEnvelope
  simp only [Utf8.decode_encode, String.ofList_toList, hobject, Option.bind_eq_bind,
    Option.bind_some]
  simp only [envelopeJson, getString, Utf8.decode_encode, String.ofList_toList, Json.asString,
    JSONObject.opt_put_self, JSONObject.opt_put_ne, ne_eq, String.reduceEq, not_false_eq_true,
    Option.map_some, Option.bind_some, hsig, hverify, hpayload,
    parsePayload_payloadJson hv.readsBack h]
  rfl

/-- What `seal` writes: an envelope that is read as the share, sealed under the file's key. -/
theorem seal_spec (hv : v.Ideal) (h : share.Sealable) (hpair : v.Pair issuerPrivate issuerPublic)
    (password : Option (List Char)) (drawn : Randoms) (draw : Nat → String) :
    ∃ envelope, readEnvelope v draw envelope = some (.ok { share with issuerKey := issuerPublic }) ∧
      «seal» v share issuerPrivate issuerPublic password drawn =
        if noPassword password then
          some (magic ++ ([version] ++ ([0] ++ (drawn.salt ++ (drawn.iv ++ (drawn.rawKey ++
            v.cipher.encrypt (v.secretKey drawn.rawKey) drawn.iv (header 0) envelope))))))
        else
          some (magic ++ ([version] ++ ([flagPassword] ++ (drawn.salt ++ (drawn.iv ++
            v.cipher.encrypt (v.pbkdf2 (password.getD []) drawn.salt) drawn.iv
              (header flagPassword) envelope))))) := by
  obtain ⟨sig, hsign, hverify⟩ :=
    hpair (Utf8.encode (Json.obj (payloadJson share)).print.toList)
  refine ⟨_, readEnvelope_envelopeJson hv h hverify, ?_⟩
  unfold «seal»
  simp only [hsign, Option.bind_eq_bind, Option.bind_some]
  split <;> rfl

/-- **What a file with a password opens with.** -/
theorem opened_password (hv : v.Ideal) {salt' iv' : List UInt8}
    (h : openParts v draw f salt' iv' (header f) (v.cipher.encrypt (v.pbkdf2 (password.getD []) salt)
      iv (header x) text) other = .ok share) :
    f = x ∧ salt' = salt ∧ iv' = iv ∧ other.getD [] = password.getD [] := by
  unfold openParts at h
  split at h
  · obtain ⟨t, ht⟩ := openEnvelope_ok h
    obtain ⟨hkey, hiv, hheader⟩ := hv.cipher.decrypt_encrypt ht
    obtain ⟨hm, hsalt⟩ := hv.pbkdf2 hkey
    exact ⟨header_inj hheader, hsalt, hiv, hm⟩
  · -- the head of the sealed text is taken for a key
    split at h
    · cases h
    · obtain ⟨t, ht⟩ := openEnvelope_ok h
      rw [hv.cipher.decrypt_drop (by decide)] at ht
      cases ht

/-- **What a file without a password opens with.** -/
theorem opened_key (hv : v.Ideal) {salt' iv' rawKey rawKey' : List UInt8}
    (hlen : rawKey'.length = 32)
    (h : openParts v draw f salt' iv' (header f) (rawKey' ++ v.cipher.encrypt (v.secretKey rawKey)
      iv (header x) text) other = .ok share) :
    f = x ∧ iv' = iv ∧ rawKey' = rawKey := by
  unfold openParts at h
  split at h
  · -- the key is taken for the head of the sealed text
    obtain ⟨t, ht⟩ := openEnvelope_ok h
    rw [hv.cipher.decrypt_append (by rintro rfl; cases hlen)] at ht
    cases ht
  · split at h
    · cases h
    · rw [← hlen, List.take_left, List.drop_left] at h
      obtain ⟨t, ht⟩ := openEnvelope_ok h
      obtain ⟨hkey, hiv, hheader⟩ := hv.cipher.decrypt_encrypt ht
      exact ⟨header_inj hheader, hiv, hv.secretKey hkey⟩

/-- A changed sealed text is not opened. -/
theorem openParts_changed (hv : v.Ideal) (rawKey : List UInt8)
    (hs : Changed (v.cipher.encrypt key iv (header x) text) s)
    (hrest : if f &&& flagPassword ≠ 0 then rest = s else rest = rawKey ++ s ∧ rawKey.length = 32) :
    openParts v draw f salt iv data rest other ≠ .ok share := by
  intro h
  unfold openParts at h
  split at h
  · rw [if_pos ‹_›] at hrest
    obtain ⟨t, ht⟩ := openEnvelope_ok h
    rw [hrest, hv.cipher.decrypt_changed hs] at ht
    cases ht
  · rw [if_neg ‹_›] at hrest
    obtain ⟨rfl, hlen⟩ := hrest
    split at h
    · cases h
    · rw [← hlen, List.drop_left] at h
      obtain ⟨t, ht⟩ := openEnvelope_ok h
      rw [hv.cipher.decrypt_changed hs] at ht
      cases ht

/-- A changed head is not that of a share file. -/
theorem open_head (h : Changed (magic ++ [version]) m) :
    «open» v draw (m ++ rest) password ≠ some (.ok share) := by
  have hlen : m.length = 5 := h.length_eq
  intro ho
  unfold «open» at ho
  rcases Changed.append_iff.1 h with ⟨m, hm, rfl⟩ | ⟨m, hm, rfl⟩
  · have htake : (m ++ [version] ++ rest).take 4 = m := by
      rw [List.append_assoc, ← show m.length = 4 from hm.length_eq, List.take_left]
    have hlooks : looksLike (m ++ [version] ++ rest) = false := by
      unfold looksLike
      rw [htake]
      simp [hm.ne]
    rw [hlooks] at ho
    cases ho
  · obtain ⟨y, hy, rfl⟩ := Changed.singleton_iff.1 hm
    have h4 : (magic ++ [y] ++ rest).getD 4 0 = y := rfl
    rw [h4, if_pos (Ne.symm hy)] at ho
    split at ho <;> cases ho

theorem openParts_of_open (hs : salt.length = 16) (hi : iv.length = 12)
    (hmax : (magic ++ ([version] ++ ([f] ++ (salt ++ (iv ++ rest))))).length ≤ maxFile)
    (h : «open» v draw (magic ++ ([version] ++ ([f] ++ (salt ++ (iv ++ rest))))) password =
      some (.ok share)) : openParts v draw f salt iv (header f) rest password = .ok share := by
  rw [open_parts hs hi hmax] at h
  split at h
  · cases h
  · exact Option.some.inj h

/-- A file with a password, and one without. -/
def passwordFile (v : Vault K) (password : List Char) (drawn : Randoms) (text : List UInt8) :
    List UInt8 :=
  magic ++ ([version] ++ ([flagPassword] ++ (drawn.salt ++ (drawn.iv ++
    v.cipher.encrypt (v.pbkdf2 password drawn.salt) drawn.iv (header flagPassword) text))))

def keyFile (v : Vault K) (salt : List UInt8) (drawn : Randoms) (text : List UInt8) : List UInt8 :=
  magic ++ ([version] ++ ([0] ++ (salt ++ (drawn.iv ++ (drawn.rawKey ++
    v.cipher.encrypt (v.secretKey drawn.rawKey) drawn.iv (header 0) text)))))

theorem opens_password (hv : v.Ideal) (hpw : noPassword password = false)
    (henv : readEnvelope v draw text = some (.ok share))
    (hmax : (passwordFile v (password.getD []) drawn text).length ≤ maxFile) :
    «open» v draw (passwordFile v (password.getD []) drawn text) password = some (.ok share) := by
  unfold passwordFile at hmax ⊢
  rw [open_parts drawn.salt_length drawn.iv_length hmax, if_neg (by simp [hpw])]
  unfold openParts
  rw [if_pos (by decide)]
  unfold openEnvelope
  rw [hv.cipher.opens]
  simp only [henv, Option.getD_some]

/-- A file without a password opens whatever its salt is, and whatever password is given. -/
theorem opens_key (hv : v.Ideal) (henv : readEnvelope v draw text = some (.ok share))
    (hs : salt.length = 16) (hmax : (keyFile v salt drawn text).length ≤ maxFile) :
    «open» v draw (keyFile v salt drawn text) other = some (.ok share) := by
  have hlen := hv.cipher.length (v.secretKey drawn.rawKey) drawn.iv (header 0) text
  have hraw := drawn.rawKey_length
  unfold keyFile at hmax ⊢
  rw [open_parts hs drawn.iv_length hmax, if_neg (fun h => h.1 (by decide))]
  unfold openParts
  rw [if_neg (fun h => h (by decide)), if_neg (by rw [List.length_append]; omega)]
  unfold openEnvelope
  rw [← hraw, List.take_left, List.drop_left, hv.cipher.opens]
  simp only [henv, Option.getD_some]

/-- Of the changed files with a password none opens. -/
theorem changed_password (hv : v.Ideal) {file' : List UInt8}
    (hmax : (passwordFile v (password.getD []) drawn text).length ≤ maxFile)
    (hch : Changed (passwordFile v (password.getD []) drawn text) file') :
    «open» v draw file' other ≠ some (.ok share) := by
  intro h
  have hlen := hch.length_eq.trans_le hmax
  unfold passwordFile at hch
  rw [← List.append_assoc] at hch
  rcases Changed.append_iff.1 hch with ⟨m, hm, rfl⟩ | ⟨_, hflags, rfl⟩
  · exact open_head hm h
  rw [List.append_assoc] at h hlen
  rcases Changed.append_iff.1 hflags with ⟨m, hm, rfl⟩ | ⟨_, hsalt, rfl⟩
  · obtain ⟨f, hf, rfl⟩ := Changed.singleton_iff.1 hm
    have hopen := openParts_of_open drawn.salt_length drawn.iv_length hlen h
    exact hf (opened_password hv hopen).1.symm
  rcases Changed.append_iff.1 hsalt with ⟨m, hm, rfl⟩ | ⟨_, hiv, rfl⟩
  · have hs := hm.length_eq.trans drawn.salt_length
    exact hm.ne (opened_password hv (openParts_of_open hs drawn.iv_length hlen h)).2.1
  rcases Changed.append_iff.1 hiv with ⟨m, hm, rfl⟩ | ⟨m, hm, rfl⟩
  · have hi := hm.length_eq.trans drawn.iv_length
    exact hm.ne (opened_password hv (openParts_of_open drawn.salt_length hi hlen h)).2.2.1
  · refine openParts_changed hv [] hm ?_
      (openParts_of_open drawn.salt_length drawn.iv_length hlen h)
    rw [if_pos (by decide)]

/-- Of the changed files without a password only those open that have another salt. -/
theorem changed_key (hv : v.Ideal) {file' : List UInt8}
    (hmax : (keyFile v drawn.salt drawn text).length ≤ maxFile)
    (hch : Changed (keyFile v drawn.salt drawn text) file')
    (hsaltOnly : ¬SaltOnly (keyFile v drawn.salt drawn text) file') :
    «open» v draw file' other ≠ some (.ok share) := by
  intro h
  have hlen := hch.length_eq.trans_le hmax
  unfold keyFile at hch hsaltOnly
  rw [← List.append_assoc] at hch
  rcases Changed.append_iff.1 hch with ⟨m, hm, rfl⟩ | ⟨_, hflags, rfl⟩
  · exact open_head hm h
  rw [List.append_assoc] at h hlen hsaltOnly
  rcases Changed.append_iff.1 hflags with ⟨m, hm, rfl⟩ | ⟨_, hsalt, rfl⟩
  · obtain ⟨f, hf, rfl⟩ := Changed.singleton_iff.1 hm
    have hopen := openParts_of_open drawn.salt_length drawn.iv_length hlen h
    exact hf (opened_key hv drawn.rawKey_length hopen).1.symm
  rcases Changed.append_iff.1 hsalt with ⟨m, hm, rfl⟩ | ⟨_, hiv, rfl⟩
  · refine hsaltOnly ⟨rfl, ?_⟩
    have hdrop (salt rest : List UInt8) (hs : salt.length = 16) :
        (magic ++ ([version] ++ ([0] ++ (salt ++ rest)))).drop 22 = rest := by
      change (salt ++ rest).drop 16 = rest
      rw [← hs, List.drop_left]
    rw [hdrop _ _ (hm.length_eq.trans drawn.salt_length), hdrop _ _ drawn.salt_length]
  rcases Changed.append_iff.1 hiv with ⟨m, hm, rfl⟩ | ⟨_, hraw, rfl⟩
  · have hi := hm.length_eq.trans drawn.iv_length
    have hopen := openParts_of_open drawn.salt_length hi hlen h
    exact hm.ne (opened_key hv drawn.rawKey_length hopen).2.1
  have hopen := openParts_of_open drawn.salt_length drawn.iv_length hlen h
  rcases Changed.append_iff.1 hraw with ⟨m, hm, rfl⟩ | ⟨m, hm, rfl⟩
  · exact hm.ne (opened_key hv (hm.length_eq.trans drawn.rawKey_length) hopen).2.2
  · refine openParts_changed hv drawn.rawKey hm ?_ hopen
    rw [if_neg (fun h => h (by decide))]
    exact ⟨rfl, drawn.rawKey_length⟩

/-- A file that is the same but for its salt. -/
theorem keyFile_of_saltOnly {file' : List UInt8}
    (hlen : file'.length = (keyFile v drawn.salt drawn text).length)
    (h : SaltOnly (keyFile v drawn.salt drawn text) file') :
    ∃ salt : List UInt8, salt.length = 16 ∧ file' = keyFile v salt drawn text := by
  have hsize : 22 ≤ file'.length := by
    rw [hlen]
    simp only [keyFile, List.length_append, List.length_cons, List.length_nil, drawn.salt_length,
      magic]
    omega
  have hhead : file'.take 6 = header 0 := h.1
  have hdrop : file'.drop 22 = drawn.iv ++ (drawn.rawKey ++
      v.cipher.encrypt (v.secretKey drawn.rawKey) drawn.iv (header 0) text) := by
    rw [h.2]
    change (drawn.salt ++ (drawn.iv ++ _)).drop 16 = _
    rw [← drawn.salt_length, List.drop_left]
  refine ⟨(file'.drop 6).take 16, by rw [List.length_take, List.length_drop]; omega, ?_⟩
  have hrest : file'.drop 6 = (file'.drop 6).take 16 ++ file'.drop 22 := by
    rw [show 22 = 6 + 16 from rfl, ← List.drop_drop, List.take_append_drop]
  calc
    file' = file'.take 6 ++ file'.drop 6 := (List.take_append_drop 6 file').symm
    _ = header 0 ++ ((file'.drop 6).take 16 ++ file'.drop 22) := by rw [hhead, ← hrest]
    _ = keyFile v ((file'.drop 6).take 16) drawn text := by
      rw [hdrop]
      rfl

end Files

/-- A vault that hides nothing and is ideal; an issuer signs with its name. -/
def openVault : Vault (List UInt8) :=
  { platform := textPlatform
    cipher := Sealing.inTheOpen
    pbkdf2 := fun m s => Sealing.closed (Utf8.encode m) ++ s
    secretKey := fun k => k
    sign := fun issuer _ => some (Utf8.encode issuer.toList)
    verify := fun issuer _ sig => some (sig == Utf8.encode issuer.toList)
    replaced := fun _ => 1 }

theorem openVault_ideal : openVault.Ideal := by
  refine ⟨textPlatform_readsBack, Sealing.inTheOpen_ideal, fun {m s m' s'} h => ?_, fun h => h⟩
  obtain ⟨hm, hs⟩ := Sealing.closed_inj h
  have hd := congrArg (Utf8.decode fun _ => 1) hm
  rw [Utf8.decode_encode, Utf8.decode_encode] at hd
  exact ⟨hd, hs⟩

theorem openVault_pair (issuer : String) : openVault.Pair issuer issuer :=
  fun _ => ⟨_, rfl, by simp [openVault]⟩

theorem zeros_salt : (List.replicate 16 (0 : UInt8)).length = 16 := rfl

theorem zeros_iv : (List.replicate 12 (0 : UInt8)).length = 12 := rfl

theorem zeros_rawKey : (List.replicate 32 (0 : UInt8)).length = 32 := rfl

def zeros : Randoms :=
  ⟨List.replicate 16 0, List.replicate 12 0, List.replicate 32 0, zeros_salt, zeros_iv,
    zeros_rawKey⟩

/-- A link for two gigabytes. -/
def link : Share :=
  { id := "s1", name := "friends", quotaBytes := 2147483648
    subscriptions := ["https://example.com/s"] }

theorem link_sealable : link.Sealable := by
  refine ⟨?_, ?_, ?_, ?_, fun c hc => (by cases hc), .inr (by decide)⟩
  all_goals exact ⟨by decide, by decide⟩

theorem link_payload : (Json.obj (payloadJson link)).print.toList.length ≤ 2048 :=
  (Json.print_length _).trans (by decide)

theorem link_envelope : (Utf8.encode (Json.obj (envelopeJson openVault
    (Utf8.encode (Json.obj (payloadJson link)).print.toList) (Utf8.encode "k".toList)
      "k")).print.toList).length ≤ 65536 := by
  have hpayload := link_payload
  generalize (Json.obj (payloadJson link)).print = payload at hpayload ⊢
  have hform : envelopeJson openVault (Utf8.encode payload.toList) (Utf8.encode "k".toList) "k" =
      [("payload", .str payload), ("sig", .str "aw=="), ("pub", .str "k")] := by
    simp only [envelopeJson, Utf8.decode_encode, String.ofList_toList]
    rfl
  have hobject := Json.print_length
    (.obj [("payload", .str payload), ("sig", .str "aw=="), ("pub", .str "k")])
  have hwidth : Json.width
      (.obj [("payload", .str payload), ("sig", .str "aw=="), ("pub", .str "k")]) =
        6 * payload.toList.length + 128 := by
    rw [Json.width, Json.widthFields_str, Json.widthFields_str, Json.widthFields_str]
    have h1 : "payload".toList.length = 7 := rfl
    have h2 : "sig".toList.length = 3 := rfl
    have h3 : "aw==".toList.length = 4 := rfl
    have h4 : "pub".toList.length = 3 := rfl
    have h5 : "k".toList.length = 1 := rfl
    rw [h1, h2, h3, h4, h5, Json.widthFields]
    omega
  have hlen := Utf8.encode_length
    (Json.obj [("payload", .str payload), ("sig", .str "aw=="), ("pub", .str "k")]).print.toList
  have hsum (size text width payload : Nat) (h1 : size ≤ 4 * text) (h2 : text ≤ width)
      (h3 : width = 6 * payload + 128) (h4 : payload ≤ 2048) : size ≤ 65536 := by omega
  rw [hform]
  exact hsum _ _ _ _ hlen hobject hwidth hpayload

/-- The parts before the sealed envelope have at most 66 bytes. -/
theorem file_length {K : Type} (v : Vault K) (drawn : Randoms) (key : K) (flags : UInt8)
    {rawKey : List UInt8} (hraw : rawKey.length ≤ 32) (text : List UInt8) :
    (magic ++ ([version] ++ ([flags] ++ (drawn.salt ++ (drawn.iv ++ (rawKey ++
      v.cipher.encrypt key drawn.iv (header flags) text)))))).length ≤
        66 + (v.cipher.encrypt key drawn.iv (header flags) text).length := by
  have hmagic : magic.length = 4 := rfl
  simp only [List.length_append, List.length_singleton, hmagic, drawn.salt_length, drawn.iv_length]
  omega

/-- What the small share's envelope is sealed to. -/
theorem openVault_length (key text : List UInt8) (flags : UInt8) :
    (openVault.cipher.encrypt key zeros.iv (header flags) text).length =
      8 * key.length + 8 * text.length + 162 := by
  have hlen := Sealing.inTheOpen_length key zeros.iv (header flags) text
  have hheader : (header flags).length = 6 := rfl
  rw [zeros.iv_length, hheader] at hlen
  rw [show openVault.cipher = Sealing.inTheOpen from rfl, hlen]
  omega

theorem link_fits (password : Option (List Char)) (hpw : (password.getD []).length ≤ 64) :
    ∀ file ∈ «seal» openVault link "k" "k" password zeros, file.length ≤ maxFile := by
  intro file hf
  have henv := link_envelope
  have hpass := Utf8.encode_length (password.getD [])
  have hsign (payload : List UInt8) :
      openVault.sign "k" payload = some (Utf8.encode "k".toList) := rfl
  have hkey : (openVault.secretKey zeros.rawKey).length = 32 := zeros.rawKey_length
  have hderived : (openVault.pbkdf2 (password.getD []) zeros.salt).length =
      2 * (Utf8.encode (password.getD [])).length + 1 + 16 := by
    rw [← zeros.salt_length, ← Sealing.closed_length]
    exact List.length_append
  have hraw : (if noPassword password then zeros.rawKey else []).length ≤ 32 := by
    split
    · exact zeros.rawKey_length.le
    · exact Nat.zero_le _
  have hlong : (if noPassword password then openVault.secretKey zeros.rawKey
      else openVault.pbkdf2 (password.getD []) zeros.salt).length ≤ 529 := by
    split
    · rw [hkey]
      decide
    · rw [hderived]
      omega
  unfold «seal» at hf
  simp only [hsign, Option.bind_eq_bind, Option.bind_some, Option.pure_def, Option.mem_def,
    Option.some.injEq] at hf
  rw [← hf]
  refine (file_length openVault zeros _ _ hraw _).trans ?_
  rw [openVault_length]
  have hsum (key text : Nat) (hk : key ≤ 529) (ht : text ≤ 65536) :
      66 + (8 * key + 8 * text + 162) ≤ 4194304 := by omega
  exact hsum _ _ hlong henv

end Ghajar.Gsb2
