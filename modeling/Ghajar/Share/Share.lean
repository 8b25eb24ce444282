import Ghajar.Config.Codec

/-!
# Shares and what is received of them

`Gsb2.Share`, and `receivedConfigs`: the configurations that a device stores of a share,
each with the share's limits in its `extra`. A duration counts from the import. What the
text of an object is read back as is the library's: `Rereads` says what is needed of it.
-/

namespace Ghajar.Gsb2

open Ghajar

structure Share where
  id : String
  name : String
  note : String := ""
  createdAt : Int := 0
  expiresAt : Int := 0
  /-- Valid for so long from the import, 0 for no such limit. -/
  durationMs : Int := 0
  quotaBytes : Int := 0
  hidden : Bool := true
  configs : List ProxyConfig := []
  subscriptions : List String := []
  issuerKey : String := ""

/-- A sum of longs, as it wraps. -/
def addLong (a b : Int) : Int := (a + b).bmod (2 ^ 64)

def Meta.toJson (m : Meta) : JSONObject :=
  JSONObject.put [] "id" m.shareId
    |>.put "name" m.shareName
    |>.put "expiresAt" m.expiresAt
    |>.put "quota" m.quotaBytes
    |>.put "issuer" m.issuer

section Received

variable (p : Platform) (fingerprint : String → String) (share : Share)

/-- The earlier of the fixed date and the end of the duration, of those there are. -/
def Share.expires (importedAt : Int) : Int :=
  let byDuration := if share.durationMs > 0 then addLong importedAt share.durationMs else 0
  (([share.expiresAt, byDuration].filter fun t => t > 0).min?).getD 0

/-- What each configuration carries of the share that is imported at this time. -/
def Share.limits (importedAt : Int) : Meta :=
  { shareId := share.id
    shareName := share.name
    expiresAt := share.expires importedAt
    quotaBytes := share.quotaBytes
    issuer := fingerprint share.issuerKey }

/-- The `extra` of a configuration with the share's limits put in. -/
def marked (importedAt : Int) (c : ProxyConfig) : JSONObject :=
  (c.extraJson p).put "gsb2" (.obj (share.limits fingerprint importedAt).toJson)

def receivedConfigs (draw : Nat → String) (importedAt : Int) : List ProxyConfig :=
  share.configs.mapIdx fun n c =>
    { c with
      id := draw n
      subId := ""
      locked := true
      extra := (Json.obj (marked p fingerprint share importedAt c)).print
      name := c.name.ifBlank share.name }

/-- The texts that are written into `extra` are read back as what was written. -/
structure Rereads : Prop where
  object : ∀ c ∈ share.configs, ∀ t : Int,
    p.readObject (Json.obj (marked p fingerprint share t c)).print =
      some (marked p fingerprint share t c)
  long : ∀ n : Int, IsLong n → p.readLong (toString n) = some n

end Received

section Lemmas

variable {p : Platform} {fingerprint : String → String} {share : Share} {t : Int}

theorem addLong_isLong (a b : Int) : IsLong (addLong a b) := by
  unfold IsLong addLong
  have h1 := Int.le_bmod (x := a + b) (m := 2 ^ 64) (by decide)
  have h2 := Int.bmod_lt (x := a + b) (m := 2 ^ 64) (by decide)
  omega

theorem addLong_eq {a b : Int} (h : IsLong (a + b)) : addLong a b = a + b := by
  unfold addLong
  unfold IsLong at h
  exact Int.bmod_eq_of_le (by omega) (by omega)

theorem min?_pair (a b : Int) : (([a, b].filter fun t => t > 0).min?).getD 0 =
    if a > 0 then if b > 0 then min a b else a else if b > 0 then b else 0 := by
  by_cases ha : a > 0 <;> by_cases hb : b > 0 <;> simp [ha, hb, List.min?]

/-- What a configuration carries where there is a duration: no later than the fixed date, and no
later than the end of the duration unless that is past all longs. -/
theorem expires_spec (hd : 0 < share.durationMs) :
    (0 < share.expiresAt → 0 < share.expires t ∧ share.expires t ≤ share.expiresAt) ∧
      (0 ≤ t → IsLong (t + share.durationMs) →
        0 < share.expires t ∧ share.expires t ≤ t + share.durationMs) := by
  unfold Share.expires
  rw [if_pos hd, min?_pair]
  constructor
  · intro he
    split_ifs <;> omega
  · intro ht hl
    rw [addLong_eq hl]
    split_ifs <;> omega

theorem expires_isLong (he : IsLong share.expiresAt) : IsLong (share.expires t) := by
  have hd : IsLong (if share.durationMs > 0 then addLong t share.durationMs else 0) := by
    split
    · exact addLong_isLong _ _
    · exact ⟨by decide, by decide⟩
  unfold Share.expires
  rw [min?_pair]
  unfold IsLong at *
  split_ifs <;> omega

/-- A text that starts with a brace is not blank. -/
theorem print_obj_blank {o : JSONObject} : (Json.obj o).print.blank = false := by
  simp [Json.print, String.blank, Text.isBlank, String.toList_append, Text.isWhitespace]

/-- Where no configuration brings an `extra` of its own, a platform that reads plain objects is
enough. -/
theorem rereads_of_blank (hp : p.ReadsBack) (h : ∀ c ∈ share.configs, c.extra.blank = true) :
    Rereads p fingerprint share := by
  refine ⟨fun c hc t => hp.object _ ?_, hp.long⟩
  have hempty : c.extraJson p = [] := by
    unfold ProxyConfig.extraJson
    rw [if_pos (h c hc)]
  have hmeta : Json.Plain (.obj (share.limits fingerprint t).toJson) := by
    unfold Meta.toJson
    repeat' apply Json.plain_put
    all_goals first | exact Json.plain_nil | exact Json.plain_str _ | exact Json.plain_int _
  unfold marked
  rw [hempty]
  exact Json.plain_put Json.plain_nil hmeta

/-- **What a received configuration carries** is read back, unless the share has no id. -/
theorem received_meta (hr : Rereads p fingerprint share) (hq : IsLong share.quotaBytes)
    (he : IsLong share.expiresAt) (draw : Nat → String) :
    ∀ c ∈ receivedConfigs p fingerprint share draw t, Meta.of p c =
      if share.id.blank then none else some (share.limits fingerprint t) := by
  intro c hc
  obtain ⟨n, hn, rfl⟩ := List.mem_mapIdx.1 hc
  have hobj := hr.object share.configs[n] (List.getElem_mem hn) t
  have hextra : (JSONObject.optJSONObject (marked p fingerprint share t share.configs[n]) "gsb2") =
      some (share.limits fingerprint t).toJson := by
    simp [marked, JSONObject.optJSONObject]
  have hlong (n : Int) (h : IsLong n) : p.readLong n.repr = some n := hr.long n h
  unfold Meta.of ProxyConfig.extraJson
  simp only [print_obj_blank, hobj, Bool.false_eq_true, if_false, Option.getD_some, hextra]
  simp [Meta.toJson, JSONObject.optString, optLong, Share.limits, Json.asString, hlong _ hq,
    hlong _ (expires_isLong he)]

end Lemmas

end Ghajar.Gsb2
