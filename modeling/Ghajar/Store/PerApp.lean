import Mathlib
import Ghajar.Lib.Json
import Ghajar.Lib.Text

/-!
# The per-app rule and its profiles

The per-app part of `ConfigStore`: the mode, the apps, and the named profiles of which one may be
the live rule. A profile is written when it is saved and, while it is live, whenever the mode or the
apps change; a snapshot of the settings carries all four and is read back one after the other.
-/

namespace Ghajar.PerApp

inductive PerAppMode
  | OFF
  | ALLOWLIST
  | BLOCKLIST
  deriving DecidableEq

namespace PerAppMode

def name : PerAppMode → String
  | OFF => "OFF"
  | ALLOWLIST => "ALLOWLIST"
  | BLOCKLIST => "BLOCKLIST"

def valueOf (s : String) : Option PerAppMode :=
  [OFF, ALLOWLIST, BLOCKLIST].find? fun m => m.name = s

@[simp] theorem valueOf_name (m : PerAppMode) : valueOf m.name = some m := by
  cases m <;> decide

@[simp] theorem name_ne_empty (m : PerAppMode) : m.name ≠ "" := by
  cases m <;> decide

/-- The mode a profile is given: it is never off. -/
def ofProfile (m : PerAppMode) : PerAppMode := if m = OFF then BLOCKLIST else m

theorem ofProfile_ne (m : PerAppMode) : m.ofProfile ≠ OFF := by
  cases m <;> decide

@[simp] theorem ofProfile_of_ne {m : PerAppMode} (h : m ≠ OFF) : m.ofProfile = m := if_neg h

end PerAppMode

/-- The order in which a set of names is gone through. -/
structure Listing where
  toList : Finset String → List String
  complete : ∀ apps, (toList apps).toFinset = apps

structure PerAppProfile where
  id : String
  name : String
  mode : PerAppMode
  apps : Finset String
  named : name.blank = false
  on : mode ≠ .OFF
  deriving DecidableEq

namespace PerAppProfile

def MAX : Nat := 10

def toJson (listing : Listing) (p : PerAppProfile) : JSONObject :=
  (((JSONObject.put [] "id" p.id).put "name" p.name).put "mode" p.mode.name).put "apps"
    (.arr ((listing.toList p.apps).map .str))

theorem named_ifBlank (name : String) : (name.ifBlank "پروفایل").blank = false := by
  unfold String.ifBlank
  split
  · decide
  · exact Bool.eq_false_iff.2 ‹_›

def fromJson (o : JSONObject) : Option PerAppProfile :=
  match o.opt "id", PerAppMode.valueOf (o.optString "mode" "BLOCKLIST") with
  | some id, some mode => some
    { id := id.asString
      name := (o.optString "name").ifBlank "پروفایل"
      mode := mode.ofProfile
      apps := (((o.optJSONArray "apps").getD []).map Json.asString).toFinset
      named := named_ifBlank _
      on := mode.ofProfile_ne }
  | _, _ => none

end PerAppProfile

/-- What the store holds for it. -/
structure State where
  perAppMode : PerAppMode := .OFF
  perAppList : Finset String := ∅
  perAppProfiles : List PerAppProfile := []
  activePerAppProfile : Option String := none
  deriving DecidableEq

/-- The first characters, as far as they fit into so many 16-bit units. -/
def takeUnits : Nat → List Char → List Char
  | _, [] => []
  | n, c :: cs =>
    let width := if c.toNat < 0x10000 then 1 else 2
    if width ≤ n then c :: takeUnits (n - width) cs else []

/-- The name a profile is saved under, unless it is blank. -/
def clean (name : String) : Option { s : String // s.blank = false } :=
  let s := String.ofList (takeUnits 40 name.trimmed.toList)
  if h : s.blank = false then some ⟨s, h⟩ else none

namespace State

variable (s : State)

/-- The active profile follows edits made on the list and the mode. -/
def syncActiveProfile : State :=
  match s.activePerAppProfile with
  | none => s
  | some id =>
    if h : s.perAppMode = .OFF then s
    else { s with
      perAppProfiles := s.perAppProfiles.map fun p =>
        if p.id = id then { p with mode := s.perAppMode, apps := s.perAppList, on := h } else p }

def setPerAppMode (mode : PerAppMode) : State :=
  if mode = .OFF then { s with perAppMode := mode, activePerAppProfile := none }
  else { s with perAppMode := mode }.syncActiveProfile

def setPerAppList (pkgs : Finset String) : State := { s with perAppList := pkgs }.syncActiveProfile

def togglePerApp (pkg : String) : State :=
  s.setPerAppList (if pkg ∈ s.perAppList then s.perAppList.erase pkg else insert pkg s.perAppList)

def applyPerAppProfile (id : Option String) : State :=
  let p := s.perAppProfiles.find? fun p => some p.id = id
  { s with
    activePerAppProfile := p.map (·.id)
    perAppMode := (p.map (·.mode)).getD .OFF
    perAppList := (p.map (·.apps)).getD s.perAppList }

/-- The profile in place of the one with its id, or behind the others. -/
def write (p : PerAppProfile) : State :=
  { s with
    perAppProfiles :=
      if s.perAppProfiles.any fun q => q.id = p.id then
        s.perAppProfiles.map fun q => if q.id = p.id then p else q
      else s.perAppProfiles ++ [p] }

/-- `random` is the id a new profile is given. -/
def savePerAppProfile (random : String) (name : String) (mode : PerAppMode) (apps : Finset String)
    (id : Option String) : Bool × State :=
  match clean name with
  | none => (false, s)
  | some clean =>
    if id = none ∧ s.perAppProfiles.length ≥ PerAppProfile.MAX then (false, s)
    else
      let profile : PerAppProfile :=
        ⟨id.getD random, clean.1, mode.ofProfile, apps, clean.2, mode.ofProfile_ne⟩
      let s := s.write profile
      (true, if id = none then s.applyPerAppProfile (some profile.id) else s)

def deletePerAppProfile (id : String) : State :=
  let s := { s with perAppProfiles := s.perAppProfiles.filter fun p => ¬p.id = id }
  if s.activePerAppProfile = some id then s.applyPerAppProfile none else s

/-! ## Snapshots -/

def settingsSnapshot (listing : Listing) : JSONObject :=
  let o : JSONObject := JSONObject.put [] "perAppMode" s.perAppMode.name
  ((o.put "perAppList" (.arr ((listing.toList s.perAppList).map .str))).put "perAppProfiles"
    (.arr (s.perAppProfiles.map fun p => .obj (p.toJson listing)))).put "perAppActive"
      (s.activePerAppProfile.getD "")

def restoreMode (o : JSONObject) : State :=
  match (some (o.optString "perAppMode")).filter (· ≠ "") with
  | none => s
  | some v =>
    match PerAppMode.valueOf v with
    | none => s
    | some mode => s.setPerAppMode mode

def restoreProfiles (objects : List JSONObject) (active : String) : State :=
  let profiles := (objects.filterMap PerAppProfile.fromJson).take PerAppProfile.MAX
  { s with
    perAppProfiles := profiles
    activePerAppProfile := (some active).filter fun id =>
      !id.blank && profiles.any fun p => p.id = id }

def restoreList (o : JSONObject) : State :=
  match o.optJSONArray "perAppList" with
  | none => s
  | some arr => s.setPerAppList (arr.map Json.asString).toFinset

/-- What `getJSONObject` makes of an item; anything else it throws at. -/
def asObject : Json → Option JSONObject
  | .obj fields => some fields
  | _ => none

/-- An item of the profiles that is no object ends the restore where it stands. -/
def restoreSettings (o : JSONObject) : State :=
  let s := s.restoreMode o
  match o.optJSONArray "perAppProfiles" with
  | none => s.restoreList o
  | some arr =>
    match arr.mapM asObject with
    | none => s
    | some objects => (s.restoreProfiles objects (o.optString "perAppActive")).restoreList o

end State
/-! ## Runs -/

/-- A new profile gets an id that was drawn for it and is never blank. -/
inductive Op
  | setPerAppMode (mode : PerAppMode)
  | setPerAppList (pkgs : Finset String)
  | togglePerApp (pkg : String)
  | create (random : { id : String // id.blank = false }) (name : String) (mode : PerAppMode)
      (apps : Finset String)
  | update (id : String) (name : String) (mode : PerAppMode) (apps : Finset String)
  | applyPerAppProfile (id : Option String)
  | deletePerAppProfile (id : String)

def Op.apply (s : State) : Op → State
  | setPerAppMode mode => s.setPerAppMode mode
  | setPerAppList pkgs => s.setPerAppList pkgs
  | togglePerApp pkg => s.togglePerApp pkg
  | create random name mode apps => (s.savePerAppProfile random name mode apps none).2
  | update id name mode apps => (s.savePerAppProfile "" name mode apps (some id)).2
  | applyPerAppProfile id => s.applyPerAppProfile id
  | deletePerAppProfile id => s.deletePerAppProfile id

/-- The states that runs lead to whose operations are allowed where they are done; a snapshot that
is read back was taken in such a state. -/
inductive Reached (listing : Listing) (allowed : State → Op → Prop) : State → Prop
  | start : Reached listing allowed {}
  | op {s : State} (o : Op) (hs : Reached listing allowed s) (ho : allowed s o) :
      Reached listing allowed (o.apply s)
  | restore {s r : State} (hs : Reached listing allowed s) (hr : Reached listing allowed r) :
      Reached listing allowed (s.restoreSettings (r.settingsSnapshot listing))

/-- At most so many profiles, and the active one is the live rule. -/
structure Consistent (s : State) : Prop where
  few : s.perAppProfiles.length ≤ PerAppProfile.MAX
  live : ∀ id, s.activePerAppProfile = some id →
    ∃ p ∈ s.perAppProfiles, p.id = id ∧ p.mode = s.perAppMode ∧ p.apps = s.perAppList

/-- Saving under an id writes over a profile there, and over the active one only what is live; or it
finds room for another profile and an id for it. -/
def Fits (s : State) : Op → Prop
  | .update id name mode apps =>
    clean name = none ∨
    ((∃ p ∈ s.perAppProfiles, p.id = id) ∧
      (s.activePerAppProfile = some id → mode.ofProfile = s.perAppMode ∧ apps = s.perAppList)) ∨
    ((∀ p ∈ s.perAppProfiles, p.id ≠ id) ∧ s.perAppProfiles.length < PerAppProfile.MAX ∧
      id.blank = false)
  | _ => True

/-! ## What is kept -/

/-- Profiles as they may be stored. -/
structure Stored (l : List PerAppProfile) : Prop where
  few : l.length ≤ PerAppProfile.MAX
  distinct : (l.map (·.id)).Nodup
  ids : ∀ p ∈ l, p.id.blank = false

structure Kept (s : State) : Prop where
  stored : Stored s.perAppProfiles
  live : ∀ id, s.activePerAppProfile = some id →
    ∃ p ∈ s.perAppProfiles, p.id = id ∧ p.mode = s.perAppMode ∧ p.apps = s.perAppList

variable {s t r : State} {l : List PerAppProfile}

theorem Kept.consistent (h : Kept s) : Consistent s := ⟨h.stored.few, h.live⟩

theorem Stored.eq_of_id (h : Stored l) {p q : PerAppProfile} (hp : p ∈ l) (hq : q ∈ l)
    (hid : p.id = q.id) : p = q :=
  List.inj_on_of_nodup_map h.distinct hp hq hid

/-- Profiles may be replaced by others of the same id. -/
theorem Stored.map (h : Stored l) {f : PerAppProfile → PerAppProfile} (hf : ∀ p, (f p).id = p.id) :
    Stored (l.map f) where
  few := by simpa using h.few
  distinct := by
    rw [List.map_map, show (fun p : PerAppProfile => p.id) ∘ f = fun p => p.id from funext hf]
    exact h.distinct
  ids p hp := by
    obtain ⟨q, hq, rfl⟩ := List.mem_map.1 hp
    rw [hf]
    exact h.ids q hq

theorem Stored.filter (h : Stored l) (keep : PerAppProfile → Bool) : Stored (l.filter keep) where
  few := le_trans (List.length_filter_le keep l) h.few
  distinct := h.distinct.sublist (List.filter_sublist.map _)
  ids p hp := h.ids p (List.mem_of_mem_filter hp)

theorem Stored.append (h : Stored l) {p : PerAppProfile} (hroom : l.length < PerAppProfile.MAX)
    (hnew : ∀ q ∈ l, q.id ≠ p.id) (hid : p.id.blank = false) : Stored (l ++ [p]) where
  few := by
    rw [List.length_append, List.length_singleton]
    exact hroom
  distinct := by
    rw [List.map_append, List.map_singleton, List.nodup_append]
    refine ⟨h.distinct, List.nodup_singleton _, ?_⟩
    rintro id hl _ hs rfl
    obtain ⟨q, hq, hqid⟩ := List.mem_map.1 hl
    exact hnew q hq (hqid.trans (List.mem_singleton.1 hs))
  ids q hq := by
    rcases List.mem_append.1 hq with hq | hq
    · exact h.ids q hq
    · rw [List.mem_singleton.1 hq]
      exact hid

/-- A live rule is never off. -/
theorem Kept.on (h : Kept s) (hactive : s.activePerAppProfile ≠ none) : s.perAppMode ≠ .OFF := by
  obtain ⟨id, hid⟩ := Option.ne_none_iff_exists'.1 hactive
  obtain ⟨p, -, -, hmode, -⟩ := h.live id hid
  exact hmode ▸ p.on

/-- What a live rule makes of its profile. -/
theorem syncActiveProfile_some {id : String} (hactive : s.activePerAppProfile = some id)
    (hon : s.perAppMode ≠ .OFF) :
    s.syncActiveProfile = { s with
      perAppProfiles := s.perAppProfiles.map fun p =>
        if p.id = id then { p with mode := s.perAppMode, apps := s.perAppList, on := hon }
        else p } := by
  unfold State.syncActiveProfile
  split
  · rename_i hnone
    rw [hactive] at hnone
    cases hnone
  · rename_i id' hid'
    obtain rfl : id = id' := Option.some.inj (hactive.symm.trans hid')
    rw [dif_neg hon]

theorem syncActiveProfile_none (hactive : s.activePerAppProfile = none) :
    s.syncActiveProfile = s := by
  unfold State.syncActiveProfile
  rw [hactive]

/-- Where the active profile is there and the mode is not off, it becomes the live rule. -/
theorem sync_kept (hs : Stored s.perAppProfiles)
    (hthere : ∀ id, s.activePerAppProfile = some id → ∃ p ∈ s.perAppProfiles, p.id = id)
    (hon : s.activePerAppProfile ≠ none → s.perAppMode ≠ .OFF) : Kept s.syncActiveProfile := by
  cases hactive : s.activePerAppProfile with
  | none =>
    rw [syncActiveProfile_none hactive]
    exact ⟨hs, fun id hid => by rw [hactive] at hid; cases hid⟩
  | some id =>
    rw [syncActiveProfile_some hactive (hon (hactive ▸ Option.some_ne_none id))]
    refine ⟨hs.map fun p => ?_, fun id' hid' => ?_⟩
    · split <;> rfl
    · obtain ⟨p, hp, hpid⟩ := hthere id hactive
      obtain rfl : id = id' := Option.some.inj (hactive.symm.trans hid')
      refine ⟨_, List.mem_map_of_mem hp, ?_⟩
      rw [if_pos hpid]
      exact ⟨hpid, rfl, rfl⟩

/-- Nothing is written where the active profile is the live rule. -/
theorem sync_eq (h : Kept s) : s.syncActiveProfile = s := by
  cases hactive : s.activePerAppProfile with
  | none => exact syncActiveProfile_none hactive
  | some id =>
    rw [syncActiveProfile_some hactive (h.on (hactive ▸ Option.some_ne_none id))]
    obtain ⟨q, hq, hqid, hmode, happs⟩ := h.live id hactive
    have hmap : ∀ p ∈ s.perAppProfiles,
        (if p.id = id then { p with
          mode := s.perAppMode, apps := s.perAppList,
          on := h.on (hactive ▸ Option.some_ne_none id) } else p) = p := by
      intro p hp
      split
      · obtain rfl := h.stored.eq_of_id hp hq (‹p.id = id›.trans hqid.symm)
        simp only [← hmode, ← happs]
      · rfl
    rw [List.map_congr_left hmap, List.map_id']

theorem setPerAppMode_kept (h : Kept s) (mode : PerAppMode) : Kept (s.setPerAppMode mode) := by
  unfold State.setPerAppMode
  split
  · exact ⟨h.stored, fun id hid => by cases hid⟩
  · refine sync_kept h.stored (fun id hid => ?_) fun _ => ‹_›
    obtain ⟨p, hp, hpid, -⟩ := h.live id hid
    exact ⟨p, hp, hpid⟩

theorem setPerAppList_kept (h : Kept s) (pkgs : Finset String) : Kept (s.setPerAppList pkgs) := by
  refine sync_kept h.stored (fun id hid => ?_) h.on
  obtain ⟨p, hp, hpid, -⟩ := h.live id hid
  exact ⟨p, hp, hpid⟩

/-- What is applied is live, or nothing is active. -/
theorem applyPerAppProfile_kept (hs : Stored s.perAppProfiles) (id : Option String) :
    Kept (s.applyPerAppProfile id) := by
  refine ⟨hs, fun active hactive => ?_⟩
  unfold State.applyPerAppProfile at hactive ⊢
  cases hfind : s.perAppProfiles.find? fun p => some p.id = id with
  | none =>
    rw [hfind] at hactive
    cases hactive
  | some p =>
    rw [hfind] at hactive
    exact ⟨p, List.mem_of_find?_eq_some hfind, Option.some.inj hactive, rfl, rfl⟩

/-- A profile is written over the one with its id, or there is room for it. -/
theorem write_stored (hs : Stored s.perAppProfiles) {p : PerAppProfile}
    (h : (∃ q ∈ s.perAppProfiles, q.id = p.id) ∨
      s.perAppProfiles.length < PerAppProfile.MAX ∧ p.id.blank = false) :
    Stored (s.write p).perAppProfiles := by
  unfold State.write
  dsimp only
  split
  · refine hs.map fun q => ?_
    split
    · exact Eq.symm ‹_›
    · rfl
  · rename_i hnew
    have hnew : ∀ q ∈ s.perAppProfiles, q.id ≠ p.id := by simpa using hnew
    obtain ⟨q, hq, hid⟩ | ⟨hroom, hid⟩ := h
    · exact absurd hid (hnew q hq)
    · exact hs.append hroom hnew hid

/-- Writing over another profile than the active one leaves the live rule alone. -/
theorem write_kept (h : Kept s) {p : PerAppProfile}
    (hp : (∃ q ∈ s.perAppProfiles, q.id = p.id) ∧
        (s.activePerAppProfile = some p.id → p.mode = s.perAppMode ∧ p.apps = s.perAppList) ∨
      (∀ q ∈ s.perAppProfiles, q.id ≠ p.id) ∧
        s.perAppProfiles.length < PerAppProfile.MAX ∧ p.id.blank = false) :
    Kept (s.write p) := by
  refine ⟨write_stored h.stored (hp.imp (·.1) (·.2)), fun id hid => ?_⟩
  obtain ⟨q, hq, hqid, hlive⟩ := h.live id hid
  unfold State.write
  dsimp only
  split
  · refine ⟨_, List.mem_map_of_mem hq, ?_⟩
    by_cases hsame : q.id = p.id
    · rw [if_pos hsame]
      obtain ⟨-, hp⟩ | ⟨hnew, -⟩ := hp
      · have hid : id = p.id := hqid.symm.trans hsame
        exact ⟨hid.symm, hp (hid ▸ ‹s.activePerAppProfile = some id›)⟩
      · exact absurd hsame (hnew q hq)
    · rw [if_neg hsame]
      exact ⟨hqid, hlive⟩
  · exact ⟨q, List.mem_append_left _ hq, hqid, hlive⟩

theorem create_kept (h : Kept s) {random name : String} {mode : PerAppMode} {apps : Finset String}
    (hid : random.blank = false) : Kept (s.savePerAppProfile random name mode apps none).2 := by
  unfold State.savePerAppProfile
  split
  · exact h
  · split
    · exact h
    · rename_i hroom
      dsimp only
      rw [if_pos rfl]
      refine applyPerAppProfile_kept (write_stored h.stored (.inr ⟨?_, hid⟩)) _
      exact not_le.1 fun hfull => hroom ⟨rfl, hfull⟩

theorem update_kept (h : Kept s) {id name : String} {mode : PerAppMode} {apps : Finset String}
    (hfits : Fits s (.update id name mode apps)) :
    Kept (s.savePerAppProfile "" name mode apps (some id)).2 := by
  unfold State.savePerAppProfile
  split
  · exact h
  · rename_i clean hclean
    rw [if_neg fun hnone => Option.some_ne_none id hnone.1]
    refine write_kept h ?_
    rcases hfits with hblank | hfits
    · rw [hblank] at hclean
      cases hclean
    · exact hfits

theorem deletePerAppProfile_kept (h : Kept s) (id : String) : Kept (s.deletePerAppProfile id) := by
  unfold State.deletePerAppProfile
  dsimp only
  split
  · exact applyPerAppProfile_kept (h.stored.filter _) none
  · rename_i hother
    refine ⟨h.stored.filter _, fun active hactive => ?_⟩
    obtain ⟨p, hp, hpid, hlive⟩ := h.live active hactive
    refine ⟨p, List.mem_filter.2 ⟨hp, decide_eq_true fun hsame => hother ?_⟩, hpid, hlive⟩
    rw [← hsame, hpid]
    exact hactive

theorem op_kept (h : Kept s) (o : Op) (hfits : Fits s o) : Kept (o.apply s) := by
  cases o with
  | setPerAppMode mode => exact setPerAppMode_kept h mode
  | setPerAppList pkgs => exact setPerAppList_kept h pkgs
  | togglePerApp pkg => exact setPerAppList_kept h _
  | create random name mode apps => exact create_kept h random.2
  | update id name mode apps => exact update_kept h hfits
  | applyPerAppProfile id => exact applyPerAppProfile_kept h.stored id
  | deletePerAppProfile id => exact deletePerAppProfile_kept h id

/-! ## What is read back -/

section Restore

variable (listing : Listing)

theorem toFinset_listed (apps : Finset String) :
    (((listing.toList apps).map Json.str).map Json.asString).toFinset = apps := by
  rw [List.map_map, show Json.asString ∘ Json.str = id from rfl, List.map_id, listing.complete]

theorem ifBlank_of_named {name fallback : String} (h : name.blank = false) :
    name.ifBlank fallback = name := by
  rw [String.ifBlank, h, if_neg Bool.false_ne_true]

theorem fromJson_toJson (p : PerAppProfile) :
    PerAppProfile.fromJson (p.toJson listing) = some p := by
  have hid : (p.toJson listing).opt "id" = some (.str p.id) := by simp [PerAppProfile.toJson]
  have hname : (p.toJson listing).optString "name" = p.name := by
    simp [PerAppProfile.toJson, JSONObject.optString, Json.asString]
  have hmode : (p.toJson listing).optString "mode" "BLOCKLIST" = p.mode.name := by
    simp [PerAppProfile.toJson, JSONObject.optString, Json.asString]
  have happs : (p.toJson listing).optJSONArray "apps" =
      some ((listing.toList p.apps).map .str) := by
    simp [PerAppProfile.toJson, JSONObject.optJSONArray]
  simp only [PerAppProfile.fromJson, hid, hname, hmode, happs, PerAppMode.valueOf_name,
    Option.getD_some, toFinset_listed, ifBlank_of_named p.named,
    PerAppMode.ofProfile_of_ne p.on, Json.asString]

theorem mapM_asObject (l : List JSONObject) : (l.map Json.obj).mapM State.asObject = some l := by
  induction l with
  | nil => rfl
  | cons o l ih =>
    rw [List.map_cons, List.mapM_cons, ih]
    rfl

variable {listing}

theorem snapshot_mode :
    (r.settingsSnapshot listing).optString "perAppMode" = r.perAppMode.name := by
  simp [State.settingsSnapshot, JSONObject.optString, Json.asString]

theorem snapshot_list : (r.settingsSnapshot listing).optJSONArray "perAppList" =
    some ((listing.toList r.perAppList).map .str) := by
  simp [State.settingsSnapshot, JSONObject.optJSONArray]

theorem snapshot_profiles : (r.settingsSnapshot listing).optJSONArray "perAppProfiles" =
    some ((r.perAppProfiles.map (·.toJson listing)).map .obj) := by
  simp [State.settingsSnapshot, JSONObject.optJSONArray]

theorem snapshot_active : (r.settingsSnapshot listing).optString "perAppActive" =
    r.activePerAppProfile.getD "" := by
  simp [State.settingsSnapshot, JSONObject.optString, Json.asString]

theorem syncActiveProfile_mode : t.syncActiveProfile.perAppMode = t.perAppMode := by
  unfold State.syncActiveProfile
  split
  · rfl
  · split <;> rfl

/-- Whatever the mode does to the profiles that are there, it is the mode afterwards. -/
theorem restoreMode_mode : (t.restoreMode (r.settingsSnapshot listing)).perAppMode =
    r.perAppMode := by
  unfold State.restoreMode
  rw [snapshot_mode, Option.filter_some, if_pos (by simp)]
  simp only [PerAppMode.valueOf_name]
  unfold State.setPerAppMode
  split
  · rfl
  · exact syncActiveProfile_mode

/-- The profiles and the active one come back, whatever was there. -/
theorem restoreProfiles_snapshot (h : Kept r) :
    t.restoreProfiles (r.perAppProfiles.map (·.toJson listing)) (r.activePerAppProfile.getD "") =
      { t with
        perAppProfiles := r.perAppProfiles
        activePerAppProfile := r.activePerAppProfile } := by
  have hread : (r.perAppProfiles.map (·.toJson listing)).filterMap PerAppProfile.fromJson =
      r.perAppProfiles := by
    rw [List.filterMap_map,
      show PerAppProfile.fromJson ∘ (·.toJson listing) = some from
        funext fun p => fromJson_toJson listing p, List.filterMap_some]
  unfold State.restoreProfiles
  rw [hread, List.take_of_length_le h.stored.few]
  dsimp only
  congr 1
  cases hactive : r.activePerAppProfile with
  | none => rfl
  | some id =>
    obtain ⟨p, hp, hpid, -⟩ := h.live id hactive
    have hthere : (r.perAppProfiles.any fun p => p.id = id) = true :=
      List.any_eq_true.2 ⟨p, hp, decide_eq_true hpid⟩
    have hid : id.blank = false := hpid ▸ h.stored.ids p hp
    rw [Option.getD_some, Option.filter_some, if_pos (by rw [hid, hthere]; rfl)]

/-- The apps are read last, when the profile that they are written to already has them. -/
theorem restore_snapshot (h : Kept r) (t : State) :
    t.restoreSettings (r.settingsSnapshot listing) = r := by
  unfold State.restoreSettings
  simp only [snapshot_profiles, mapM_asObject, snapshot_active, restoreProfiles_snapshot h]
  unfold State.restoreList
  simp only [snapshot_list, toFinset_listed, State.setPerAppList, restoreMode_mode]
  exact sync_eq h

end Restore

/-- In runs in which no profile is written past the live rule or past the room for profiles, the
active profile is the live rule, and a snapshot brings the whole part back wherever it is read. -/
theorem profiles_consistent (listing : Listing) {s : State} (h : Reached listing Fits s) :
    Consistent s ∧ ∀ t : State, t.restoreSettings (s.settingsSnapshot listing) = s := by
  have hkept : Kept s := by
    induction h with
    | start =>
      exact ⟨⟨Nat.zero_le _, List.nodup_nil, fun p hp => by cases hp⟩, fun id hid => by cases hid⟩
    | op o hs ho ih => exact op_kept ih o ho
    | restore hs hr ihs ihr => rwa [restore_snapshot ihr]
  exact ⟨hkept.consistent, fun t => restore_snapshot hkept t⟩

def alphabetic : Listing where
  toList apps := apps.sort (· ≤ ·)
  complete apps := apps.sort_toFinset (· ≤ ·)

/-- A profile is made; it is live from then on. -/
def bank : State := Op.apply {} (.create ⟨"b", by decide⟩ "بانک" .BLOCKLIST ∅)

theorem profiles_consistent_bank :
    bank.activePerAppProfile = some "b" ∧ Consistent bank ∧
      ∀ t : State, t.restoreSettings (bank.settingsSnapshot alphabetic) = bank :=
  ⟨by decide, profiles_consistent alphabetic (.op _ .start trivial)⟩

/-- Its mode is edited in the dialog of the profile: the live mode is the old one. -/
theorem bank_edited_not_live :
    ¬∀ (listing : Listing) (s : State), Reached listing (fun _ _ => True) s →
      Consistent s ∧ ∀ t : State, t.restoreSettings (s.settingsSnapshot listing) = s := by
  intro h
  have hedited := (h alphabetic (Op.apply bank (.update "b" "بانک" .ALLOWLIST ∅))
    (.op _ (.op _ .start trivial) trivial)).1
  obtain ⟨p, hp, -, hmode, -⟩ := hedited.live "b" (by decide)
  have hall : ∀ p ∈ (Op.apply bank (.update "b" "بانک" .ALLOWLIST ∅)).perAppProfiles,
      p.mode ≠ (Op.apply bank (.update "b" "بانک" .ALLOWLIST ∅)).perAppMode := by decide
  exact hall p hp hmode

end Ghajar.PerApp
