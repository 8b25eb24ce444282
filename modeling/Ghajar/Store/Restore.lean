import Mathlib
import Ghajar.Config.TextPlatform
import Ghajar.Lib.Writers
import Ghajar.Store.Groups
import Ghajar.Store.PerApp

/-!
# Restoring a backup

`restoreBackup` puts the lists of a backup in place, then one setting after the other, and the
selection last. Some settings are read with getters that throw at a value of another type, and
nothing that was done before is undone. `all_or_nothing_iff` is the exact condition under which a
restore is all or nothing.
-/

namespace Ghajar.Restore

open Ghajar Gsb2 Writers

/-! ## Settings -/

/-- The settings that are on or off. -/
inductive Flag where
  | fragment | splitRouting | sniffing | killSwitch | mux | blockWhenOff | onionRouting
  | encryptedDns | fakeDns | zeptunTunnel | newestFirst | reduceMotion | dynamicAccent
  | youtubeDirect | adBlock | autoSelect
  deriving DecidableEq

def Flag.name : Flag → String
  | fragment => "fragment"
  | splitRouting => "splitRouting"
  | sniffing => "sniffing"
  | killSwitch => "killSwitch"
  | mux => "mux"
  | blockWhenOff => "blockWhenOff"
  | onionRouting => "onionRouting"
  | encryptedDns => "encryptedDns"
  | fakeDns => "fakeDns"
  | zeptunTunnel => "zeptunTunnel"
  | newestFirst => "newestFirst"
  | reduceMotion => "reduceMotion"
  | dynamicAccent => "dynamicAccent"
  | youtubeDirect => "youtubeDirect"
  | adBlock => "adBlock"
  | autoSelect => "autoSelect"

/-- The settings that are texts. -/
inductive Line where
  | fragmentPackets | fragmentLength | fragmentInterval | customDns | zeptunDnsUpstream | noiseSpec
  | sortMode
  deriving DecidableEq

def Line.name : Line → String
  | fragmentPackets => "fragmentPackets"
  | fragmentLength => "fragmentLength"
  | fragmentInterval => "fragmentInterval"
  | customDns => "customDns"
  | zeptunDnsUpstream => "zeptunDnsUpstream"
  | noiseSpec => "noiseSpec"
  | sortMode => "sortMode"

/-- What the setter keeps of a text. -/
def Line.clean : Line → String → String
  | customDns, v | zeptunDnsUpstream, v | noiseSpec, v => v.trimmed
  | fragmentPackets, v | fragmentLength, v | fragmentInterval, v | sortMode, v => v

/-- The settings that are numbers. -/
inductive Count where
  | muxConcurrency | rotateMinutes | mixedPort | autoRefreshHours
  deriving DecidableEq

def Count.name : Count → String
  | muxConcurrency => "muxConcurrency"
  | rotateMinutes => "rotateMinutes"
  | mixedPort => "mixedPort"
  | autoRefreshHours => "autoRefreshHours"

def coerceIn (n low high : Int) : Int := if n < low then low else if high < n then high else n

/-- What the setter makes of a number. -/
def Count.coerce : Count → Int → Int
  | muxConcurrency, v => coerceIn v 1 128
  | rotateMinutes, v => coerceIn v 0 720
  | mixedPort, v => coerceIn v 1024 65535
  | autoRefreshHours, v => v

inductive ListDensity where
  | ONE | TWO
  deriving DecidableEq

def ListDensity.name : ListDensity → String
  | ONE => "ONE"
  | TWO => "TWO"

inductive DnsMode where
  | FORWARD | HIJACK | FAKE_IP
  deriving DecidableEq

def DnsMode.name : DnsMode → String
  | FORWARD => "FORWARD"
  | HIJACK => "HIJACK"
  | FAKE_IP => "FAKE_IP"

inductive Profile where
  | BALANCED | THROUGHPUT | BATTERY
  deriving DecidableEq

def Profile.name : Profile → String
  | BALANCED => "BALANCED"
  | THROUGHPUT => "THROUGHPUT"
  | BATTERY => "BATTERY"

inductive ThemeMode where
  | SYSTEM | LIGHT | DARK | AMOLED
  deriving DecidableEq

def ThemeMode.name : ThemeMode → String
  | SYSTEM => "SYSTEM"
  | LIGHT => "LIGHT"
  | DARK => "DARK"
  | AMOLED => "AMOLED"

inductive GhajarThemeId where
  | PREMIUM_GREEN_DARK | PREMIUM_GREEN_LIGHT | MIDNIGHT_BLUE | GRAPHITE_GOLD | SYSTEM
  deriving DecidableEq

def GhajarThemeId.name : GhajarThemeId → String
  | PREMIUM_GREEN_DARK => "PREMIUM_GREEN_DARK"
  | PREMIUM_GREEN_LIGHT => "PREMIUM_GREEN_LIGHT"
  | MIDNIGHT_BLUE => "MIDNIGHT_BLUE"
  | GRAPHITE_GOLD => "GRAPHITE_GOLD"
  | SYSTEM => "SYSTEM"

inductive Lang where
  | EN | FA
  deriving DecidableEq

def Lang.name : Lang → String
  | EN => "EN"
  | FA => "FA"

/-- The entry of an enumeration with this name. -/
def entry {α : Type} (name : α → String) (entries : List α) (s : String) : Option α :=
  entries.find? fun a => name a = s

def ListDensity.valueOf : String → Option ListDensity := entry name [ONE, TWO]
def DnsMode.valueOf : String → Option DnsMode := entry name [FORWARD, HIJACK, FAKE_IP]
def Profile.valueOf : String → Option Profile := entry name [BALANCED, THROUGHPUT, BATTERY]
def ThemeMode.valueOf : String → Option ThemeMode := entry name [SYSTEM, LIGHT, DARK, AMOLED]
def GhajarThemeId.valueOf : String → Option GhajarThemeId :=
  entry name [PREMIUM_GREEN_DARK, PREMIUM_GREEN_LIGHT, MIDNIGHT_BLUE, GRAPHITE_GOLD, SYSTEM]
def Lang.valueOf : String → Option Lang := entry name [EN, FA]

def GhajarThemeId.parse (s : String) : GhajarThemeId := (valueOf s).getD .PREMIUM_GREEN_DARK

/-- The mode that goes with a theme. -/
def GhajarThemeId.mode : GhajarThemeId → ThemeMode
  | PREMIUM_GREEN_LIGHT => .LIGHT
  | SYSTEM => .SYSTEM
  | _ => .DARK

inductive Key where
  | flag (f : Flag)
  /-- Whether the tunnel is shared, and until when. -/
  | vpnShare
  | line (l : Line)
  | count (c : Count)
  | sniffTypes
  | listDensity
  | zeptunDns
  | zeptunProfile
  /-- The mode and the theme. -/
  | theme
  | lang
  | perApp
  | look
  deriving DecidableEq

/-- What a setting holds; `Look` is how the app looks. -/
abbrev Key.Value (Look : Type) : Key → Type
  | flag _ => Bool
  | vpnShare => Bool × Int
  | line _ => String
  | count _ => Int
  | sniffTypes => Finset String
  | listDensity => ListDensity
  | zeptunDns => DnsMode
  | zeptunProfile => Profile
  | theme => ThemeMode × GhajarThemeId
  | lang => Lang
  | perApp => PerApp.State
  | look => Look

abbrev Settings (Look : Type) := ∀ k : Key, k.Value Look

/-! ## What a backup says -/

/-- The number a number's text and a text stand for, and how the app looks by an export, nothing
where it is none or cannot be read. -/
structure Library (Look : Type) where
  numberInt : String → Int
  textInt : String → Option Int
  appearance : JSONObject → Option Look

section Restore

variable {Look : Type} (lib : Library Look) (o : JSONObject)

/-- `getBoolean`, nothing where it throws. -/
def getBoolean : Json → Option Bool
  | .bool b => some b
  | .str t =>
    if Text.equalsIgnoreCase t "true" then some true
    else if Text.equalsIgnoreCase t "false" then some false
    else none
  | _ => none

/-- `getInt`, nothing where it throws. -/
def getInt : Json → Option Int
  | .num t => some (lib.numberInt t)
  | .str t => lib.textInt t
  | _ => none

/-- A setting is left where the key is missing; a value that cannot be read throws. -/
def strictly {α β : Type} (name : String) (read : Json → Option α) (set : α → β → β) (old : β) :
    β × Bool :=
  match o.opt name with
  | none => (old, false)
  | some v => (read v).elim (old, true) fun x => (set x old, false)

/-- A setting is left where there is nothing to read. -/
def leniently {α β : Type} (given : Option α) (set : α → β → β) (old : β) : β × Bool :=
  (given.elim old fun x => set x old, false)

abbrev Setter (Look : Type) := Writer (Key.Value Look)

def setFlag (f : Flag) : Setter Look := ⟨.flag f, strictly o f.name getBoolean fun b _ => b⟩

/-- Sharing that is switched off has no end any more. -/
def setVpnShareEnabled : Setter Look :=
  ⟨.vpnShare, strictly o "vpnShareEnabled" getBoolean fun b old => (b, if b then old.2 else 0)⟩

def setLine (l : Line) : Setter Look :=
  ⟨.line l, strictly o l.name (fun v => some v.asString) fun v _ => l.clean v⟩

def setCount (c : Count) : Setter Look :=
  ⟨.count c, strictly o c.name (getInt lib) fun n _ => c.coerce n⟩

/-- `optInt("rotateMinutes", 0)` -/
def setRotateMinutes : Setter Look :=
  ⟨.count .rotateMinutes, strictly o "rotateMinutes" (fun v => some ((getInt lib v).getD 0))
    fun n _ => Count.coerce .rotateMinutes n⟩

def setSniffTypes : Setter Look :=
  ⟨.sniffTypes, leniently (o.optJSONArray "sniffTypes") fun arr _ =>
    (arr.map Json.asString).toFinset⟩

def setListDensity : Setter Look :=
  ⟨.listDensity, leniently (ListDensity.valueOf (o.optString "listDensity")) fun v _ => v⟩

def setZeptunDns : Setter Look :=
  ⟨.zeptunDns, leniently (DnsMode.valueOf (o.optString "zeptunDns")) fun v _ => v⟩

def setZeptunProfile : Setter Look :=
  ⟨.zeptunProfile, leniently (Profile.valueOf (o.optString "zeptunProfile")) fun v _ => v⟩

/-- `setThemeMode`, and `setUiTheme` after it. -/
def setTheme : Setter Look :=
  ⟨.theme, fun old =>
    let mode := (ThemeMode.valueOf (o.optString "themeMode")).getD old.1
    let ui := o.optString "uiTheme"
    (if ui = "" then (mode, old.2)
      else ((GhajarThemeId.parse ui).mode, GhajarThemeId.parse ui), false)⟩

def setLang : Setter Look := ⟨.lang, leniently (Lang.valueOf (o.optString "lang")) fun v _ => v⟩

/-- An item of the profiles that is no object is thrown at when the mode is already set. -/
def setPerApp : Setter Look :=
  ⟨.perApp, fun old =>
    (old.restoreSettings o,
      (o.optJSONArray "perAppProfiles").any fun arr => (arr.mapM PerApp.State.asObject).isNone)⟩

def setLook : Setter Look :=
  ⟨.look, leniently ((o.optJSONObject "appearance").bind lib.appearance) fun v _ => v⟩

def restoreSettings : List (Setter Look) :=
  [setFlag o .fragment, setLine o .fragmentPackets, setLine o .fragmentLength,
    setLine o .fragmentInterval, setFlag o .splitRouting, setFlag o .sniffing, setSniffTypes o,
    setFlag o .killSwitch, setFlag o .mux, setCount lib o .muxConcurrency,
    setFlag o .blockWhenOff, setVpnShareEnabled o, setFlag o .onionRouting,
    setFlag o .encryptedDns, setFlag o .fakeDns, setLine o .customDns, setRotateMinutes lib o,
    setFlag o .zeptunTunnel, setFlag o .newestFirst, setFlag o .reduceMotion,
    setFlag o .dynamicAccent, setListDensity o, setZeptunDns o, setLine o .zeptunDnsUpstream,
    setZeptunProfile o, setFlag o .youtubeDirect, setLine o .noiseSpec, setFlag o .adBlock,
    setCount lib o .mixedPort, setLine o .sortMode, setFlag o .autoSelect,
    setCount lib o .autoRefreshHours, setTheme o, setLang o, setPerApp o, setLook lib o]

structure Store (Look : Type) where
  lists : Groups.State
  settings : Settings Look

structure Backup where
  configs : List ProxyConfig
  subs : List Subscription
  settings : Option JSONObject

def Backup.wanted (b : Backup) : String :=
  (b.settings.map fun o => o.optString "selectedId").getD ""

variable (p : Platform) (b : Backup)

/-- The lists of a backup with servers, and the received shares. -/
def replaced (s : Groups.State) : Groups.State :=
  { s with
    configs := b.configs ++ Groups.shared p s.configs
    subscriptions := b.subs ++ s.subscriptions.filter fun sub => Gvpn.isGvpnUrl sub.url }

/-- The lists as they are when the settings come. -/
def listsOf (s : Store Look) : Groups.State :=
  if b.configs.isEmpty ∧ b.subs.isEmpty then s.lists else replaced p b s.lists

/-- The store it leaves, and whether it throws. -/
def restoreBackup (s : Store Look) : Store Look × Bool :=
  let lists := listsOf p b s
  let r := match b.settings with
    | none => (s.settings, false)
    | some o => run (restoreSettings lib o) s.settings
  if r.2 then (⟨lists, r.1⟩, true)
  else
    let selected := if b.configs.isEmpty then lists.selectedId
      else Groups.chosen b.configs b.wanted
    (⟨{ lists with selectedId := selected }, r.1⟩, false)

/-! ## What is to hold of it -/

/-- What the strict getters read has their type. -/
structure Readable : Prop where
  flag : ∀ f v, o.opt (Flag.name f) = some v → (getBoolean v).isSome
  vpnShare : ∀ v, o.opt "vpnShareEnabled" = some v → (getBoolean v).isSome
  count : ∀ c v, c ≠ .rotateMinutes → o.opt (Count.name c) = some v → (getInt lib v).isSome
  profiles : ∀ arr, o.optJSONArray "perAppProfiles" = some arr →
    (arr.mapM PerApp.State.asObject).isSome

/-- The same profile, but for the rule of the active one. -/
def Follows (active : Option String) (q q' : PerApp.PerAppProfile) : Prop :=
  q'.id = q.id ∧ q'.name = q.name ∧ (some q.id ≠ active → q' = q)

/-- Every setting that can be read is as the backup has it. A theme goes over a mode, and the live
profile of the per-app rule follows the rule. -/
structure Holds (t : Settings Look) : Prop where
  flag : ∀ f v b, o.opt (Flag.name f) = some v → getBoolean v = some b → t (.flag f) = b
  vpnShare : ∀ v b, o.opt "vpnShareEnabled" = some v → getBoolean v = some b → (t .vpnShare).1 = b
  line : ∀ l v, o.opt (Line.name l) = some v → t (.line l) = l.clean v.asString
  count : ∀ c v n, o.opt (Count.name c) = some v → getInt lib v = some n →
    t (.count c) = c.coerce n
  sniffTypes : ∀ arr, o.optJSONArray "sniffTypes" = some arr →
    t .sniffTypes = (arr.map Json.asString).toFinset
  listDensity : ∀ v, ListDensity.valueOf (o.optString "listDensity") = some v → t .listDensity = v
  zeptunDns : ∀ v, DnsMode.valueOf (o.optString "zeptunDns") = some v → t .zeptunDns = v
  zeptunProfile : ∀ v, Profile.valueOf (o.optString "zeptunProfile") = some v →
    t .zeptunProfile = v
  uiTheme : ∀ v, GhajarThemeId.valueOf (o.optString "uiTheme") = some v → (t .theme).2 = v
  themeMode : ∀ v, ThemeMode.valueOf (o.optString "themeMode") = some v →
    o.optString "uiTheme" = "" → (t .theme).1 = v
  lang : ∀ v, Lang.valueOf (o.optString "lang") = some v → t .lang = v
  perAppMode : ∀ v, PerApp.PerAppMode.valueOf (o.optString "perAppMode") = some v →
    (t .perApp).perAppMode = v
  perAppList : ∀ arr, o.optJSONArray "perAppList" = some arr →
    (t .perApp).perAppList = (arr.map Json.asString).toFinset
  perAppActive : ∀ arr, o.optJSONArray "perAppProfiles" = some arr → ∀ q ∈ (t .perApp).perAppProfiles,
    q.id = o.optString "perAppActive" → q.id.blank = false →
      (t .perApp).activePerAppProfile = some q.id
  perAppProfiles : ∀ arr objects, o.optJSONArray "perAppProfiles" = some arr →
    arr.mapM PerApp.State.asObject = some objects →
    List.Forall₂ (Follows (t .perApp).activePerAppProfile)
      ((objects.filterMap PerApp.PerAppProfile.fromJson).take PerApp.PerAppProfile.MAX)
      (t .perApp).perAppProfiles
  look : ∀ a v, o.optJSONObject "appearance" = some a → lib.appearance a = some v → t .look = v

/-- The backup is in place. -/
structure InPlace (s s' : Store Look) : Prop where
  lists : b.configs ≠ [] ∨ b.subs ≠ [] →
    s'.lists.configs = (replaced p b s.lists).configs ∧
      s'.lists.subscriptions = (replaced p b s.lists).subscriptions
  selected : ∀ c ∈ b.configs, c.id = b.wanted → s'.lists.selectedId = some c.id
  settings : ∀ o, b.settings = some o → Holds lib o s'.settings

/-- It completes and the backup is in place, or it throws and the store is as it was. -/
def AllOrNothing (s : Store Look) : Prop :=
  let r := restoreBackup lib p b s
  if r.2 then r.1 = s else InPlace lib p b s r.1

/-! ## The setters -/

variable {lib o p b} {s s' : Settings Look}

theorem strictly_fails {α β : Type} {name : String} {read : Json → Option α} {set : α → β → β}
    {old : β} : (strictly o name read set old).2 = false ↔
      ∀ v, o.opt name = some v → (read v).isSome := by
  unfold strictly
  cases o.opt name with
  | none => simp
  | some v => cases hr : read v <;> simp [hr]

theorem strictly_value {α β : Type} {name : String} {read : Json → Option α} {set : α → β → β}
    {old : β} {v : Json} {x : α} (hv : o.opt name = some v) (hx : read v = some x) :
    (strictly o name read set old).1 = set x old := by
  simp [strictly, hv, hx]

theorem leniently_value {α β : Type} {given : Option α} {set : α → β → β} {old : β} {x : α}
    (hx : given = some x) : (leniently given set old).1 = set x old := by
  rw [hx]
  rfl

theorem mem_flag (f : Flag) : setFlag o f ∈ restoreSettings lib o := by
  cases f <;> simp [restoreSettings]

theorem mem_line (l : Line) : setLine o l ∈ restoreSettings lib o := by
  cases l <;> simp [restoreSettings]

theorem mem_count {c : Count} (hc : c ≠ .rotateMinutes) :
    setCount lib o c ∈ restoreSettings lib o := by
  cases c with
  | rotateMinutes => exact absurd rfl hc
  | _ => simp [restoreSettings]

theorem settings_apart (lib : Library Look) (o : JSONObject) : Apart (restoreSettings lib o) := by
  have hk : (restoreSettings lib o).map Writer.key =
      [.flag .fragment, .line .fragmentPackets, .line .fragmentLength, .line .fragmentInterval,
        .flag .splitRouting, .flag .sniffing, .sniffTypes, .flag .killSwitch, .flag .mux,
        .count .muxConcurrency, .flag .blockWhenOff, .vpnShare, .flag .onionRouting,
        .flag .encryptedDns, .flag .fakeDns, .line .customDns, .count .rotateMinutes,
        .flag .zeptunTunnel, .flag .newestFirst, .flag .reduceMotion, .flag .dynamicAccent,
        .listDensity, .zeptunDns, .line .zeptunDnsUpstream, .zeptunProfile, .flag .youtubeDirect,
        .line .noiseSpec, .flag .adBlock, .count .mixedPort, .line .sortMode, .flag .autoSelect,
        .count .autoRefreshHours, .theme, .lang, .perApp, .look] := rfl
  rw [Apart, hk]
  decide

theorem fails_perApp : (setPerApp o : Setter Look).fails s = false ↔
    ∀ arr, o.optJSONArray "perAppProfiles" = some arr →
      (arr.mapM PerApp.State.asObject).isSome := by
  unfold Writer.fails setPerApp
  cases o.optJSONArray "perAppProfiles" with
  | none => simp
  | some arr => simp

theorem readable_iff :
    (∀ w ∈ restoreSettings lib o, w.fails s = false) ↔ Readable lib o := by
  constructor
  · intro h
    refine ⟨fun f => strictly_fails.1 (h _ (mem_flag f)), strictly_fails.1
      (h (setVpnShareEnabled o) (by simp [restoreSettings])), fun c v hc =>
        strictly_fails.1 (h _ (mem_count hc)) v,
      fails_perApp.1 (h (setPerApp o) (by simp [restoreSettings]))⟩
  · intro h
    have hflag (f : Flag) : (setFlag o f : Setter Look).fails s = false :=
      strictly_fails.2 (h.flag f)
    have hline (l : Line) : (setLine o l : Setter Look).fails s = false :=
      strictly_fails.2 fun v _ => rfl
    have hcount {c : Count} (hc : c ≠ .rotateMinutes) :
        (setCount lib o c).fails s = false := strictly_fails.2 fun v => h.count c v hc
    have hvpn : (setVpnShareEnabled o : Setter Look).fails s = false :=
      strictly_fails.2 h.vpnShare
    have hrotate : (setRotateMinutes lib o).fails s = false := strictly_fails.2 fun v _ => rfl
    have hper : (setPerApp o : Setter Look).fails s = false := fails_perApp.2 h.profiles
    simp only [restoreSettings, List.forall_mem_cons, hflag, hline, hvpn, hrotate, hper,
      hcount (show Count.muxConcurrency ≠ .rotateMinutes by decide),
      hcount (show Count.mixedPort ≠ .rotateMinutes by decide),
      hcount (show Count.autoRefreshHours ≠ .rotateMinutes by decide), true_and]
    exact ⟨rfl, rfl, rfl, rfl, rfl, rfl, rfl, by simp⟩

/-! ## The per-app rule -/

section PerApp

open PerApp

variable {q : PerApp.State}

theorem sync_active : q.syncActiveProfile.activePerAppProfile = q.activePerAppProfile := by
  unfold State.syncActiveProfile
  split
  · rfl
  · split <;> rfl

theorem sync_list : q.syncActiveProfile.perAppList = q.perAppList := by
  unfold State.syncActiveProfile
  split
  · rfl
  · split <;> rfl

theorem sync_follows : List.Forall₂ (Follows q.activePerAppProfile) q.perAppProfiles
    q.syncActiveProfile.perAppProfiles := by
  have hself : ∀ a, Follows q.activePerAppProfile a a := fun a => ⟨rfl, rfl, fun _ => rfl⟩
  cases ha : q.activePerAppProfile with
  | none =>
    rw [syncActiveProfile_none ha]
    exact List.forall₂_same.2 fun a _ => ha ▸ hself a
  | some id =>
    by_cases hm : q.perAppMode = .OFF
    · have hs : q.syncActiveProfile = q := by
        unfold State.syncActiveProfile
        rw [ha]
        simp [hm]
      rw [hs]
      exact List.forall₂_same.2 fun a _ => ha ▸ hself a
    · rw [syncActiveProfile_some ha hm]
      refine List.forall₂_map_right_iff.2 (List.forall₂_same.2 fun a _ => ?_)
      split
      · exact ⟨rfl, rfl, fun hn => absurd (congrArg some ‹a.id = id›) hn⟩
      · exact ha ▸ hself a

theorem restoreMode_of {m : PerAppMode}
    (hm : PerAppMode.valueOf (o.optString "perAppMode") = some m) :
    (q.restoreMode o).perAppMode = m := by
  have hne : o.optString "perAppMode" ≠ "" := by
    intro he
    rw [he] at hm
    cases hm
  unfold State.restoreMode
  rw [Option.filter_some, if_pos (by simpa using hne)]
  simp only [hm]
  unfold State.setPerAppMode
  split
  · rfl
  · exact syncActiveProfile_mode

theorem restoreList_mode : (q.restoreList o).perAppMode = q.perAppMode := by
  unfold State.restoreList
  split
  · rfl
  · exact syncActiveProfile_mode

theorem restoreList_active : (q.restoreList o).activePerAppProfile = q.activePerAppProfile := by
  unfold State.restoreList
  split
  · rfl
  · exact sync_active

theorem restoreList_list {arr : JSONArray} (h : o.optJSONArray "perAppList" = some arr) :
    (q.restoreList o).perAppList = (arr.map Json.asString).toFinset := by
  unfold State.restoreList
  rw [h]
  exact sync_list

theorem restoreList_follows : List.Forall₂ (Follows q.activePerAppProfile) q.perAppProfiles
    (q.restoreList o).perAppProfiles := by
  unfold State.restoreList
  cases o.optJSONArray "perAppList" with
  | none => exact List.forall₂_same.2 fun a _ => ⟨rfl, rfl, fun _ => rfl⟩
  | some arr => exact sync_follows (q := { q with perAppList := (arr.map Json.asString).toFinset })

theorem follows_mem {active : Option String} {l l' : List PerAppProfile}
    (h : List.Forall₂ (Follows active) l l') {a : PerAppProfile} (ha : a ∈ l') :
    ∃ b ∈ l, b.id = a.id := by
  induction h with
  | nil => cases ha
  | cons hab _ ih =>
    rcases List.mem_cons.1 ha with rfl | ha
    · exact ⟨_, List.mem_cons_self, hab.1.symm⟩
    · obtain ⟨b, hb, hid⟩ := ih ha
      exact ⟨b, List.mem_cons_of_mem _ hb, hid⟩

/-- The state before the list is restored, if no item of the profiles is thrown at. -/
theorem restoreSettings_eq (h : ∀ arr, o.optJSONArray "perAppProfiles" = some arr →
    (arr.mapM State.asObject).isSome) :
    ∃ q', q.restoreSettings o = q'.restoreList o ∧ q'.perAppMode = (q.restoreMode o).perAppMode ∧
      ∀ arr objects, o.optJSONArray "perAppProfiles" = some arr →
        arr.mapM State.asObject = some objects →
        q' = (q.restoreMode o).restoreProfiles objects (o.optString "perAppActive") := by
  unfold State.restoreSettings
  cases harr : o.optJSONArray "perAppProfiles" with
  | none => exact ⟨_, rfl, rfl, fun _ _ hn => by cases hn⟩
  | some arr =>
    obtain ⟨objects, hobj⟩ := Option.isSome_iff_exists.1 (h arr harr)
    refine ⟨(q.restoreMode o).restoreProfiles objects (o.optString "perAppActive"), ?_, rfl, ?_⟩
    · simp only [hobj]
    · rintro arr' objects' ⟨⟩ hobj'
      rw [Option.some.inj (hobj.symm.trans hobj')]

end PerApp

/-! ## A restore as a whole -/

theorem setTheme_value {old : ThemeMode × GhajarThemeId} :
    ((setTheme o : Setter Look).next old).1 =
      if o.optString "uiTheme" = "" then
        ((ThemeMode.valueOf (o.optString "themeMode")).getD old.1, old.2)
      else ((GhajarThemeId.parse (o.optString "uiTheme")).mode,
        GhajarThemeId.parse (o.optString "uiTheme")) := rfl

theorem holds_of_run (hr : (run (restoreSettings lib o) s).2 = false) :
    Holds lib o (run (restoreSettings lib o) s).1 := by
  have hkey {w : Setter Look} (hw : w ∈ restoreSettings lib o) :
      (run (restoreSettings lib o) s).1 w.key = w.value s := run_key (settings_apart lib o) hr hw
  have hread : Readable lib o := by
    refine (readable_iff (s := s)).1 fun w hw => ?_
    by_contra hf
    have hfail := (run_failed (settings_apart lib o)).2 ⟨w, hw, by simpa using hf⟩
    rw [hr] at hfail
    cases hfail
  have hper := hkey (w := setPerApp o) (by simp [restoreSettings])
  obtain ⟨q, hq, hmode, hprofiles⟩ := restoreSettings_eq (q := s .perApp) hread.profiles
  replace hper : (run (restoreSettings lib o) s).1 .perApp = q.restoreList o := hper.trans hq
  have htheme := hkey (w := setTheme o) (by simp [restoreSettings])
  constructor
  case flag => exact fun f v b hv hb => (hkey (mem_flag f)).trans (strictly_value hv hb)
  case vpnShare =>
    intro v b hv hb
    have hshare := (hkey (w := setVpnShareEnabled o) (by simp [restoreSettings])).trans
      (strictly_value hv hb)
    exact congrArg Prod.fst hshare
  case line => exact fun l v hv => (hkey (mem_line l)).trans (strictly_value hv rfl)
  case count =>
    intro c v n hv hn
    by_cases hc : c = .rotateMinutes
    · subst hc
      refine (hkey (w := setRotateMinutes lib o) (by simp [restoreSettings])).trans
        (strictly_value hv ?_)
      rw [hn, Option.getD_some]
    · exact (hkey (mem_count hc)).trans (strictly_value hv hn)
  case sniffTypes =>
    exact fun arr harr => (hkey (w := setSniffTypes o) (by simp [restoreSettings])).trans
      (leniently_value harr)
  case listDensity =>
    exact fun v hv => (hkey (w := setListDensity o) (by simp [restoreSettings])).trans
      (leniently_value hv)
  case zeptunDns =>
    exact fun v hv => (hkey (w := setZeptunDns o) (by simp [restoreSettings])).trans
      (leniently_value hv)
  case zeptunProfile =>
    exact fun v hv => (hkey (w := setZeptunProfile o) (by simp [restoreSettings])).trans
      (leniently_value hv)
  case uiTheme =>
    intro v hv
    have hne : o.optString "uiTheme" ≠ "" := by
      intro he
      rw [he] at hv
      cases hv
    have ht := (htheme.trans setTheme_value).trans (if_neg hne)
    rw [show (run (restoreSettings lib o) s).1 .theme = _ from ht, GhajarThemeId.parse, hv]
    rfl
  case themeMode =>
    intro v hv he
    have ht := (htheme.trans setTheme_value).trans (if_pos he)
    rw [show (run (restoreSettings lib o) s).1 .theme = _ from ht, hv]
    rfl
  case lang =>
    exact fun v hv => (hkey (w := setLang o) (by simp [restoreSettings])).trans
      (leniently_value hv)
  case perAppMode =>
    intro v hv
    rw [hper, restoreList_mode, hmode, restoreMode_of hv]
  case perAppList =>
    intro arr harr
    rw [hper, restoreList_list harr]
  case perAppActive =>
    intro arr harr a ha hid hblank
    obtain ⟨objects, hobj⟩ := Option.isSome_iff_exists.1 (hread.profiles arr harr)
    rw [hper] at ha ⊢
    obtain ⟨a', ha', hid'⟩ := follows_mem restoreList_follows ha
    rw [restoreList_active]
    rw [hprofiles arr objects harr hobj] at ha' ⊢
    have hany : ((objects.filterMap PerApp.PerAppProfile.fromJson).take
        PerApp.PerAppProfile.MAX).any fun c => decide (c.id = a.id) :=
      List.any_eq_true.2 ⟨a', ha', decide_eq_true hid'⟩
    unfold PerApp.State.restoreProfiles
    rw [← hid]
    dsimp only
    rw [Option.filter_some, if_pos]
    rw [hblank, hany]
    rfl
  case perAppProfiles =>
    intro arr objects harr hobj
    rw [hper, restoreList_active]
    have hfol := restoreList_follows (q := q) (o := o)
    rw [hprofiles arr objects harr hobj] at hfol ⊢
    exact hfol
  case look =>
    intro a v ha hv
    refine (hkey (w := setLook lib o) (by simp [restoreSettings])).trans (leniently_value ?_)
    rw [ha, Option.bind_some, hv]

theorem readable_iff_completes :
    Readable lib o ↔ (run (restoreSettings lib o) s).2 = false := by
  rw [← readable_iff (s := s), ← Bool.not_eq_true, run_failed (settings_apart lib o)]
  push Not
  exact forall₂_congr fun w _ => (Bool.not_eq_true _).to_iff.symm

/-- Settings that are all read do not keep the backup from being put in place. -/
theorem inPlace_of_holds {s : Store Look} {t : Settings Look} {selected : Option String}
    (hsel : selected = if b.configs.isEmpty then (listsOf p b s).selectedId
      else Groups.chosen b.configs b.wanted)
    (ht : ∀ o, b.settings = some o → Holds lib o t) :
    InPlace lib p b s ⟨{ listsOf p b s with selectedId := selected }, t⟩ := by
  refine ⟨fun hany => ?_, fun c hc hid => ?_, ht⟩
  · have hne : ¬(b.configs.isEmpty = true ∧ b.subs.isEmpty = true) := by
      rw [List.isEmpty_iff, List.isEmpty_iff]
      exact fun h => hany.elim (fun hn => hn h.1) fun hn => hn h.2
    rw [listsOf, if_neg hne]
    exact ⟨rfl, rfl⟩
  · have hne : b.configs.isEmpty = false := by
      rw [List.isEmpty_eq_false_iff]
      exact List.ne_nil_of_mem hc
    have hw : b.configs.any (fun c => decide (c.id = b.wanted)) = true :=
      List.any_eq_true.2 ⟨c, hc, decide_eq_true hid⟩
    dsimp only
    rw [hsel, hne, if_neg Bool.false_ne_true, Groups.chosen, if_pos hw, hid]

theorem listsOf_eq_iff {s : Store Look} : listsOf p b s = s.lists ↔
    b.configs = [] ∧ b.subs = [] ∨ replaced p b s.lists = s.lists := by
  have he : b.configs.isEmpty = true ∧ b.subs.isEmpty = true ↔ b.configs = [] ∧ b.subs = [] := by
    rw [List.isEmpty_iff, List.isEmpty_iff]
  unfold listsOf
  split
  · exact iff_of_true rfl (.inl (he.1 ‹_›))
  · rw [or_iff_right (mt he.2 ‹_›)]

/-- **The exact condition**: everything that is read strictly has its type, or nothing has changed
by the time the first value of another type is met. -/
theorem all_or_nothing_iff (lib : Library Look) (p : Platform) (b : Backup) (s : Store Look) :
    AllOrNothing lib p b s ↔
      (∀ o, b.settings = some o → Readable lib o) ∨
        (b.configs = [] ∧ b.subs = [] ∨ replaced p b s.lists = s.lists) ∧
          ∀ o, b.settings = some o → ∀ w ∈ tried s.settings (restoreSettings lib o),
            w.value s.settings = s.settings w.key := by
  cases hset : b.settings with
  | none =>
    have hin : InPlace lib p b s (restoreBackup lib p b s).1 := by
      rw [restoreBackup, hset]
      exact inPlace_of_holds rfl fun o ho => by rw [hset] at ho; cases ho
    have hf : (restoreBackup lib p b s).2 = false := by
      rw [restoreBackup, hset]
      rfl
    rw [AllOrNothing, hf]
    exact iff_of_true hin (.inl fun o ho => by cases ho)
  | some o =>
    cases hr : (run (restoreSettings lib o) s.settings).2 with
    | false =>
      have hin : InPlace lib p b s (restoreBackup lib p b s).1 := by
        rw [restoreBackup, hset]
        dsimp only
        rw [hr]
        refine inPlace_of_holds rfl fun o' ho' => ?_
        obtain rfl := Option.some.inj (hset.symm.trans ho')
        exact holds_of_run hr
      have hf : (restoreBackup lib p b s).2 = false := by
        rw [restoreBackup, hset]
        dsimp only
        rw [hr]
        rfl
      rw [AllOrNothing, hf]
      refine iff_of_true hin (.inl fun o' ho' => ?_)
      obtain rfl := Option.some.inj ho'
      exact readable_iff_completes.2 hr
    | true =>
      have hb : restoreBackup lib p b s =
          (⟨listsOf p b s, (run (restoreSettings lib o) s.settings).1⟩, true) := by
        rw [restoreBackup, hset]
        dsimp only
        rw [hr]
        rfl
      have hun : ¬∀ o', some o = some o' → Readable lib o' := by
        intro h
        have hfalse := (readable_iff_completes (s := s.settings)).1 (h o rfl)
        rw [hr] at hfalse
        cases hfalse
      have hset' : (∀ o', some o = some o' → ∀ w ∈ tried s.settings (restoreSettings lib o'),
          w.value s.settings = s.settings w.key) ↔
          (run (restoreSettings lib o) s.settings).1 = s.settings := by
        rw [run_eq_self (settings_apart lib o)]
        exact ⟨fun h => h o rfl, fun h o' ho' => Option.some.inj ho' ▸ h⟩
      rw [AllOrNothing, hb, or_iff_right hun, hset', ← listsOf_eq_iff]
      cases s
      simp

end Restore

/-! ## A restore that stops halfway -/

/-- Settings as they are after an installation. -/
def installed : Settings Unit
  | .flag _ => false
  | .vpnShare => (false, 0)
  | .line _ => ""
  | .count c => c.coerce 0
  | .sniffTypes => ∅
  | .listDensity => .ONE
  | .zeptunDns => .FORWARD
  | .zeptunProfile => .BALANCED
  | .theme => (.SYSTEM, .PREMIUM_GREEN_DARK)
  | .lang => .FA
  | .perApp => {}
  | .look => ()

def server (id : String) : ProxyConfig :=
  { name := id, protocol := "vless", address := "192.0.2.1", port := 443, id := id }

def oneServer : Store Unit := ⟨⟨[server "a"], [], some "a"⟩, installed⟩

/-- Another server, and a flag that is no boolean. -/
def halfReadable : Backup := ⟨[server "b"], [], some [("fragment", .str "yes")]⟩

def noLook : Library Unit := ⟨fun _ => 0, fun _ => none, fun _ => none⟩

/-- The old server is gone, the new one is there, and what is selected is the old one. -/
theorem restore_stops :
    (restoreBackup noLook textPlatform halfReadable oneServer).2 = true ∧
      (restoreBackup noLook textPlatform halfReadable oneServer).1.lists.configs = [server "b"] ∧
      (restoreBackup noLook textPlatform halfReadable oneServer).1.lists.selectedId = some "a" ∧
      ¬AllOrNothing noLook textPlatform halfReadable oneServer := by
  have hthrows : (restoreBackup noLook textPlatform halfReadable oneServer).2 = true := by
    decide +kernel
  have hlists : (restoreBackup noLook textPlatform halfReadable oneServer).1.lists.configs =
      [server "b"] := by decide +kernel
  refine ⟨hthrows, hlists, by decide +kernel, fun h => ?_⟩
  rw [AllOrNothing, hthrows] at h
  have hsame : (restoreBackup noLook textPlatform halfReadable oneServer).1 = oneServer := h
  rw [hsame] at hlists
  exact absurd hlists (by decide)

end Ghajar.Restore
