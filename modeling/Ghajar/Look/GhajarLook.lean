import Ghajar.Lib.Binary
import Ghajar.Lib.Distinct
import Ghajar.Lib.Keyed
import Ghajar.Lib.Text

/-!
# The appearance of the application

`GhajarLook` with its two serialisations, the flat one (`toJson`) and the grouped one (`toExport`),
and what reads them (`fromAny`, `fromExport`, `fromJson`). `fromExport` puts the groups back under
the flat names and reads these. The objects are those of the platform's JSON library, which refuses
to be given a number that is not finite.
-/

namespace Ghajar.Look

open Binary

inductive Value where
  /-- `JSONObject.NULL` -/
  | null
  | bool (b : Bool)
  | int (n : Int)
  | long (n : Int)
  | double (d : Double)
  | str (s : String)
  | arr (items : List Value)
  | obj (fields : List (String × Value))

abbrev Fields := List (String × Value)

/-- The conversions of the JSON library: `String.valueOf` of what is no text, and those of
numbers. -/
structure Library where
  shown : Value → String
  parseDouble : String → Option Double
  doubleOfLong : Int → Double
  intOfDouble : Double → Int
  longOfDouble : Double → Int

namespace Fields

def put (o : Fields) (k : String) (v : Value) : Fields := Keyed.put Prod.fst o (k, v)

/-- `put` of a `Double`; none where it throws. -/
def putDouble (o : Fields) (k : String) (d : Double) : Option Fields :=
  if d.isFinite then some (put o k (.double d)) else none

def opt (o : Fields) (k : String) : Option Value := (Keyed.get Prod.fst o k).map Prod.snd

def has (o : Fields) (k : String) : Bool := (opt o k).isSome

def isNull (o : Fields) (k : String) : Bool :=
  match opt o k with
  | none | some .null => true
  | _ => false

/-- `keys()` -/
def keys (o : Fields) : List String := Distinct.distinctBy id (o.map Prod.fst)

def optJSONObject (o : Fields) (k : String) : Option Fields :=
  match opt o k with
  | some (.obj fields) => some fields
  | _ => none

def optJSONArray (o : Fields) (k : String) : Option (List Value) :=
  match opt o k with
  | some (.arr items) => some items
  | _ => none

/-- A boolean, also where it stands as text in any case. -/
def optBoolean (o : Fields) (k : String) (fallback : Bool) : Bool :=
  match opt o k with
  | some (.bool b) => b
  | some (.str t) =>
    if Text.equalsIgnoreCase t "true" then true
    else if Text.equalsIgnoreCase t "false" then false
    else fallback
  | _ => fallback

section

variable (L : Library)

def textOf : Value → String
  | .str s => s
  | v => L.shown v

def optString (o : Fields) (k : String) : String := (opt o k).elim "" (textOf L)

def optInt (o : Fields) (k : String) (fallback : Int) : Int :=
  match opt o k with
  | some (.int n) => n
  | some (.long n) => n.bmod (2 ^ 32)
  | some (.double d) => L.intOfDouble d
  | some (.str t) => (L.parseDouble t).elim fallback L.intOfDouble
  | _ => fallback

def optLong (o : Fields) (k : String) : Int :=
  match opt o k with
  | some (.int n) | some (.long n) => n
  | some (.double d) => L.longOfDouble d
  | some (.str t) => (L.parseDouble t).elim 0 L.longOfDouble
  | _ => 0

def optDouble (o : Fields) (k : String) (fallback : Double) : Double :=
  match opt o k with
  | some (.int n) | some (.long n) => L.doubleOfLong n
  | some (.double d) => d
  | some (.str t) => (L.parseDouble t).getD fallback
  | _ => fallback

end

end Fields

/-! ## What there is to choose from -/

def HomeParts : List String := ["orb", "session", "route", "quota", "traffic", "facts"]

def HomeCritical : List String := ["orb", "route"]

def StoreParts : List String :=
  ["logo", "title", "desc", "rating", "links", "report", "discounts", "services_count", "prices",
    "tick"]

def ServerFieldsAll : List String :=
  ["flag", "name", "country", "protocol", "core", "ping", "quality", "favorite", "last", "traffic",
    "test"]

def ServerFieldsDefault : List String := ["flag", "name", "protocol", "ping", "favorite", "test"]

def LookTransitions : List String :=
  ["default", "none", "fade", "slide_h", "slide_v", "scale", "axis_x", "axis_y", "axis_z",
    "fade_through"]

def LookNavStyles : List String := ["floating", "standard", "minimal", "filled", "outline"]

def LookOrbStyles : List String :=
  ["circle", "ring", "compact", "pill", "capsule_glow", "soft_square", "double_ring", "neon",
    "minimal", "segmented", "shield", "power"]

/-- The keys of `LookPreset`. -/
def lookPresets : List String :=
  ["default", "amoled", "emerald", "ocean", "purple", "rose", "sunset", "forest", "dynamic", "gold",
    "crimson", "cyber", "mono", "lavender", "minimal", "high_contrast"]

/-- The keys of `LookElement`. -/
def lookElements : List String :=
  ["tile_down_icon", "tile_down_bg", "tile_up_icon", "tile_up_bg", "connect", "disconnect",
    "config_card", "config_text", "server_card", "server_active", "nav_bg", "nav_indicator",
    "nav_icon_active", "nav_icon_inactive", "nav_label", "switch", "secondary_button", "title",
    "subtitle", "border", "dialog", "background", "surface", "card", "secondary_surface",
    "selected", "unselected", "icon", "success", "warning", "error", "premium", "badge"]

def speeds : List String := ["slow", "normal", "fast"]
def densities : List String := ["compact", "comfortable", "spacious"]
def sizes : List String := ["compact", "normal", "large"]
def settingsLayouts : List String := ["compact", "comfortable"]
def iconStyles : List String := ["tinted", "filled", "outline", "plain"]
def storeCardStyles : List String := ["card", "compact", "large"]
def storeButtonStyles : List String := ["filled", "outline", "tonal"]
def storeTabStyles : List String := ["pill", "underline", "boxed"]
def serverViews : List String := ["list", "compact", "grid", "large"]
def addServerStyles : List String := ["sections", "tabs", "compact"]
def navIndicators : List String := ["rounded", "filled", "outline", "dot"]

local instance exponents_ne_zero : NeZero (2 ^ 8) := ⟨(Nat.two_pow_pos 8).ne'⟩

local instance fractions_ne_zero : NeZero (2 ^ 23) := ⟨(Nat.two_pow_pos 23).ne'⟩

/-- `0.85f`, `1f` and `1.25f` -/
def scaleLow : Single := ⟨false, 126, 0x59999a⟩
def scaleOne : Single := ⟨false, 127, 0⟩
def scaleHigh : Single := ⟨false, 127, 0x200000⟩

/-- `1.0` -/
def doubleOne : Double := scaleOne.toDouble

/-- Sets and maps are lists in their order, each element or key once. -/
@[ext]
structure GhajarLook where
  preset : String := "default"
  accent : Option Int := none
  amoled : Bool := false
  dynamic : Bool := false
  colors : List (String × Int) := []
  transition : String := "default"
  speed : String := "normal"
  navStyle : String := "floating"
  navIconSize : Int := 23
  navLabels : Bool := true
  navRadius : Int := 28
  orbStyle : String := "circle"
  columns : Int := 1
  density : String := "comfortable"
  cardRadius : Int := 24
  elevation : Int := 0
  fontScale : Single := scaleOne
  boldTitles : Bool := true
  settingsOrder : List String := []
  settingsHidden : List String := []
  tileSize : String := "normal"
  settingsLayout : String := "comfortable"
  iconStyle : String := "tinted"
  gridGap : Int := 10
  homeOrder : List String := []
  homeHidden : List String := []
  homeSizes : List (String × String) := []
  storeCardStyle : String := "card"
  storeButtonStyle : String := "filled"
  storeTabStyle : String := "pill"
  storeShow : List String := StoreParts
  serverView : String := "list"
  serverFields : List String := ServerFieldsDefault
  addServerStyle : String := "sections"
  navIndicator : String := "rounded"
  navSpacing : Int := 0
  customPresets : List (String × String) := []

def Default : GhajarLook := {}

/-! ## Writing -/

def strArray (items : List String) : Value := .arr (items.map .str)

def strObject (m : List (String × String)) : Value := .obj (m.map fun e => (e.1, .str e.2))

def longObject (m : List (String × Int)) : Value := .obj (m.map fun e => (e.1, .long e.2))

open Fields in
/-- None where a `put` throws. -/
def toJson (l : GhajarLook) : Option Fields := do
  let o := put (put [] "v" (.int 1)) "preset" (.str l.preset)
  let o := l.accent.elim o fun a => put o "accent" (.long a)
  let o := put (put o "amoled" (.bool l.amoled)) "dynamic" (.bool l.dynamic)
  let o := put (put o "colors" (longObject l.colors)) "transition" (.str l.transition)
  let o := put (put o "speed" (.str l.speed)) "navStyle" (.str l.navStyle)
  let o := put (put o "navIconSize" (.int l.navIconSize)) "navLabels" (.bool l.navLabels)
  let o := put (put o "navRadius" (.int l.navRadius)) "orbStyle" (.str l.orbStyle)
  let o := put (put o "columns" (.int l.columns)) "density" (.str l.density)
  let o := put (put o "cardRadius" (.int l.cardRadius)) "elevation" (.int l.elevation)
  let o ← putDouble o "fontScale" l.fontScale.toDouble
  let o := put (put o "boldTitles" (.bool l.boldTitles)) "settingsOrder" (strArray l.settingsOrder)
  let o := put (put o "settingsHidden" (strArray l.settingsHidden)) "tileSize" (.str l.tileSize)
  let o := put (put o "settingsLayout" (.str l.settingsLayout)) "iconStyle" (.str l.iconStyle)
  let o := put (put o "gridGap" (.int l.gridGap)) "homeOrder" (strArray l.homeOrder)
  let o := put (put o "homeHidden" (strArray l.homeHidden)) "homeSizes" (strObject l.homeSizes)
  let o := put (put o "storeCardStyle" (.str l.storeCardStyle)) "storeButtonStyle"
    (.str l.storeButtonStyle)
  let o := put (put o "storeTabStyle" (.str l.storeTabStyle)) "storeShow" (strArray l.storeShow)
  let o := put (put o "serverView" (.str l.serverView)) "serverFields" (strArray l.serverFields)
  let o := put (put o "addServerStyle" (.str l.addServerStyle)) "navIndicator" (.str l.navIndicator)
  return put (put o "navSpacing" (.int l.navSpacing)) "customPresets" (strObject l.customPresets)

def SCHEMA_VERSION : Int := 2

/-- `flat.get(k)`; none where it throws. -/
def get (flat : Fields) (k : String) : Option Value := flat.opt k

open Fields in
def toExport (l : GhajarLook) (appVersion : String) : Option Fields := do
  let flat ← toJson l
  let theme := put (put [] "preset" (.str l.preset)) "accent" (l.accent.elim .null .long)
  let theme := put (put theme "amoled" (.bool l.amoled)) "dynamic" (.bool l.dynamic)
  let typography ← putDouble [] "fontScale" l.fontScale.toDouble
  let typography := put typography "boldTitles" (.bool l.boldTitles)
  let animations := put (put [] "transition" (.str l.transition)) "speed" (.str l.speed)
  let home := put (put [] "order" (← get flat "homeOrder")) "hidden" (← get flat "homeHidden")
  let home := put (put home "sizes" (← get flat "homeSizes")) "columns" (.int l.columns)
  let home := put home "density" (.str l.density)
  let store := put (put [] "cardStyle" (.str l.storeCardStyle)) "buttonStyle"
    (.str l.storeButtonStyle)
  let store := put (put store "tabStyle" (.str l.storeTabStyle)) "show" (← get flat "storeShow")
  let settings := put (put [] "order" (← get flat "settingsOrder")) "hidden"
    (← get flat "settingsHidden")
  let settings := put (put settings "tileSize" (.str l.tileSize)) "layout" (.str l.settingsLayout)
  let settings := put (put settings "iconStyle" (.str l.iconStyle)) "gridGap" (.int l.gridGap)
  let servers := put (put [] "view" (.str l.serverView)) "fields" (← get flat "serverFields")
  let navigation := put (put [] "style" (.str l.navStyle)) "iconSize" (.int l.navIconSize)
  let navigation := put (put navigation "labels" (.bool l.navLabels)) "radius" (.int l.navRadius)
  let navigation := put (put navigation "indicator" (.str l.navIndicator)) "spacing"
    (.int l.navSpacing)
  let e := put (put [] "schemaVersion" (.int SCHEMA_VERSION)) "appVersion" (.str appVersion)
  let e := put (put e "kind" (.str "ghajar-appearance")) "theme" (.obj theme)
  let e := put (put e "colors" (← get flat "colors")) "typography" (.obj typography)
  let e := put (put e "animations" (.obj animations)) "homeLayout" (.obj home)
  let e := put (put e "storeLayout" (.obj store)) "settingsLayout" (.obj settings)
  let e := put (put e "serverSelectorLayout" (.obj servers)) "addServerLayout"
    (.obj (put [] "style" (.str l.addServerStyle)))
  let e := put (put e "navigationStyle" (.obj navigation)) "connectionButtonStyle" (.str l.orbStyle)
  let components := put (put [] "cardRadius" (.int l.cardRadius)) "elevation" (.int l.elevation)
  return put (put e "componentPreferences" (.obj components)) "presets"
    (← get flat "customPresets")

/-! ## Reading -/

section Reading

variable (L : Library)

def pick (v : String) (allowed : List String) (default : String) : String :=
  if v ∈ allowed then v else default

/-- `coerceIn` -/
def coerceIn (n low high : Int) : Int := if n < low then low else if high < n then high else n

open Fields in
/-- `strings`: the texts of an array that are not blank. -/
def strings (o : Fields) (k : String) : List String :=
  (optJSONArray o k).elim [] fun a => (a.map (textOf L)).filter fun s => !s.blank

def toSet (items : List String) : List String := Distinct.distinctBy id items

def associateWith {β : Type} (f : String → β) (keys : List String) : List (String × β) :=
  keys.map fun k => (k, f k)

/-- How many UTF-16 code units the text has. -/
def lengthOf (s : String) : Nat := (s.toList.map fun c => if c.toNat < 0x10000 then 1 else 2).sum

open Fields in
def fromJson (o : Fields) : GhajarLook where
  preset := pick (optString L o "preset") lookPresets Default.preset
  accent := if has o "accent" then some (optLong L o "accent") else none
  amoled := optBoolean o "amoled" Default.amoled
  dynamic := optBoolean o "dynamic" Default.dynamic
  colors := (optJSONObject o "colors").elim [] fun c =>
    associateWith (optLong L c) ((keys c).filter (· ∈ lookElements))
  transition := pick (optString L o "transition") LookTransitions Default.transition
  speed := pick (optString L o "speed") speeds Default.speed
  navStyle := pick (optString L o "navStyle") LookNavStyles Default.navStyle
  navIconSize := coerceIn (optInt L o "navIconSize" Default.navIconSize) 18 30
  navLabels := optBoolean o "navLabels" Default.navLabels
  navRadius := coerceIn (optInt L o "navRadius" Default.navRadius) 0 40
  orbStyle := pick (optString L o "orbStyle") LookOrbStyles Default.orbStyle
  columns := coerceIn (optInt L o "columns" Default.columns) 1 2
  density := pick (optString L o "density") densities Default.density
  cardRadius := coerceIn (optInt L o "cardRadius" Default.cardRadius) 4 36
  elevation := coerceIn (optInt L o "elevation" Default.elevation) 0 12
  fontScale :=
    let f := (optDouble L o "fontScale" Default.fontScale.toDouble).toSingle
    (if f.isNaN then scaleOne else f).coerceIn scaleLow scaleHigh
  boldTitles := optBoolean o "boldTitles" Default.boldTitles
  settingsOrder := (strings L o "settingsOrder").take 64
  settingsHidden := toSet (strings L o "settingsHidden")
  tileSize := pick (optString L o "tileSize") sizes Default.tileSize
  settingsLayout := pick (optString L o "settingsLayout") settingsLayouts Default.settingsLayout
  iconStyle := pick (optString L o "iconStyle") iconStyles Default.iconStyle
  gridGap := coerceIn (optInt L o "gridGap" Default.gridGap) 4 20
  homeOrder := toSet ((strings L o "homeOrder").filter (· ∈ HomeParts))
  homeHidden :=
    toSet ((strings L o "homeHidden").filter fun s => s ∈ HomeParts ∧ s ∉ HomeCritical)
  homeSizes := (optJSONObject o "homeSizes").elim [] fun m =>
    associateWith (fun k => pick (optString L m k) sizes "normal")
      ((keys m).filter (· ∈ HomeParts))
  storeCardStyle := pick (optString L o "storeCardStyle") storeCardStyles Default.storeCardStyle
  storeButtonStyle :=
    pick (optString L o "storeButtonStyle") storeButtonStyles Default.storeButtonStyle
  storeTabStyle := pick (optString L o "storeTabStyle") storeTabStyles Default.storeTabStyle
  storeShow :=
    if has o "storeShow" then toSet ((strings L o "storeShow").filter (· ∈ StoreParts))
    else Default.storeShow
  serverView := pick (optString L o "serverView") serverViews Default.serverView
  serverFields :=
    if has o "serverFields" then
      toSet (toSet ((strings L o "serverFields").filter (· ∈ ServerFieldsAll)) ++ ["name"])
    else Default.serverFields
  addServerStyle := pick (optString L o "addServerStyle") addServerStyles Default.addServerStyle
  navIndicator := pick (optString L o "navIndicator") navIndicators Default.navIndicator
  navSpacing := coerceIn (optInt L o "navSpacing" Default.navSpacing) 0 16
  customPresets := (optJSONObject o "customPresets").elim [] fun m =>
    (associateWith (optString L m) ((keys m).take 20)).filter fun e =>
      !e.2.blank && lengthOf e.2 < 64000

/-! ### The groups of an export, each put under the flat names -/

open Fields

/-- `?.let` on a group of the export. -/
def ofGroup (e : Fields) (k : String) (f : Fields) (read : Fields → Fields → Fields) : Fields :=
  (optJSONObject e k).elim f (read f)

/-- `let { f.put(k, it) }` -/
def putSome (f : Fields) (k : String) (v : Option Value) : Fields := v.elim f (put f k)

def arrayOf (g : Fields) (k : String) : Option Value := (optJSONArray g k).map .arr

def objectOf (g : Fields) (k : String) : Option Value := (optJSONObject g k).map .obj

/-- `if (has(k))`, an integer. -/
def intOf (g : Fields) (k : String) : Option Value :=
  if has g k then some (.int (optInt L g k 0)) else none

def strOf (g : Fields) (k : String) : Value := .str (optString L g k)

def readTheme (f t : Fields) : Fields :=
  let f := put f "preset" (strOf L t "preset")
  let f := if has t "accent" && !isNull t "accent" then
    put f "accent" (.long (optLong L t "accent")) else f
  put (put f "amoled" (.bool (optBoolean t "amoled" false))) "dynamic"
    (.bool (optBoolean t "dynamic" false))

def readAnimations (f a : Fields) : Fields :=
  put (put f "transition" (strOf L a "transition")) "speed" (strOf L a "speed")

def readHome (f h : Fields) : Fields :=
  let f := putSome (putSome f "homeOrder" (arrayOf h "order")) "homeHidden" (arrayOf h "hidden")
  let f := putSome f "homeSizes" (objectOf h "sizes")
  let f := putSome f "columns" (intOf L h "columns")
  if has h "density" then put f "density" (strOf L h "density") else f

def readStore (f s : Fields) : Fields :=
  let f := put (put f "storeCardStyle" (strOf L s "cardStyle")) "storeButtonStyle"
    (strOf L s "buttonStyle")
  putSome (put f "storeTabStyle" (strOf L s "tabStyle")) "storeShow" (arrayOf s "show")

def readSettings (f s : Fields) : Fields :=
  let f := putSome (putSome f "settingsOrder" (arrayOf s "order")) "settingsHidden"
    (arrayOf s "hidden")
  let f := put (put f "tileSize" (strOf L s "tileSize")) "settingsLayout" (strOf L s "layout")
  putSome (put f "iconStyle" (strOf L s "iconStyle")) "gridGap" (intOf L s "gridGap")

def readServers (f s : Fields) : Fields :=
  putSome (put f "serverView" (strOf L s "view")) "serverFields" (arrayOf s "fields")

def readAddServer (f a : Fields) : Fields := put f "addServerStyle" (strOf L a "style")

def readNavigation (f n : Fields) : Fields :=
  let f := putSome (put f "navStyle" (strOf L n "style")) "navIconSize" (intOf L n "iconSize")
  let f := if has n "labels" then put f "navLabels" (.bool (optBoolean n "labels" false)) else f
  let f := putSome f "navRadius" (intOf L n "radius")
  putSome (put f "navIndicator" (strOf L n "indicator")) "navSpacing" (intOf L n "spacing")

def readComponents (f c : Fields) : Fields :=
  putSome (putSome f "cardRadius" (intOf L c "cardRadius")) "elevation" (intOf L c "elevation")

/-- The number that the export gives for the size of the text. -/
def scaleOf (t : Fields) : Double := optDouble L t "fontScale" doubleOne

def readTypography (f t : Fields) : Option Fields := do
  let f ← putDouble f "fontScale" (scaleOf L t)
  return put f "boldTitles" (.bool (optBoolean t "boldTitles" true))

/-- `fromExport`, the flat object. -/
def flatten (e : Fields) : Option Fields := do
  let f := ofGroup e "theme" [] (readTheme L)
  let f := putSome f "colors" (objectOf e "colors")
  let f ← (optJSONObject e "typography").elim (some f) (readTypography L f)
  let f := ofGroup e "animations" f (readAnimations L)
  let f := ofGroup e "homeLayout" f (readHome L)
  let f := ofGroup e "storeLayout" f (readStore L)
  let f := ofGroup e "settingsLayout" f (readSettings L)
  let f := ofGroup e "serverSelectorLayout" f (readServers L)
  let f := ofGroup e "addServerLayout" f (readAddServer L)
  let f := ofGroup e "navigationStyle" f (readNavigation L)
  let f := put f "orbStyle" (strOf L e "connectionButtonStyle")
  let f := ofGroup e "componentPreferences" f (readComponents L)
  return putSome f "customPresets" (objectOf e "presets")

def fromExport (e : Fields) : Option GhajarLook := (flatten L e).map (fromJson L)

/-- None where reading throws. -/
def fromAny (o : Fields) : Option GhajarLook :=
  if has o "schemaVersion" then fromExport L o else some (fromJson L o)

end Reading

end Ghajar.Look
