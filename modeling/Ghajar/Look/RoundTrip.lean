import Ghajar.Look.GhajarLook

/-!
# What is exported is read back

`Valid` is what `fromJson` makes of any object (`fromJson_valid`). `Holds f l` says what the flat
object `f` has under each name, whoever put it there; a valid look is read from it
(`fromJson_eq`). Both serialisations come to such an object.
-/

namespace Ghajar.Look

open Binary Fields

/-- Every field is in its set or range. -/
structure Valid (l : GhajarLook) : Prop where
  preset : l.preset ∈ lookPresets
  colors : (l.colors.map Prod.fst).Nodup ∧ ∀ e ∈ l.colors, e.1 ∈ lookElements
  transition : l.transition ∈ LookTransitions
  speed : l.speed ∈ speeds
  navStyle : l.navStyle ∈ LookNavStyles
  navIconSize : 18 ≤ l.navIconSize ∧ l.navIconSize ≤ 30
  navRadius : 0 ≤ l.navRadius ∧ l.navRadius ≤ 40
  orbStyle : l.orbStyle ∈ LookOrbStyles
  columns : 1 ≤ l.columns ∧ l.columns ≤ 2
  density : l.density ∈ densities
  cardRadius : 4 ≤ l.cardRadius ∧ l.cardRadius ≤ 36
  elevation : 0 ≤ l.elevation ∧ l.elevation ≤ 12
  fontScale : l.fontScale.Within scaleLow scaleHigh
  settingsOrder : l.settingsOrder.length ≤ 64 ∧ ∀ s ∈ l.settingsOrder, s.blank = false
  settingsHidden : l.settingsHidden.Nodup ∧ ∀ s ∈ l.settingsHidden, s.blank = false
  tileSize : l.tileSize ∈ sizes
  settingsLayout : l.settingsLayout ∈ settingsLayouts
  iconStyle : l.iconStyle ∈ iconStyles
  gridGap : 4 ≤ l.gridGap ∧ l.gridGap ≤ 20
  homeOrder : l.homeOrder.Nodup ∧ ∀ s ∈ l.homeOrder, s ∈ HomeParts
  homeHidden : l.homeHidden.Nodup ∧ ∀ s ∈ l.homeHidden, s ∈ HomeParts ∧ s ∉ HomeCritical
  homeSizes : (l.homeSizes.map Prod.fst).Nodup ∧
    ∀ e ∈ l.homeSizes, e.1 ∈ HomeParts ∧ e.2 ∈ sizes
  storeCardStyle : l.storeCardStyle ∈ storeCardStyles
  storeButtonStyle : l.storeButtonStyle ∈ storeButtonStyles
  storeTabStyle : l.storeTabStyle ∈ storeTabStyles
  storeShow : l.storeShow.Nodup ∧ ∀ s ∈ l.storeShow, s ∈ StoreParts
  serverView : l.serverView ∈ serverViews
  serverFields : l.serverFields.Nodup ∧ (∀ s ∈ l.serverFields, s ∈ ServerFieldsAll) ∧
    "name" ∈ l.serverFields
  addServerStyle : l.addServerStyle ∈ addServerStyles
  navIndicator : l.navIndicator ∈ navIndicators
  navSpacing : 0 ≤ l.navSpacing ∧ l.navSpacing ≤ 16
  customPresets : (l.customPresets.map Prod.fst).Nodup ∧ l.customPresets.length ≤ 20 ∧
    ∀ e ∈ l.customPresets, e.2.blank = false ∧ lengthOf e.2 < 64000

/-! ## What is read is valid -/

section Reads

variable {L : Library} {o : Fields} {k v d : String} {allowed items : List String} {n low high : Int}

theorem pick_mem (hd : d ∈ allowed) : pick v allowed d ∈ allowed := by
  unfold pick
  split
  · assumption
  · exact hd

theorem coerceIn_range (h : low ≤ high) :
    low ≤ coerceIn n low high ∧ coerceIn n low high ≤ high := by
  unfold coerceIn
  split_ifs <;> omega

theorem toSet_nodup : (toSet items).Nodup := by
  have h := @Distinct.distinctBy_nodup _ _ _ id items
  rwa [List.map_id] at h

theorem mem_toSet {s : String} : s ∈ toSet items ↔ s ∈ items := by
  rw [toSet, Distinct.mem_distinctBy]
  constructor
  · exact Distinct.First.mem
  · intro h
    obtain ⟨t, ht, he⟩ := @Distinct.exists_first _ _ _ id _ _ h
    obtain rfl : t = s := he
    exact ht

theorem strings_not_blank : ∀ s ∈ strings L o k, s.blank = false := by
  intro s hs
  unfold strings at hs
  cases h : optJSONArray o k with
  | none =>
    rw [h] at hs
    cases hs
  | some a =>
    rw [h] at hs
    simpa using (List.mem_filter.1 hs).2

theorem keys_nodup (o : Fields) : (keys o).Nodup := by
  have h := @Distinct.distinctBy_nodup _ _ _ id (o.map Prod.fst)
  rwa [List.map_id] at h

theorem associateWith_keys {β : Type} (f : String → β) (ks : List String) :
    (associateWith f ks).map Prod.fst = ks := by
  rw [associateWith, List.map_map]
  exact List.map_id ks

theorem fontScale_within (f : Single) :
    ((if f.isNaN then scaleOne else f).coerceIn scaleLow scaleHigh).Within scaleLow scaleHigh := by
  refine coerceIn_within ?_ (by decide) (by decide) (by decide)
  cases h : f.isNaN with
  | true =>
    rw [if_pos rfl]
    decide
  | false => simpa using h

/-- Whatever the object is, the look that is read from it is valid. -/
theorem fromJson_valid (L : Library) (o : Fields) : Valid (fromJson L o) where
  preset := pick_mem (by decide)
  colors := by
    simp only [fromJson]
    cases optJSONObject o "colors" with
    | none => exact ⟨List.nodup_nil, by simp⟩
    | some c =>
      rw [Option.elim_some, associateWith_keys]
      refine ⟨(keys_nodup c).filter _, fun e he => ?_⟩
      obtain ⟨k, hk, rfl⟩ := List.mem_map.1 he
      simpa using (List.mem_filter.1 hk).2
  transition := pick_mem (by decide)
  speed := pick_mem (by decide)
  navStyle := pick_mem (by decide)
  navIconSize := coerceIn_range (by decide)
  navRadius := coerceIn_range (by decide)
  orbStyle := pick_mem (by decide)
  columns := coerceIn_range (by decide)
  density := pick_mem (by decide)
  cardRadius := coerceIn_range (by decide)
  elevation := coerceIn_range (by decide)
  fontScale := fontScale_within _
  settingsOrder := 
    ⟨List.length_take_le 64 _, fun s hs => strings_not_blank s (List.mem_of_mem_take hs)⟩
  settingsHidden := ⟨toSet_nodup, fun s hs => strings_not_blank s (mem_toSet.1 hs)⟩
  tileSize := pick_mem (by decide)
  settingsLayout := pick_mem (by decide)
  iconStyle := pick_mem (by decide)
  gridGap := coerceIn_range (by decide)
  homeOrder := ⟨toSet_nodup, fun s hs => by simpa using (List.mem_filter.1 (mem_toSet.1 hs)).2⟩
  homeHidden := ⟨toSet_nodup, fun s hs => by simpa using (List.mem_filter.1 (mem_toSet.1 hs)).2⟩
  homeSizes := by
    simp only [fromJson]
    cases optJSONObject o "homeSizes" with
    | none => exact ⟨List.nodup_nil, by simp⟩
    | some m =>
      rw [Option.elim_some, associateWith_keys]
      refine ⟨(keys_nodup m).filter _, fun e he => ?_⟩
      obtain ⟨k, hk, rfl⟩ := List.mem_map.1 he
      exact ⟨by simpa using (List.mem_filter.1 hk).2, pick_mem (by decide)⟩
  storeCardStyle := pick_mem (by decide)
  storeButtonStyle := pick_mem (by decide)
  storeTabStyle := pick_mem (by decide)
  storeShow := by
    simp only [fromJson]
    split
    · exact ⟨toSet_nodup, fun s hs => by simpa using (List.mem_filter.1 (mem_toSet.1 hs)).2⟩
    · decide
  serverView := pick_mem (by decide)
  serverFields := by
    simp only [fromJson]
    split
    · refine ⟨toSet_nodup, fun s hs => ?_, mem_toSet.2 (by simp)⟩
      rcases List.mem_append.1 (mem_toSet.1 hs) with hs | hs
      · simpa using (List.mem_filter.1 (mem_toSet.1 hs)).2
      · rw [List.mem_singleton.1 hs]
        decide
    · decide
  addServerStyle := pick_mem (by decide)
  navIndicator := pick_mem (by decide)
  navSpacing := coerceIn_range (by decide)
  customPresets := by
    simp only [fromJson]
    cases optJSONObject o "customPresets" with
    | none => exact ⟨List.nodup_nil, by simp, by simp⟩
    | some m =>
      rw [Option.elim_some]
      refine ⟨?_, ?_, fun e he => ?_⟩
      · refine List.Nodup.sublist (List.filter_sublist.map Prod.fst) ?_
        rw [associateWith_keys]
        exact (keys_nodup m).sublist (List.take_sublist 20 _)
      · refine (List.length_filter_le _ _).trans ?_
        rw [associateWith, List.length_map]
        exact List.length_take_le 20 _
      · simpa using (List.mem_filter.1 he).2

end Reads

/-! ## A flat object that holds a look -/

/-- What stands under each name. -/
structure Holds (f : Fields) (l : GhajarLook) : Prop where
  preset : opt f "preset" = some (.str l.preset)
  accent : opt f "accent" = l.accent.map .long
  amoled : opt f "amoled" = some (.bool l.amoled)
  dynamic : opt f "dynamic" = some (.bool l.dynamic)
  colors : opt f "colors" = some (longObject l.colors)
  transition : opt f "transition" = some (.str l.transition)
  speed : opt f "speed" = some (.str l.speed)
  navStyle : opt f "navStyle" = some (.str l.navStyle)
  navIconSize : opt f "navIconSize" = some (.int l.navIconSize)
  navLabels : opt f "navLabels" = some (.bool l.navLabels)
  navRadius : opt f "navRadius" = some (.int l.navRadius)
  orbStyle : opt f "orbStyle" = some (.str l.orbStyle)
  columns : opt f "columns" = some (.int l.columns)
  density : opt f "density" = some (.str l.density)
  cardRadius : opt f "cardRadius" = some (.int l.cardRadius)
  elevation : opt f "elevation" = some (.int l.elevation)
  fontScale : opt f "fontScale" = some (.double l.fontScale.toDouble)
  boldTitles : opt f "boldTitles" = some (.bool l.boldTitles)
  settingsOrder : opt f "settingsOrder" = some (strArray l.settingsOrder)
  settingsHidden : opt f "settingsHidden" = some (strArray l.settingsHidden)
  tileSize : opt f "tileSize" = some (.str l.tileSize)
  settingsLayout : opt f "settingsLayout" = some (.str l.settingsLayout)
  iconStyle : opt f "iconStyle" = some (.str l.iconStyle)
  gridGap : opt f "gridGap" = some (.int l.gridGap)
  homeOrder : opt f "homeOrder" = some (strArray l.homeOrder)
  homeHidden : opt f "homeHidden" = some (strArray l.homeHidden)
  homeSizes : opt f "homeSizes" = some (strObject l.homeSizes)
  storeCardStyle : opt f "storeCardStyle" = some (.str l.storeCardStyle)
  storeButtonStyle : opt f "storeButtonStyle" = some (.str l.storeButtonStyle)
  storeTabStyle : opt f "storeTabStyle" = some (.str l.storeTabStyle)
  storeShow : opt f "storeShow" = some (strArray l.storeShow)
  serverView : opt f "serverView" = some (.str l.serverView)
  serverFields : opt f "serverFields" = some (strArray l.serverFields)
  addServerStyle : opt f "addServerStyle" = some (.str l.addServerStyle)
  navIndicator : opt f "navIndicator" = some (.str l.navIndicator)
  navSpacing : opt f "navSpacing" = some (.int l.navSpacing)
  customPresets : opt f "customPresets" = some (strObject l.customPresets)

section ReadBack

variable {L : Library} {f o : Fields} {l : GhajarLook} {k v d : String}
  {allowed items : List String} {n low high : Int} {b fallback : Bool}

theorem pick_read (h : opt f k = some (.str v)) (hv : v ∈ allowed) :
    pick (optString L f k) allowed d = v := by
  have hs : optString L f k = v := by
    rw [optString, h]
    rfl
  rw [hs, pick, if_pos hv]

theorem coerceIn_read (h : opt f k = some (.int n)) (hn : low ≤ n ∧ n ≤ high) {m : Int} :
    coerceIn (optInt L f k m) low high = n := by
  have hi : optInt L f k m = n := by rw [optInt, h]
  rw [hi, coerceIn, if_neg (by omega), if_neg (by omega)]

theorem boolean_read (h : opt f k = some (.bool b)) : optBoolean f k fallback = b := by
  rw [optBoolean, h]

theorem strings_read (h : opt f k = some (strArray items)) (hi : ∀ s ∈ items, s.blank = false) :
    strings L f k = items := by
  have ha : optJSONArray f k = some (items.map .str) := by
    rw [optJSONArray, h]
    rfl
  have hmap : (items.map Value.str).map (textOf L) = items := by
    rw [List.map_map]
    exact List.map_id items
  rw [strings, ha, Option.elim_some, hmap]
  exact List.filter_eq_self.2 fun s hs => by simp [hi s hs]

theorem has_read {v : Value} (h : opt f k = some v) : has f k = true := by
  rw [has, h]
  rfl

theorem toSet_self (h : items.Nodup) : toSet items = items :=
  Distinct.distinctBy_of_nodup (by rwa [List.map_id])

/-- A set of texts that are not blank and have `q`. -/
theorem set_read {q : String → Bool} (h : opt f k = some (strArray items)) (hn : items.Nodup)
    (hi : ∀ s ∈ items, s.blank = false) (hq : ∀ s ∈ items, q s = true) :
    toSet ((strings L f k).filter q) = items := by
  rw [strings_read h hi, List.filter_eq_self.2 hq, toSet_self hn]

theorem keys_map {β : Type} {m : List (String × β)} {g : β → Value} (hn : (m.map Prod.fst).Nodup) :
    keys (m.map fun e => (e.1, g e.2)) = m.map Prod.fst := by
  have hfst : (m.map fun e => (e.1, g e.2)).map Prod.fst = m.map Prod.fst := by
    rw [List.map_map]
    rfl
  rw [keys, hfst]
  exact toSet_self hn

theorem opt_map {β : Type} {m : List (String × β)} {g : β → Value} (hn : (m.map Prod.fst).Nodup)
    {e : String × β} (he : e ∈ m) : opt (m.map fun e => (e.1, g e.2)) e.1 = some (g e.2) := by
  have hfst : ((m.map fun e => (e.1, g e.2)).map Prod.fst).Nodup := by
    rw [List.map_map]
    exact hn
  have hget := @Keyed.get_of_mem _ _ _ Prod.fst _ _ hfst
    (List.mem_map_of_mem (f := fun e : String × β => (e.1, g e.2)) he)
  rw [opt]
  change Option.map Prod.snd (Keyed.get Prod.fst _ ((fun e : String × β => (e.1, g e.2)) e).1) = _
  rw [hget]
  rfl

/-- A map whose values are read back as they are. -/
theorem map_read {β : Type} {m : List (String × β)} {g : β → Value} {r : Fields → String → β}
    (hn : (m.map Prod.fst).Nodup)
    (hr : ∀ (o : Fields) (e : String × β), e ∈ m → opt o e.1 = some (g e.2) → r o e.1 = e.2) :
    associateWith (r (m.map fun e => (e.1, g e.2))) (m.map Prod.fst) = m := by
  rw [associateWith, List.map_map]
  refine (List.map_congr_left fun e he => ?_).trans (List.map_id m)
  exact Prod.ext rfl (hr _ e he (opt_map hn he))

theorem fontScale_read (h : l.fontScale.Within scaleLow scaleHigh) :
    l.fontScale.toDouble.toSingle = l.fontScale ∧ l.fontScale.toDouble.isFinite = true := by
  have hkey := h.above
  have hkey' := h.below
  generalize l.fontScale = s at h hkey hkey' ⊢
  have hlow : scaleLow.key = 126 * 2 ^ 23 + 0x59999a := by decide
  have hhigh : scaleHigh.key = 127 * 2 ^ 23 + 0x200000 := by decide
  rw [hlow] at hkey
  rw [hhigh] at hkey'
  obtain ⟨neg, exp, frac⟩ := s
  have hexp := exp.isLt
  have hfrac := frac.isLt
  simp only [Single.key] at hkey hkey'
  have hbounds : exp.val = 126 ∨ exp.val = 127 := by
    cases neg <;> simp only [if_true, if_false, Bool.false_eq_true] at hkey hkey' <;> omega
  have h0 : exp ≠ 0 := by
    rintro rfl
    simp at hbounds
  have h255 : exp ≠ 255 := by
    rintro rfl
    have : ((255 : Fin (2 ^ 8)) : ℕ) = 255 := rfl
    omega
  exact ⟨toSingle_toDouble h0 h255, isFinite_toDouble h0 h255⟩

theorem homeParts_not_blank : ∀ s ∈ HomeParts, s.blank = false := by decide

theorem storeParts_not_blank : ∀ s ∈ StoreParts, s.blank = false := by decide

theorem serverFields_not_blank : ∀ s ∈ ServerFieldsAll, s.blank = false := by decide

/-- What a set has already is not added. -/
theorem toSet_append (hn : items.Nodup) (hv : v ∈ items) : toSet (items ++ [v]) = items := by
  rw [toSet, Distinct.distinctBy_append (by simpa using hv)]
  exact toSet_self hn

/-- A valid look is read from what holds it. -/
theorem fromJson_eq (v : Valid l) (h : Holds f l) : fromJson L f = l := by
  apply GhajarLook.ext
  case preset => exact pick_read h.preset v.preset
  case accent =>
    simp only [fromJson, has, optLong, h.accent]
    cases l.accent <;> rfl
  case amoled => exact boolean_read h.amoled
  case dynamic => exact boolean_read h.dynamic
  case colors =>
    have hobj : optJSONObject f "colors" = some (l.colors.map fun e => (e.1, .long e.2)) := by
      rw [optJSONObject, h.colors]
      rfl
    simp only [fromJson, hobj, Option.elim_some]
    rw [keys_map v.colors.1, List.filter_eq_self.2 fun k hk => by
      obtain ⟨e, he, rfl⟩ := List.mem_map.1 hk
      exact decide_eq_true (v.colors.2 e he)]
    refine map_read (r := optLong L) v.colors.1 fun o e _ ho => ?_
    rw [optLong, ho]
  case transition => exact pick_read h.transition v.transition
  case speed => exact pick_read h.speed v.speed
  case navStyle => exact pick_read h.navStyle v.navStyle
  case navIconSize => exact coerceIn_read h.navIconSize v.navIconSize
  case navLabels => exact boolean_read h.navLabels
  case navRadius => exact coerceIn_read h.navRadius v.navRadius
  case orbStyle => exact pick_read h.orbStyle v.orbStyle
  case columns => exact coerceIn_read h.columns v.columns
  case density => exact pick_read h.density v.density
  case cardRadius => exact coerceIn_read h.cardRadius v.cardRadius
  case elevation => exact coerceIn_read h.elevation v.elevation
  case fontScale =>
    have hd : optDouble L f "fontScale" Default.fontScale.toDouble = l.fontScale.toDouble := by
      rw [optDouble, h.fontScale]
    have hr := fontScale_read v.fontScale
    simp only [fromJson, hd, hr.1, v.fontScale.number, Bool.false_eq_true, if_false]
    exact coerceIn_of_within v.fontScale
  case boldTitles => exact boolean_read h.boldTitles
  case settingsOrder =>
    simp only [fromJson, strings_read h.settingsOrder v.settingsOrder.2]
    exact List.take_of_length_le v.settingsOrder.1
  case settingsHidden =>
    simp only [fromJson, strings_read h.settingsHidden v.settingsHidden.2]
    exact toSet_self v.settingsHidden.1
  case tileSize => exact pick_read h.tileSize v.tileSize
  case settingsLayout => exact pick_read h.settingsLayout v.settingsLayout
  case iconStyle => exact pick_read h.iconStyle v.iconStyle
  case gridGap => exact coerceIn_read h.gridGap v.gridGap
  case homeOrder =>
    exact set_read h.homeOrder v.homeOrder.1 (fun s hs => homeParts_not_blank s (v.homeOrder.2 s hs))
      fun s hs => decide_eq_true (v.homeOrder.2 s hs)
  case homeHidden =>
    exact set_read h.homeHidden v.homeHidden.1
      (fun s hs => homeParts_not_blank s (v.homeHidden.2 s hs).1)
      fun s hs => decide_eq_true (v.homeHidden.2 s hs)
  case homeSizes =>
    have hobj : optJSONObject f "homeSizes" = some (l.homeSizes.map fun e => (e.1, .str e.2)) := by
      rw [optJSONObject, h.homeSizes]
      rfl
    simp only [fromJson, hobj, Option.elim_some]
    rw [keys_map v.homeSizes.1, List.filter_eq_self.2 fun k hk => by
      obtain ⟨e, he, rfl⟩ := List.mem_map.1 hk
      exact decide_eq_true (v.homeSizes.2 e he).1]
    exact map_read (r := fun o k => pick (optString L o k) sizes "normal") v.homeSizes.1
      fun o e he ho => pick_read ho (v.homeSizes.2 e he).2
  case storeCardStyle => exact pick_read h.storeCardStyle v.storeCardStyle
  case storeButtonStyle => exact pick_read h.storeButtonStyle v.storeButtonStyle
  case storeTabStyle => exact pick_read h.storeTabStyle v.storeTabStyle
  case storeShow =>
    simp only [fromJson, has_read h.storeShow, if_true]
    exact set_read h.storeShow v.storeShow.1
      (fun s hs => storeParts_not_blank s (v.storeShow.2 s hs))
      fun s hs => decide_eq_true (v.storeShow.2 s hs)
  case serverView => exact pick_read h.serverView v.serverView
  case serverFields =>
    simp only [fromJson, has_read h.serverFields, if_true]
    rw [set_read h.serverFields v.serverFields.1
      (fun s hs => serverFields_not_blank s (v.serverFields.2.1 s hs))
      fun s hs => decide_eq_true (v.serverFields.2.1 s hs)]
    exact toSet_append v.serverFields.1 v.serverFields.2.2
  case addServerStyle => exact pick_read h.addServerStyle v.addServerStyle
  case navIndicator => exact pick_read h.navIndicator v.navIndicator
  case navSpacing => exact coerceIn_read h.navSpacing v.navSpacing
  case customPresets =>
    have hobj : optJSONObject f "customPresets" =
        some (l.customPresets.map fun e => (e.1, .str e.2)) := by
      rw [optJSONObject, h.customPresets]
      rfl
    simp only [fromJson, hobj, Option.elim_some]
    rw [keys_map v.customPresets.1,
      List.take_of_length_le (by rw [List.length_map]; exact v.customPresets.2.1)]
    rw [map_read (r := optString L) v.customPresets.1 fun o e _ ho => by
      rw [optString, ho]
      rfl]
    exact List.filter_eq_self.2 fun e he => by
      have := v.customPresets.2.2 e he
      simp [this.1, this.2]

end ReadBack

/-! ## Both serialisations hold the look -/

section Written

variable {L : Library} {f o : Fields} {l : GhajarLook} {k k' : String} {v : Value}

theorem opt_put : opt (put o k v) k' = if k = k' then some v else opt o k' := by
  unfold opt put
  by_cases h : k = k'
  · subst h
    rw [if_pos rfl]
    have hget : Keyed.get Prod.fst (Keyed.put Prod.fst o (k, v)) k = some (k, v) :=
      Keyed.get_put_self
    rw [hget]
    rfl
  · have hget : Keyed.get Prod.fst (Keyed.put Prod.fst o (k, v)) k' = Keyed.get Prod.fst o k' :=
      Keyed.get_put_ne (Ne.symm h)
    rw [if_neg h, hget]

theorem opt_nil : opt [] k = none := rfl

/-- `toJson` gives an object that holds the look and is not taken for an export. -/
theorem toJson_holds (v : Valid l) :
    ∃ o, toJson l = some o ∧ Holds o l ∧ opt o "schemaVersion" = none := by
  have hfin := (fontScale_read v.fontScale).2
  refine ⟨_, by
    simp only [toJson, putDouble, hfin, if_true]
    rfl, ?_, ?_⟩
  · constructor <;> (cases l.accent <;>
      simp only [opt_put, opt_nil, Option.elim, String.reduceEq, if_true, if_false, Option.map])
  · cases l.accent <;>
      simp only [opt_put, opt_nil, Option.elim, String.reduceEq, if_false]

theorem toExport_holds (L : Library) (v : Valid l) (version : String) :
    ∃ e, toExport l version = some e ∧ has e "schemaVersion" = true ∧
      ∃ f, flatten L e = some f ∧ Holds f l := by
  obtain ⟨flat, hflat, h, -⟩ := toJson_holds v
  have hfin := (fontScale_read v.fontScale).2
  refine ⟨_, by
    simp only [toExport, hflat, putDouble, hfin, if_true, get, Option.bind_eq_bind,
      Option.bind_some, h.homeOrder, h.homeHidden, h.homeSizes, h.storeShow, h.settingsOrder,
      h.settingsHidden, h.serverFields, h.colors, h.customPresets]
    rfl, ?_, ?_⟩
  · simp only [has, opt_put, String.reduceEq, if_true, if_false]
    rfl
  · cases ha : l.accent <;> refine ⟨_, by
      simp only [flatten, ofGroup, putSome, arrayOf, objectOf, intOf, strOf, readTheme,
        readAnimations, readHome, readStore, readSettings, readServers, readAddServer,
        readNavigation, readComponents, scaleOf, readTypography, optJSONObject, optJSONArray, has,
        isNull, optString, textOf, optInt, optLong, optBoolean, optDouble, putDouble, opt_put,
        opt_nil, String.reduceEq, if_true, if_false, Option.elim, Option.map, hfin, strArray,
        strObject, longObject, Option.isSome_some, Option.bind_eq_bind, Option.bind_some,
        Bool.not_true, Bool.not_false, Bool.and_true, Bool.and_false, Bool.false_eq_true]
      rfl, ?_⟩
    all_goals
      constructor <;> simp only [opt_put, opt_nil, String.reduceEq, if_true, if_false, ha,
        Option.map, strArray, strObject, longObject]

end Written

/-! ## Exports that cannot be read -/

section Throws

variable {L : Library} {o f : Fields}

/-- The size of the text in an export is not a finite number. -/
def BadScale (L : Library) (o : Fields) : Prop :=
  has o "schemaVersion" = true ∧
    ∃ t, optJSONObject o "typography" = some t ∧ (scaleOf L t).isFinite = false

theorem readTypography_eq_none {t : Fields} :
    readTypography L f t = none ↔ (scaleOf L t).isFinite = false := by
  rw [readTypography, putDouble]
  cases (scaleOf L t).isFinite <;> simp

theorem flatten_eq_none :
    flatten L o = none ↔
      ∃ t, optJSONObject o "typography" = some t ∧ (scaleOf L t).isFinite = false := by
  simp only [flatten, Option.bind_eq_bind, Option.bind_eq_none_iff, reduceCtorEq, imp_false]
  cases optJSONObject o "typography" with
  | none => simp
  | some t =>
    simp only [Option.elim_some, ← Option.eq_none_iff_forall_ne_some, Option.some.injEq,
      exists_eq_left']
    exact readTypography_eq_none

theorem fromAny_eq_none : fromAny L o = none ↔ BadScale L o := by
  rw [fromAny, BadScale]
  cases has o "schemaVersion" with
  | false => simp
  | true => simp [fromExport, flatten_eq_none]

theorem fromAny_valid {l : GhajarLook} (h : fromAny L o = some l) : Valid l := by
  unfold fromAny at h
  split at h
  · obtain ⟨f, -, rfl⟩ := Option.map_eq_some_iff.1 h
    exact fromJson_valid L f
  · cases h
    exact fromJson_valid L o

end Throws

/-- **What is exported is read back, and what can be read.** The look that any object is read as
comes back from its flat form and, for every version of the application, from its export. Reading
an object gives a look, with every field in its set or range, unless the object is an export whose
size of the text is not a finite number. -/
theorem look_read_back (L : Library) :
    (∀ o, (∃ j, toJson (fromJson L o) = some j ∧ fromAny L j = some (fromJson L o)) ∧
      ∀ version, ∃ e, toExport (fromJson L o) version = some e ∧
        fromAny L e = some (fromJson L o)) ∧
    ∀ o, (∃ l, fromAny L o = some l ∧ Valid l) ↔ ¬BadScale L o := by
  refine ⟨fun o => ⟨?_, fun version => ?_⟩, fun o => ?_⟩
  · obtain ⟨j, hj, hholds, hflat⟩ := toJson_holds (fromJson_valid L o)
    refine ⟨j, hj, ?_⟩
    rw [fromAny, has, hflat]
    exact congrArg some (fromJson_eq (fromJson_valid L o) hholds)
  · obtain ⟨e, he, hversion, f, hf, hholds⟩ := toExport_holds L (fromJson_valid L o) version
    refine ⟨e, he, ?_⟩
    rw [fromAny, if_pos hversion, fromExport, hf]
    exact congrArg some (fromJson_eq (fromJson_valid L o) hholds)
  · rw [← fromAny_eq_none, ← ne_eq, Option.ne_none_iff_exists']
    exact ⟨fun ⟨l, hl, _⟩ => ⟨l, hl⟩, fun ⟨l, hl⟩ => ⟨l, hl, fromAny_valid hl⟩⟩

/-! ## A size that is not a number -/

local instance wide_exponents_ne_zero : NeZero (2 ^ 11) := ⟨(Nat.two_pow_pos 11).ne'⟩

local instance wide_fractions_ne_zero : NeZero (2 ^ 52) := ⟨(Nat.two_pow_pos 52).ne'⟩

def notANumber : Double := ⟨false, 2047, 1⟩

/-- A library that reads one text as a number. -/
def someLibrary : Library where
  shown _ := ""
  parseDouble s := if s = "NaN" then some notANumber else none
  doubleOfLong _ := doubleOne
  intOfDouble _ := 0
  longOfDouble _ := 0

/-- An export whose size of the text is given as the text `NaN`. -/
def nanExport : Fields :=
  [("schemaVersion", .int 2), ("typography", .obj [("fontScale", .str "NaN")])]

theorem nan_thrown : ¬∀ (L : Library) (o : Fields), ∃ l, fromAny L o = some l ∧ Valid l := by
  intro h
  obtain ⟨l, hl, -⟩ := h someLibrary nanExport
  have hnone : fromAny someLibrary nanExport = none :=
    fromAny_eq_none.2 ⟨rfl, [("fontScale", .str "NaN")], rfl, rfl⟩
  rw [hnone] at hl
  cases hl

end Ghajar.Look
