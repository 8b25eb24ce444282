import Mathlib
import Ghajar.Config.Codec
import Ghajar.Lib.Distinct

/-!
# The free feed

`FreeFeedRules.reconcile` puts the servers that answered before those of the last round that were
not asked. What a server is goes by `signature`, the text of its fields less a few names.
`favorite` is not among these: a server that the user marks is another one.
-/

namespace Ghajar.FreeFeedRules

open Ghajar Distinct

def ignored : List String := ["id", "name", "subId", "source", "locked"]

/-- The fields that count. -/
def strip (o : JSONObject) : JSONObject := o.filter fun e => e.1 ∉ ignored

def signature (c : ProxyConfig) : String :=
  "|".intercalate (((strip c.toJson).insertionSort fun a b => a.1 ≤ b.1).map
    fun e => e.1 ++ "=" ++ e.2.asString)

def MAX_MANAGED_CONFIGS : Int := 35

def retained (previous : List ProxyConfig) (tested : List String) (complete : Bool) :
    List ProxyConfig :=
  if complete then [] else previous.filter fun c => signature c ∉ tested

/-- The first ones of a list under their new names. A negative limit throws. -/
def named (l : List ProxyConfig) : List ProxyConfig :=
  l.mapIdx fun i c => { c with name := "Ghajarvpn " ++ toString (i + 1) }

def reconcile (previous healthy : List ProxyConfig) (tested : List String) (complete : Bool)
    (limit : Int) : Option (List ProxyConfig) :=
  if limit < 0 then none
  else some (named
    ((distinctBy signature (healthy ++ retained previous tested complete)).take limit.toNat))

/-- A server without what it is called, where it is from and what the user did with it. -/
def core (c : ProxyConfig) : ProxyConfig :=
  { c with
    id := "", name := "", subId := "", source := .personal, favorite := false, locked := false }

/-- The server was asked in this round, whatever the user did with it since. -/
def Tested (tested : List String) (c : ProxyConfig) : Prop :=
  ∃ favorite, signature { c with favorite } ∈ tested

structure Reconciled (previous healthy : List ProxyConfig) (tested : List String) (complete : Bool)
    (limit : Int) (r : List ProxyConfig) : Prop where
  short : r.length ≤ limit
  distinct : (r.map core).Nodup
  gone : ∀ y ∈ previous, Tested tested y → core y ∉ healthy.map core → core y ∉ r.map core
  ids : ∀ c ∈ r, core c ∉ healthy.map core → ∃ y ∈ previous, core y = core c ∧ y.id = c.id
  kept : complete = false → r.length < limit →
    ∀ y ∈ previous, ¬Tested tested y → core y ∈ r.map core

/-- It is the first of its signature, and fewer than the limit come before it. -/
def Shown (l : List ProxyConfig) (limit : Int) (c : ProxyConfig) : Prop :=
  First signature l c ∧ (before signature l (signature c)).card < limit

/-- What is shown does not differ in the user's mark alone. -/
def MarkedAlike (l : List ProxyConfig) (limit : Int) : Prop :=
  ∀ x y, Shown l limit x → Shown l limit y → core x = core y → x.favorite = y.favorite

/-- What was asked and is still kept has answered under the other mark. -/
def KeptAnswered (previous healthy : List ProxyConfig) (tested : List String) (limit : Int) :
    Prop :=
  ∀ z ∈ previous, signature z ∉ tested → Tested tested z →
    Shown (healthy ++ retained previous tested false) limit z → core z ∈ healthy.map core

/-- What was not asked is not hidden behind another server of the same text. -/
def NotHidden (previous healthy : List ProxyConfig) (tested : List String) (limit : Int) : Prop :=
  (keys signature (healthy ++ retained previous tested false)).card < limit →
    ∀ y ∈ previous, ¬Tested tested y →
      ∃ x, First signature (healthy ++ retained previous tested false) x ∧ core x = core y

/-! ## Signatures -/

theorem strip_put (o : JSONObject) (k : String) (v : Json) :
    strip (o.put k v) = if k ∈ ignored then strip o else (strip o).put k v := by
  induction o with
  | nil => by_cases h : k ∈ ignored <;> simp [strip, JSONObject.put, Keyed.put, h]
  | cons e o ih =>
    simp only [strip, JSONObject.put, Keyed.put, decide_not] at ih ⊢
    by_cases he : e.1 = k
    · by_cases h : k ∈ ignored
      · simp [he, h]
      · simp [he, h, Keyed.put]
    · by_cases hi : e.1 ∈ ignored
      · simp [he, hi, ih]
      · by_cases h : k ∈ ignored
        · simp [he, hi, ih, h]
        · simp [he, hi, ih, h, Keyed.put]

/-- A signature tells what a server is and whether the user marked it. -/
theorem signature_core (c : ProxyConfig) :
    signature c = signature { core c with favorite := c.favorite } := by
  have hstrip : strip c.toJson = strip { core c with favorite := c.favorite }.toJson := by
    simp only [ProxyConfig.toJson, strip_put, core]
    simp [ignored]
  rw [signature, signature, hstrip]

theorem signature_eq {x y : ProxyConfig} (h : core x = core y) (hf : x.favorite = y.favorite) :
    signature x = signature y := by
  rw [signature_core x, signature_core y, h, hf]

theorem signature_mark {x y : ProxyConfig} (h : core x = core y) (favorite : Bool) :
    signature { x with favorite } = signature { y with favorite } := by
  refine signature_eq ?_ rfl
  simpa [core] using h

theorem tested_congr {tested : List String} {x y : ProxyConfig} (h : core x = core y) :
    Tested tested x ↔ Tested tested y :=
  exists_congr fun favorite => by rw [signature_mark h]

theorem tested_of_mem {tested : List String} {c : ProxyConfig} (h : signature c ∈ tested) :
    Tested tested c := ⟨c.favorite, h⟩

/-! ## The mark -/

/-- The length of a text that is put together does not depend on the order. -/
theorem length_intercalate {α : Type} (sep : List α) {l : List (List α)} (h : l ≠ []) :
    (sep.intercalate l).length + sep.length = (l.map fun t => t.length + sep.length).sum := by
  induction l with
  | nil => exact absurd rfl h
  | cons t l ih =>
    cases l with
    | nil => simp
    | cons u l =>
      rw [List.intercalate_cons_cons, List.map_cons, List.sum_cons, ← ih (List.cons_ne_nil _ _)]
      simp only [List.length_append]
      omega

/-- A field as it stands in a signature. -/
def fieldText (e : String × Json) : List Char := (e.1 ++ "=" ++ e.2.asString).toList

/-- The fields one behind the other. -/
def fieldsLength (o : JSONObject) : ℕ := (o.map fun e => (fieldText e).length + 1).sum

theorem length_sorted {o : JSONObject} (h : o ≠ []) :
    ("|".intercalate ((o.insertionSort fun a b => a.1 ≤ b.1).map
      fun e => e.1 ++ "=" ++ e.2.asString)).toList.length + 1 = fieldsLength o := by
  have hperm := o.perm_insertionSort fun a b => a.1 ≤ b.1
  generalize (o.insertionSort fun a b => a.1 ≤ b.1) = sorted at hperm ⊢
  have hne : sorted.map fieldText ≠ [] := by
    intro hnil
    rw [List.map_eq_nil_iff.1 hnil] at hperm
    exact h (List.nil_perm.1 hperm)
  have hlen := length_intercalate "|".toList hne
  rw [List.map_map] at hlen
  rw [fieldsLength, ← (hperm.map fun e => (fieldText e).length + 1).sum_eq,
    String.toList_intercalate, List.map_map]
  exact hlen

theorem length_signature {c : ProxyConfig} (h : strip c.toJson ≠ []) :
    (signature c).toList.length + 1 = fieldsLength (strip c.toJson) := length_sorted h

/-- An object with the value of one field put for another. -/
def withMark (mark : Bool) (e : String × Json) : String × Json :=
  (e.1, if e.1 = "favorite" then .bool mark else e.2)

theorem map_withMark_put (mark : Bool) (o : JSONObject) (k : String) (v : Json) :
    (o.put k v).map (withMark mark) =
      JSONObject.put (o.map (withMark mark)) k (if k = "favorite" then .bool mark else v) := by
  induction o with
  | nil => rfl
  | cons e o ih =>
    simp only [JSONObject.put, Keyed.put, List.map_cons] at ih ⊢
    by_cases he : e.1 = k
    · simp [withMark, he]
    · simp [withMark, he, ih]

theorem toJson_mark (c : ProxyConfig) (mark : Bool) :
    { c with favorite := mark }.toJson = c.toJson.map (withMark mark) := by
  simp only [ProxyConfig.toJson, map_withMark_put]
  simp

theorem strip_mark (c : ProxyConfig) (mark : Bool) :
    strip { c with favorite := mark }.toJson = (strip c.toJson).map (withMark mark) := by
  rw [toJson_mark, strip, strip, List.filter_map]
  rfl

/-- `true` is shorter than `false`. -/
theorem fieldsLength_mark {o : JSONObject} {v : Json} (h : ("favorite", v) ∈ o) :
    fieldsLength (o.map (withMark true)) < fieldsLength (o.map (withMark false)) := by
  rw [fieldsLength, fieldsLength, List.map_map, List.map_map]
  refine List.sum_lt_sum _ _ (fun e _ => ?_) ⟨_, h, ?_⟩
  · by_cases hk : e.1 = "favorite"
    · simp [fieldText, withMark, hk, Json.asString, Json.print]
    · simp [fieldText, withMark, hk]
  · simp [fieldText, withMark, Json.asString, Json.print]

theorem mark_mem (c : ProxyConfig) : ("favorite", Json.bool c.favorite) ∈ strip c.toJson := by
  have hopt : c.toJson.opt "favorite" = some (.bool c.favorite) := by
    simp [ProxyConfig.toJson]
  obtain ⟨e, he, hv⟩ := Option.map_eq_some_iff.1 hopt
  have hk := Keyed.get_key he
  refine List.mem_filter.2 ⟨?_, by simp [ignored]⟩
  rw [← hk, ← hv]
  exact Keyed.get_mem he

/-- Marking a server changes its signature. -/
theorem signature_mark_ne (c : ProxyConfig) :
    signature { c with favorite := true } ≠ signature { c with favorite := false } := by
  intro h
  have hne (mark : Bool) : strip { c with favorite := mark }.toJson ≠ [] :=
    List.ne_nil_of_mem (mark_mem { c with favorite := mark })
  have htrue := length_signature (hne true)
  have hfalse := length_signature (hne false)
  have hlt := fieldsLength_mark (mark_mem c)
  rw [← strip_mark, ← strip_mark, ← htrue, ← hfalse, h] at hlt
  exact Nat.lt_irrefl _ hlt

/-! ## One round -/

section Round

variable {previous healthy l : List ProxyConfig} {tested : List String} {complete : Bool}
  {limit : Int} {c y : ProxyConfig}

theorem named_core : (named l).map core = l.map core :=
  List.ext_getElem (by simp [named]) fun n _ _ => by simp [named, core]

theorem mem_named (h : c ∈ named l) : ∃ x ∈ l, core x = core c ∧ x.id = c.id := by
  obtain ⟨n, hn, rfl⟩ := List.mem_mapIdx.1 h
  exact ⟨_, List.getElem_mem hn, rfl, rfl⟩

theorem mem_take_iff (h : 0 ≤ limit) :
    c ∈ (distinctBy signature l).take limit.toNat ↔ Shown l limit c := by
  rw [mem_take_distinctBy, Shown]
  exact and_congr_right fun _ => by omega

theorem mem_retained : c ∈ retained previous tested complete ↔
    complete = false ∧ c ∈ previous ∧ signature c ∉ tested := by
  cases complete <;> simp [retained]

theorem marked_iff (h : 0 ≤ limit) :
    (((distinctBy signature l).take limit.toNat).map core).Nodup ↔ MarkedAlike l limit := by
  have hsig : (((distinctBy signature l).take limit.toNat).map signature).Nodup := by
    rw [List.map_take]
    exact distinctBy_nodup.sublist (List.take_sublist _ _)
  constructor
  · intro hn x y hx hy hc
    rw [List.inj_on_of_nodup_map hn ((mem_take_iff h).2 hx) ((mem_take_iff h).2 hy) hc]
  · intro hm
    refine (List.Nodup.of_map _ hsig).map_on fun x hx y hy hc => ?_
    have hx := (mem_take_iff h).1 hx
    have hy := (mem_take_iff h).1 hy
    exact hx.1.eq hy.1 (signature_eq hc (hm x y hx hy hc))

/-- What is kept although it was asked comes from the last round. -/
theorem gone_iff (h : 0 ≤ limit) :
    (∀ y ∈ previous, Tested tested y → core y ∉ healthy.map core → core y ∉
      ((distinctBy signature (healthy ++ retained previous tested complete)).take
        limit.toNat).map core) ↔
      (complete = false → KeptAnswered previous healthy tested limit) := by
  constructor
  · rintro hgone rfl z hz hsig ht hs
    by_contra hc
    exact hgone z hz ht hc (List.mem_map_of_mem ((mem_take_iff h).2 hs))
  · intro hkept y hy ht hc hm
    obtain ⟨x, hx, hxy⟩ := List.mem_map.1 hm
    have hs := (mem_take_iff h).1 hx
    rcases List.mem_append.1 hs.1.mem with hx | hx
    · exact hc (hxy ▸ List.mem_map_of_mem hx)
    · obtain ⟨rfl, hp, hsig⟩ := mem_retained.1 hx
      exact hc (hxy ▸ hkept rfl x hp hsig ((tested_congr hxy).2 ht) hs)

theorem kept_iff (h : 0 ≤ limit) :
    (complete = false →
      (((distinctBy signature (healthy ++ retained previous tested complete)).take
        limit.toNat).length : Int) < limit →
      ∀ y ∈ previous, ¬Tested tested y → core y ∈
        ((distinctBy signature (healthy ++ retained previous tested complete)).take
          limit.toNat).map core) ↔
      (complete = false → NotHidden previous healthy tested limit) := by
  refine imp_congr_right ?_
  rintro rfl
  rw [List.length_take, length_distinctBy]
  have hlt : ((min limit.toNat
      (keys signature (healthy ++ retained previous tested false)).card : ℕ) : Int) < limit ↔
        (keys signature (healthy ++ retained previous tested false)).card < limit := by omega
  rw [hlt]
  refine forall_congr' fun hcard => forall₃_congr fun y hy ht => ?_
  rw [List.mem_map]
  refine exists_congr fun x => and_congr_left fun _ => ?_
  rw [mem_take_iff h]
  refine and_iff_left_of_imp fun hx => ?_
  have hbefore : (before signature (healthy ++ retained previous tested false) (signature x)).card <
      (keys signature (healthy ++ retained previous tested false)).card := card_before_lt hx.mem
  omega

theorem ids_kept (h : c ∈ named ((distinctBy signature
    (healthy ++ retained previous tested complete)).take limit.toNat))
    (hc : core c ∉ healthy.map core) : ∃ y ∈ previous, core y = core c ∧ y.id = c.id := by
  obtain ⟨x, hx, hxc, hid⟩ := mem_named h
  refine ⟨x, ?_, hxc, hid⟩
  rcases List.mem_append.1 (mem_distinctBy.1 (List.mem_of_mem_take hx)).mem with hx | hx
  · exact absurd (hxc ▸ List.mem_map_of_mem hx) hc
  · exact (mem_retained.1 hx).2.1

end Round

/-- **When a round leaves what it should**: no server is shown with the mark and without it, none
that failed is kept for a mark that it has by now, and no signature stands for two servers. -/
theorem reconciled_iff (previous healthy : List ProxyConfig) (tested : List String)
    (complete : Bool) (limit : Int) :
    (∀ r, reconcile previous healthy tested complete limit = some r →
      Reconciled previous healthy tested complete limit r) ↔
    MarkedAlike (healthy ++ retained previous tested complete) limit ∧
      (complete = false → KeptAnswered previous healthy tested limit ∧
        NotHidden previous healthy tested limit) := by
  unfold reconcile
  by_cases hneg : limit < 0
  · rw [if_pos hneg]
    have hnone (l : List ProxyConfig) (c : ProxyConfig) : ¬Shown l limit c := by
      intro hs
      have := hs.2
      omega
    refine iff_of_true (fun r h => by cases h) ⟨fun x _ hx => absurd hx (hnone _ x), fun _ => ?_⟩
    exact ⟨fun z _ _ _ hs => absurd hs (hnone _ z), fun hlt => by omega⟩
  · have h : 0 ≤ limit := by omega
    rw [if_neg hneg, forall_congr' fun _ => imp_congr_left Option.some_inj, forall_eq', imp_and,
      ← marked_iff h, ← gone_iff h, ← kept_iff h]
    constructor
    · intro hr
      have hlen := hr.kept
      have hgone := hr.gone
      have hdistinct := hr.distinct
      rw [named_core] at hlen hgone hdistinct
      refine ⟨hdistinct, hgone, ?_⟩
      simpa [named] using hlen
    · rintro ⟨hdistinct, hgone, hkept⟩
      refine ⟨?_, ?_, ?_, fun c hc => ids_kept hc, ?_⟩
      · simp only [named, List.length_mapIdx, List.length_take]
        omega
      · rwa [named_core]
      · rwa [named_core]
      · rw [named_core]
        simpa [named] using hkept

/-! ## A server that failed -/

def vless (favorite : Bool) : ProxyConfig :=
  { name := "s"
    protocol := "vless"
    address := "s.example.com"
    port := 443
    favorite
    id := "c1" }

/-- A server that fails stays when the user has marked it since. -/
theorem marked_stays : ¬∀ r,
    reconcile [vless true] [] [signature (vless false)] false MAX_MANAGED_CONFIGS = some r →
      Reconciled [vless true] [] [signature (vless false)] false MAX_MANAGED_CONFIGS r := by
  intro h
  have hr : retained [vless true] [signature (vless false)] false = [vless true] := by
    have hne : signature (vless true) ≠ signature (vless false) := signature_mark_ne (vless true)
    simp [retained, hne]
  have := (h _ rfl).gone (vless true) (.head _) ⟨false, .head _⟩ List.not_mem_nil
  rw [named_core, List.nil_append, hr] at this
  exact this (.head _)

end Ghajar.FreeFeedRules
