import Mathlib
import Ghajar.Config.SubscriptionFetcher
import Ghajar.Lib.Long
import Ghajar.Store.Carried

/-!
# Receiving a service

`GhajarStoreApi.importServiceOnce`. The link of the service is fetched first, and the outputs that
came with it are what is left when that fails. Whether there are any is asked of their text: a text
that no reader makes anything of takes the place of the group all the same.
-/

namespace Ghajar.Delivery

open Ghajar Groups

structure SubUserInfo where
  upload : Int := 0
  download : Int := 0
  total : Int := 0
  expire : Int := 0

def SubUserInfo.used (i : SubUserInfo) : Int := Long.add i.upload i.download

structure FetchResult where
  configs : List ProxyConfig
  userInfo : Option SubUserInfo

structure GhajarServiceDetails where
  username : String
  productName : String
  subscriptionUrl : Option String
  outputs : List String

/-- What the user is told. -/
def notReady : String :=
  "سرویس صادر شد، اما ساب هنوز کانفیگ ندارد؛ از «سرویس‌های من» دوباره دریافت کن."

/-- `^https?://` whatever the case. -/
def hasScheme (url : String) : Bool :=
  ["http://", "https://"].any fun scheme => scheme.toList <+: url.toList.map Text.foldCase

def removePrefix (start s : String) : String :=
  if start.toList <+: s.toList then String.ofList (s.toList.drop start.length) else s

/-- The five fields that are compared. -/
def sameAs (existing candidate : ProxyConfig) : Prop :=
  existing.protocol = candidate.protocol ∧ existing.address = candidate.address ∧
    existing.port = candidate.port ∧ existing.uuid = candidate.uuid ∧
      existing.password = candidate.password

instance (a b : ProxyConfig) : Decidable (sameAs a b) := by
  unfold sameAs
  infer_instance

namespace GhajarServiceDetails

variable (service : GhajarServiceDetails)

def joined : String := "\n".intercalate (service.outputs.filter fun o => !o.blank)

def payload : String := (service.subscriptionUrl.filter fun u => !u.blank).getD service.joined

/-- The link to fetch, with its scheme. -/
def url : Option String :=
  ((service.subscriptionUrl.map String.trimmed).filter fun u => !u.blank).map fun u =>
    if hasScheme u then u else "https://" ++ removePrefix "//" u

def groupName : String :=
  " · ".intercalate
    ([service.productName.ifBlank "سرویس قاجار", service.username].filter
      fun n => !n.blank).eraseDups

end GhajarServiceDetails

section Import

variable (readers : Readers ProxyConfig) (signature : ProxyConfig → String) (draw : Nat → String)
  (now : Int) (fetchFull : String → Option FetchResult)

/-- What the link brings, if it brings any. -/
def fetched (service : GhajarServiceDetails) : Option FetchResult :=
  (service.url.bind fetchFull).filter fun f => f.configs ≠ []

def parsed (service : GhajarServiceDetails) : List ProxyConfig :=
  ConfigParser.parseBundle readers service.joined.toList

/-- The group as it is stored again. -/
def refreshed (f : Option FetchResult) (service : GhajarServiceDetails) (g : Subscription) :
    Subscription :=
  let info := f.bind (·.userInfo)
  { g with
    used := (info.map (·.used)).getD g.used
    total := (info.map (·.total)).getD g.total
    expire := (info.map (·.expire)).getD g.expire
    lastUpdated := now
    serviceUsername := service.username }

/-- What the store is given for the service's link, and its group. -/
def importUrl (s : State) (service : GhajarServiceDetails) (url : String) : Nat × State :=
  let f := fetched fetchFull service
  let list := (f.map (·.configs)).getD (parsed readers service)
  let g := (s.subscriptions.find? fun g => g.url = url).getD
    { name := service.groupName, url, id := draw 0 }
  (list.length, s.upsertSubscription signature (refreshed now f service g) list)

/-- What is missing goes into the hand-made group of the service. -/
def importOutputs (s : State) (service : GhajarServiceDetails) : Nat × State :=
  let configs := parsed readers service
  let missing := configs.filter fun candidate =>
    ¬s.configs.any fun existing => sameAs existing candidate
  (configs.length, if missing.isEmpty then s else
    s.addToLocalSub draw now service.groupName missing)

def importServiceOnce (s : State) (service : GhajarServiceDetails) : Except String Nat × State :=
  if service.payload.blank then (.ok 0, s)
  else
    match service.url with
    | some url =>
      if (fetched fetchFull service).isNone ∧ service.joined.blank then (.error notReady, s)
      else
        let r := importUrl readers signature draw now fetchFull s service url
        (.ok r.1, r.2)
    | none =>
      let r := importOutputs readers draw now s service
      (.ok r.1, r.2)

/-- What the service has to offer: what its link brings, or else its outputs. -/
def offered (service : GhajarServiceDetails) : List ProxyConfig :=
  ((fetched fetchFull service).map (·.configs)).getD (parsed readers service)

/-- Some configuration of the service has come into the store. -/
def Imported (offered : List ProxyConfig) (r : Except String Nat × State) : Prop :=
  ∃ n > 0, r.1 = .ok n ∧ ∃ f ∈ offered, ∃ c ∈ r.2.configs, sameAs c f

/-- It fails or returns zero, and all that was there is there. -/
def Untouched (s : State) (r : Except String Nat × State) : Prop :=
  (∀ n > 0, r.1 ≠ .ok n) ∧ s.configs ⊆ r.2.configs ∧ s.subscriptions ⊆ r.2.subscriptions

/-- The link brings nothing and the outputs are a text without a configuration. -/
def Unreadable (service : GhajarServiceDetails) : Prop :=
  fetched fetchFull service = none ∧ service.joined.blank = false ∧ parsed readers service = []

/-- Nothing stands in the group, and it is already stored as it would be stored again. -/
def Settled (s : State) (service : GhajarServiceDetails) (g : Subscription) : Prop :=
  members s g.id = [] ∧ ∀ g' ∈ s.subscriptions, g'.id = g.id → g' = refreshed now none service g

end Import

section Cases

variable {readers : Readers ProxyConfig} {signature : ProxyConfig → String} {draw : Nat → String}
  {now : Int} {fetchFull : String → Option FetchResult} {s : State}
  {service : GhajarServiceDetails} {url : String}

theorem untouched_self {e : Except String Nat} (h : ∀ n > 0, e ≠ .ok n) : Untouched s (e, s) :=
  ⟨h, List.Subset.refl _, List.Subset.refl _⟩

theorem ok_zero : ∀ n > 0, (.ok 0 : Except String Nat) ≠ .ok n :=
  fun _ hn h => absurd (Except.ok.inj h) (Nat.ne_of_lt hn)

/-- What is put into a group is found there. -/
theorem sameAs_upsert {sub : Subscription} {l : List ProxyConfig} {f : ProxyConfig} (hf : f ∈ l) :
    ∃ c ∈ (s.upsertSubscription signature sub l).configs, sameAs c f := by
  have hall := @tagged_sameServer l (identity signature sub) sub.id (members s sub.id).reverse
  rw [← members_upsert] at hall
  obtain ⟨n, hn, rfl⟩ := List.mem_iff_getElem.1 hf
  have hn' : n < (members (s.upsertSubscription signature sub l) sub.id).length :=
    hall.length_eq ▸ hn
  have hsame := List.forall₂_iff_get.1 hall
  refine ⟨_, List.mem_of_mem_filter (List.getElem_mem hn'), ?_⟩
  have h := hsame.2 n hn hn'
  simp only [List.get_eq_getElem, SameServer] at h
  rw [← h]
  exact ⟨rfl, rfl, rfl, rfl, rfl⟩

theorem configs_upsert_nil (sub : Subscription) : (s.upsertSubscription signature sub []).configs =
    s.configs.filter fun c => c.subId ≠ sub.id := List.append_nil _

theorem blank_trimmed {u : String} (h : u.blank = true) : u.trimmed.blank = true := by
  have hdrop : u.toList.dropWhile Text.isWhitespace = [] :=
    List.dropWhile_eq_nil_iff.2 (List.all_eq_true.1 h)
  simp [String.trimmed, hdrop, String.blank, Text.isBlank]

/-- Everything that is put into a hand-made group is added. -/
theorem addToLocalSub_configs (name : String) {l : List ProxyConfig} (hl : l ≠ []) :
    ∃ subId, (s.addToLocalSub draw now name l).configs =
      s.configs ++ l.map fun c => { c with subId } := by
  unfold State.addToLocalSub
  rw [if_neg (by simpa using hl)]
  exact ⟨_, rfl⟩

theorem mem_upsert {sub g : Subscription} {l : List ProxyConfig} (hg : g ∈ s.subscriptions) :
    g ∈ (s.upsertSubscription signature sub l).subscriptions ↔ (g.id = sub.id → g = sub) := by
  obtain ⟨_, rfl, hother, hself, -⟩ := @subscriptions_upsert signature s sub l
  by_cases hid : g.id = sub.id
  · have hiff : g ∈ (s.upsertSubscription signature sub l).subscriptions ↔ g ∈ [sub] := by
      rw [← hself, List.mem_filter, decide_eq_true_eq]
      exact (and_iff_left hid).symm
    rw [hiff, List.mem_singleton]
    exact ⟨fun h _ => h, fun h => h hid⟩
  · have hiff : g ∈ (s.upsertSubscription signature sub l).subscriptions ↔
        g ∈ s.subscriptions.filter fun g => g.id ≠ sub.id := by
      rw [← hother, List.mem_filter, decide_eq_true_eq]
      exact (and_iff_left hid).symm
    rw [hiff, List.mem_filter, decide_eq_true_eq]
    exact iff_of_true ⟨hg, hid⟩ fun h => absurd h hid

/-- A group that is stored again with nothing in it. -/
theorem upsert_nil_untouched_iff (sub : Subscription) :
    s.configs ⊆ (s.upsertSubscription signature sub []).configs ∧
      s.subscriptions ⊆ (s.upsertSubscription signature sub []).subscriptions ↔
        members s sub.id = [] ∧ ∀ g ∈ s.subscriptions, g.id = sub.id → g = sub := by
  rw [configs_upsert_nil]
  refine and_congr ⟨fun h => ?_, fun h c hc => ?_⟩ (forall₂_congr fun g hg => mem_upsert hg)
  · refine List.filter_eq_nil_iff.2 fun c hc hid => ?_
    exact of_decide_eq_true (List.mem_filter.1 (h hc)).2 (of_decide_eq_true hid)
  · refine List.mem_filter.2 ⟨hc, decide_eq_true fun hid => ?_⟩
    exact List.filter_eq_nil_iff.1 h c hc (decide_eq_true hid)

theorem url_eq_none (h : service.payload.blank = true) : service.url = none := by
  unfold GhajarServiceDetails.payload at h
  unfold GhajarServiceDetails.url
  cases hu : service.subscriptionUrl with
  | none => rfl
  | some u =>
    have hblank : u.blank = true := by
      by_contra hn
      rw [Bool.not_eq_true] at hn
      simp [hu, Option.filter, hn] at h
    simp [blank_trimmed hblank]

/-- A fetch that counts has brought something. -/
theorem offered_eq_nil : offered readers fetchFull service = [] ↔
    fetched fetchFull service = none ∧ parsed readers service = [] := by
  unfold offered
  cases hf : fetched fetchFull service with
  | none => simp
  | some f =>
    have hne := (Option.filter_eq_some_iff.1 hf).2
    simpa using hne

theorem importOutputs_imported (hurl : service.url = none) (hne : parsed readers service ≠ []) :
    ∃ f ∈ offered readers fetchFull service,
      ∃ c ∈ (importOutputs readers draw now s service).2.configs, sameAs c f := by
  have hoffered : offered readers fetchFull service = parsed readers service := by
    simp [offered, fetched, hurl]
  obtain ⟨f, hf⟩ := List.exists_mem_of_ne_nil _ hne
  rw [hoffered]
  refine ⟨f, hf, ?_⟩
  unfold importOutputs
  dsimp only
  by_cases hthere : ∃ c ∈ s.configs, sameAs c f
  · obtain ⟨c, hc, hsame⟩ := hthere
    split
    · exact ⟨c, hc, hsame⟩
    · rename_i hmissing
      obtain ⟨subId, heq⟩ := @addToLocalSub_configs draw now s service.groupName _
        (fun h => hmissing (List.isEmpty_iff.2 h))
      rw [heq]
      exact ⟨c, List.mem_append_left _ hc, hsame⟩
  · have hmissing : f ∈ (parsed readers service).filter fun candidate =>
        ¬s.configs.any fun existing => sameAs existing candidate := by
      refine List.mem_filter.2 ⟨hf, ?_⟩
      simpa using hthere
    rw [if_neg fun h => List.not_mem_nil (List.isEmpty_iff.1 h ▸ hmissing)]
    obtain ⟨subId, heq⟩ := @addToLocalSub_configs draw now s service.groupName _
      (List.ne_nil_of_mem hmissing)
    rw [heq]
    exact ⟨_, List.mem_append_right _ (List.mem_map_of_mem hmissing), rfl, rfl, rfl, rfl, rfl⟩

/-- The link brought nothing and the outputs hold nothing: the group is emptied. -/
theorem importUrl_untouched_iff
    (hfresh : draw 0 ∉ s.configs.map (·.subId) ++ subIds s.subscriptions)
    (hf : fetched fetchFull service = none) (hp : parsed readers service = []) :
    Untouched s (.ok (importUrl readers signature draw now fetchFull s service url).1,
      (importUrl readers signature draw now fetchFull s service url).2) ↔
        ∀ g ∈ s.subscriptions.find? fun g => g.url = url, Settled now s service g := by
  unfold importUrl Untouched
  simp only [hf, hp, Option.map_none, Option.getD_none, List.length_nil]
  rw [and_iff_right ok_zero, upsert_nil_untouched_iff]
  cases hg : s.subscriptions.find? fun g => g.url = url with
  | none =>
    refine iff_of_true ⟨?_, fun g hg hid => ?_⟩ (by simp)
    · refine List.filter_eq_nil_iff.2 fun c hc hid => hfresh (List.mem_append_left _ ?_)
      exact List.mem_map.2 ⟨c, hc, of_decide_eq_true hid⟩
    · exact absurd (List.mem_append_right _ (mem_subIds.2 ⟨g, hg, hid⟩)) hfresh
  | some g => simp [Settled, refreshed]

/-- **When receiving a service empties nothing**: unless the link brings nothing and the outputs
are a text without a configuration, while the store has a group of that link. -/
theorem imported_or_untouched_iff (readers : Readers ProxyConfig)
    (signature : ProxyConfig → String) (draw : Nat → String) (now : Int)
    (fetchFull : String → Option FetchResult) (s : State) (service : GhajarServiceDetails)
    (hfresh : draw 0 ∉ s.configs.map (·.subId) ++ subIds s.subscriptions) :
    Imported (offered readers fetchFull service)
        (importServiceOnce readers signature draw now fetchFull s service) ∨
      Untouched s (importServiceOnce readers signature draw now fetchFull s service) ↔
    ∀ url ∈ service.url, Unreadable readers fetchFull service →
      ∀ g ∈ s.subscriptions.find? fun g => g.url = url, Settled now s service g := by
  unfold importServiceOnce
  split
  · rename_i hblank
    rw [url_eq_none hblank]
    exact iff_of_true (.inr (untouched_self ok_zero)) (by simp)
  cases hurl : service.url with
  | none =>
    refine iff_of_true ?_ (by simp)
    by_cases hp : parsed readers service = []
    · refine .inr ?_
      simp only [importOutputs, hp]
      exact untouched_self ok_zero
    · exact .inl ⟨_, List.length_pos_iff.2 hp, rfl, importOutputs_imported hurl hp⟩
  | some url =>
    dsimp only
    split
    · rename_i hnone
      refine iff_of_true (.inr (untouched_self fun _ _ h => by cases h)) fun u _ h => ?_
      exact absurd hnone.2 (by simp [h.2.1])
    · rename_i hsome
      by_cases hnil : offered readers fetchFull service = []
      · obtain ⟨hf, hp⟩ := offered_eq_nil.1 hnil
        have hjoined : service.joined.blank = false := by
          simpa [hf] using hsome
        rw [or_iff_right, importUrl_untouched_iff hfresh hf hp]
        · simp [Unreadable, hf, hp, hjoined]
        · rintro ⟨n, -, -, f, hmem, -⟩
          exact absurd (hnil ▸ hmem) List.not_mem_nil
      · refine iff_of_true (.inl ?_) fun _ _ h => absurd (offered_eq_nil.2 ⟨h.1, h.2.2⟩) hnil
        obtain ⟨f, hmem⟩ := List.exists_mem_of_ne_nil _ hnil
        exact ⟨_, List.length_pos_iff.2 hnil, rfl, f, hmem, sameAs_upsert hmem⟩

end Cases

/-! ## A failed fetch -/

/-- Readers that make nothing of any text. -/
def noReaders : Readers ProxyConfig :=
  { wireguardConf := fun _ => none
    jsonOutbounds := fun _ => []
    clash := fun _ => []
    link := fun _ _ => none
    bridge := fun _ => none }

/-- A service with a link, and an output that is no configuration. -/
def renewed : GhajarServiceDetails :=
  { username := "user1"
    productName := "plan"
    subscriptionUrl := some "https://example.com/s"
    outputs := ["active until Friday"] }

theorem parseBundle_noReaders (text : List Char) :
    ConfigParser.parseBundle noReaders text = [] := by
  have hparse : ConfigParser.parse noReaders = fun _ => none := by
    funext uri
    unfold ConfigParser.parse
    dsimp only [noReaders]
    split
    · rfl
    · split
      · rfl
      · split
        · rfl
        · exact ite_self none
  unfold ConfigParser.parseBundle
  rw [hparse]
  dsimp only [noReaders]
  rw [List.filterMap_eq_nil_iff.2 fun _ _ => rfl, Option.toList_none, ite_self, ite_self, ite_self,
    ite_self, ite_self, ite_self, ite_self]

theorem renewed_url : renewed.url = some "https://example.com/s" := by decide

/-- The link answers, and the group has its servers. -/
theorem fetched_service_imported :
    Imported (offered noReaders (fun _ => some ⟨[second], none⟩) renewed)
        (importServiceOnce noReaders sigOf someDraw 5 (fun _ => some ⟨[second], none⟩) device
          renewed) ∨
      Untouched device (importServiceOnce noReaders sigOf someDraw 5
        (fun _ => some ⟨[second], none⟩) device renewed) := by
  refine (imported_or_untouched_iff noReaders sigOf someDraw 5 (fun _ => some ⟨[second], none⟩)
    device renewed (by decide)).2 fun url hurl h => absurd h.1 ?_
  simp [fetched, renewed_url]

/-- The link does not answer, and the installed server is gone. -/
theorem failed_fetch_empties :
    ¬(Imported (offered noReaders (fun _ => none) renewed)
        (importServiceOnce noReaders sigOf someDraw 5 (fun _ => none) device renewed) ∨
      Untouched device
        (importServiceOnce noReaders sigOf someDraw 5 (fun _ => none) device renewed)) := by
  have hf : fetched (fun _ => none) renewed = none := by simp [fetched, renewed_url]
  have hp : parsed noReaders renewed = [] := parseBundle_noReaders _
  have hrun : importServiceOnce noReaders sigOf someDraw 5 (fun _ => none) device renewed =
      (.ok (importUrl noReaders sigOf someDraw 5 (fun _ => none) device renewed
          "https://example.com/s").1,
        (importUrl noReaders sigOf someDraw 5 (fun _ => none) device renewed
          "https://example.com/s").2) := by
    unfold importServiceOnce
    have hpayload : renewed.payload.blank = false := by decide
    have hjoined : renewed.joined.blank = false := by decide
    simp only [hpayload, renewed_url, hjoined, Bool.false_eq_true, and_false, if_false]
  rintro (⟨n, hn, -, f, hmem, -⟩ | h)
  · rw [offered_eq_nil.2 ⟨hf, hp⟩] at hmem
    cases hmem
  · rw [hrun, importUrl_untouched_iff (by decide) hf hp] at h
    have hgroup := (h _ rfl).1
    exact absurd hgroup (by decide)

end Ghajar.Delivery
