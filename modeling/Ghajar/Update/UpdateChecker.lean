import Mathlib
import Ghajar.Update.Verified
import Ghajar.Account.Delivery
import Ghajar.Config.AmneziaWg
import Ghajar.Share.Gsb2
import Ghajar.Config.TextPlatform

/-!
# Finding an update

`UpdateChecker`: what the releases say is newer, the APK of a release that fits the device
and the hash its `SHA256SUMS.txt` lists for it. `isNewer_iff` says that versions are ordered
by their numbers, so that updates only go up (`updates_ascend`). `handed_listed` follows an
offer through the update flow: a file that reaches the installer has the hash that the
release itself lists for the APK of this device, and the release is newer than the app.

`get` is what an address serves, nothing where it throws. What a regular expression takes for
a blank and the reader of an array are parameters (`Env`).
-/

namespace Ghajar.UpdateChecker

structure Env where
  platform : Platform
  /-- `JSONArray(raw)`, nothing where it throws. -/
  readArray : String → Option JSONArray
  /-- `\s` -/
  space : Char → Bool

def api : String := "https://api.github.com/repos/meysam82003/Ghajarvpn-/releases/latest"

def htmlReleases : String := "https://github.com/meysam82003/Ghajarvpn-/releases/latest"

def list : String := "https://api.github.com/repos/meysam82003/Ghajarvpn-/releases"

structure ReleaseAsset where
  name : String
  url : String
  sizeBytes : Int
  deriving DecidableEq, Repr

structure Available where
  version : String
  url : String
  changelog : String
  apk : Option ReleaseAsset
  apkSha256 : Option String
  deriving DecidableEq, Repr

inductive Result where
  | available (a : Available)
  | upToDate
  | failed
  deriving DecidableEq, Repr

/-! ## Versions -/

def parts (v : String) : List Int :=
  (((v.substringBefore '-').substringBefore '+').parts '.').map fun seg =>
    (Text.toIntOrNull (String.ofList (seg.toList.filter fun c => (Text.digitOf c).isSome))).getD 0

/-- The loop over the segments; one that is missing is zero. -/
def newerAt (r l : List Int) : List Nat → Bool
  | [] => false
  | i :: is =>
    let rv := r[i]?.getD 0
    let lv := l[i]?.getD 0
    if rv ≠ lv then decide (rv > lv) else newerAt r l is

def isNewer (remote installed : String) : Bool :=
  let r := parts remote
  let l := parts installed
  newerAt r l (List.range (max r.length l.length))

/-- The number at a place of a version, down to all the places it does not have. -/
def weights (v : String) : Nat → Int := fun i => (parts v)[i]?.getD 0

theorem newerAt_iff {r l : List Int} {n i : Nat} :
    newerAt r l (List.range' i n) = true ↔
      ∃ k < n, (∀ j < k, l[i + j]?.getD 0 = r[i + j]?.getD 0) ∧
        l[i + k]?.getD 0 < r[i + k]?.getD 0 := by
  induction n generalizing i with
  | zero => simp [newerAt]
  | succ n ih =>
    rw [List.range'_succ]
    simp only [newerAt]
    by_cases he : r[i]?.getD 0 = l[i]?.getD 0
    · -- the first place does not tell
      rw [if_neg (not_not.2 he), ih]
      constructor
      · rintro ⟨k, hk, hsame, hlt⟩
        refine ⟨k + 1, by omega, fun j hj => ?_, by rwa [← Nat.add_assoc, Nat.add_right_comm]⟩
        cases j with
        | zero => exact he.symm
        | succ j =>
          rw [← Nat.add_assoc, Nat.add_right_comm]
          exact hsame j (by omega)
      · rintro ⟨k, hk, hsame, hlt⟩
        cases k with
        | zero => exact absurd (he ▸ hlt) (lt_irrefl _)
        | succ k =>
          refine ⟨k, by omega, fun j hj => ?_, by rwa [Nat.add_right_comm, Nat.add_assoc]⟩
          have h := hsame (j + 1) (by omega)
          rwa [← Nat.add_assoc, Nat.add_right_comm] at h
    · rw [if_pos he, decide_eq_true_iff]
      constructor
      · exact fun hlt => ⟨0, by omega, fun j hj => by omega, hlt⟩
      · rintro ⟨k, hk, hsame, hlt⟩
        cases k with
        | zero => exact hlt
        | succ k => exact absurd (hsame 0 (by omega)).symm he

/-- Behind both versions nothing tells. -/
theorem weights_end {v : String} {i : Nat} (h : (parts v).length ≤ i) : weights v i = 0 := by
  unfold weights
  rw [List.getElem?_eq_none h]
  rfl

theorem lex_iff {f g : Nat → Int} :
    toLex f < toLex g ↔ ∃ k, (∀ j < k, f j = g j) ∧ f k < g k := Iff.rfl

/-- **Versions are ordered by their numbers**, the first that differs first. -/
theorem isNewer_iff {a b : String} :
    isNewer a b = true ↔ toLex (weights b) < toLex (weights a) := by
  have hloop : isNewer a b = true ↔ ∃ k < max (parts a).length (parts b).length,
      (∀ j < k, weights b j = weights a j) ∧ weights b k < weights a k := by
    unfold isNewer
    simp only
    rw [List.range_eq_range', newerAt_iff]
    simp only [Nat.zero_add, weights]
  rw [hloop, lex_iff]
  constructor
  · rintro ⟨k, -, hsame, hlt⟩
    exact ⟨k, hsame, hlt⟩
  · rintro ⟨k, hsame, hlt⟩
    refine ⟨k, ?_, hsame, hlt⟩
    -- a number that differs is one of either version
    by_contra hk
    have ha : weights a k = 0 := weights_end (by omega)
    have hb : weights b k = 0 := weights_end (by omega)
    omega

/-- **Updates only go up**: however many follow each other, each one is newer than all before. -/
theorem updates_ascend {versions : List String}
    (h : versions.IsChain fun installed remote => isNewer remote installed = true) :
    versions.Pairwise fun earlier later =>
      isNewer later earlier = true ∧ isNewer earlier later = false := by
  have hlex : versions.IsChain fun a b => toLex (weights a) < toLex (weights b) :=
    h.imp fun _ _ => isNewer_iff.1
  have : Trans (fun a b : String => toLex (weights a) < toLex (weights b))
      (fun a b => toLex (weights a) < toLex (weights b))
      (fun a b => toLex (weights a) < toLex (weights b)) := ⟨fun h1 h2 => lt_trans h1 h2⟩
  refine hlex.pairwise.imp fun hlt => ⟨isNewer_iff.2 hlt, ?_⟩
  exact Bool.eq_false_iff.2 fun hn => lt_asymm hlt (isNewer_iff.1 hn)

theorem updates_ascend_three :
    ["1.9", "1.10.0-beta", "v2"].Pairwise fun earlier later =>
      isNewer later earlier = true ∧ isNewer earlier later = false :=
  updates_ascend (by decide)

/-! ## Releases -/

def endsWith (name suffix : String) : Bool :=
  decide (suffix.toList.map Text.foldCase <:+ name.toList.map Text.foldCase)

def contains (name word : String) : Bool :=
  decide (word.toList.map Text.foldCase <:+: name.toList.map Text.foldCase)

def objects (items : JSONArray) : List JSONObject :=
  items.filterMap fun
    | .obj o => some o
    | _ => none

def assetsOf (p : Platform) (o : JSONObject) : List ReleaseAsset :=
  (objects ((o.optJSONArray "assets").getD [])).filterMap fun a =>
    let name := a.optString "name"
    let assetUrl := a.optString "browser_download_url"
    if name.blank || assetUrl.blank then none
    else some ⟨name, assetUrl, Gsb2.optLong p a "size"⟩

/-- The split of an ABI of the device, the preferred one first, or an APK for all. -/
def apkFor (assets : List ReleaseAsset) (abis : List String) : Option ReleaseAsset :=
  (abis.findSome? fun abi => assets.find? fun a => endsWith a.name ("-" ++ abi ++ ".apk")).or
    (assets.find? fun a => endsWith a.name ".apk" && contains a.name "universal")

def tagOf (o : JSONObject) : String :=
  (Delivery.removePrefix "V" (Delivery.removePrefix "v" (o.optString "tag_name"))).trimmed

def urlOf (o : JSONObject) : String := (o.optString "html_url").ifEmpty htmlReleases

def sumsUrlOf (assets : List ReleaseAsset) : Option String :=
  (assets.find? fun a => Text.equalsIgnoreCase a.name "SHA256SUMS.txt").map (·.url)

/-! ## Hashes -/

/-- The hash of a line that names the file: the line is split at its first blanks. -/
def hashOf (e : Env) (fileName : String) (line : List Char) : Option String :=
  let line := Awg.trim Text.isWhitespace line
  let hex := line.takeWhile (!e.space ·)
  match line.dropWhile (!e.space ·) with
  | [] => none
  | rest =>
    if (rest.dropWhile e.space).dropWhile (· = '*') = fileName.toList then
      some (e.platform.lowercase (String.ofList hex))
    else none

def parseSha256Sums (e : Env) (text fileName : String) : Option String :=
  (Awg.ConfigParser.lines text.toList).findSome? (hashOf e fileName)

/-- The hash of the APK, if there is one and the hashes are listed. Nothing where `get` throws. -/
def sha256Of (e : Env) (get : String → Option String) (apk : Option ReleaseAsset)
    (sumsUrl : Option String) : Option (Option String) :=
  match apk, sumsUrl with
  | some a, some url => (get url).map fun text => parseSha256Sums e text a.name
  | _, _ => some none

/-- A line of the text lists the hash for the file. -/
def Listed (e : Env) (text fileName hash : String) : Prop :=
  ∃ line ∈ Awg.ConfigParser.lines text.toList, ∃ hex blanks stars : List Char,
    Awg.trim Text.isWhitespace line = hex ++ (blanks ++ (stars ++ fileName.toList)) ∧
      (∀ c ∈ hex, e.space c = false) ∧ (∀ c ∈ blanks, e.space c = true) ∧ blanks ≠ [] ∧
      (∀ c ∈ stars, c = '*') ∧ hash = e.platform.lowercase (String.ofList hex)

/-! ## The latest release, and the list of them -/

def check (e : Env) (get : String → Option String) (currentVersion : String)
    (abis : List String) : Result :=
  match (get api).bind e.platform.readObject with
  | none => .failed
  | some o =>
    let tag := tagOf o
    if tag = "" then .failed
    else if isNewer tag currentVersion = false then .upToDate
    else
      let assets := assetsOf e.platform o
      let apk := apkFor assets abis
      match sha256Of e get apk (sumsUrlOf assets) with
      | none => .failed
      | some sha256 => .available ⟨tag, urlOf o, o.optString "body", apk, sha256⟩

structure ReleaseInfo where
  version : String
  publishedAt : String
  prerelease : Bool
  notes : String
  url : String
  apk : Option ReleaseAsset
  sha256Url : Option String
  deriving DecidableEq, Repr

def infoOf (p : Platform) (abis : List String) (o : JSONObject) : ReleaseInfo :=
  let assets := assetsOf p o
  { version := tagOf o
    publishedAt := String.ofList ((o.optString "published_at").toList.take 10)
    prerelease := o.optBoolean "prerelease"
    notes := o.optString "body"
    url := urlOf o
    apk := apkFor assets abis
    sha256Url := sumsUrlOf assets }

def pageUrl (page : Nat) : String := list ++ s!"?per_page=15&page={page}"

/-- A page of releases without the drafts, nothing where it throws. -/
def releases (e : Env) (get : String → Option String) (page : Nat) (abis : List String) :
    Option (List ReleaseInfo) :=
  ((get (pageUrl page)).bind e.readArray).map fun items =>
    ((objects items).filter fun o => !o.optBoolean "draft").map (infoOf e.platform abis)

def offerFor (e : Env) (get : String → Option String) (r : ReleaseInfo) : Available :=
  ⟨r.version, r.url, r.notes, r.apk, (sha256Of e get r.apk r.sha256Url).join⟩

/-! ## What is offered -/

/-- What the update flow keeps of an offer; a size below zero counts as none there. -/
def Available.release (a : Available) : Update.Release :=
  ⟨a.version, a.apk.map fun apk => ⟨apk.name, apk.sizeBytes.toNat⟩, a.apkSha256⟩

section Offers

variable (e : Env) (served : String → String → Prop) (installed : String) (abis : List String)

/-- The callers of `offer`: the answer of a check, or a newer release of the list that has an
APK. All that `get` gives has been `served`. -/
inductive Offered : Update.Release → Prop where
  | checked {get : String → Option String} {a : Available}
    (hget : ∀ url text, get url = some text → served url text)
    (h : check e get installed abis = .available a) : Offered a.release
  | picked {get get' : String → Option String} {page : Nat} {list : List ReleaseInfo}
    {r : ReleaseInfo}
    (hget : ∀ url text, get url = some text → served url text)
    (hget' : ∀ url text, get' url = some text → served url text)
    (h : releases e get page abis = some list) (hr : r ∈ list)
    (hnew : isNewer r.version installed = true) : Offered (offerFor e get' r).release

/-- A release as the server gives it. -/
def Served (o : JSONObject) : Prop :=
  (∃ text, served api text ∧ e.platform.readObject text = some o) ∨
    ∃ page text items, served (pageUrl page) text ∧ e.readArray text = some items ∧
      Json.obj o ∈ items

/-- The APK is for an ABI of the device, or for all. -/
def Fits (name : String) : Prop :=
  (∃ abi ∈ abis, endsWith name ("-" ++ abi ++ ".apk") = true) ∨
    endsWith name ".apk" = true ∧ contains name "universal" = true

/-- The release has an APK that fits the device, and its own list of hashes has this one for it. -/
structure Published (o : JSONObject) (apk sums : ReleaseAsset) (hash : String) : Prop where
  has_apk : apk ∈ assetsOf e.platform o
  fits : Fits abis apk.name
  has_sums : sums ∈ assetsOf e.platform o
  named : Text.equalsIgnoreCase sums.name "SHA256SUMS.txt" = true
  listed : ∃ text, served sums.url text ∧ Listed e text apk.name hash

end Offers

variable {e : Env} {served : String → String → Prop} {installed : String} {abis : List String}

theorem hashOf_listed {fileName hash : String} {line : List Char}
    (h : hashOf e fileName line = some hash) :
    ∃ hex blanks stars : List Char,
      Awg.trim Text.isWhitespace line = hex ++ (blanks ++ (stars ++ fileName.toList)) ∧
        (∀ c ∈ hex, e.space c = false) ∧ (∀ c ∈ blanks, e.space c = true) ∧ blanks ≠ [] ∧
        (∀ c ∈ stars, c = '*') ∧ hash = e.platform.lowercase (String.ofList hex) := by
  unfold hashOf at h
  simp only at h
  generalize hline : Awg.trim Text.isWhitespace line = l at h ⊢
  have hsplit : l.takeWhile (!e.space ·) ++ l.dropWhile (!e.space ·) = l :=
    List.takeWhile_append_dropWhile
  generalize hrest : l.dropWhile (!e.space ·) = rest at h hsplit
  cases rest with
  | nil => simp at h
  | cons c cs =>
    have hc : e.space c = true := by
      have hhead := List.head?_dropWhile_not (!e.space ·) l
      rw [hrest] at hhead
      simpa using hhead
    simp only at h
    split at h
    · rename_i hname
      refine ⟨l.takeWhile (!e.space ·), (c :: cs).takeWhile e.space,
        ((c :: cs).dropWhile e.space).takeWhile (· = '*'), ?_, fun x hx => ?_, fun x hx => ?_, ?_,
        fun x hx => ?_, (Option.some.inj h).symm⟩
      · rw [← hname, List.takeWhile_append_dropWhile, List.takeWhile_append_dropWhile, hsplit]
      · simpa using List.mem_takeWhile_imp hx
      · exact List.mem_takeWhile_imp hx
      · simp [hc]
      · simpa using List.mem_takeWhile_imp hx
    · cases h

theorem parse_listed {text fileName hash : String}
    (h : parseSha256Sums e text fileName = some hash) : Listed e text fileName hash := by
  obtain ⟨line, hline, hhash⟩ := List.exists_of_findSome?_eq_some h
  exact ⟨line, hline, hashOf_listed hhash⟩

theorem apkFor_fits {assets : List ReleaseAsset} {a : ReleaseAsset}
    (h : apkFor assets abis = some a) : a ∈ assets ∧ Fits abis a.name := by
  unfold apkFor at h
  rcases Option.or_eq_some_iff.1 h with h | ⟨-, h⟩
  · obtain ⟨abi, habi, hfind⟩ := List.exists_of_findSome?_eq_some h
    exact ⟨List.mem_of_find?_eq_some hfind,
      .inl ⟨abi, habi, by simpa using List.find?_some hfind⟩⟩
  · exact ⟨List.mem_of_find?_eq_some h, .inr (by simpa using List.find?_some h)⟩

/-- The hash of an offer is listed by the release. -/
theorem sha256Of_published {get : String → Option String} {o : JSONObject} {hash : String}
    (hget : ∀ url text, get url = some text → served url text)
    (h : sha256Of e get (apkFor (assetsOf e.platform o) abis) (sumsUrlOf (assetsOf e.platform o)) =
      some (some hash)) :
    ∃ apk sums, apkFor (assetsOf e.platform o) abis = some apk ∧
      Published e served abis o apk sums hash := by
  cases hapk : apkFor (assetsOf e.platform o) abis with
  | none =>
    rw [hapk] at h
    simp [sha256Of] at h
  | some apk =>
    obtain ⟨hmem, hfits⟩ := apkFor_fits hapk
    cases hurl : sumsUrlOf (assetsOf e.platform o) with
    | none =>
      rw [hapk, hurl] at h
      simp [sha256Of] at h
    | some url =>
      rw [hapk, hurl] at h
      obtain ⟨text, htext, hparse⟩ := Option.map_eq_some_iff.1 h
      obtain ⟨sums, hsums, rfl⟩ := Option.map_eq_some_iff.1 hurl
      exact ⟨apk, sums, rfl, hmem, hfits, List.mem_of_find?_eq_some hsums,
        by simpa using List.find?_some hsums, text, hget _ _ htext, parse_listed hparse⟩

theorem mem_objects {items : JSONArray} {o : JSONObject} (h : o ∈ objects items) :
    Json.obj o ∈ items := by
  obtain ⟨item, hitem, ho⟩ := List.mem_filterMap.1 h
  cases item <;> simp at ho
  exact ho ▸ hitem

/-- What a check finds. -/
theorem check_available {get : String → Option String} {a : Available}
    (h : check e get installed abis = .available a) :
    ∃ text o, get api = some text ∧ e.platform.readObject text = some o ∧
      isNewer (tagOf o) installed = true ∧ a.version = tagOf o ∧
      a.apk = apkFor (assetsOf e.platform o) abis ∧
      sha256Of e get a.apk (sumsUrlOf (assetsOf e.platform o)) = some a.apkSha256 := by
  unfold check at h
  cases ho : (get api).bind e.platform.readObject with
  | none => simp [ho] at h
  | some o =>
    obtain ⟨text, htext, hread⟩ := Option.bind_eq_some_iff.1 ho
    simp only [ho] at h
    split at h
    · cases h
    · split at h
      · cases h
      · rename_i hnew
        split at h
        · cases h
        · rename_i sha256 hsha
          have ha := Result.available.inj h
          subst ha
          exact ⟨text, o, htext, hread, by simpa using hnew, rfl, rfl, hsha⟩

theorem check_finds {get : String → Option String} {o : JSONObject} {sha256 : Option String}
    (ho : (get api).bind e.platform.readObject = some o) (htag : tagOf o ≠ "")
    (hnew : isNewer (tagOf o) installed = true)
    (hsha : sha256Of e get (apkFor (assetsOf e.platform o) abis)
      (sumsUrlOf (assetsOf e.platform o)) = some sha256) :
    check e get installed abis = .available ⟨tagOf o, urlOf o, o.optString "body",
      apkFor (assetsOf e.platform o) abis, sha256⟩ := by
  unfold check
  rw [ho]
  simp only
  rw [if_neg htag, if_neg (by simp [hnew]), hsha]

/-- An offer with a hash is a newer release that lists it for the APK of this device. -/
theorem Offered.published {upd : Update.Release} {hash : String}
    (h : Offered e served installed abis upd) (hh : upd.apkSha256 = some hash) :
    ∃ o apk sums, Served e served o ∧ upd.version = tagOf o ∧
      isNewer upd.version installed = true ∧
      upd.apk = some ⟨apk.name, apk.sizeBytes.toNat⟩ ∧
      Published e served abis o apk sums hash := by
  cases h with
  | @checked get a hget h =>
    obtain ⟨text, o, htext, hread, hnew, hversion, happ, hsha⟩ := check_available h
    have hhash : a.apkSha256 = some hash := hh
    rw [hhash, happ] at hsha
    obtain ⟨apk, sums, hapk, hpub⟩ := sha256Of_published hget hsha
    refine ⟨o, apk, sums, .inl ⟨text, hget _ _ htext, hread⟩, hversion, ?_, ?_, hpub⟩
    · show isNewer a.version installed = true
      rw [hversion]
      exact hnew
    · simp only [Available.release, happ, hapk, Option.map_some]
  | @picked get get' page list r hget hget' h hr hnew =>
    obtain ⟨items, hitems, rfl⟩ := Option.map_eq_some_iff.1 h
    obtain ⟨text, htext, hread⟩ := Option.bind_eq_some_iff.1 hitems
    obtain ⟨o, ho, rfl⟩ := List.mem_map.1 hr
    have hmem := mem_objects (List.mem_filter.1 ho).1
    have hsha : sha256Of e get' (apkFor (assetsOf e.platform o) abis)
        (sumsUrlOf (assetsOf e.platform o)) = some (some hash) :=
      Option.join_eq_some_iff.1 hh
    obtain ⟨apk, sums, hapk, hpub⟩ := sha256Of_published hget' hsha
    refine ⟨o, apk, sums, .inr ⟨page, text, items, hget _ _ htext, hread, hmem⟩, rfl, hnew, ?_,
      hpub⟩
    simp only [Available.release, offerFor, infoOf, hapk, Option.map_some]

/-! ## What reaches the installer -/

open Update Run

section Handed

variable {c : Checks}

/-- What is available, and was when a file was handed out, has been offered. -/
structure Known (P : Release → Prop) (s : Sys) : Prop where
  available : ∀ upd, s.available = some upd → P upd
  handed : ∀ h ∈ s.handed, ∀ upd, h.2 = some upd → P upd

/-- A job changes no offer, and hands a file out for the one there is. -/
theorem runJob_offer {s s' : Sys} {k : Nat} {j : Job} {ev : Event}
    (h : s.runJob c k j ev = some s') :
    s'.available = s.available ∧
      (s'.handed = s.handed ∨ ∃ file, s'.handed = s.handed ++ [(file, s.available)]) := by
  have hdecide : ∀ x y,
      (s.decide k j x y ev.canInstall).available = s.available ∧
        ((s.decide k j x y ev.canInstall).handed = s.handed ∨
          ∃ file, (s.decide k j x y ev.canInstall).handed = s.handed ++ [(file, s.available)]) := by
    intro x y
    unfold Sys.decide
    split
    · simp only
      split
      · exact ⟨rfl, .inr ⟨_, rfl⟩⟩
      · exact ⟨rfl, .inl rfl⟩
    · exact ⟨rfl, .inl rfl⟩
  have hmove : (s.moveTo k j ev.throws).available = s.available ∧
      (s.moveTo k j ev.throws).handed = s.handed := by
    unfold Sys.moveTo
    split
    · exact ⟨rfl, rfl⟩
    · simp only
      split <;> exact ⟨rfl, rfl⟩
  cases hpc : j.pc with
  | rename =>
    simp only [Sys.runJob, hpc, Option.some.injEq] at h
    subst h
    exact ⟨hmove.1, .inl hmove.2⟩
  | decide x y =>
    simp only [Sys.runJob, hpc, Option.some.injEq, Sys.resume] at h
    subst h
    split
    · exact ⟨rfl, .inl rfl⟩
    · exact hdecide x y
  | done => simp [Sys.runJob, hpc] at h
  | _ =>
    simp only [Sys.runJob, hpc, Sys.resume, Sys.abort] at h
    repeat' split at h
    all_goals
      cases h
      exact ⟨rfl, .inl rfl⟩

theorem Known.step {P : Release → Prop} {s s' : Sys} {a : Act} (h : Known P s)
    (ho : ∀ upd, a = .offer upd → P upd) (hs : step c s a = some s') : Known P s' := by
  cases a with
  | offer result =>
    cases hs
    unfold Sys.offer
    refine ⟨fun upd hupd => ?_, ?_⟩
    · obtain rfl := Option.some.inj hupd
      exact ho _ rfl
    · simp only
      split <;> exact h.handed
  | clearIfInstalled newer =>
    cases hs
    unfold Sys.clearIfInstalled
    split
    · exact ⟨fun upd hupd => absurd hupd (by simp), h.handed⟩
    · exact h
  | cancel =>
    cases hs
    exact ⟨h.available, h.handed⟩
  | start =>
    cases hs
    unfold Sys.start
    split <;> exact ⟨h.available, h.handed⟩
  | install =>
    simp only [Update.step] at hs
    split at hs
    · obtain ⟨file, -, rfl⟩ := Option.map_eq_some_iff.1 hs
      refine ⟨h.available, fun x hx upd hupd => ?_⟩
      rcases List.mem_append.1 hx with hx | hx
      · exact h.handed x hx upd hupd
      · rw [List.mem_singleton.1 hx] at hupd
        exact h.available upd hupd
    · cases hs
  | run k ev =>
    obtain ⟨j, -, hs⟩ := Option.bind_eq_some_iff.1 hs
    obtain ⟨hav, hhanded⟩ := runJob_offer hs
    refine ⟨fun upd hupd => h.available upd (hav ▸ hupd), fun x hx upd hupd => ?_⟩
    rcases hhanded with hsame | ⟨file, hmore⟩
    · exact h.handed x (hsame ▸ hx) upd hupd
    · rw [hmore] at hx
      rcases List.mem_append.1 hx with hx | hx
      · exact h.handed x hx upd hupd
      · rw [List.mem_singleton.1 hx] at hupd
        exact h.available upd hupd

theorem known_run {P : Release → Prop} {as : List Act} {s s' : Sys} (h : Known P s)
    (ho : ∀ upd, Act.offer upd ∈ as → P upd) (hr : run (step c) s as = some s') : Known P s' := by
  induction as generalizing s with
  | nil =>
    cases hr
    exact h
  | cons a as ih =>
    simp only [run] at hr
    cases hs : step c s a with
    | none => simp [hs] at hr
    | some t =>
      rw [hs] at hr
      refine ih (h.step (fun upd ha => ho upd (ha ▸ .head _)) hs) (fun upd hupd => ?_) hr
      exact ho upd (.tail _ hupd)

/-- **Every file that reaches the installer is published**: the release it was offered for is
newer than the app, has an APK for this device, and lists the hash of the file for it. -/
theorem handed_listed {as : List Act} {s : Sys} (hc : Meets (step c) careful .fresh as)
    (ho : ∀ upd, Act.offer upd ∈ as → Offered e served installed abis upd)
    (hr : run (step c) .fresh as = some s) :
    ∀ h ∈ s.handed, ∃ bytes upd o apk sums, h = (some bytes, some upd) ∧ Served e served o ∧
      upd.version = tagOf o ∧ isNewer upd.version installed = true ∧
      upd.apk = some ⟨apk.name, apk.sizeBytes.toNat⟩ ∧
      Published e served abis o apk sums (c.sha256 bytes) ∧ c.signed bytes = true := by
  intro h hh
  have hknown : Known (Offered e served installed abis) s :=
    known_run ⟨fun upd hupd => (by cases hupd), fun x hx => absurd hx List.not_mem_nil⟩ ho hr
  obtain ⟨bytes, upd, hbytes, hupd, hhash, hsigned⟩ :=
    (run_inv step_inv fresh_inv hc hr).verified.handed h hh
  obtain ⟨o, apk, sums, hserved, hversion, hnew, happ, hpub⟩ :=
    (hknown.handed h hh upd hupd).published hhash
  exact ⟨bytes, upd, o, apk, sums, Prod.ext hbytes hupd, hserved, hversion, hnew, happ, hpub,
    hsigned⟩

/-! ## A release with two APKs -/

def asset (name : String) : Json :=
  .obj [("name", .str name), ("browser_download_url", .str ("https://github.com/" ++ name)),
    ("size", .num "3")]

def latest : JSONObject :=
  [("tag_name", .str "v1.2.0"),
    ("assets", .arr [asset "app-x86_64.apk", asset "app-arm64-v8a.apk", asset "SHA256SUMS.txt"])]

def sumsText : String :=
  "0000  app-x86_64.apk\n" ++
    "BA7816BF8F01CFEA414140DE5DAE2223B00361A396177A9CB410FF61F20015AD *app-arm64-v8a.apk\n"

def getLatest (url : String) : Option String :=
  if url = api then some (Json.obj latest).print else some sumsText

def phone : Env where
  platform := { textPlatform with lowercase := String.lowercase, readLong := Text.toIntOrNull }
  readArray := fun _ => none
  space := fun c => decide (c = ' ' ∨ c = '\t')

def arm : Update.Release :=
  ⟨"1.2.0", some ⟨"app-arm64-v8a.apk", 3⟩, release.apkSha256⟩

/-- The release is found, with the second line of its hashes. -/
theorem getLatest_check : ∃ a, check phone getLatest "1.1.9" ["arm64-v8a"] = .available a ∧
    a.release = arm := by
  have hplain : Json.Plain (.obj latest) := by
    simp [latest, asset, Json.Plain, Json.PlainItems, Json.PlainFields, Json.isNumberChar]
  have hread : phone.platform.readObject = textPlatform.readObject := rfl
  have hget : (getLatest api).bind phone.platform.readObject = some latest := by
    rw [hread, getLatest, if_pos rfl, Option.bind_some, textPlatform_readsBack.object _ hplain]
  have hapk : apkFor (assetsOf phone.platform latest) ["arm64-v8a"] =
      some ⟨"app-arm64-v8a.apk", "https://github.com/app-arm64-v8a.apk", 3⟩ := by decide
  have hurl : sumsUrlOf (assetsOf phone.platform latest) =
      some "https://github.com/SHA256SUMS.txt" := by decide
  have hsums : getLatest "https://github.com/SHA256SUMS.txt" = some sumsText := by
    simp [getLatest, api]
  have hhash : parseSha256Sums phone sumsText "app-arm64-v8a.apk" = release.apkSha256 := by decide
  have hsha : sha256Of phone getLatest (apkFor (assetsOf phone.platform latest) ["arm64-v8a"])
      (sumsUrlOf (assetsOf phone.platform latest)) = some release.apkSha256 := by
    rw [hapk, hurl]
    simp only [sha256Of, hsums, Option.map_some, hhash]
  refine ⟨_, check_finds hget (by decide) (by decide) hsha, ?_⟩
  rw [Available.release, hapk]
  decide

def armJob : List Act := [.offer arm, .start] ++ opens 0 ++ finishes 0 ++ [.install]

theorem handed_listed_one : ∃ s, run (step abc) .fresh armJob = some s ∧ s.handed.length = 1 ∧
    ∀ h ∈ s.handed, ∃ bytes upd o apk sums, h = (some bytes, some upd) ∧
      Served phone (fun url text => getLatest url = some text) o ∧
      upd.version = tagOf o ∧ isNewer upd.version "1.1.9" = true ∧
      upd.apk = some ⟨apk.name, apk.sizeBytes.toNat⟩ ∧
      Published phone (fun url text => getLatest url = some text) ["arm64-v8a"] o apk sums
        (abc.sha256 bytes) ∧ abc.signed bytes = true := by
  have hc : Meets (step abc) careful .fresh armJob := by decide
  refine ⟨_, rfl, rfl, handed_listed hc (fun upd hupd => ?_) rfl⟩
  obtain rfl : upd = arm := by
    simpa [armJob, opens, finishes, reads] using hupd
  obtain ⟨a, hcheck, ha⟩ := getLatest_check
  rw [← ha]
  exact .checked (fun _ _ h => h) hcheck

end Handed

end Ghajar.UpdateChecker
