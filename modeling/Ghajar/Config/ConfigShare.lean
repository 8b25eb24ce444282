import Mathlib
import Ghajar.Config.FormsServed
import Ghajar.Lib.Numerals

/-!
# Links to share

The links `ConfigShare` writes, as far as their schemes have a user and a host, and what the parts
of `ConfigParser` make of them. A space is written as a plus sign: the reader of a query and of a
name takes it for a space, the reader of a user and of a password does not (`formDecode_enc`,
`pctDecode_enc`).
-/

namespace Ghajar.ConfigShare

open Ghajar ShareLink LinkParsers

/-! ## Links -/

/-- `URLEncoder.encode(s, "UTF-8")` -/
def enc (s : Chars) : Chars := s.flatMap fun c => if c = ' ' then ['+'] else ShareLink.enc [c]

/-- The pairs of a query, joined. -/
def joined (params : List (String × String)) : Chars :=
  List.intercalate ['&'] (params.map fun p => p.1.toList ++ '=' :: enc p.2.toList)

/-- The host as it stands in a link. -/
def hostOf (c : ProxyConfig) : Chars :=
  if ':' ∈ c.address.toList then '[' :: c.address.toList ++ [']'] else c.address.toList

def portOf (c : ProxyConfig) : Chars := (toString c.port).toList

/-- The query, if there is one, and the name. -/
def tail (query name : Chars) : Chars :=
  (if query = [] then [] else '?' :: query) ++ '#' :: enc name

/-- The user as it stands before the host. -/
def beforeHost (userInfo : Chars) : Chars :=
  if userInfo = [] ∨ userInfo = [':'] then [] else userInfo ++ ['@']

def simpleLink (scheme : String) (userInfo : Chars) (c : ProxyConfig)
    (params : List (String × String)) : Chars :=
  let query := joined (params.filter (·.2 ≠ ""))
  scheme.toList ++ ("://".toList ++ (beforeHost userInfo ++ (hostOf c ++ ':' :: portOf c) ++
    tail query c.name.toList))

/-- `takeIf { it > 0 }?.toString().orEmpty()` -/
def positive (n : Int) : String := if n > 0 then toString n else ""

def flag (b : Bool) : String := if b then "1" else ""

/-- `takeIf { it == a || it == b }.orEmpty()` -/
def oneOf (a b s : String) : String := if s = a ∨ s = b then s else ""

def hysteria2Params (c : ProxyConfig) : List (String × String) :=
  (if c.sni ≠ "" then [("sni", c.sni)] else []) ++
  (if c.alpn ≠ "" then [("alpn", c.alpn)] else []) ++
  (if c.allowInsecure then [("insecure", "1")] else []) ++
  (if c.hyObfsPassword ≠ "" then
    [("obfs", c.hyObfs.ifEmpty "salamander"), ("obfs-password", c.hyObfsPassword)] else []) ++
  (if c.hyUpMbps > 0 then [("upmbps", toString c.hyUpMbps)] else []) ++
  (if c.hyDownMbps > 0 then [("downmbps", toString c.hyDownMbps)] else [])

/-- The password is followed by `@` even where it is empty. -/
def hysteria2Link (c : ProxyConfig) : Chars :=
  "hysteria2".toList ++ ("://".toList ++ (enc c.password.toList ++ ['@'] ++
    (hostOf c ++ ':' :: portOf c) ++ tail (joined (hysteria2Params c)) c.name.toList))

/-- A user with a password, which is left out where it is empty. -/
def userPass (c : ProxyConfig) : Chars :=
  enc c.uuid.toList ++ (if c.password ≠ "" then ':' :: enc c.password.toList else [])

def tuicParams (c : ProxyConfig) : List (String × String) :=
  [("sni", c.sni), ("alpn", c.alpn), ("congestion_control", c.method), ("udp_relay_mode", c.mode),
    ("allow_insecure", flag c.allowInsecure)]

def masqueParams (c : ProxyConfig) : List (String × String) :=
  [("version", oneOf "1" "2" c.mode), ("path", c.path), ("sni", c.sni), ("alpn", c.alpn),
    ("fp", c.fingerprint), ("pin", c.pinnedCertSha256), ("insecure", flag c.allowInsecure),
    ("mtu", positive c.mtu)]

def anytlsParams (c : ProxyConfig) : List (String × String) :=
  [("sni", c.sni), ("fp", c.fingerprint), ("insecure", flag c.allowInsecure)]

def naiveParams (c : ProxyConfig) : List (String × String) :=
  [("sni", if c.sni ≠ c.address then c.sni else "")]

def sstpParams (c : ProxyConfig) : List (String × String) :=
  [("sni", c.sni), ("auth", oneOf "pap" "mschapv2" c.method),
    ("allow_insecure", flag c.allowInsecure), ("pin", c.pinnedCertSha256),
    ("mtu", positive c.mtu)]

/-- `other` writes the links of the remaining protocols. -/
def toLink (other : ProxyConfig → Chars) (c : ProxyConfig) : Chars :=
  match c.protocol with
  | "hysteria2" => hysteria2Link c
  | "tuic" => simpleLink "tuic" (enc c.uuid.toList ++ ':' :: enc c.password.toList) c (tuicParams c)
  | "masque" => simpleLink "masque" (if c.uuid = "" ∧ c.password = "" then [] else userPass c) c
      (masqueParams c)
  | "anytls" => simpleLink "anytls" (enc c.password.toList) c (anytlsParams c)
  | "naive" => simpleLink (if c.mode = "quic" then "naive+quic" else "naive+https") (userPass c) c
      (naiveParams c)
  | "sstp" => simpleLink "sstp" (enc c.uuid.toList ++ ':' :: enc c.password.toList) c (sstpParams c)
  | _ => other c

/-! ## Escaped text with plus signs -/

section Escaped

variable {s rest run : Chars} {c d : Char} {skip : Replaced}

/-- A space as the reader of a user takes it. -/
def plused (s : Chars) : Chars := s.map fun c => if c = ' ' then '+' else c

theorem enc_cons (c : Char) (s : Chars) :
    enc (c :: s) = (if c = ' ' then ['+'] else ShareLink.enc [c]) ++ enc s := List.flatMap_cons

theorem enc_cons_space (s : Chars) : enc (' ' :: s) = '+' :: enc s := by
  rw [enc_cons, if_pos rfl]
  rfl

theorem enc_append (s t : Chars) : enc (s ++ t) = enc s ++ enc t := List.flatMap_append

/-- Without a space, text is escaped as everywhere else. -/
theorem enc_eq (h : ' ' ∉ s) : enc s = ShareLink.enc s := by
  induction s with
  | nil => rfl
  | cons c s ih =>
    have hc : c ≠ ' ' := fun he => h (he ▸ List.mem_cons_self)
    rw [enc_cons, if_neg hc, ih fun hm => h (List.mem_cons_of_mem _ hm), ← ShareLink.enc_append]
    rfl

theorem enc_chars (h : c ∈ enc s) : safe c = true ∨ c = '+' := by
  obtain ⟨d, -, hd⟩ := List.mem_flatMap.1 h
  split at hd
  · exact .inr (List.mem_singleton.1 hd)
  · exact .inl (enc_safe c hd)

theorem not_mem_enc (h : safe d = false) (hp : d ≠ '+') : d ∉ enc s := fun hd => by
  rcases enc_chars hd with hd | hd
  · rw [h] at hd
    cases hd
  · exact hp hd

theorem enc_not_blank (h : c ∈ enc s) : Text.isWhitespace c = false := by
  rcases enc_chars h with h | rfl
  · exact safe_not_blank h
  · rfl

theorem enc_length (s : Chars) : s.length ≤ (enc s).length := by
  induction s with
  | nil => exact Nat.zero_le _
  | cons c s ih =>
    rw [enc_cons, List.length_append, List.length_cons]
    have h1 : 1 ≤ (if c = ' ' then ['+'] else ShareLink.enc [c]).length := by
      split
      · exact Nat.le_refl _
      · exact ShareLink.enc_length [c]
    omega

theorem enc_eq_nil_iff : enc s = [] ↔ s = [] := by
  constructor
  · intro h
    have := enc_length s
    rw [h, List.length_nil] at this
    exact List.length_eq_zero_iff.1 (Nat.le_zero.1 this)
  · rintro rfl
    rfl

/-- A run of characters that are all escaped is decoded as one. -/
theorem decodeN_run {n : ℕ} (hne : run ≠ []) (hrun : ∀ d ∈ run, ShareLink.plain d = false)
    (hrest : rest.head? ≠ some '%') :
    decodeN skip (n + 1) (ShareLink.enc run ++ rest) = (decodeN skip n rest).map (run ++ ·) := by
  have hesc := @escapes_run (Utf8.encode run) rest hrest fun b hb => by
    obtain ⟨d, hd, hb⟩ := List.mem_flatMap.1 hb
    exact escaped_of_not_plain (hrun d hd) hb
  rw [← ShareLink.enc_eq] at hesc
  obtain ⟨t, ht⟩ := enc_head hne hrun
  rw [ht, List.cons_append] at hesc ⊢
  rw [decodeN, if_neg (by decide), if_pos rfl, hesc, Option.bind_some, Utf8.decode_encode]

theorem decodeN_enc {n : ℕ} (h : (enc s).length ≤ n) : decodeN skip n (enc s) = some s := by
  induction n generalizing s with
  | zero =>
    have := enc_length s
    obtain rfl : s = [] := List.length_eq_zero_iff.1 (by omega)
    rfl
  | succ n ih =>
    cases s with
    | nil => rfl
    | cons c s =>
      by_cases hs : c = ' '
      · subst hs
        rw [enc_cons_space, List.length_cons] at h
        rw [enc_cons_space, decodeN, if_pos rfl, ih (by omega)]
        rfl
      by_cases hc : ShareLink.plain c = true
      · have hone : enc (c :: s) = c :: enc s := by
          rw [enc_cons, if_neg hs, enc_cons_plain hc]
          rfl
        have hplus : c ≠ '+' := fun he => by rw [he] at hc; cases hc
        have hpct : c ≠ '%' := fun he => by rw [he] at hc; cases hc
        rw [hone, List.length_cons] at h
        rw [hone, decodeN, if_neg hplus, if_neg hpct, ih (by omega)]
        rfl
      -- the run ends at a character that stands for itself or at a space
      · let p : Char → Bool := fun d => !ShareLink.plain d && d != ' '
        have hp : p c = true := by simp [p, hc, hs]
        obtain ⟨hsplit, hne, hrun, hrest⟩ : (c :: s).takeWhile p ++ (c :: s).dropWhile p = c :: s ∧
            (c :: s).takeWhile p ≠ [] ∧
            (∀ d ∈ (c :: s).takeWhile p, ShareLink.plain d = false ∧ d ≠ ' ') ∧
            ∀ d ∈ ((c :: s).dropWhile p).head?, ShareLink.plain d = true ∨ d = ' ' := by
          refine ⟨List.takeWhile_append_dropWhile, ?_, fun d hd => ?_, fun d hd => ?_⟩
          · rw [List.takeWhile_cons_of_pos hp]
            exact List.cons_ne_nil _ _
          · simpa [p] using List.mem_takeWhile_imp hd
          · have := List.head?_dropWhile_not p (c :: s)
            rw [hd] at this
            by_cases hd' : d = ' '
            · exact .inr hd'
            · exact .inl (by simpa [p, hd'] using this)
        generalize (c :: s).takeWhile p = run at hsplit hne hrun
        generalize (c :: s).dropWhile p = rest at hsplit hrest
        have hhead : (enc rest).head? ≠ some '%' := by
          cases rest with
          | nil => exact fun h => by cases h
          | cons d ds =>
            rcases hrest d rfl with hd | rfl
            · have hd' : d ≠ ' ' := fun he => by rw [he] at hd; cases hd
              rw [enc_cons, if_neg hd', enc_cons_plain hd]
              intro he
              obtain rfl : d = '%' := by simpa using he
              cases hd
            · rw [enc_cons_space]
              exact fun h => by cases h
        have hword : enc run = ShareLink.enc run := enc_eq fun hm => (hrun _ hm).2 rfl
        have hpos : 0 < run.length := List.length_pos_iff.2 hne
        have hlen := enc_length run
        rw [← hsplit, enc_append, List.length_append] at h
        rw [← hsplit, enc_append, hword, decodeN_run hne (fun d hd => (hrun d hd).1) hhead,
          ih (by omega)]
        rfl

/-- The reader of names and of queries gets the text back. -/
theorem formDecode_enc : formDecode skip (enc s) = s := by
  rw [formDecode, urlDecode, decodeN_enc (Nat.le_refl _)]
  rfl

theorem enc_plus : ShareLink.enc ['+'] = ['%', '2', 'B'] := by decide

theorem escaped_plus (s : Chars) :
    (enc s).flatMap (fun c => if c = '+' then ['%', '2', 'B'] else [c]) =
      ShareLink.enc (plused s) := by
  induction s with
  | nil => rfl
  | cons c s ih =>
    by_cases hc : c = ' '
    · subst hc
      rw [enc_cons_space, List.flatMap_cons, ih, if_pos rfl, ← enc_plus, ← ShareLink.enc_append]
      rfl
    · have hmap : ∀ d ∈ ShareLink.enc [c], (if d = '+' then ['%', '2', 'B'] else [d]) = [d] := by
        rintro d hd
        refine if_neg ?_
        rintro rfl
        exact ShareLink.not_mem_enc rfl hd
      have hcons : plused (c :: s) = [c] ++ plused s := by
        rw [plused, List.map_cons, if_neg hc]
        rfl
      rw [enc_cons, if_neg hc, List.flatMap_append, ih, List.flatMap_congr hmap,
        List.flatMap_singleton', hcons, ShareLink.enc_append]

/-- The reader of users gets plus signs for spaces. -/
theorem pctDecode_enc : pctDecode skip (enc s) = plused s := by
  rw [pctDecode, escaped_plus, urlDecode_enc]
  rfl

theorem plused_eq_iff : plused s = s ↔ ' ' ∉ s := by
  constructor
  · intro h hm
    have hplus : ' ' ∈ plused s := by rwa [h]
    obtain ⟨d, -, hd⟩ := List.mem_map.1 hplus
    split at hd
    · cases hd
    · exact absurd hd ‹_›
  · intro h
    have hmap : ∀ c ∈ s, (if c = ' ' then '+' else c) = c := by
      rintro c hc
      refine if_neg ?_
      rintro rfl
      exact h hc
    rw [plused, List.map_congr_left hmap, List.map_id']

theorem plused_plused : plused (plused s) = plused s := by
  rw [plused_eq_iff]
  intro hm
  obtain ⟨d, -, hd⟩ := List.mem_map.1 hm
  split at hd
  · cases hd
  · exact absurd hd ‹_›

end Escaped

/-! ## The parts of a link -/

section Parts

variable {s name fallback user : Chars} {c : Char} {skip : Replaced} {k v : String}
  {params : List (String × String)}

/-- The pairs that are written. -/
def written (params : List (String × String)) : List (String × String) := params.filter (·.2 ≠ "")

/-- What a query holds of these pairs. -/
def sent (params : List (String × String)) : Query :=
  (written params).map fun p => (p.1.toList, p.2.toList)

theorem written_names (hk : Names (params.map Prod.fst)) :
    ∀ p ∈ written params, p.1.toList ≠ [] ∧ ∀ c ∈ p.1.toList, ShareLink.plain c = true := by
  intro p hp
  obtain ⟨hne, hplain⟩ := hk.1 p.1 (List.mem_map_of_mem (List.mem_of_mem_filter hp))
  exact ⟨fun he => hne (String.toList_eq_nil_iff.1 he), hplain⟩

theorem part_free (hk : Names (params.map Prod.fst)) :
    ∀ w ∈ (written params).map (fun p => p.1.toList ++ '=' :: enc p.2.toList), '&' ∉ w := by
  intro w hw hm
  obtain ⟨p, hp, rfl⟩ := List.mem_map.1 hw
  rcases List.mem_append.1 hm with hm | hm
  · cases (written_names hk p hp).2 _ hm
  rcases List.mem_cons.1 hm with hm | hm
  · cases hm
  · exact not_mem_enc rfl (by decide) hm

theorem joined_chars (hk : Names (params.map Prod.fst)) (h : c ∈ joined (written params)) :
    safe c = true ∨ c = '+' ∨ c = '&' ∨ c = '=' := by
  rcases mem_intercalate h with h | ⟨w, hw, h⟩
  · exact .inr (.inr (.inl (List.mem_singleton.1 h)))
  obtain ⟨p, hp, rfl⟩ := List.mem_map.1 hw
  rcases List.mem_append.1 h with h | h
  · exact .inl (safe_of_plain ((written_names hk p hp).2 c h))
  rcases List.mem_cons.1 h with rfl | h
  · exact .inr (.inr (.inr rfl))
  · rcases enc_chars h with h | h
    · exact .inl h
    · exact .inr (.inl h)

theorem read_part (hk : Names (params.map Prod.fst)) :
    ∀ p ∈ written params, ((fun part => if '=' ∈ part ∧ trim (before '=' part) ≠ [] then
      some (trim (before '=' part), formDecode skip (after '=' part)) else none) ∘
        fun p : String × String => p.1.toList ++ '=' :: enc p.2.toList) p =
      some (p.1.toList, p.2.toList) := by
  intro p hp
  obtain ⟨hne, hplain⟩ := written_names hk p hp
  obtain ⟨hb, ha⟩ := @takeWhile_sep '=' p.1.toList (enc p.2.toList) fun hm => by cases hplain _ hm
  have ht : trim p.1.toList = p.1.toList :=
    trim_of_not_blank fun c hc => safe_not_blank (safe_of_plain (hplain c hc))
  have hin : '=' ∈ p.1.toList ++ '=' :: enc p.2.toList := List.mem_append_right _ List.mem_cons_self
  rw [Function.comp_apply]
  simp only [hb, ha, ht, formDecode_enc]
  rw [if_pos ⟨hin, hne⟩]

/-- A query is read as the pairs that were written. -/
theorem parseQuery_joined (hk : Names (params.map Prod.fst)) :
    parseQuery skip (joined (written params)) = sent params := by
  by_cases hnil : written params = []
  · rw [joined, sent, hnil]
    rfl
  · rw [parseQuery, joined, split_intercalate (by simpa using hnil) (part_free hk),
      List.filterMap_map, List.filterMap_congr (read_part hk), sent, ← List.filterMap_eq_map]
    rfl

theorem splitUserUri_tail (hk : Names (params.map Prod.fst)) (hs : ∀ c ∈ s, c ≠ '#' ∧ c ≠ '?') :
    splitUserUri skip (s ++ tail (joined (written params)) name) fallback =
      (ifEmpty (trim name) fallback, trim s, sent params) := by
  have hquery := @parseQuery_joined skip params hk
  have hhash : '#' ∉ joined (written params) := fun h => by
    rcases joined_chars hk h with h | h | h | h
    all_goals cases h
  unfold tail splitUserUri
  generalize joined (written params) = q at hquery hhash
  have hno : '#' ∉ s ++ (if q = [] then [] else '?' :: q) := by
    intro h
    rcases List.mem_append.1 h with h | h
    · exact (hs _ h).1 rfl
    split at h
    · cases h
    · rcases List.mem_cons.1 h with h | h
      · cases h
      · exact hhash h
  obtain ⟨hmain, hname⟩ := @takeWhile_sep '#' _ (enc name) hno
  rw [← List.append_assoc]
  dsimp only
  rw [hmain, hname, formDecode_enc]
  have hq : '?' ∉ s := fun h => (hs _ h).2 rfl
  split
  · next he =>
    subst he
    rw [List.append_nil, before_none hq, after_none hq, hquery]
  · obtain ⟨hb, ha⟩ := @takeWhile_sep '?' s q hq
    rw [hb, ha, hquery]

/-! Values of the query -/

theorem get?_missing {q : Query} {name : String}
    (h : ∀ p ∈ q, Text.equalsIgnoreCase (String.ofList p.1) name = false) :
    q.get? name = none := by
  unfold Query.get?
  rw [Option.map_eq_none_iff, List.find?_eq_none]
  intro p hp
  rw [h p (List.mem_reverse.1 hp)]
  decide

theorem sent_cons (k v : String) : sent ((k, v) :: params) =
    if v = "" then sent params else (k.toList, v.toList) :: sent params := by
  unfold sent written
  by_cases hv : v = ""
  · rw [if_pos hv, List.filter_cons_of_neg (by simpa using hv)]
  · rw [if_neg hv, List.filter_cons_of_pos (by simpa using hv), List.map_cons]

theorem get?_unsent {key : String}
    (h : ∀ k ∈ params.map Prod.fst, Text.equalsIgnoreCase k key = false) :
    (sent params).get? key = none := by
  refine get?_missing fun q hq => ?_
  obtain ⟨p, hp, rfl⟩ := List.mem_map.1 hq
  rw [String.ofList_toList]
  exact h p.1 (List.mem_map_of_mem (List.mem_of_mem_filter hp))

/-- What is written is found under its name. -/
theorem get?_sent (hk : Names (params.map Prod.fst)) (h : (k, v) ∈ params) :
    (sent params).get? k = if v = "" then none else some v.toList := by
  obtain ⟨-, hd⟩ := hk
  induction params with
  | nil => cases h
  | cons p params ih =>
    obtain ⟨k', v'⟩ := p
    rw [List.map_cons, List.map_cons, List.nodup_cons] at hd
    rw [sent_cons]
    rcases List.mem_cons.1 h with he | h
    · injection he with h1 h2
      subst h1 h2
      have hno : (sent params).get? k = none := get?_unsent fun k' hk' => by
        rw [Text.equalsIgnoreCase, beq_eq_false_iff_ne]
        intro he
        exact hd.1 (List.mem_map.2 ⟨k', hk', he⟩)
      by_cases hv : v = ""
      · rw [if_pos hv, if_pos hv, hno]
      · have hself : Text.equalsIgnoreCase k k = true := by
          rw [Text.equalsIgnoreCase, beq_self_eq_true]
        rw [if_neg hv, if_neg hv, get?_cons k (.inl hno), String.ofList_toList, if_pos hself]
    · have hother : Text.equalsIgnoreCase k' k = false := by
        rw [Text.equalsIgnoreCase, beq_eq_false_iff_ne]
        intro he
        exact hd.1 (List.mem_map.2 ⟨k, List.mem_map_of_mem h, he.symm⟩)
      have ih := ih h hd.2
      by_cases hv : v' = ""
      · rw [if_pos hv, ih]
      · rw [if_neg hv, get?_cons k (.inr (by rwa [String.ofList_toList])), String.ofList_toList,
          hother, ih]
        rfl

/-- These are the names, each one only once. -/
structure Named (params : List (String × String)) (names : List String) : Prop where
  fst : params.map Prod.fst = names
  names : Names names

variable {names : List String} {key : String}

theorem Named.fst_names (hk : Named params names) : Names (params.map Prod.fst) := by
  rw [hk.fst]
  exact hk.names

theorem Named.get? (hk : Named params names) (i : Nat) (h : params[i]? = some (k, v)) :
    (sent params).get? k = if v = "" then none else some v.toList :=
  get?_sent hk.fst_names (List.mem_of_getElem? h)

theorem Named.get (hk : Named params names) (i : Nat) (h : params[i]? = some (k, v)) :
    text ((sent params).get k) = v := by
  rw [Query.get, hk.get? i h]
  by_cases hv : v = ""
  · rw [if_pos hv, hv]
    rfl
  · rw [if_neg hv]
    exact String.ofList_toList

theorem Named.get?_other (hk : Named params names)
    (h : (names.all fun k => !Text.equalsIgnoreCase k key) = true) :
    (sent params).get? key = none := by
  refine get?_unsent fun k hk' => ?_
  rw [hk.fst] at hk'
  simpa using List.all_eq_true.1 h k hk'

theorem Named.get?_flag {b : Bool} (hk : Named params names) (i : Nat)
    (h : params[i]? = some (k, flag b)) :
    (sent params).get? k = if b then some ['1'] else none := by
  rw [hk.get? i h]
  cases b with
  | true => rfl
  | false => rfl

theorem Named.insecure {b : Bool} (hk : Named params names) (i : Nat)
    (h : params[i]? = some ("insecure", flag b))
    (h1 : (names.all fun k => !Text.equalsIgnoreCase k "allowInsecure") = true)
    (h2 : (names.all fun k => !Text.equalsIgnoreCase k "allow_insecure") = true) :
    LinkParsers.insecure (sent params) = b := by
  rw [LinkParsers.insecure, hk.get?_flag i h, hk.get?_other h1, hk.get?_other h2]
  cases b with
  | true => rfl
  | false => rfl

theorem Named.allow_insecure {b : Bool} (hk : Named params names) (i : Nat)
    (h : params[i]? = some ("allow_insecure", flag b))
    (h1 : (names.all fun k => !Text.equalsIgnoreCase k "insecure") = true)
    (h2 : (names.all fun k => !Text.equalsIgnoreCase k "allowInsecure") = true) :
    LinkParsers.insecure (sent params) = b := by
  rw [LinkParsers.insecure, hk.get?_flag i h, hk.get?_other h1, hk.get?_other h2]
  cases b with
  | true => rfl
  | false => rfl

theorem toString_ne_nil {n : Int} (h0 : 0 ≤ n) (hn : n ≤ 2147483647) : toString n ≠ "" := by
  intro he
  have hr := Text.toIntOrNull_toString h0 hn
  rw [he] at hr
  cases hr

/-- A number that is not negative is read as it is written, and none as zero. -/
theorem Named.number {n : Int} (hk : Named params names) (i : Nat)
    (h : params[i]? = some (k, positive n)) (hn : n ≤ 2147483647) :
    ((sent params).get? k).bind toIntOrNull = if n > 0 then some n else none := by
  rw [hk.get? i h, positive]
  by_cases hpos : n > 0
  · rw [if_pos hpos, if_neg (toString_ne_nil hpos.le hn), Option.bind_some, toIntOrNull,
      String.ofList_toList, Text.toIntOrNull_toString hpos.le hn, if_pos hpos]
  · rw [if_neg hpos, if_pos rfl, if_neg hpos]
    rfl

theorem Named.within {lo hi n : Int} (hk : Named params names) (i : Nat)
    (h : params[i]? = some (k, positive n)) (hlo : 0 < lo) (hn : n ≤ 2147483647) :
    LinkParsers.within lo hi ((sent params).get? k) = if lo ≤ n ∧ n ≤ hi then n else 0 := by
  rw [LinkParsers.within, hk.number i h hn]
  by_cases hpos : n > 0
  · rw [if_pos hpos]
  · rw [if_neg hpos, if_neg fun h => by omega]

/-! Users and servers -/

/-- A server that a link can carry. -/
structure Addressed (c : ProxyConfig) : Prop where
  some : c.address ≠ ""
  trimmed : trim c.address.toList = c.address.toList
  chars : Unseparated c.address.toList
  host : Host c.address.toList
  port : 1 ≤ c.port ∧ c.port ≤ 65535

theorem quiet_enc : ProtocolForms.Quiet (enc s) := fun _ hc =>
  ⟨fun he => not_mem_enc rfl (by decide) (he ▸ hc), fun he => not_mem_enc rfl (by decide) (he ▸ hc),
    enc_not_blank hc⟩

variable {c : ProxyConfig}

theorem portOf_plain (h : 0 ≤ c.port) : ∀ d ∈ portOf c, Text.isWhitespace d = false := by
  obtain ⟨m, hm⟩ := Int.eq_ofNat_of_zero_le h
  intro d hd
  have hdigit : d.isDigit = true := by
    rw [portOf, hm, show (toString (m : ℤ)).toList = Nat.toDigits 10 m from Nat.toList_repr] at hd
    exact Nat.isDigit_of_mem_toDigits (by decide) (by decide) hd
  refine safe_not_blank (safe_of_plain (decide_eq_true (.inl ?_)))
  rw [Char.isAlphanum, hdigit, Bool.or_true]

theorem Addressed.trim_port (h : Addressed c) : trim (portOf c) = portOf c :=
  trim_of_not_blank (portOf_plain (by have := h.port.1; omega))

theorem Addressed.served (h : Addressed c) :
    ProtocolForms.Served c.address.toList (portOf c) c.port := by
  have hport : Text.toIntOrNull (toString c.port) = Option.some c.port :=
    Text.toIntOrNull_toString (by have := h.port.1; omega) (by have := h.port.2; omega)
  refine ⟨⟨?_, ?_, ?_⟩, ?_⟩
  · rw [h.trimmed]
    exact fun he => h.some (String.toList_eq_nil_iff.1 he)
  · rw [h.trimmed]
    exact fun hm => (h.chars _ hm).2.2.2 rfl
  · rw [h.trim_port, portOf, String.ofList_toList]
    exact hport
  · rw [h.trimmed]
    exact h.chars

theorem Addressed.hostPort (h : Addressed c) :
    hostOf c ++ ':' :: portOf c = ShareLink.hostPort c.address.toList (portOf c) := by
  rw [hostPort_eq h.served.not_blank, bracketed, h.trimmed, h.trim_port, hostOf]
  by_cases hc : ':' ∈ c.address.toList
  · rw [if_pos hc, if_pos ⟨hc, h.host.1⟩]
  · rw [if_neg hc, if_neg fun hh => hc hh.1]

theorem Addressed.read (h : Addressed c) (r : ProtocolForms.Reading) {uhp : Chars}
    (hb : afterLast '@' uhp = hostOf c ++ ':' :: portOf c) :
    r.read uhp = Option.some (c.address.toList, c.port) := by
  have hh : Host (trim c.address.toList) := by
    rw [h.trimmed]
    exact h.host
  rw [h.hostPort] at hb
  rw [ProtocolForms.Reading.read_served h.served hh hb, h.trimmed]

theorem Addressed.at (h : Addressed c) : '@' ∉ hostOf c ++ ':' :: portOf c := by
  rw [h.hostPort]
  exact h.served.at

/-- The parts of a link to share. -/
theorem Addressed.split (h : Addressed c) (hu : ProtocolForms.Quiet user)
    (hk : Names (params.map Prod.fst)) :
    splitUserUri skip (user ++ (hostOf c ++ ':' :: portOf c) ++
        tail (joined (written params)) name) fallback =
      (ifEmpty (trim name) fallback, user ++ (hostOf c ++ ':' :: portOf c), sent params) := by
  have hfree : ∀ d ∈ user ++ ShareLink.hostPort c.address.toList (portOf c), d ≠ '#' ∧ d ≠ '?' := by
    intro d hd
    rcases List.mem_append.1 hd with hd | hd
    · exact ⟨(hu d hd).1, (hu d hd).2.1⟩
    · exact ⟨(h.served.free d hd).1, (h.served.free d hd).2.1⟩
  have hnone : Names (([] : List (String × Option Chars)).map Prod.fst) :=
    names_of rfl List.nodup_nil
  -- a link without a query shows that no blank is at the ends
  have hends : trim (user ++ ShareLink.hostPort c.address.toList (portOf c)) =
      user ++ ShareLink.hostPort c.address.toList (portOf c) := by
    have h1 := @splitUserUri_link skip _ ['x'] fallback [] hnone hfree
    have h2 := @ProtocolForms.split_link skip user _ _ ['x'] fallback [] _ h.served hu hnone rfl
    rw [h2] at h1
    injection h1 with _ h1
    injection h1 with h1
    exact h1.symm
  rw [h.hostPort, splitUserUri_tail hk hfree, hends]

end Parts

/-! ## Users -/

section Users

variable {u w host user : Chars} {skip : Replaced}

theorem colon_not_mem : ':' ∉ enc u := not_mem_enc rfl (by decide)

theorem quiet_before (h : ProtocolForms.Quiet user) : ProtocolForms.Quiet (beforeHost user) := by
  unfold beforeHost
  split
  · exact ProtocolForms.quiet_nil
  · exact ProtocolForms.quiet_append h
      (ProtocolForms.quiet_cons (by decide) ProtocolForms.quiet_nil)

theorem before_some (h : user ≠ []) (hc : user ≠ [':']) : beforeHost user = user ++ ['@'] :=
  if_neg fun he => he.elim h hc

/-- A user and a password, read with plus signs for spaces. -/
theorem carries_pair (hat : '@' ∉ host) (hu : u ≠ []) :
    ProtocolForms.Carries skip (beforeHost (enc u ++ ':' :: enc w)) host (plused u) (plused w) := by
  have hne : enc u ≠ [] := fun he => hu (enc_eq_nil_iff.1 he)
  have hb : beforeHost (enc u ++ ':' :: enc w) = enc u ++ ':' :: enc w ++ ['@'] := by
    refine before_some (List.append_ne_nil_of_left_ne_nil hne _) fun he => hne ?_
    cases hu' : enc u with
    | nil => rfl
    | cons d ds =>
      rw [hu', List.cons_append] at he
      injection he with _ he
      simp at he
  obtain ⟨huser, hhost⟩ := @ProtocolForms.userOf_at (enc u ++ ':' :: enc w) host hat
  obtain ⟨h1, h2⟩ := @takeWhile_sep ':' (enc u) (enc w) colon_not_mem
  rw [hb]
  constructor
  · rw [List.append_assoc, List.singleton_append, hhost]
  · rw [List.append_assoc, List.singleton_append, huser, h1, pctDecode_enc]
  · rw [List.append_assoc, List.singleton_append, huser, h2, pctDecode_enc]

/-- The same where either may be empty. -/
theorem carries_userPass {c : ProxyConfig} (hat : '@' ∉ host) :
    ProtocolForms.Carries skip (beforeHost (userPass c)) host (plused c.uuid.toList)
      (plused c.password.toList) := by
  by_cases hw : c.password = ""
  · have hpass : userPass c = enc c.uuid.toList := by
      rw [userPass, if_neg (not_not.2 hw), List.append_nil]
    rw [hpass, hw]
    by_cases hu : c.uuid = ""
    · rw [hu]
      refine ⟨afterLast_none hat, ?_, ?_⟩
      all_goals
        rw [show beforeHost (enc "".toList) ++ host = host from rfl, userOf, if_neg hat]
        rfl
    · have hne : enc c.uuid.toList ≠ [] := fun he =>
        hu (String.toList_eq_nil_iff.1 (enc_eq_nil_iff.1 he))
      have hcolon : enc c.uuid.toList ≠ [':'] := fun he =>
        colon_not_mem (u := c.uuid.toList) (by rw [he]; exact List.mem_cons_self)
      obtain ⟨huser, hhost⟩ := @ProtocolForms.userOf_at (enc c.uuid.toList) host hat
      rw [before_some hne hcolon]
      constructor
      · rw [List.append_assoc, List.singleton_append, hhost]
      · rw [List.append_assoc, List.singleton_append, huser, before_none colon_not_mem,
          pctDecode_enc]
      · rw [List.append_assoc, List.singleton_append, huser, after_none colon_not_mem]
        rfl
  · have hpass : userPass c = enc c.uuid.toList ++ ':' :: enc c.password.toList := by
      rw [userPass, if_pos hw]
    have hne : enc c.password.toList ≠ [] := fun he =>
      hw (String.toList_eq_nil_iff.1 (enc_eq_nil_iff.1 he))
    have hb : beforeHost (userPass c) = userPass c ++ ['@'] := by
      rw [hpass]
      refine before_some (List.append_ne_nil_of_right_ne_nil _ (List.cons_ne_nil _ _)) ?_
      refine fun he => hne ?_
      cases hu : enc c.uuid.toList with
      | nil =>
        rw [hu, List.nil_append] at he
        injection he
      | cons d ds =>
        rw [hu, List.cons_append] at he
        injection he with _ he
        simp at he
    obtain ⟨huser, hhost⟩ := @ProtocolForms.userOf_at (userPass c) host hat
    obtain ⟨h1, h2⟩ := @takeWhile_sep ':' (enc c.uuid.toList) (enc c.password.toList) colon_not_mem
    rw [hb]
    constructor
    · rw [List.append_assoc, List.singleton_append, hhost]
    · rw [List.append_assoc, List.singleton_append, huser, hpass, h1, pctDecode_enc]
    · rw [List.append_assoc, List.singleton_append, huser, hpass, h2, pctDecode_enc]

end Users

end Ghajar.ConfigShare
