import Ghajar.Config.AmneziaWg
import Ghajar.Lib.Base64
import Ghajar.Lib.Infix
import Mathlib

/-!
# A subscription's body

`parseBundle` looks which format a text is in and hands it to that format's reader; a list of
links goes to the readers of their schemes line by line. `parseBody` reads what a server sent,
a text or the Base64 of one. `same_list_iff` compares the two ways a text can come.
-/

namespace Ghajar

open Awg (trim)

/-- The readers of the formats. -/
structure Readers (Config : Type) where
  wireguardConf : List Char → Option Config
  jsonOutbounds : List Char → List Config
  clash : List Char → List Config
  /-- What stands behind the scheme. -/
  link : String → List Char → Option Config
  bridge : List Char → Option Config

/-- `\s` of a regular expression. -/
def isSpace (c : Char) : Bool :=
  (c.toNat == 0x85 || Text.isWhitespace c) && !(28 ≤ c.toNat && c.toNat ≤ 31)

/-- Where `$` matches. -/
def endsLine (c : Char) : Bool :=
  let n := c.toNat
  (10 ≤ n && n ≤ 13) || n == 0x85 || n == 0x2028 || n == 0x2029

/-- What stands behind each `^`. -/
def lineStarts (cs : List Char) : List (List Char) :=
  cs :: cs.tails.filterMap fun
    | c :: rest => if endsLine c then some rest else none
    | [] => none

namespace ForeignImport

/-- `proxies\s*:` at the start of a line. -/
def looksLikeClash (text : List Char) : Bool :=
  let t := text.dropWhile fun c => c ∈ ['\uFEFF', ' ', '\n', '\r', '\t']
  t.head? ≠ some '\x7b' ∧ t.head? ≠ some '[' ∧
    (lineStarts t).any fun l =>
      let l := l.dropWhile isSpace
      "proxies".toList <+: l ∧ ((l.drop 7).dropWhile isSpace).head? = some ':'

end ForeignImport

namespace ConfigParser

open Awg.ConfigParser (lowercase)

/-- The schemes in the order they are tried, those before the bridge lines and those behind. -/
def schemes : List String :=
  ["vless://", "vmess://", "trojan://", "ss://", "socks5://", "socks://", "http://",
    "hysteria2://", "hy2://", "tuic://", "hysteria://", "anytls://", "masque://", "tailscale://",
    "tailcat://", "ssh://", "openconnect://", "anyconnect://", "dnstt://", "mieru://", "mierus://",
    "brook://"]

def laterSchemes : List String :=
  ["naive+https://", "naive+quic://", "naive://", "juicity://", "sstp://", "softether://",
    "amneziawg://", "awg://", "vaydns://", "noizdns://", "slipstream://", "masterdns://",
    "stormdns://", "cottendns://", "ikev2://", "wireguard://", "wg://"]

/-- `(obfs4|webtunnel|snowflake|meek_lite)\s`, behind `bridge\s+` or not. -/
def isBridge (line : List Char) : Bool :=
  let starts (word : String) (cs : List Char) : Bool :=
    word.toList.map Text.foldCase <+: cs.map Text.foldCase
  let transport (cs : List Char) : Bool :=
    ["obfs4", "webtunnel", "snowflake", "meek_lite"].any fun word =>
      starts word cs && ((cs.drop word.length).head?.any isSpace)
  transport line ||
    (starts "bridge" line && (line.drop 6).head?.any isSpace &&
      transport ((line.drop 6).dropWhile isSpace))

section Readers

variable {Config : Type} (readers : Readers Config)

def parse (uri : List Char) : Option Config :=
  let trimmed := trim Text.isWhitespace uri
  let lower := lowercase trimmed
  let byScheme (ss : List String) := ss.find? fun s => s.toList <+: lower
  match byScheme schemes with
  | some s => readers.link s (trimmed.drop s.length)
  | none =>
    if isBridge trimmed then readers.bridge trimmed
    else match byScheme laterSchemes with
      | some s => readers.link s (trimmed.drop s.length)
      | none =>
        if "[interface]".toList <:+: lower ∧ "[peer]".toList <:+: lower then
          readers.wireguardConf trimmed
        else none

/-- The first reader that finds something. -/
def parseBundle (text : List Char) : List Config :=
  let trimmed := trim Text.isWhitespace text
  if trimmed = [] then []
  else
    let lower := lowercase trimmed
    let single := if "[interface]".toList <:+: lower ∧ "[peer]".toList <:+: lower then
      (readers.wireguardConf trimmed).toList else []
    let json := if trimmed.head? = some '\x7b' ∨ trimmed.head? = some '[' then
      readers.jsonOutbounds trimmed else []
    let clash := if ForeignImport.looksLikeClash trimmed then readers.clash trimmed else []
    if single ≠ [] then single
    else if json ≠ [] then json
    else if clash ≠ [] then clash
    else (((trimmed.splitOnP fun c => c = '\n' ∨ c = '\r').map (trim Text.isWhitespace)).filter
      (· ≠ [])).filterMap (parse readers)

end Readers

end ConfigParser

/-- Why a body has no configuration. -/
inductive Kind where
  | empty
  | notConfig
  | clash
  deriving Repr, DecidableEq

namespace SubscriptionFetcher

open Awg.ConfigParser (lowercase)

def SCHEMES : List String :=
  ["vless://", "vmess://", "trojan://", "ss://", "ssr://",
    "socks5://", "socks4://", "socks://", "http://",
    "hysteria2://", "hysteria://", "hy2://", "hy://", "tuic://",
    "ikev2://", "wireguard://", "wg://", "warp://", "juicity://",
    "anytls://", "mieru://", "naive+", "ssh://", "openconnect://", "anyconnect://", "dnstt://",
    "vaydns://", "noizdns://", "masterdns://", "stormdns://", "cottendns://", "slipstream://",
    "mieru://", "mierus://", "brook://", "amneziawg://", "juicity://", "naive+https://",
    "naive+quic://", "sstp://", "softether://"]

def hasConfig (text : List Char) : Bool :=
  let lower := lowercase text
  let t := trim Text.isWhitespace text
  (SCHEMES.any fun s => s.toList <:+: lower) ||
    ((t.head? = some '\x7b' ∨ t.head? = some '[') ∧
      ("\"outbounds\"".toList <:+: lower ∨ "\"protocol\"".toList <:+: lower))

/-- `(?m)^\s*proxies:\s*$` -/
def listsProxies (lower : List Char) : Bool :=
  (lineStarts lower).any fun l =>
    let l := l.dropWhile isSpace
    let rest := l.drop 8
    "proxies:".toList <+: l ∧ (rest.all isSpace ∨ (rest.takeWhile isSpace).any endsLine)

def classify (text : List Char) : Kind :=
  let t := trim Text.isWhitespace text
  let lower := lowercase t
  let isYaml : Bool := t.head? ≠ some '\x7b' ∧ t.head? ≠ some '[' ∧
    ("proxy-groups:".toList <:+: lower ∨ listsProxies lower)
  if t = [] then .empty else if isYaml then .clash else .notConfig

/-- Marks that are not seen. -/
def isMark (c : Char) : Bool := c ∈ ['\uFEFF', '\u200B', '\u200E', '\u200F']

def strip (raw : List Char) : List Char :=
  trim Text.isWhitespace (raw.filter fun c => !isMark c)

/-- The alphabets; whether padding may lack makes no difference to the decoder. -/
def flags : List Base64.Alphabet := [.standard, .urlSafe, .standard, .urlSafe]

/-- In units of 16 bits. -/
def length (cs : List Char) : Nat := (cs.map fun c => if c.toNat < 65536 then 1 else 2).sum

def packed (trimmed : List Char) : List Char := trimmed.filter fun c => !Text.isWhitespace c

def padded (packed : List Char) : List Char :=
  packed ++ List.replicate ((4 - length packed % 4) % 4) '='

section Readers

variable {Config : Type} (skip : List UInt8 → Nat) (readers : Readers Config)

/-- The texts a body may stand for, in the order they are tried. -/
def readings (packed : List Char) : List (List Char) :=
  (flags.filterMap fun f => (Base64.decode f packed).map (Utf8.decode skip)) ++
    flags.filterMap fun f => (Base64.decode f (padded packed)).map (Utf8.decode skip)

def decodeMaybeBase64 (body : List Char) : List Char :=
  let trimmed := strip body
  if hasConfig trimmed then trimmed
  else ((readings skip (packed trimmed)).find? hasConfig).getD trimmed

def parseBody (body : List Char) : Except Kind (List Config) :=
  let text := decodeMaybeBase64 skip body
  let configs := ConfigParser.parseBundle readers text
  if configs = [] then .error (classify text) else .ok configs

end Readers

/-! ## Blanks around a text -/

section Trim

variable {space : Char → Bool} {cs : List Char}

/-- What is cut off is blank. -/
theorem trim_eq (space : Char → Bool) (cs : List Char) :
    ∃ pre post, cs = pre ++ (trim space cs ++ post) ∧ (∀ c ∈ pre, space c = true) ∧
      ∀ c ∈ post, space c = true := by
  have hback := List.takeWhile_append_dropWhile (p := space)
    (l := (cs.dropWhile space).reverse)
  refine ⟨cs.takeWhile space, ((cs.dropWhile space).reverse.takeWhile space).reverse, ?_,
    fun c hc => List.mem_takeWhile_imp hc, fun c hc => List.mem_takeWhile_imp (List.mem_reverse.1 hc)⟩
  rw [trim, ← List.reverse_append, hback, List.reverse_reverse, List.takeWhile_append_dropWhile]

theorem mem_of_mem_trim {c : Char} (h : c ∈ trim space cs) : c ∈ cs := by
  obtain ⟨pre, post, heq, -⟩ := trim_eq space cs
  rw [heq]
  exact List.mem_append_right _ (List.mem_append_left _ h)

theorem dropWhile_of_head {p : Char → Bool} {cs : List Char} (h : ∀ c ∈ cs.head?, p c = false) :
    cs.dropWhile p = cs := by
  cases cs with
  | nil => rfl
  | cons c cs => rw [List.dropWhile_cons_of_neg (by simp [h c rfl])]

theorem head_dropWhile {p : Char → Bool} {cs : List Char} :
    ∀ c ∈ (cs.dropWhile p).head?, p c = false := by
  intro c hc
  have h := List.head?_dropWhile_not p cs
  rw [hc] at h
  simpa using h

theorem trim_trim : trim space (trim space cs) = trim space cs := by
  have hfront : ∀ c ∈ (trim space cs).head?, space c = false := by
    intro c hc
    obtain ⟨pre, hpre⟩ := List.dropWhile_suffix space (l := (cs.dropWhile space).reverse)
    have heq : cs.dropWhile space = trim space cs ++ pre.reverse := by
      rw [trim, ← List.reverse_append, hpre, List.reverse_reverse]
    refine @head_dropWhile space cs c ?_
    rw [heq, List.head?_append, hc]
    rfl
  have hback : ∀ c ∈ (trim space cs).reverse.head?, space c = false := by
    rw [trim, List.reverse_reverse]
    exact head_dropWhile
  conv_lhs => rw [trim]
  rw [dropWhile_of_head hfront, dropWhile_of_head hback, List.reverse_reverse]

end Trim

/-! ## What has a configuration -/

section Lower

variable {cs : List Char}

theorem lowercase_append (xs ys : List Char) :
    lowercase (xs ++ ys) = lowercase xs ++ lowercase ys := List.flatMap_append

theorem toLower_of_blank {c : Char} (h : Text.isWhitespace c = true) :
    c ≠ '\u0130' ∧ c ≠ '\u212A' ∧ c.toLower = c := by
  refine ⟨by rintro rfl; exact absurd h (by decide), by rintro rfl; exact absurd h (by decide), ?_⟩
  unfold Char.toLower
  rw [dif_neg]
  rintro ⟨hlow, hhigh⟩
  have h1 : 65 ≤ c.toNat := hlow
  have h2 : c.toNat ≤ 90 := hhigh
  simp only [Text.isWhitespace, Bool.or_eq_true, Bool.and_eq_true, decide_eq_true_eq,
    beq_iff_eq] at h
  omega

theorem lowercase_blank (h : ∀ c ∈ cs, Text.isWhitespace c = true) : lowercase cs = cs := by
  induction cs with
  | nil => rfl
  | cons c cs ih =>
    obtain ⟨hi, hk, hlow⟩ := toLower_of_blank (h c (.head _))
    have htail : lowercase cs = cs := ih fun x hx => h x (.tail _ hx)
    unfold lowercase at htail ⊢
    rw [List.flatMap_cons, if_neg hi, if_neg hk, hlow, htail]
    rfl

theorem none_of_any {f : Char → Bool} {w : List Char} (h : w.any f = false) :
    ∀ c ∈ w, f c = false := fun c hc => Bool.eq_false_iff.2 (List.any_eq_false.1 h c hc)

/-- A word without blanks is in a text where it is in the text without the blanks around it. -/
theorem infix_lowercase_trim {w : List Char} (hw : ∀ c ∈ w, Text.isWhitespace c = false)
    (hne : w ≠ []) : w <:+: lowercase (trim Text.isWhitespace cs) ↔ w <:+: lowercase cs := by
  obtain ⟨pre, post, heq, hpre, hpost⟩ := trim_eq Text.isWhitespace cs
  conv_rhs => rw [heq, lowercase_append, lowercase_append, lowercase_blank hpre,
    lowercase_blank hpost]
  rw [Infix.infix_around hpre hpost
    (fun c hc => by simp [hw c hc]) hne]

theorem hasConfig_iff : hasConfig cs = true ↔ (∃ s ∈ SCHEMES, s.toList <:+: lowercase cs) ∨
    (((trim Text.isWhitespace cs).head? = some '\x7b' ∨
      (trim Text.isWhitespace cs).head? = some '[') ∧
    ("\"outbounds\"".toList <:+: lowercase cs ∨ "\"protocol\"".toList <:+: lowercase cs)) := by
  unfold hasConfig
  dsimp only
  rw [Bool.or_eq_true, List.any_eq_true, decide_eq_true_iff]
  exact or_congr (exists_congr fun s => and_congr_right fun _ => decide_eq_true_iff) Iff.rfl

theorem hasConfig_trim : hasConfig (trim Text.isWhitespace cs) = hasConfig cs := by
  have hschemes : ∀ s ∈ SCHEMES, s.toList.any Text.isWhitespace = false ∧ s.toList ≠ [] := by
    decide
  have hany : (∃ s ∈ SCHEMES, s.toList <:+: lowercase (trim Text.isWhitespace cs)) ↔
      ∃ s ∈ SCHEMES, s.toList <:+: lowercase cs := by
    refine exists_congr fun s => and_congr_right fun hs => ?_
    exact infix_lowercase_trim (none_of_any (hschemes s hs).1) (hschemes s hs).2
  rw [Bool.eq_iff_iff, hasConfig_iff, hasConfig_iff, hany, trim_trim,
    infix_lowercase_trim (none_of_any (by decide)) (by decide),
    infix_lowercase_trim (none_of_any (by decide)) (by decide)]

/-- No other character becomes one that is no letter. -/
theorem mem_lowercase {d : Char} (hd : d.isLower = false) (hdot : d ≠ '\u0307')
    (h : d ∈ lowercase cs) : d ∈ cs := by
  obtain ⟨c, hc, hmem⟩ := List.mem_flatMap.1 h
  split_ifs at hmem with hi hk
  · simp only [List.mem_cons, List.not_mem_nil, or_false] at hmem
    rcases hmem with rfl | rfl
    · exact absurd hd (by decide)
    · exact absurd rfl hdot
  · rw [List.mem_singleton.1 hmem] at hd
    exact absurd hd (by decide)
  · rw [List.mem_singleton.1 hmem] at hd ⊢
    unfold Char.toLower at hd ⊢
    split
    · rename_i hu
      rw [dif_pos hu] at hd
      have hlow : 65 ≤ c.val.toNat := hu.1
      have hhigh : c.val.toNat ≤ 90 := hu.2
      have hval : (c.val + ('a'.val - 'A'.val)).toNat = c.val.toNat + 32 := by
        rw [UInt32.toNat_add]
        exact Nat.mod_eq_of_lt (Nat.lt_of_le_of_lt (Nat.add_le_add_right hhigh _) (by decide))
      simp only [Char.isLower, ge_iff_le, Bool.and_eq_false_iff,
        decide_eq_false_iff_not, UInt32.le_iff_toNat_le, hval] at hd
      rcases hd with hd | hd
      · exact absurd (Nat.add_le_add_right hlow 32) hd
      · exact absurd (Nat.add_le_add_right hhigh 32) hd
    · exact hc

end Lower

/-! ## A text in Base64 -/

/-- Where lines break. -/
def breaks (c : Char) : Bool := c == '\n' || c == '\r'

/-- The body is the Base64 of the text, with line breaks in it. -/
def Encodes (a : Base64.Alphabet) (pad : Bool) (text body : List Char) : Prop :=
  body.filter (fun c => !breaks c) = Base64.encode a pad (Utf8.encode text)

/-- A character of Base64, or a line break. -/
def Plain (a : Base64.Alphabet) (c : Char) : Prop := Base64.counts a c = true ∨ breaks c = true

section Encoded

variable {a : Base64.Alphabet} {pad : Bool} {text body cs : List Char} {Config : Type}
  {readers : Readers Config} {skip : List UInt8 → Nat}

theorem Encodes.plain (h : Encodes a pad text body) : ∀ c ∈ body, Plain a c := by
  intro c hc
  by_cases hb : breaks c = true
  · exact .inr hb
  · have hmem : c ∈ body.filter fun c => !breaks c := List.mem_filter.2 ⟨hc, by simp [hb]⟩
    rw [h] at hmem
    exact .inl (Base64.counts_encode hmem)

/-- What no such character is. -/
theorem plain_ne {c : Char} (h : Plain a c) : c ≠ ':' ∧ c ≠ '[' ∧ c ≠ '\x7b' ∧
    isMark c = false := by
  have hno (d : Char) (hd : ∀ a, Base64.counts a d = false ∧ breaks d = false) : c ≠ d := by
    rintro rfl
    rcases h with h | h
    · rw [(hd a).1] at h
      cases h
    · rw [(hd a).2] at h
      cases h
  have hmark (d : Char) (hd : d ∈ ['\uFEFF', '\u200B', '\u200E', '\u200F']) : c ≠ d := by
    refine hno d fun a => ?_
    simp only [List.mem_cons, List.not_mem_nil, or_false] at hd
    rcases hd with rfl | rfl | rfl | rfl <;> cases a <;> decide
  refine ⟨hno ':' fun a => ?_, hno '[' fun a => ?_, hno '\x7b' fun a => ?_, ?_⟩
  · cases a <;> decide
  · cases a <;> decide
  · cases a <;> decide
  · exact decide_eq_false fun hmem => hmark c hmem rfl

theorem counts_range {c : Char} (h : Base64.counts a c = true) : 33 ≤ c.toNat ∧ c.toNat ≤ 126 := by
  have hbetween (lo hi : UInt32) (hc : (decide (c.val ≥ lo) && decide (c.val ≤ hi)) = true)
      (hlo : 33 ≤ lo.toNat) (hhi : hi.toNat ≤ 126) : 33 ≤ c.toNat ∧ c.toNat ≤ 126 := by
    simp only [ge_iff_le, Bool.and_eq_true, decide_eq_true_eq, UInt32.le_iff_toNat_le] at hc
    exact ⟨Nat.le_trans hlo hc.1, Nat.le_trans hc.2 hhi⟩
  have hone (d : Char) (hc : c = d) (hd : 33 ≤ d.toNat ∧ d.toNat ≤ 126) :
      33 ≤ c.toNat ∧ c.toNat ≤ 126 := hc ▸ hd
  unfold Base64.counts at h
  rw [Bool.or_eq_true, beq_iff_eq] at h
  rcases h with h | h
  · unfold Base64.Alphabet.digit at h
    split at h
    · exact hbetween _ _ (by simpa [Char.isUpper] using ‹c.isUpper = true›) (by decide) (by decide)
    split at h
    · exact hbetween _ _ (by simpa [Char.isLower] using ‹c.isLower = true›) (by decide) (by decide)
    split at h
    · exact hbetween _ _ (by simpa [Char.isDigit] using ‹c.isDigit = true›) (by decide) (by decide)
    cases a
    all_goals
      dsimp only at h
      split_ifs at h with h1 h2
      · exact hone _ h1 (by decide)
      · exact hone _ h2 (by decide)
      · cases h
  · exact hone _ h (by decide)

theorem plain_space {c : Char} (h : Plain a c) (hc : isSpace c = true ∨
    Text.isWhitespace c = true) : breaks c = true := by
  rcases h with h | h
  · have hrange := counts_range h
    simp only [isSpace, Text.isWhitespace, Bool.or_eq_true, Bool.and_eq_true, decide_eq_true_eq,
      beq_iff_eq, Bool.not_eq_true'] at hc
    omega
  · exact h

theorem mem_lineStarts {l : List Char} (h : l ∈ lineStarts cs) : l ⊆ cs := by
  rcases List.mem_cons.1 h with rfl | h
  · exact List.Subset.refl _
  · obtain ⟨t, ht, heq⟩ := List.mem_filterMap.1 h
    have hsub := ((List.mem_tails _ _).1 ht).subset
    cases t with
    | nil => cases heq
    | cons c rest =>
      dsimp only at heq
      split_ifs at heq
      obtain rfl := Option.some.inj heq
      exact fun x hx => hsub (.tail _ hx)

theorem looksLikeClash_plain (h : ∀ c ∈ cs, Plain a c) :
    ForeignImport.looksLikeClash cs = false := by
  unfold ForeignImport.looksLikeClash
  refine decide_eq_false fun ⟨_, _, hany⟩ => ?_
  obtain ⟨l, hl, hcolon⟩ := List.any_eq_true.1 hany
  have hcolon := (of_decide_eq_true hcolon).2
  have hmem := (List.dropWhile_suffix _).subset (List.mem_of_mem_head? hcolon)
  have hmem := (List.dropWhile_suffix _).subset ((List.drop_suffix _ _).subset hmem)
  exact (plain_ne (h _ ((List.dropWhile_suffix _).subset (mem_lineStarts hl hmem)))).1 rfl

theorem mem_splitOnP {p : Char → Bool} {piece : List Char} (h : piece ∈ cs.splitOnP p) :
    ∀ c ∈ piece, c ∈ cs ∧ p c = false := by
  induction cs generalizing piece with
  | nil =>
    rw [List.splitOnP_nil, List.mem_singleton] at h
    rw [h]
    exact fun c hc => absurd hc List.not_mem_nil
  | cons x xs ih =>
    rw [List.splitOnP_cons_eq_if_modifyHead] at h
    have hrest {q : List Char} (hq : q ∈ xs.splitOnP p) :
        ∀ c ∈ q, c ∈ x :: xs ∧ p c = false :=
      fun c hc => ⟨.tail _ (ih hq c hc).1, (ih hq c hc).2⟩
    split at h
    · rcases List.mem_cons.1 h with rfl | h
      · exact fun c hc => absurd hc List.not_mem_nil
      · exact hrest h
    · rename_i hx
      cases hs : xs.splitOnP p with
      | nil => exact absurd hs (List.splitOnP_ne_nil p xs)
      | cons q qs =>
        rw [hs] at h hrest
        rcases List.mem_cons.1 h with rfl | h
        · intro c hc
          rcases List.mem_cons.1 hc with rfl | hc
          · exact ⟨.head _, by simpa using hx⟩
          · exact hrest (.head _) c hc
        · exact hrest (.tail _ h)

/-- A line of such characters is no link. -/
theorem parse_plain (h : ∀ c ∈ cs, Plain a c ∧ breaks c = false) :
    ConfigParser.parse readers cs = none := by
  have htrim : ∀ c ∈ trim Text.isWhitespace cs, Plain a c ∧ breaks c = false :=
    fun c hc => h c (mem_of_mem_trim hc)
  have hmiss {d : Char} (hd : d.isLower = false) (hdot : d ≠ '\u0307')
      (hne : ∀ c, Plain a c → c ≠ d) : d ∉ lowercase (trim Text.isWhitespace cs) :=
    fun hmem => hne _ (htrim _ (mem_lowercase hd hdot hmem)).1 rfl
  have hcolon := hmiss (d := ':') (by decide) (by decide) fun c hc => (plain_ne hc).1
  have hbracket := hmiss (d := '[') (by decide) (by decide) fun c hc => (plain_ne hc).2.1
  have hscheme (ss : List String) (hss : ∀ s ∈ ss, ':' ∈ s.toList) :
      (ss.find? fun s => s.toList <+: lowercase (trim Text.isWhitespace cs)) = none := by
    refine List.find?_eq_none.2 fun s hs => ?_
    simpa using Infix.not_prefix (hss s hs) hcolon
  have hspace (n : Nat) : ((trim Text.isWhitespace cs).drop n).head?.any isSpace = false := by
    cases hd : ((trim Text.isWhitespace cs).drop n).head? with
    | none => rfl
    | some c =>
      have hc := htrim c ((List.drop_suffix _ _).subset (List.mem_of_mem_head? hd))
      refine Bool.eq_false_iff.2 fun hs => ?_
      rw [plain_space hc.1 (.inl hs)] at hc
      exact absurd hc.2 (by decide)
  have hbridge : ConfigParser.isBridge (trim Text.isWhitespace cs) = false := by
    unfold ConfigParser.isBridge
    simp only [hspace, Bool.and_false, Bool.false_and, List.any_cons, List.any_nil, Bool.or_self]
  unfold ConfigParser.parse
  dsimp only
  rw [hscheme ConfigParser.schemes (by decide)]
  dsimp only
  rw [hbridge, hscheme ConfigParser.laterSchemes (by decide), if_neg Bool.false_ne_true]
  exact if_neg fun hw => Infix.not_infix (by decide) hbracket hw.1

/-- The Base64 of a text is no configuration in clear. -/
theorem parseBundle_plain (h : ∀ c ∈ cs, Plain a c) : ConfigParser.parseBundle readers cs = [] := by
  have htrim : ∀ c ∈ trim Text.isWhitespace cs, Plain a c := fun c hc => h c (mem_of_mem_trim hc)
  have hinterface : ¬("[interface]".toList <:+: lowercase (trim Text.isWhitespace cs) ∧
      "[peer]".toList <:+: lowercase (trim Text.isWhitespace cs)) := by
    refine fun hw => Infix.not_infix (c := '[') (by decide) (fun hc => ?_) hw.1
    exact (plain_ne (htrim _ (mem_lowercase (by decide) (by decide) hc))).2.1 rfl
  have hjson : ¬((trim Text.isWhitespace cs).head? = some '\x7b' ∨
      (trim Text.isWhitespace cs).head? = some '[') := by
    rintro (hc | hc)
    · exact (plain_ne (htrim _ (List.mem_of_mem_head? hc))).2.2.1 rfl
    · exact (plain_ne (htrim _ (List.mem_of_mem_head? hc))).2.1 rfl
  unfold ConfigParser.parseBundle
  dsimp only
  by_cases hnil : trim Text.isWhitespace cs = []
  · exact if_pos hnil
  rw [if_neg hnil, if_neg hinterface, if_neg hjson, looksLikeClash_plain htrim]
  simp only [Bool.false_eq_true, if_false, ne_eq, not_true_eq_false]
  refine List.filterMap_eq_nil_iff.2 fun line hline => ?_
  obtain ⟨hline, -⟩ := List.mem_filter.1 hline
  obtain ⟨piece, hpiece, rfl⟩ := List.mem_map.1 hline
  refine parse_plain (a := a) fun c hc => ?_
  obtain ⟨hmem, hbreak⟩ := mem_splitOnP hpiece c (mem_of_mem_trim hc)
  refine ⟨htrim c hmem, ?_⟩
  simpa [breaks] using hbreak

theorem parseBundle_trim :
    ConfigParser.parseBundle readers (trim Text.isWhitespace cs) =
      ConfigParser.parseBundle readers cs := by
  unfold ConfigParser.parseBundle
  rw [trim_trim]

theorem packed_trim : packed (trim Text.isWhitespace cs) = packed cs := by
  obtain ⟨pre, post, heq, hpre, hpost⟩ := trim_eq Text.isWhitespace cs
  have hnone {xs : List Char} (hxs : ∀ c ∈ xs, Text.isWhitespace c = true) :
      xs.filter (fun c => !Text.isWhitespace c) = [] :=
    List.filter_eq_nil_iff.2 fun c hc => by simp [hxs c hc]
  unfold packed
  conv_rhs => rw [heq, List.filter_append, List.filter_append, hnone hpre, hnone hpost,
    List.nil_append, List.append_nil]

theorem strip_unmarked (h : ∀ c ∈ cs, isMark c = false) :
    strip cs = trim Text.isWhitespace cs := by
  unfold strip
  rw [List.filter_eq_self.2 fun c hc => by simp [h c hc]]

theorem Encodes.strip (h : Encodes a pad text body) :
    strip body = trim Text.isWhitespace body :=
  strip_unmarked fun c hc => (plain_ne (h.plain c hc)).2.2.2

theorem Encodes.packed (h : Encodes a pad text body) :
    packed (SubscriptionFetcher.strip body) = Base64.encode a pad (Utf8.encode text) := by
  rw [h.strip, packed_trim, ← h]
  refine List.filter_congr fun c hc => ?_
  by_cases hb : breaks c = true
  · have hspace : Text.isWhitespace c = true := by
      have hc : c = '\n' ∨ c = '\r' := by simpa [breaks] using hb
      rcases hc with rfl | rfl <;> decide
    rw [hb, hspace]
  · have hspace : Text.isWhitespace c = false :=
      Bool.eq_false_iff.2 fun hs => hb (plain_space (h.plain c hc) (.inr hs))
    rw [hspace, Bool.eq_false_iff.2 hb]

/-- The body's text is one of its readings. -/
theorem Encodes.reads (h : Encodes a pad text body) :
    text ∈ readings skip (SubscriptionFetcher.packed (SubscriptionFetcher.strip body)) := by
  rw [h.packed]
  refine List.mem_append_left _ (List.mem_filterMap.2 ⟨a, by cases a <;> decide, ?_⟩)
  rw [Base64.decode_encode, Option.map_some, Utf8.decode_encode]

theorem parseBody_ok {configs : List Config} : parseBody skip readers body = .ok configs ↔
    ConfigParser.parseBundle readers (decodeMaybeBase64 skip body) = configs ∧ configs ≠ [] := by
  unfold parseBody
  dsimp only
  split
  · rename_i hnil
    rw [hnil]
    exact ⟨fun h => (by cases h), fun ⟨heq, hne⟩ => absurd heq.symm hne⟩
  · rename_i hne
    constructor
    · intro h
      obtain rfl := Except.ok.inj h
      exact ⟨rfl, hne⟩
    · rintro ⟨rfl, -⟩
      rfl

/-- The standard alphabet is tried first, so what it stands for cannot be misread. -/
theorem standard_first (h : Encodes .standard pad text body) (hhas : hasConfig text = true) :
    (readings skip (packed (strip body))).find? hasConfig = some text := by
  rw [h.packed]
  unfold readings flags
  rw [List.filterMap_cons_some (b := text) (by
    rw [Base64.decode_encode, Option.map_some, Utf8.decode_encode]), List.cons_append,
    List.find?_cons_of_pos hhas]

/-- Both give the same configurations. -/
def SameList (skip : List UInt8 → Nat) (readers : Readers Config) (text body : List Char) : Prop :=
  ∃ configs, parseBody skip readers body = .ok configs ∧ parseBody skip readers text = .ok configs

theorem sameList_iff (h : Encodes a pad text body) : SameList skip readers text body ↔
    hasConfig (strip body) = false ∧
      ∃ read, (readings skip (packed (strip body))).find? hasConfig = some read ∧
        ConfigParser.parseBundle readers read =
          ConfigParser.parseBundle readers (decodeMaybeBase64 skip text) ∧
        ConfigParser.parseBundle readers read ≠ [] := by
  have hclear : ConfigParser.parseBundle readers (strip body) = [] := by
    rw [h.strip, parseBundle_trim]
    exact parseBundle_plain h.plain
  constructor
  · rintro ⟨configs, hbody, htext⟩
    obtain ⟨hbody, hne⟩ := parseBody_ok.1 hbody
    obtain ⟨htext, -⟩ := parseBody_ok.1 htext
    have hno : hasConfig (strip body) = false := by
      refine Bool.eq_false_iff.2 fun hc => hne ?_
      rw [← hbody, decodeMaybeBase64, if_pos hc, hclear]
    rw [decodeMaybeBase64, if_neg (by simp [hno])] at hbody
    cases hr : (readings skip (packed (strip body))).find? hasConfig with
    | none =>
      rw [hr, Option.getD_none, hclear] at hbody
      exact absurd hbody.symm hne
    | some read =>
      rw [hr, Option.getD_some] at hbody
      exact ⟨hno, read, rfl, hbody.trans htext.symm, hbody ▸ hne⟩
  · rintro ⟨hno, read, hr, heq, hne⟩
    refine ⟨_, parseBody_ok.2 ⟨?_, hne⟩, parseBody_ok.2 ⟨heq.symm, hne⟩⟩
    rw [decodeMaybeBase64, if_neg (by simp [hno]), hr, Option.getD_some]

end Encoded

/-! One link, and a configuration that no listed scheme is in. -/

/-- The readers, down to what these two texts need. -/
def sampleReaders : Readers ProxyConfig where
  wireguardConf text := Awg.ConfigParser.parseWireguardConf text .personal ""
  jsonOutbounds _ := []
  clash _ := []
  link scheme rest :=
    if scheme = "vless://" ∧ rest = "u@a.b:443#n".toList then
      some { name := "n", protocol := "vless", address := "a.b", port := 443, uuid := "u", id := "" }
    else none
  bridge _ := none

def sampleLink : List Char := "vless://u@a.b:443#n".toList

def sampleConf : List Char :=
  ["[Interface]", "PrivateKey=cA==", "Jc=4", "[Peer]", "PublicKey=cQ==",
    "Endpoint=a.b:1"].flatMap fun l => l.toList ++ ['\n']

theorem encodes_encode (a : Base64.Alphabet) (pad : Bool) (text : List Char) :
    Encodes a pad text (Base64.encode a pad (Utf8.encode text)) := by
  refine List.filter_eq_self.2 fun c hc => ?_
  have hc := counts_range (Base64.counts_encode hc)
  have hne (d : Char) (hd : d.toNat < 33) : c ≠ d := fun heq => by
    rw [heq] at hc
    exact absurd hc.1 (by omega)
  simp [breaks, hne '\n' (by decide), hne '\r' (by decide)]

/-- Where the Base64 has no character that only one alphabet has, there is one reading. -/
theorem one_reading {skip : List UInt8 → Nat} {text packed : List Char}
    (hpad : padded packed = packed)
    (hread : ∀ f, Base64.decode f packed = some (Utf8.encode text)) :
    ∀ read ∈ readings skip packed, read = text := by
  intro read hmem
  unfold readings at hmem
  rw [hpad, List.mem_append, or_self] at hmem
  obtain ⟨f, -, hf⟩ := List.mem_filterMap.1 hmem
  rw [hread, Option.map_some, Utf8.decode_encode] at hf
  exact (Option.some.inj hf).symm

end SubscriptionFetcher

end Ghajar
