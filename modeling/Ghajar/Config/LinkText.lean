import Mathlib
import Ghajar.Config.ShareLink
import Ghajar.Npv.Link

/-!
# Share links as a form writes them

Escaped text, query, user and host of a link, and what the parts of `ConfigParser` make of them
again. An escaped text comes back from both decoders (`urlDecode_enc`) and a query under each of its
names (`get?_query`); the host is written as it is and has to be free of the separators.
-/

namespace Ghajar.ShareLink

open Ghajar

/-! ## Writing -/

/-- `URLEncoder.encode(s, "UTF-8").replace("+", "%20")` -/
def enc (s : Chars) : Chars := (Npv.esc (String.ofList s)).toList

/-- What stands in a link for one byte. -/
def escaped (b : UInt8) : Chars :=
  let c := Char.ofNat b.toNat
  if c.isAlphanum ∨ c ∈ ['.', '-', '*', '_'] then [c]
  else ['%', Npv.hexDigit (b.toNat / 16), Npv.hexDigit (b.toNat % 16)]

def hostPort (host port : Chars) : Chars :=
  let t := trim host
  let h := if ':' ∈ t ∧ t.head? ≠ some '[' then '[' :: t ++ [']'] else t
  if isBlank port then h else h ++ ':' :: trim port

/-- The values that are not blank, under their names. -/
def kept (kv : List (String × Option Chars)) : Query :=
  kv.filterMap fun e =>
    match e.2 with
    | some v => if isBlank v then none else some (e.1.toList, trim v)
    | none => none

def query (kv : List (String × Option Chars)) : Chars :=
  let q := List.intercalate ['&'] ((kept kv).map fun e => e.1 ++ '=' :: enc e.2)
  if q = [] then [] else '?' :: q

def userInfo (user pass : Chars) : Chars :=
  if user = [] ∧ pass = [] then []
  else enc user ++ (if pass = [] then [] else ':' :: enc pass) ++ ['@']

/-! ## Escaped text -/

section Escaped

variable {s : Chars} {c d : Char} {b : UInt8} {skip : Replaced}

/-- A character that is written as it is. -/
def plain (c : Char) : Bool := c.isAlphanum ∨ c ∈ ['.', '-', '*', '_']

/-- A character that stands in escaped text. -/
def safe (c : Char) : Bool := plain c ∨ c = '%'

theorem enc_eq (s : Chars) : enc s = (Utf8.encode s).flatMap escaped := by
  rw [enc, Npv.esc, String.toList_ofList, Npv.toByteArray, String.toList_ofList]
  rfl

theorem enc_append (s t : Chars) : enc (s ++ t) = enc s ++ enc t := by
  rw [enc_eq, Utf8.encode_append, List.flatMap_append, ← enc_eq, ← enc_eq]

theorem hexDigit_safe : ∀ n < 16, plain (Npv.hexDigit n) = true := by decide

theorem hexValue_hexDigit : ∀ n < 16, hexValue (Npv.hexDigit n) = some n := by decide

theorem escaped_safe (b : UInt8) : ∀ c ∈ escaped b, safe c = true := by
  have hb : b.toNat < 256 := b.toNat_lt
  intro c hc
  unfold escaped at hc
  dsimp only at hc
  split at hc
  · rename_i h
    rw [List.mem_singleton.1 hc]
    exact decide_eq_true (.inl (decide_eq_true h))
  · simp only [List.mem_cons, List.not_mem_nil, or_false] at hc
    rcases hc with rfl | rfl | rfl
    · rfl
    · simp [safe, hexDigit_safe (b.toNat / 16) (by omega)]
    · simp [safe, hexDigit_safe (b.toNat % 16) (by omega)]

theorem enc_safe : ∀ c ∈ enc s, safe c = true := by
  intro c hc
  rw [enc_eq, List.mem_flatMap] at hc
  obtain ⟨b, -, hc⟩ := hc
  exact escaped_safe b c hc

/-- A separator of links does not stand in escaped text. -/
theorem not_mem_enc (h : safe d = false) : d ∉ enc s := fun hd => by
  rw [enc_safe d hd] at h
  cases h

theorem plain_range (h : plain c = true) : 42 ≤ c.toNat ∧ c.toNat ≤ 122 := by
  rcases of_decide_eq_true h with h | h
  · simp only [Char.isAlphanum, Char.isAlpha, Char.isUpper, Char.isLower, Char.isDigit,
      Bool.or_eq_true, Bool.and_eq_true, decide_eq_true_eq, ge_iff_le,
      UInt32.le_iff_toNat_le] at h
    change ((65 ≤ c.toNat ∧ c.toNat ≤ 90) ∨ (97 ≤ c.toNat ∧ c.toNat ≤ 122)) ∨
      (48 ≤ c.toNat ∧ c.toNat ≤ 57) at h
    omega
  · simp only [List.mem_cons, List.not_mem_nil, or_false] at h
    rcases h with rfl | rfl | rfl | rfl
    all_goals decide

theorem safe_not_blank (h : safe c = true) : Text.isWhitespace c = false := by
  have hn : 42 ≤ c.toNat ∧ c.toNat ≤ 122 ∨ c.toNat = 37 := by
    rcases of_decide_eq_true h with h | rfl
    · exact .inl (plain_range h)
    · exact .inr rfl
  rw [← Bool.not_eq_true]
  simp only [Text.isWhitespace, Bool.or_eq_true, Bool.and_eq_true, decide_eq_true_eq, beq_iff_eq]
  omega

theorem encoded_high (h : 127 < c.toNat) : ∀ b ∈ String.utf8EncodeChar c, 128 ≤ b.toNat := by
  intro b hb
  unfold String.utf8EncodeChar at hb
  dsimp only at hb
  have hv : ¬c.val.toNat ≤ 127 := by
    rw [not_le]
    exact h
  rw [if_neg hv] at hb
  split at hb
  · simp only [List.mem_cons, List.not_mem_nil, or_false] at hb
    rcases hb with rfl | rfl
    all_goals
      simp
      omega
  split at hb
  · simp only [List.mem_cons, List.not_mem_nil, or_false] at hb
    rcases hb with rfl | rfl | rfl
    all_goals
      simp
      omega
  · simp only [List.mem_cons, List.not_mem_nil, or_false] at hb
    rcases hb with rfl | rfl | rfl | rfl
    all_goals
      simp
      omega

theorem encoded_low (h : c.toNat ≤ 127) :
    ∃ b : UInt8, String.utf8EncodeChar c = [b] ∧ b.toNat = c.toNat := by
  have hs : c.utf8Size = 1 := Char.utf8Size_eq_one_iff.2 (by
    rw [UInt32.le_iff_toNat_le]
    exact h)
  refine ⟨_, String.utf8EncodeChar_eq_singleton hs, ?_⟩
  rw [UInt32.toNat_toUInt8]
  exact Nat.mod_eq_of_lt (by change c.toNat < _; omega)

/-- The bytes of a character that is not written as it is are all escaped. -/
theorem escaped_of_not_plain (hc : plain c = false) (hb : b ∈ String.utf8EncodeChar c) :
    escaped b = ['%', Npv.hexDigit (b.toNat / 16), Npv.hexDigit (b.toNat % 16)] := by
  have hp : plain (Char.ofNat b.toNat) = false := by
    by_cases h : c.toNat ≤ 127
    · obtain ⟨b', hb', hn⟩ := encoded_low h
      rw [hb', List.mem_singleton] at hb
      rw [hb, hn, Char.ofNat_toNat]
      exact hc
    · have hh := encoded_high (not_le.1 h) b hb
      rw [← Bool.not_eq_true]
      intro hp
      have hr := plain_range hp
      rw [Char.toNat_ofNat, if_pos (.inl (by have := b.toNat_lt; omega))] at hr
      omega
  have hn : ¬((Char.ofNat b.toNat).isAlphanum ∨ Char.ofNat b.toNat ∈ ['.', '-', '*', '_']) :=
    of_decide_eq_false hp
  exact if_neg hn

theorem enc_cons_plain (hc : plain c = true) : enc (c :: s) = c :: enc s := by
  obtain ⟨b, hb, hn⟩ := encoded_low (c := c) (by have := plain_range hc; omega)
  rw [enc_eq, Utf8.encode_cons, hb, List.flatMap_append, ← enc_eq]
  have he : escaped b = [c] := by
    unfold escaped
    rw [hn, Char.ofNat_toNat]
    exact if_pos (of_decide_eq_true hc)
  simp [he]

theorem enc_length (s : Chars) : s.length ≤ (enc s).length := by
  induction s with
  | nil => exact Nat.zero_le _
  | cons c s ih =>
    have h1 : 1 ≤ (enc [c]).length := by
      rw [Nat.one_le_iff_ne_zero, ne_eq, List.length_eq_zero_iff, enc_eq, Utf8.encode_cons,
        Utf8.encode_nil, List.append_nil, List.flatMap_eq_nil_iff]
      intro h
      obtain ⟨b, bs, hb⟩ := List.exists_cons_of_ne_nil (Utf8.utf8EncodeChar_ne_nil c)
      have := h b (by rw [hb]; exact List.mem_cons_self)
      unfold escaped at this
      dsimp only at this
      split at this
      · cases this
      · cases this
    have hc : enc (c :: s) = enc [c] ++ enc s := enc_append [c] s
    rw [hc, List.length_append, List.length_cons]
    omega

/-- A run of escapes is read as its bytes. -/
theorem escapes_run {bs : List UInt8} {rest : Chars} (hrest : rest.head? ≠ some '%')
    (hbs : ∀ b ∈ bs, escaped b = ['%', Npv.hexDigit (b.toNat / 16), Npv.hexDigit (b.toNat % 16)]) :
    escapes (bs.flatMap escaped ++ rest) = some (bs, rest) := by
  induction bs with
  | nil =>
    rw [List.flatMap_nil, List.nil_append]
    cases rest with
    | nil => rfl
    | cons c rest =>
      have hc : c ≠ '%' := fun h => hrest (by rw [h]; rfl)
      unfold escapes
      split
      · exact absurd (by simp_all) hc
      · exact absurd (by simp_all) hc
      · rfl
  | cons b bs ih =>
    have hb : b.toNat < 256 := b.toNat_lt
    rw [List.flatMap_cons, hbs b List.mem_cons_self, List.append_assoc]
    simp only [List.cons_append, List.nil_append]
    rw [escapes, hexValue_hexDigit _ (by omega), hexValue_hexDigit _ (by omega),
      ih fun b' hb' => hbs b' (List.mem_cons_of_mem _ hb')]
    have hval : UInt8.ofNat (16 * (b.toNat / 16) + b.toNat % 16) = b := by
      rw [Nat.div_add_mod, UInt8.ofNat_toNat]
    simp only [Option.map_some, hval]

/-- The characters up to the next one that is written as it is. -/
theorem exists_run (hc : plain c = false) : ∃ run rest, run ++ rest = c :: s ∧ run ≠ [] ∧
    (∀ d ∈ run, plain d = false) ∧ ∀ d ∈ rest.head?, plain d = true := by
  refine ⟨(c :: s).takeWhile (!plain ·), (c :: s).dropWhile (!plain ·),
    List.takeWhile_append_dropWhile, ?_, fun d hd => ?_, fun d hd => ?_⟩
  · rw [List.takeWhile_cons_of_pos (by simpa using hc)]
    exact List.cons_ne_nil _ _
  · simpa using List.mem_takeWhile_imp hd
  · have := List.head?_dropWhile_not (!plain ·) (c :: s)
    rw [hd] at this
    simpa using this

theorem enc_head (hne : s ≠ []) (h : ∀ d ∈ s, plain d = false) :
    ∃ t, enc s = '%' :: t := by
  obtain ⟨c, s, rfl⟩ := List.exists_cons_of_ne_nil hne
  obtain ⟨b, bs, hb⟩ := List.exists_cons_of_ne_nil (Utf8.utf8EncodeChar_ne_nil c)
  rw [enc_eq, Utf8.encode_cons, hb, List.cons_append, List.flatMap_cons,
    escaped_of_not_plain (h c List.mem_cons_self) (by rw [hb]; exact List.mem_cons_self)]
  exact ⟨_, rfl⟩

theorem decodeN_enc {n : ℕ} (h : (enc s).length ≤ n) : decodeN skip n (enc s) = some s := by
  induction n generalizing s with
  | zero =>
    have := enc_length s
    obtain rfl : s = [] := List.length_eq_zero_iff.1 (by omega)
    rfl
  | succ n ih =>
    cases s with
    | nil => rfl
    | cons c s =>
      by_cases hc : plain c = true
      · rw [enc_cons_plain hc, List.length_cons] at h
        have hplus : c ≠ '+' := fun he => by rw [he] at hc; cases hc
        have hpct : c ≠ '%' := fun he => by rw [he] at hc; cases hc
        rw [enc_cons_plain hc, decodeN, if_neg hplus, if_neg hpct, ih (by omega)]
        rfl
      -- the run of characters that are escaped is decoded as one
      · obtain ⟨run, rest, hsplit, hne, hrun, hrest⟩ := @exists_run s c (by simpa using hc)
        have hhead : (enc rest).head? ≠ some '%' := by
          cases rest with
          | nil => exact fun h => by cases h
          | cons d ds =>
            have hd := hrest d rfl
            rw [enc_cons_plain hd]
            intro he
            obtain rfl : d = '%' := by simpa using he
            cases hd
        have hesc := @escapes_run (Utf8.encode run) _ hhead fun b hb => by
          obtain ⟨d, hd, hb⟩ := List.mem_flatMap.1 hb
          exact escaped_of_not_plain (hrun d hd) hb
        have hlen := enc_length run
        have hpos : 0 < run.length := List.length_pos_iff.2 hne
        rw [← hsplit, enc_append] at h ⊢
        rw [← enc_eq] at hesc
        obtain ⟨t, ht⟩ := enc_head hne hrun
        rw [List.length_append] at h
        rw [ht, List.cons_append] at hesc ⊢
        rw [decodeN, if_neg (by decide), if_pos rfl, hesc, Option.bind_some, ih (by omega),
          Utf8.decode_encode]
        rfl

theorem urlDecode_enc : urlDecode skip (enc s) = some s := decodeN_enc (Nat.le_refl _)

theorem formDecode_enc : formDecode skip (enc s) = s := by
  rw [formDecode, urlDecode_enc]
  rfl

theorem pctDecode_enc : pctDecode skip (enc s) = s := by
  have h : (enc s).flatMap (fun c => if c = '+' then ['%', '2', 'B'] else [c]) = enc s := by
    have hmap : ∀ c ∈ enc s, (if c = '+' then ['%', '2', 'B'] else [c]) = [c] := fun c hc =>
      if_neg fun he => by rw [he] at hc; exact not_mem_enc rfl hc
    rw [List.flatMap_congr hmap, List.flatMap_singleton']
  rw [pctDecode, h, urlDecode_enc]
  rfl

end Escaped

/-! ## Blanks at the ends -/

section Trim

variable {s t : Chars} {c : Char}

theorem trim_of_ends (hf : ∀ c ∈ s.head?, Text.isWhitespace c = false)
    (hl : ∀ c ∈ s.getLast?, Text.isWhitespace c = false) : trim s = s := by
  have hdrop : ∀ {l : Chars}, (∀ c ∈ l.head?, Text.isWhitespace c = false) →
      l.dropWhile Text.isWhitespace = l := by
    intro l h
    cases l with
    | nil => rfl
    | cons c l => rw [List.dropWhile_cons_of_neg (by simp [h c rfl])]
  rw [trim, hdrop hf, hdrop (by rwa [List.head?_reverse]), List.reverse_reverse]

theorem trim_ends (s : Chars) : (∀ c ∈ (trim s).head?, Text.isWhitespace c = false) ∧
    ∀ c ∈ (trim s).getLast?, Text.isWhitespace c = false := by
  have hhead : ∀ {l : Chars}, ∀ c ∈ (l.dropWhile Text.isWhitespace).head?,
      Text.isWhitespace c = false := by
    intro l c hc
    have h := List.head?_dropWhile_not Text.isWhitespace l
    rw [hc] at h
    simpa using h
  constructor
  · intro c hc
    obtain ⟨pre, hpre⟩ :=
      List.dropWhile_suffix Text.isWhitespace (l := (s.dropWhile Text.isWhitespace).reverse)
    have heq : s.dropWhile Text.isWhitespace = trim s ++ pre.reverse := by
      rw [trim, ← List.reverse_append, hpre, List.reverse_reverse]
    refine @hhead s c ?_
    rw [heq, List.head?_append, hc]
    rfl
  · intro c hc
    rw [trim, List.getLast?_reverse] at hc
    exact hhead c hc

@[simp] theorem trim_trim : trim (trim s) = trim s := trim_of_ends (trim_ends s).1 (trim_ends s).2

theorem mem_of_mem_trim (h : c ∈ trim s) : c ∈ s := by
  rw [trim, List.mem_reverse] at h
  exact (List.dropWhile_sublist _).mem (List.mem_reverse.1 ((List.dropWhile_sublist _).mem h))

theorem trim_of_not_blank (h : ∀ c ∈ s, Text.isWhitespace c = false) : trim s = s :=
  trim_of_ends (fun c hc => h c (List.mem_of_mem_head? hc))
    fun c hc => h c (List.mem_of_mem_getLast? hc)

theorem trim_eq_nil_iff : trim s = [] ↔ isBlank s = true := by
  rw [trim, List.reverse_eq_nil_iff, List.dropWhile_eq_nil_iff, isBlank, List.all_eq_true]
  constructor
  · intro h c hc
    by_contra hw
    -- a first character that is no blank is not dropped
    have hne : s.dropWhile Text.isWhitespace ≠ [] := fun he =>
      hw (List.dropWhile_eq_nil_iff.1 he c hc)
    obtain ⟨d, ds, hd⟩ := List.exists_cons_of_ne_nil hne
    have hfirst := List.head?_dropWhile_not Text.isWhitespace s
    rw [hd] at hfirst
    have := h d (by rw [hd]; exact List.mem_reverse.2 List.mem_cons_self)
    simp [this] at hfirst
  · intro h c hc
    exact h c ((List.dropWhile_sublist _).mem (List.mem_reverse.1 hc))

theorem trim_enc : trim (enc s) = enc s :=
  trim_of_not_blank fun _ hc => safe_not_blank (enc_safe _ hc)

end Trim

/-! ## The parts of a link -/

section Parts

variable {skip : Replaced} {s t u p host port name fallback rest : Chars} {c d : Char}
  {kv : List (String × Option Chars)}

/-- A name of a value: letters, with a hyphen or a line below. -/
def isKey (k : String) : Prop := k ≠ "" ∧ ∀ c ∈ k.toList, plain c = true

/-- Names of values, each one only once in whatever case. -/
def Names (names : List String) : Prop :=
  (∀ k ∈ names, isKey k) ∧ (names.map fun k => k.toList.map Text.foldCase).Nodup

theorem names_of {names : List String}
    (h : (names.all fun k => k != "" && k.toList.all plain) = true)
    (hd : (names.map fun k => k.toList.map Text.foldCase).Nodup) : Names names := by
  refine ⟨fun k hk => ?_, hd⟩
  have hk := List.all_eq_true.1 h k hk
  rw [Bool.and_eq_true, bne_iff_ne, List.all_eq_true] at hk
  exact hk

theorem mem_intercalate {sep : Chars} {ls : List Chars} (h : c ∈ List.intercalate sep ls) :
    c ∈ sep ∨ ∃ l ∈ ls, c ∈ l := by
  induction ls with
  | nil => cases h
  | cons l ls ih =>
    cases ls with
    | nil =>
      rw [List.intercalate_singleton] at h
      exact .inr ⟨l, List.mem_cons_self, h⟩
    | cons m ls =>
      rw [List.intercalate_cons_cons, List.mem_append, List.mem_append] at h
      rcases h with (h | h) | h
      · exact .inr ⟨l, List.mem_cons_self, h⟩
      · exact .inl h
      · rcases ih h with h | ⟨m', hm, h⟩
        · exact .inl h
        · exact .inr ⟨m', List.mem_cons_of_mem _ hm, h⟩

theorem split_intercalate {sep : Char} {parts : List Chars} (hne : parts ≠ [])
    (h : ∀ w ∈ parts, sep ∉ w) : Text.split sep (List.intercalate [sep] parts) = parts := by
  have hone : ∀ (w rest : Chars), sep ∉ w → Text.split sep (w ++ sep :: rest) =
      w :: Text.split sep rest := by
    intro w rest hw
    induction w with
    | nil => simp [Text.split]
    | cons c w ih =>
      have hc : c ≠ sep := fun he => hw (he ▸ List.mem_cons_self)
      rw [List.cons_append, Text.split, if_neg hc, ih fun hm => hw (List.mem_cons_of_mem _ hm)]
  have hlast : ∀ w : Chars, sep ∉ w → Text.split sep w = [w] := by
    intro w hw
    induction w with
    | nil => rfl
    | cons c w ih =>
      have hc : c ≠ sep := fun he => hw (he ▸ List.mem_cons_self)
      rw [Text.split, if_neg hc, ih fun hm => hw (List.mem_cons_of_mem _ hm)]
  induction parts with
  | nil => exact absurd rfl hne
  | cons w parts ih =>
    cases parts with
    | nil =>
      rw [List.intercalate_singleton]
      exact hlast w (h w List.mem_cons_self)
    | cons v parts =>
      rw [List.intercalate_cons_cons, List.append_assoc, List.singleton_append,
        hone w _ (h w List.mem_cons_self),
        ih (List.cons_ne_nil _ _) fun x hx => h x (List.mem_cons_of_mem _ hx)]

theorem mem_kept {e : Chars × Chars} (h : e ∈ kept kv) :
    ∃ k v, (k, some v) ∈ kv ∧ isBlank v = false ∧ e = (k.toList, trim v) := by
  obtain ⟨⟨k, v⟩, hmem, he⟩ := List.mem_filterMap.1 h
  cases v with
  | none => cases he
  | some v =>
    dsimp only at he
    by_cases hb : isBlank v = true
    · rw [if_pos hb] at he
      cases he
    · rw [if_neg hb, Option.some_inj] at he
      exact ⟨k, v, hmem, by simpa using hb, he.symm⟩

theorem kept_key (hk : Names (kv.map Prod.fst)) {e : Chars × Chars} (h : e ∈ kept kv) :
    e.1 ≠ [] ∧ ∀ c ∈ e.1, plain c = true := by
  obtain ⟨k, v, hmem, -, rfl⟩ := mem_kept h
  obtain ⟨hne, hp⟩ := hk.1 k (List.mem_map.2 ⟨_, hmem, rfl⟩)
  exact ⟨fun he => hne (String.toList_eq_nil_iff.1 he), hp⟩

theorem safe_of_plain (h : plain c = true) : safe c = true := decide_eq_true (.inl h)

/-- The characters of a query. -/
theorem mem_query (hk : Names (kv.map Prod.fst)) (h : c ∈ query kv) :
    safe c = true ∨ c = '?' ∨ c = '&' ∨ c = '=' := by
  unfold query at h
  dsimp only at h
  split at h
  · cases h
  rcases List.mem_cons.1 h with rfl | h
  · exact .inr (.inl rfl)
  rcases mem_intercalate h with h | ⟨l, hl, h⟩
  · exact .inr (.inr (.inl (List.mem_singleton.1 h)))
  obtain ⟨e, he, rfl⟩ := List.mem_map.1 hl
  rcases List.mem_append.1 h with h | h
  · exact .inl (safe_of_plain ((kept_key hk he).2 c h))
  rcases List.mem_cons.1 h with rfl | h
  · exact .inr (.inr (.inr rfl))
  · exact .inl (enc_safe c h)

/-- A query is read as the values that were kept. -/
theorem parseQuery_query (hk : Names (kv.map Prod.fst)) :
    parseQuery skip (after '?' (query kv)) = kept kv := by
  have hpart : ∀ e ∈ kept kv, '&' ∉ e.1 ++ '=' :: enc e.2 := by
    intro e he hm
    rcases List.mem_append.1 hm with hm | hm
    · cases (kept_key hk he).2 _ hm
    rcases List.mem_cons.1 hm with hm | hm
    · cases hm
    · exact not_mem_enc rfl hm
  by_cases hnil : kept kv = []
  · rw [query, hnil]
    rfl
  have hne : (kept kv).map (fun e => e.1 ++ '=' :: enc e.2) ≠ [] := by simpa using hnil
  have hsome : List.intercalate ['&'] ((kept kv).map fun e => e.1 ++ '=' :: enc e.2) ≠ [] := by
    intro he
    have hs := split_intercalate hne fun w hw => by
      obtain ⟨e, he, rfl⟩ := List.mem_map.1 hw
      exact hpart e he
    rw [he] at hs
    obtain ⟨e, es, hes⟩ := List.exists_cons_of_ne_nil hnil
    rw [hes] at hs
    simp [Text.split] at hs
  have hafter : after '?' (query kv) =
      List.intercalate ['&'] ((kept kv).map fun e => e.1 ++ '=' :: enc e.2) := by
    rw [query, if_neg hsome]
    rfl
  rw [hafter, parseQuery, split_intercalate hne fun w hw => by
    obtain ⟨e, he, rfl⟩ := List.mem_map.1 hw
    exact hpart e he, List.filterMap_map]
  have hread : ∀ e ∈ kept kv, ((fun part => if '=' ∈ part ∧ trim (before '=' part) ≠ [] then
      some (trim (before '=' part), formDecode skip (after '=' part)) else none) ∘
        fun e : Chars × Chars => e.1 ++ '=' :: enc e.2) e = some e := by
    intro e he
    obtain ⟨hkne, hkp⟩ := kept_key hk he
    obtain ⟨hb, ha⟩ := @takeWhile_sep '=' e.1 (enc e.2) fun hm => by cases hkp _ hm
    have ht : trim e.1 = e.1 :=
      trim_of_not_blank fun c hc => safe_not_blank (safe_of_plain (hkp c hc))
    have hin : '=' ∈ e.1 ++ '=' :: enc e.2 := List.mem_append_right _ List.mem_cons_self
    rw [Function.comp_apply]
    simp only [hb, ha, ht, formDecode_enc]
    rw [if_pos ⟨hin, hkne⟩]
  rw [List.filterMap_congr hread, List.filterMap_some]

/-- What a query has under one of its names. -/
def value (v : Option Chars) : Option Chars :=
  match v with
  | some v => if isBlank v then none else some (trim v)
  | none => none

theorem kept_cons (k : String) (v : Option Chars) : kept ((k, v) :: kv) =
    match value v with
    | some w => (k.toList, w) :: kept kv
    | none => kept kv := by
  cases v with
  | none => rfl
  | some v =>
    unfold kept value
    rw [List.filterMap_cons]
    dsimp only
    by_cases hb : isBlank v = true
    · simp only [if_pos hb]
    · simp only [if_neg hb]

theorem get?_nil (name : String) : Query.get? [] name = none := rfl

theorem get?_cons {e : Chars × Chars} {q : Query} (name : String)
    (hq : Query.get? q name = none ∨ Text.equalsIgnoreCase (String.ofList e.1) name = false) :
    Query.get? (e :: q) name =
      if Text.equalsIgnoreCase (String.ofList e.1) name then some e.2 else Query.get? q name := by
  unfold Query.get? at hq ⊢
  rw [List.reverse_cons, List.find?_append]
  by_cases he : Text.equalsIgnoreCase (String.ofList e.1) name = true
  · have hq := hq.resolve_right (by rw [he]; decide)
    rw [Option.map_eq_none_iff] at hq
    rw [hq, if_pos he]
    simp [he]
  · rw [if_neg he]
    simp [he]

theorem get?_absent (name : String)
    (h : ∀ k ∈ kv.map Prod.fst, Text.equalsIgnoreCase k name = false) :
    (kept kv).get? name = none := by
  induction kv with
  | nil => rfl
  | cons e kv ih =>
    obtain ⟨k, v⟩ := e
    have hk := h k List.mem_cons_self
    have ih := ih fun k hk => h k (List.mem_cons_of_mem _ hk)
    rw [kept_cons]
    cases value v with
    | none => exact ih
    | some w =>
      dsimp only
      rw [get?_cons name (.inl ih), String.ofList_toList, hk, ih]
      rfl

/-- Each value is found under its name. -/
theorem get?_query (hk : Names (kv.map Prod.fst)) {k : String} {v : Option Chars}
    (hmem : (k, v) ∈ kv) : (kept kv).get? k = value v := by
  obtain ⟨-, hd⟩ := hk
  induction kv with
  | nil => cases hmem
  | cons e kv ih =>
    obtain ⟨k', v'⟩ := e
    rw [List.map_cons, List.map_cons, List.nodup_cons] at hd
    rw [kept_cons]
    rcases List.mem_cons.1 hmem with he | hmem
    · injection he with h1 h2
      subst h1 h2
      have hno := @get?_absent kv k fun k' hk' => by
        rw [Text.equalsIgnoreCase, beq_eq_false_iff_ne]
        intro he
        exact hd.1 (List.mem_map.2 ⟨k', hk', he⟩)
      have hself : Text.equalsIgnoreCase k k = true := by
        rw [Text.equalsIgnoreCase, beq_self_eq_true]
      cases value v with
      | none => exact hno
      | some w =>
        dsimp only
        rw [get?_cons k (.inl hno), String.ofList_toList, hself]
        rfl
    · have hother : Text.equalsIgnoreCase k' k = false := by
        rw [Text.equalsIgnoreCase, beq_eq_false_iff_ne]
        intro he
        exact hd.1 (List.mem_map.2 ⟨k, List.mem_map.2 ⟨_, hmem, rfl⟩, he.symm⟩)
      have ih := ih hmem hd.2
      cases value v' with
      | none => exact ih
      | some w =>
        dsimp only
        rw [get?_cons k (.inr (by rwa [String.ofList_toList])), String.ofList_toList, hother, ih]
        rfl

/-! What stands before the query -/

theorem splitUserUri_chars (body fallback : Chars) :
    ∀ c ∈ (splitUserUri skip body fallback).2.1, c ≠ '#' ∧ c ≠ '?' := by
  intro c hc
  have hc := mem_of_mem_trim hc
  have hq : c ≠ '?' := by simpa using List.mem_takeWhile_imp hc
  have hh : c ≠ '#' := by simpa using List.mem_takeWhile_imp (List.takeWhile_sublist _ |>.mem hc)
  exact ⟨hh, hq⟩

theorem splitUserUri_link (hk : Names (kv.map Prod.fst)) (hs : ∀ c ∈ s, c ≠ '#' ∧ c ≠ '?') :
    splitUserUri skip (s ++ (query kv ++ '#' :: enc name)) fallback =
      (ifEmpty (trim name) fallback, trim s, kept kv) := by
  have hh : '#' ∉ s ++ query kv := by
    intro h
    rcases List.mem_append.1 h with h | h
    · exact (hs _ h).1 rfl
    · rcases mem_query hk h with h | h | h | h
      all_goals cases h
  obtain ⟨hmain, hname⟩ := @takeWhile_sep '#' (s ++ query kv) (enc name) hh
  have hq : '?' ∉ s := fun h => (hs _ h).2 rfl
  have hsplit : before '?' (s ++ query kv) = s ∧ after '?' (s ++ query kv) = after '?' (query kv) := by
    cases hquery : query kv with
    | nil =>
      have hp : ∀ c ∈ s, decide (c ≠ '?') = true := fun c hc => decide_eq_true (hs c hc).2
      rw [List.append_nil, before, after, List.takeWhile_eq_self_iff.2 hp,
        List.dropWhile_eq_nil_iff.2 hp]
      exact ⟨rfl, rfl⟩
    | cons c t =>
      have hc : c = '?' := by
        unfold query at hquery
        dsimp only at hquery
        split at hquery
        · cases hquery
        · injection hquery with h
          exact h.symm
      rw [hc]
      obtain ⟨h1, h2⟩ := @takeWhile_sep '?' s t hq
      exact ⟨h1, h2.trans rfl⟩
  unfold splitUserUri
  rw [← List.append_assoc]
  dsimp only
  rw [hmain, hname, formDecode_enc, hsplit.1, hsplit.2, parseQuery_query hk]

theorem afterLast_chars (cs : Chars) : ∀ c ∈ afterLast d cs, c ∈ cs ∧ c ≠ d := by
  intro c hc
  have hc := List.mem_reverse.1 hc
  exact ⟨List.mem_reverse.1 ((List.takeWhile_sublist _).mem hc),
    by simpa using List.mem_takeWhile_imp hc⟩

/-- The last separator of a text. -/
theorem last_sep (h : d ∉ t) : afterLast d (s ++ d :: t) = t ∧ beforeLast d (s ++ d :: t) = s := by
  have hr : (s ++ d :: t).reverse = t.reverse ++ d :: s.reverse := by simp
  obtain ⟨h1, h2⟩ := @takeWhile_sep d t.reverse s.reverse (by simpa using h)
  rw [afterLast, beforeLast, hr, h1, h2, List.reverse_reverse, List.reverse_reverse]
  exact ⟨rfl, rfl⟩

theorem afterLast_none (h : d ∉ t) : afterLast d t = t := by
  have hp : ∀ c ∈ t.reverse, decide (c ≠ d) = true := fun c hc =>
    decide_eq_true fun he => h (he ▸ List.mem_reverse.1 hc)
  rw [afterLast, before, List.takeWhile_eq_self_iff.2 hp, List.reverse_reverse]

end Parts

/-! ## Hosts and ports -/

section Hosts

variable {skip : Replaced} {s p : Chars} {c : Char} {n m : Int} {a : Chars}

/-- A character of a number. -/
def numeral (c : Char) : Bool := c = '-' ∨ c = '+' ∨ (Text.digitOf c).isSome

theorem numeral_of_int (h : Text.toIntOrNull (String.ofList s) = some n) :
    ∀ c ∈ s, numeral c = true := by
  have hfold : ∀ (cs : Chars) (k : Option ℕ) (r : ℕ),
      cs.foldl (fun n c => n.bind fun n => (Text.digitOf c).map (10 * n + ·)) k = some r →
      ∀ c ∈ cs, numeral c = true := by
    intro cs
    induction cs with
    | nil => intro k r _ c hc; cases hc
    | cons d cs ih =>
      intro k r h c hc
      rw [List.foldl_cons] at h
      rcases List.mem_cons.1 hc with rfl | hc
      · cases hd : Text.digitOf c with
        | some x => exact decide_eq_true (.inr (.inr (by rw [hd]; rfl)))
        | none =>
          -- without a digit there is no number from here on
          have hnone : ∀ cs : Chars,
              cs.foldl (fun n c => n.bind fun n => (Text.digitOf c).map (10 * n + ·)) none = none := by
            intro cs
            induction cs with
            | nil => rfl
            | cons d cs ih => exact ih
          rw [hd] at h
          cases k with
          | none => rw [Option.bind_none, hnone] at h; cases h
          | some k => rw [Option.bind_some, Option.map_none, hnone] at h; cases h
      · exact ih _ r h c hc
  have hdigits : ∀ (cs : Chars) (r : ℕ), Text.digits cs = some r → ∀ c ∈ cs, numeral c = true := by
    intro cs r h
    cases cs with
    | nil => cases h
    | cons d cs => exact hfold _ _ r h
  unfold Text.toIntOrNull at h
  dsimp only at h
  rw [String.toList_ofList, Option.filter_eq_some_iff] at h
  obtain ⟨h, -⟩ := h
  have hsigned : ∀ (cs : Chars), Text.digits cs ≠ none → ∀ c ∈ cs, numeral c = true := by
    intro cs hne
    obtain ⟨r, hr⟩ := Option.ne_none_iff_exists'.1 hne
    exact hdigits cs r hr
  split at h
  · intro c hc
    rcases List.mem_cons.1 hc with rfl | hc
    · rfl
    · exact hsigned _ (fun hn => by rw [hn] at h; cases h) c hc
  · intro c hc
    rcases List.mem_cons.1 hc with rfl | hc
    · rfl
    · exact hsigned _ (fun hn => by rw [hn] at h; cases h) c hc
  · exact hsigned _ fun hn => by rw [hn] at h; cases h

theorem int_ne_nil (h : Text.toIntOrNull (String.ofList s) = some n) : s ≠ [] := by
  rintro rfl
  cases h

/-- A text that holds no separator of a link. -/
def Unseparated (s : Chars) : Prop := ∀ c ∈ s, c ≠ '#' ∧ c ≠ '?' ∧ c ≠ '@' ∧ c ≠ '/'

instance (s : Chars) : Decidable (Unseparated s) := inferInstanceAs (Decidable (∀ c ∈ s, _))

/-- A host that is read as it is written: not in brackets, and without one behind a colon. -/
def Host (s : Chars) : Prop := s.head? ≠ some '[' ∧ (':' ∈ s → ']' ∉ s)

instance (s : Chars) : Decidable (Host s) := inferInstanceAs (Decidable (_ ∧ _))

theorem numeral_ne {d : Char} (hd : numeral d = false)
    (h : Text.toIntOrNull (String.ofList s) = some n) : d ∉ s := fun hm => by
  rw [numeral_of_int h d hm] at hd
  cases hd

/-- The host as it stands in the link. -/
def bracketed (s : Chars) : Chars :=
  if ':' ∈ trim s ∧ (trim s).head? ≠ some '[' then '[' :: trim s ++ [']'] else trim s

theorem hostPort_eq (hp : isBlank p = false) : hostPort s p = bracketed s ++ ':' :: trim p := by
  rw [hostPort, if_neg (by rw [hp]; decide)]
  rfl

theorem hostPort_ends (hs : trim s ≠ []) (hp : isBlank p = false) :
    trim (hostPort s p) = hostPort s p := by
  have hpne : trim p ≠ [] := fun h => by
    rw [trim_eq_nil_iff, hp] at h
    cases h
  rw [hostPort_eq hp]
  refine trim_of_ends (fun c hc => ?_) fun c hc => ?_
  · unfold bracketed at hc
    split at hc
    · have he : c = '[' := by simpa using hc.symm
      rw [he]
      rfl
    · rw [List.head?_append_of_ne_nil _ hs] at hc
      exact (trim_ends s).1 c hc
  · rw [List.getLast?_append_of_ne_nil _ (List.cons_ne_nil _ _), List.getLast?_cons_of_ne_nil hpne]
      at hc
    exact (trim_ends p).2 c hc

theorem mem_hostPort (hp : isBlank p = false) (h : c ∈ hostPort s p) :
    c ∈ trim s ∨ c = '[' ∨ c = ']' ∨ c = ':' ∨ c ∈ trim p := by
  rw [hostPort_eq hp] at h
  rcases List.mem_append.1 h with h | h
  · unfold bracketed at h
    split at h
    · simp only [List.cons_append, List.mem_cons, List.mem_append, List.not_mem_nil, or_false] at h
      tauto
    · exact .inl h
  · rcases List.mem_cons.1 h with h | h
    · exact .inr (.inr (.inr (.inl h)))
    · exact .inr (.inr (.inr (.inr h)))

theorem before_none {sep : Char} (h : sep ∉ s) : before sep s = s :=
  List.takeWhile_eq_self_iff.2 fun _ hc => decide_eq_true fun he => h (he ▸ hc)

theorem after_none {sep : Char} (h : sep ∉ s) : after sep s = [] := by
  have hp : ∀ c ∈ s, decide (c ≠ sep) = true := fun _ hc => decide_eq_true fun he => h (he ▸ hc)
  rw [after, List.dropWhile_eq_nil_iff.2 hp]
  rfl

theorem before_length {sep : Char} (h : sep ∈ s) : (before sep s).length < s.length := by
  refine lt_of_le_of_ne (List.takeWhile_sublist _).length_le fun he => ?_
  have heq := (List.takeWhile_sublist fun c => decide (c ≠ sep)).eq_of_length he
  rw [List.takeWhile_eq_self_iff] at heq
  exact absurd rfl (of_decide_eq_true (heq sep h))

def hasPort (s : Chars) : Bool :=
  if s.head? = some '[' then (Search.index [']', ':'] s).isSome else s.count ':' == 1

theorem splitHostPortOrDefault_eq (raw : Chars) (fallback : Int) :
    splitHostPortOrDefault raw fallback =
      if hasPort (before '/' (trim raw)) then splitHostPort (before '/' (trim raw))
      else some (removeBrackets (before '/' (trim raw)), fallback) := rfl

/-- What a link with a number for its port begins with, behind the user. -/
structure Numbered (s p : Chars) (n : Int) : Prop where
  host : trim s ≠ []
  slash : '/' ∉ trim s
  port : Text.toIntOrNull (String.ofList (trim p)) = some n

section Read

variable (h : Numbered s p n)

include h

theorem Numbered.not_blank : isBlank p = false := by
  rw [← Bool.not_eq_true, ← trim_eq_nil_iff]
  exact int_ne_nil h.port

theorem Numbered.toInt_port : toInt (trim p) = some n := by
  rw [toInt, trim_trim]
  exact h.port

theorem Numbered.before_slash : before '/' (trim (hostPort s p)) = hostPort s p := by
  rw [hostPort_ends h.host h.not_blank]
  refine before_none fun hm => ?_
  rcases mem_hostPort h.not_blank hm with hm | hm | hm | hm | hm
  · exact h.slash hm
  · cases hm
  · cases hm
  · cases hm
  · exact numeral_ne rfl h.port hm

/-- The host and the number come back. -/
theorem Numbered.splitHostPort (hh : Host (trim s)) :
    ShareLink.splitHostPort (hostPort s p) = some (trim s, n) := by
  unfold ShareLink.splitHostPort
  rw [h.before_slash, hostPort_eq h.not_blank]
  by_cases hc : ':' ∈ trim s
  · have hb : bracketed s = '[' :: trim s ++ [']'] := if_pos ⟨hc, hh.1⟩
    have hsplit := @takeWhile_sep ']' (trim s) (':' :: trim p) (hh.2 hc)
    have heq : bracketed s ++ ':' :: trim p = '[' :: (trim s ++ ']' :: ':' :: trim p) := by
      rw [hb]
      simp
    rw [heq]
    simp only [List.mem_append, List.mem_cons, true_or, or_true, if_true, hsplit.1, hsplit.2,
      h.toInt_port]
    rfl
  · have hb : bracketed s = trim s := if_neg fun h => hc h.1
    rw [hb]
    obtain ⟨c, t, ht⟩ := List.exists_cons_of_ne_nil h.host
    have hne : c ≠ '[' := fun he => hh.1 (by rw [ht, he]; rfl)
    have hlast := @last_sep (trim s) (trim p) ':' (numeral_ne rfl h.port)
    rw [ht, List.cons_append] at hlast ⊢
    split
    · rename_i heq
      injection heq with h1
      exact absurd h1 hne
    · rw [if_pos (by simp), hlast.1, hlast.2, h.toInt_port]
      rfl

theorem Numbered.splitHostPortOrDefault (hh : Host (trim s)) (fallback : Int) :
    ShareLink.splitHostPortOrDefault (hostPort s p) fallback = some (trim s, n) := by
  rw [splitHostPortOrDefault_eq, h.before_slash, if_pos ?_]
  · exact h.splitHostPort hh
  rw [hostPort_eq h.not_blank, hasPort]
  by_cases hc : ':' ∈ trim s
  · have hb : bracketed s = '[' :: trim s ++ [']'] := if_pos ⟨hc, hh.1⟩
    have hhead : ('[' :: trim s ++ [']'] ++ ':' :: trim p).head? = some '[' := rfl
    rw [hb, if_pos hhead, Option.isSome_iff_ne_none]
    refine fun hn => (Search.index_eq_none (by decide)).1 hn (trim s).length.succ ?_
    refine ⟨trim p, ?_⟩
    have hdrop : List.drop (trim s).length.succ ('[' :: trim s ++ [']'] ++ ':' :: trim p) =
        [']'] ++ ':' :: trim p := by
      rw [List.append_assoc]
      exact List.drop_left ..
    rw [hdrop]
    rfl
  · have hb : bracketed s = trim s := if_neg fun h => hc h.1
    rw [hb, if_neg ?_]
    · rw [beq_iff_eq, List.count_append, List.count_eq_zero.2 hc, List.count_cons_self,
        List.count_eq_zero.2 (numeral_ne rfl h.port)]
    · rw [List.head?_append_of_ne_nil _ h.host]
      exact hh.1

omit h in
theorem before_append {sep : Char} {a b : Chars} (hm : sep ∈ a) :
    before sep (a ++ b) = before sep a := by
  induction a with
  | nil => cases hm
  | cons c a ih =>
    rw [before, before, List.cons_append, List.takeWhile_cons, List.takeWhile_cons]
    by_cases hc : c = sep
    · rw [if_neg (by simp [hc]), if_neg (by simp [hc])]
    · rw [if_pos (by simp [hc]), if_pos (by simp [hc])]
      exact congrArg _ (ih ((List.mem_cons.1 hm).resolve_left fun he => hc he.symm))

omit h in
/-- The host of an address in brackets ends at the first one. -/
theorem splitHostPort_bracket {raw rest : Chars} (hraw : before '/' (trim raw) = '[' :: rest)
    (hr : ShareLink.splitHostPort raw = some (a, m)) : ']' ∈ rest ∧ a = before ']' rest := by
  unfold ShareLink.splitHostPort at hr
  rw [hraw] at hr
  split at hr
  · rename_i he
    injection he with _ he
    subst he
    split at hr
    swap
    · cases hr
    rename_i hm
    refine ⟨hm, ?_⟩
    split at hr
    · obtain ⟨_, -, he⟩ := Option.map_eq_some_iff.1 hr
      injection he with he
      exact he.symm
    · cases hr
  · rename_i hne
    exact absurd rfl (hne rest)

/-- The link begins with a bracket where the host does or has a colon. -/
theorem Numbered.cases : (∃ t, trim s = '[' :: t ∧ hostPort s p = '[' :: (t ++ ':' :: trim p)) ∨
    ((trim s).head? ≠ some '[' ∧ ':' ∈ trim s ∧
      hostPort s p = '[' :: (trim s ++ ']' :: ':' :: trim p)) ∨
    ((trim s).head? ≠ some '[' ∧ ':' ∉ trim s ∧ hostPort s p = trim s ++ ':' :: trim p) := by
  rw [hostPort_eq h.not_blank, bracketed]
  by_cases hb : (trim s).head? = some '['
  · obtain ⟨c, t, ht⟩ := List.exists_cons_of_ne_nil h.host
    rw [ht] at hb ⊢
    obtain rfl : c = '[' := by simpa using hb
    refine .inl ⟨t, rfl, ?_⟩
    rw [if_neg fun h => h.2 rfl]
    rfl
  by_cases hc : ':' ∈ trim s
  · refine .inr (.inl ⟨hb, hc, ?_⟩)
    rw [if_pos ⟨hc, hb⟩]
    simp
  · refine .inr (.inr ⟨hb, hc, ?_⟩)
    rw [if_neg fun h => hc h.1]

/-- A host that comes back is one that can be read. -/
theorem Numbered.host_of_split (hr : ShareLink.splitHostPort (hostPort s p) = some (trim s, m)) :
    Host (trim s) := by
  rcases h.cases with ⟨t, ht, he⟩ | ⟨hb, hc, he⟩ | ⟨hb, hc, -⟩
  · have hraw := h.before_slash
    rw [he] at hraw hr
    obtain ⟨hm, ha⟩ := splitHostPort_bracket hraw hr
    have hmt : ']' ∈ t := by
      rcases List.mem_append.1 hm with hm | hm
      · exact hm
      · rcases List.mem_cons.1 hm with hm | hm
        · cases hm
        · exact absurd hm (numeral_ne rfl h.port)
    have hlen := before_length hmt
    rw [before_append hmt] at ha
    have := congrArg List.length (ht.symm.trans ha)
    rw [List.length_cons] at this
    omega
  · refine ⟨hb, fun _ hm => ?_⟩
    have hraw := h.before_slash
    rw [he] at hraw hr
    obtain ⟨-, ha⟩ := splitHostPort_bracket hraw hr
    have hlen := before_length hm
    rw [before_append hm] at ha
    rw [← ha] at hlen
    omega
  · exact ⟨hb, fun h => absurd h hc⟩

theorem Numbered.host_of_splitOrDefault {fallback : Int}
    (hr : ShareLink.splitHostPortOrDefault (hostPort s p) fallback = some (trim s, m)) :
    Host (trim s) := by
  rw [splitHostPortOrDefault_eq, h.before_slash] at hr
  split at hr
  · exact h.host_of_split hr
  rename_i hno
  rcases h.cases with ⟨t, ht, he⟩ | ⟨hb, hc, he⟩ | ⟨hb, hc, -⟩
  · -- without its bracket the host still has the port behind it
    rw [he] at hr
    injection hr with hr
    injection hr with hr
    unfold removeBrackets at hr
    rw [List.head?_cons, if_pos rfl, List.tail_cons] at hr
    have hne : (t ++ ':' :: trim p).getLast? ≠ some ']' := by
      intro hl
      have hp := int_ne_nil h.port
      rw [List.getLast?_append_of_ne_nil _ (List.cons_ne_nil _ _), List.getLast?_cons_of_ne_nil hp]
        at hl
      exact numeral_ne rfl h.port (List.mem_of_mem_getLast? hl)
    rw [if_neg hne, ht] at hr
    have hl := congrArg List.length hr
    have hp := List.length_pos_iff.2 (int_ne_nil h.port)
    rw [List.length_append, List.length_cons, List.length_cons] at hl
    omega
  · exfalso
    have hhead : ('[' :: (trim s ++ ']' :: ':' :: trim p)).head? = some '[' := rfl
    apply hno
    rw [he, hasPort, if_pos hhead, Option.isSome_iff_ne_none]
    refine fun hn => (Search.index_eq_none (by decide)).1 hn (trim s).length.succ ⟨trim p, ?_⟩
    rw [List.drop_succ_cons, List.drop_left]
    rfl
  · exact ⟨hb, fun h => absurd h hc⟩

end Read

/-! What is read of a host holds none of the separators -/

theorem splitHostPort_chars {raw : Chars} (hr : ShareLink.splitHostPort raw = some (a, m)) :
    ∀ c ∈ a, c ∈ raw ∧ c ≠ '/' := by
  have hmem : ∀ c ∈ before '/' (trim raw), c ∈ raw ∧ c ≠ '/' := fun c hc =>
    ⟨mem_of_mem_trim ((List.takeWhile_sublist _).mem hc), by simpa using List.mem_takeWhile_imp hc⟩
  cases hraw : before '/' (trim raw) with
  | nil =>
    unfold ShareLink.splitHostPort at hr
    rw [hraw] at hr
    cases hr
  | cons d rest =>
    rw [hraw] at hmem
    by_cases hd : d = '['
    · subst hd
      obtain ⟨-, rfl⟩ := splitHostPort_bracket hraw hr
      exact fun c hc => hmem c (List.mem_cons_of_mem _ ((List.takeWhile_sublist _).mem hc))
    · unfold ShareLink.splitHostPort at hr
      rw [hraw] at hr
      split at hr
      · rename_i he
        injection he with he
        exact absurd he hd
      split at hr
      · obtain ⟨_, -, he⟩ := Option.map_eq_some_iff.1 hr
        injection he with he
        intro c hc
        rw [← he] at hc
        have hc := List.mem_reverse.1 hc
        have hc := (List.dropWhile_sublist _).mem (List.mem_of_mem_tail hc)
        exact hmem c (List.mem_reverse.1 hc)
      · cases hr

theorem splitHostPortOrDefault_chars {raw : Chars} {fallback : Int}
    (hr : ShareLink.splitHostPortOrDefault raw fallback = some (a, m)) :
    ∀ c ∈ a, c ∈ raw ∧ c ≠ '/' := by
  have hmem : ∀ c ∈ before '/' (trim raw), c ∈ raw ∧ c ≠ '/' := fun c hc =>
    ⟨mem_of_mem_trim ((List.takeWhile_sublist _).mem hc), by simpa using List.mem_takeWhile_imp hc⟩
  rw [splitHostPortOrDefault_eq] at hr
  split at hr
  · exact fun c hc => hmem c (splitHostPort_chars hr c hc).1
  · injection hr with hr
    injection hr with hr
    intro c hc
    rw [← hr] at hc
    refine hmem c ?_
    have hends : ∀ l : Chars, c ∈ removeBrackets l → c ∈ l := by
      intro l hc
      have hfirst : ∀ c ∈ (if l.head? = some '[' then l.tail else l), c ∈ l := by
        intro c hc
        split at hc
        · exact List.mem_of_mem_tail hc
        · exact hc
      unfold removeBrackets at hc
      generalize (if l.head? = some '[' then l.tail else l) = t at hc hfirst
      dsimp only at hc
      split at hc
      · exact hfirst c (List.mem_of_mem_dropLast hc)
      · exact hfirst c hc
    exact hends _ hc

end Hosts

end Ghajar.ShareLink
