import Ghajar.Lib.JsonText
import Ghajar.Npv.Sentinels

/-!
# Open exports

An open export is the marker and the object of its configurations (`exportText`). `openExport` takes
the marker away wherever it stands, also where a link has it (`replaceAll_quoted`), and then decodes
the sentinels once. A container of the first generation decodes them twice, in the whole text and in
each configuration.
-/

namespace Ghajar.Npv

open Search Exits JavaArray Sidecar

/-! ## Words taken away everywhere -/

section Replace

variable {w new s t u rest : List Char} {c : Char} {n m : ℕ}

def replaceAll (w new s : List Char) : List Char := replaceN w new s.length s

theorem replaceN_cons (h : ¬w <+: c :: s) :
    replaceN w new (n + 1) (c :: s) = c :: replaceN w new (n + 1) s := by
  have hi : Search.index w (c :: s) = (Search.index w s).map (· + 1) := by
    rw [Search.index, if_neg fun hp => h (List.isPrefixOf_iff_prefix.1 hp)]
  rw [replaceN, replaceN, hi]
  cases Search.index w s with
  | none => rfl
  | some i => simp [Nat.add_right_comm i 1 w.length]

theorem replaceN_fuel (hw : w ≠ []) (hn : s.length ≤ n) (hm : s.length ≤ m) :
    replaceN w new n s = replaceN w new m s := by
  induction n generalizing s m with
  | zero =>
    obtain rfl := List.eq_nil_of_length_eq_zero (Nat.le_zero.1 hn)
    rw [replaceN_plain hw (by simpa using hw), replaceN_plain hw (by simpa using hw)]
  | succ n ih =>
    cases m with
    | zero =>
      obtain rfl := List.eq_nil_of_length_eq_zero (Nat.le_zero.1 hm)
      rw [replaceN_plain hw (by simpa using hw), replaceN_plain hw (by simpa using hw)]
    | succ m =>
      rw [replaceN, replaceN]
      cases hi : Search.index w s with
      | none => rfl
      | some i =>
        have hpos := List.length_pos_iff.2 hw
        have hlen : (s.drop (i + w.length)).length + w.length ≤ s.length := by
          have hend := (index_eq_some.1 hi).2.1.end_le hw
          rw [List.length_drop]
          omega
        simp only
        rw [ih (s := s.drop (i + w.length)) (m := m) (by omega) (by omega)]

theorem replaceAll_front (hw : w ≠ []) :
    replaceAll w new (w ++ rest) = new ++ replaceAll w new rest := by
  have hpos := List.length_pos_iff.2 hw
  obtain ⟨n, hn⟩ : ∃ n, (w ++ rest).length = n + 1 :=
    ⟨w.length + rest.length - 1, by rw [List.length_append]; omega⟩
  rw [replaceAll, hn, replaceN_front, replaceAll,
    replaceN_fuel hw (m := rest.length) (by rw [List.length_append] at hn; omega) (Nat.le_refl _)]

theorem replaceAll_cons (hw : w ≠ []) (h : ¬w <+: c :: s) :
    replaceAll w new (c :: s) = c :: replaceAll w new s := by
  rw [replaceAll, List.length_cons, replaceN_cons h, replaceAll,
    replaceN_fuel hw (m := s.length) (by omega) (Nat.le_refl _)]

theorem replaceAll_plain (hw : w ≠ []) (h : ¬w <:+: s) : replaceAll w new s = s :=
  replaceN_plain hw h

/-- What has not the first character of the word comes through. -/
theorem replaceAll_behind (hu : c ∉ u) :
    replaceAll (c :: w) new (u ++ s) = u ++ replaceAll (c :: w) new s := by
  induction u with
  | nil => rfl
  | cons d u ih =>
    simp only [List.mem_cons, not_or] at hu
    have hno : ¬c :: w <+: d :: (u ++ s) := fun h => hu.1 (List.cons_prefix_cons.1 h).1
    rw [List.cons_append, replaceAll_cons (List.cons_ne_nil c w) hno, ih hu.2, List.cons_append]

theorem toList_replace_all (v new s : String) :
    (replace v new s).toList = replaceAll v.toList new.toList s.toList := toList_replace v new s

end Replace

/-! ## Quoted texts -/

section Quoted

variable {w s rest : List Char} {c : Char}

abbrev marker : List Char := openMarker.toList

def quoted (s : List Char) : List Char := s.flatMap fun c => (Json.escape c).toList

theorem escape_cases (c : Char) : (Json.escape c).toList = [c] ∨
    'N' ∉ (Json.escape c).toList ∧ ∃ t, (Json.escape c).toList = '\\' :: t := by
  have hdigits : ∀ n < 32, 'N' ∉ (Json.hexDigits n).toList := by decide
  unfold Json.escape
  split_ifs with h
  · refine .inr ⟨?_, [c], by simp⟩
    rcases h with rfl | rfl | rfl <;> simp
  · exact .inr (by simp)
  · exact .inr (by simp)
  · exact .inr (by simp)
  · exact .inr (by simp)
  · exact .inr (by simp)
  · exact .inr (by simp [String.toList_append, hdigits c.toNat ‹_›])
  · exact .inl (by simp)

theorem newline_not_escaped (c : Char) : '\n' ∉ (Json.escape c).toList := by
  have hdigits : ∀ n < 32, '\n' ∉ (Json.hexDigits n).toList := by decide
  unfold Json.escape
  split_ifs with h1 h2 h3
  · rcases h1 with rfl | rfl | rfl <;> simp
  · simp
  · simp
  · simp
  · simp
  · simp
  · simp [String.toList_append, hdigits c.toNat ‹_›]
  · simpa [eq_comm] using h3

/-- A word of plain characters stands at the front of a quoted text where it does in the text. -/
theorem prefix_quoted (hw : ∀ c ∈ w, (Json.escape c).toList = [c] ∧ c ≠ '"' ∧ c ≠ '\\') :
    w <+: quoted s ++ '"' :: rest ↔ w <+: s := by
  induction w generalizing s with
  | nil => simp
  | cons a w ih =>
    obtain ⟨ha, hquote, hslash⟩ := hw a List.mem_cons_self
    have ih := @ih
    cases s with
    | nil => simp [quoted, List.cons_prefix_cons, hquote]
    | cons c s =>
      rw [quoted, List.flatMap_cons, ← quoted]
      rcases escape_cases c with hc | ⟨-, t, hc⟩
      · rw [hc, List.singleton_append, List.cons_append, List.cons_prefix_cons,
          List.cons_prefix_cons, ih (fun c hc => hw c (List.mem_cons_of_mem a hc))]
      · rw [hc, List.cons_append, List.cons_append, List.cons_prefix_cons, List.cons_prefix_cons]
        refine iff_of_false (fun h => hslash h.1) fun h => ?_
        rw [h.1, hc] at ha
        exact hslash (h.1.trans (List.cons.inj ha).1.symm)

theorem marker_plain : ∀ c ∈ marker, (Json.escape c).toList = [c] ∧ c ≠ '"' ∧ c ≠ '\\' := by
  intro c hc
  have hc : c ∈ ['N', 'P', 'V', 'O', '1'] := hc
  simp only [List.mem_cons, List.not_mem_nil, or_false] at hc
  rcases hc with rfl | rfl | rfl | rfl | rfl <;> exact ⟨rfl, by decide, by decide⟩

theorem marker_ne_nil : marker ≠ [] := by decide

theorem quoted_cons : quoted (c :: s) = (Json.escape c).toList ++ quoted s := rfl

/-- The marker is taken from a quoted text as from the text. -/
theorem replaceAll_quoted : replaceAll marker [] (quoted s ++ '"' :: rest) =
    quoted (replaceAll marker [] s) ++ '"' :: replaceAll marker [] rest := by
  induction hn : s.length using Nat.strong_induction_on generalizing s with
  | _ n ih =>
    by_cases hp : marker <+: s
    · obtain ⟨t, rfl⟩ := hp
      have hq : quoted (marker ++ t) = marker ++ quoted t := by
        rw [quoted, List.flatMap_append, ← quoted, ← quoted]
        rfl
      rw [hq, List.append_assoc, replaceAll_front marker_ne_nil, replaceAll_front marker_ne_nil]
      exact ih t.length (by rw [← hn, List.length_append]; exact Nat.lt_add_of_pos_left (by decide))
        rfl
    · cases s with
      | nil =>
        have hno : ¬marker <+: '"' :: rest := fun h =>
          absurd (List.cons_prefix_cons.1 h).1 (by decide)
        exact replaceAll_cons marker_ne_nil hno
      | cons c s =>
        have hrest := ih s.length (by rw [← hn, List.length_cons]; omega) rfl
        rw [replaceAll_cons marker_ne_nil hp, quoted_cons, quoted_cons, List.append_assoc,
          List.append_assoc, ← hrest]
        rcases escape_cases c with hc | ⟨hN, -⟩
        · have hno : ¬marker <+: c :: (quoted s ++ '"' :: rest) := fun h => hp (by
            refine (@prefix_quoted _ _ rest marker_plain).1 ?_
            rwa [quoted_cons, hc])
          rw [hc, List.singleton_append, replaceAll_cons marker_ne_nil hno, List.singleton_append]
        · exact replaceAll_behind hN

end Quoted

/-! ## Exports -/

section Export

variable {p : Platform} {links : List String} {l : String} {rest : List Char}

/-- The object of the configurations. -/
def exportBody (links : List String) : String :=
  (Json.obj [("configs", .arr (links.map .str))]).print

/-- The file that carries the links. -/
def exportText (links : List String) : String := openMarker ++ "\n" ++ exportBody links

/-- The text without the marker. -/
def strip (s : String) : String := replace openMarker "" s

/-- The library reads the object of the configurations back. -/
def Platform.ReadsExports (p : Platform) : Prop :=
  ∀ links, p.readObject (exportBody links) = some [("configs", .arr (links.map .str))]

theorem strip_toList (s : String) : (strip s).toList = replaceAll marker [] s.toList := by
  rw [strip, toList_replace_all]
  rfl

theorem quote_quoted (l : String) : (Json.quote l).toList = '"' :: (quoted l.toList ++ ['"']) :=
  Json.quote_toList l

theorem strip_quote : replaceAll marker [] ((Json.quote l).toList ++ rest) =
    (Json.quote (strip l)).toList ++ replaceAll marker [] rest := by
  have hno (t : List Char) : ¬marker <+: '"' :: t := fun h =>
    absurd (List.cons_prefix_cons.1 h).1 (by decide)
  rw [quote_quoted, quote_quoted, List.cons_append, List.append_assoc, List.singleton_append,
    replaceAll_cons marker_ne_nil (hno _), replaceAll_quoted, strip_toList, List.cons_append,
    List.append_assoc, List.singleton_append]

/-- A text that has no `N` comes through. -/
theorem strip_plain {u : List Char} (hu : 'N' ∉ u) :
    replaceAll marker [] (u ++ rest) = u ++ replaceAll marker [] rest := replaceAll_behind hu

theorem strip_items : replaceAll marker [] (Json.itemsText (links.map .str) ++ rest) =
    Json.itemsText ((links.map strip).map .str) ++ replaceAll marker [] rest := by
  induction links with
  | nil => rfl
  | cons l links ih =>
    cases links with
    | nil =>
      have hone (l : String) : Json.itemsText [.str l] = (Json.quote l).toList := by
        simp [Json.itemsText, Json.printItems, Json.print_str]
      simp only [List.map_cons, List.map_nil, hone]
      exact strip_quote
    | cons m links =>
      have hcomma : 'N' ∉ [','] := by decide
      simp only [List.map_cons] at ih ⊢
      rw [Json.itemsText_cons (List.cons_ne_nil _ _), Json.itemsText_cons (List.cons_ne_nil _ _),
        Json.print_str, Json.print_str, List.append_assoc, List.cons_append, strip_quote,
        ← List.singleton_append, strip_plain hcomma, ih]
      simp

theorem exportBody_toList : (exportBody links).toList =
    "\x7b\"configs\":[".toList ++ (Json.itemsText (links.map .str) ++ "]\x7d".toList) := by
  rw [exportBody, Json.print_obj, Json.fieldsText_one, Json.print_arr]
  have hq : (Json.quote "configs").toList = "\"configs\"".toList := by decide
  rw [hq]
  simp

/-- The marker goes out of each link. -/
theorem strip_body : strip (exportBody links) = exportBody (links.map strip) := by
  have hend : replaceAll marker [] "]\x7d".toList = "]\x7d".toList :=
    replaceAll_plain marker_ne_nil (by decide)
  rw [← String.toList_inj, strip_toList, exportBody_toList, exportBody_toList,
    strip_plain (by decide), strip_items, hend]

theorem newline_not_printed : '\n' ∉ (exportBody links).toList := by
  have hquote (l : String) : '\n' ∉ (Json.quote l).toList := by
    simp [quote_quoted, quoted, newline_not_escaped]
  have hitems : '\n' ∉ Json.itemsText (links.map .str) := by
    induction links with
    | nil => decide
    | cons l links ih =>
      cases links with
      | nil => simpa [Json.itemsText, Json.printItems, Json.print_str] using hquote l
      | cons m links =>
        simp only [List.map_cons] at ih ⊢
        rw [Json.itemsText_cons (List.cons_ne_nil _ _), Json.print_str]
        simp [hquote l, ih]
  rw [exportBody_toList]
  simp [hitems]

/-- The first of the two replacements takes the first line away and nothing else. -/
theorem replace_line :
    replace (openMarker ++ "\n") "" (exportText links) = exportBody links := by
  have hw : (openMarker ++ "\n").toList ≠ [] := by decide
  have hline : '\n' ∈ (openMarker ++ "\n").toList := by decide
  rw [exportText, replace_front hw (Infix.not_infix hline newline_not_printed),
    String.empty_append]

/-! ## What is opened -/

theorem links_texts {f : Value → Value} {g : String → String} (hf : ∀ s, f (.str s) = .str (g s)) :
    Npv.links p f (links.map .str) = .ok (links.map g) := by
  induction links with
  | nil => rfl
  | cons l links ih =>
    have ih : List.mapM (fun v => do
        let v ← element v
        return link p (f v)) (links.map Value.str) = .ok (links.map g) := ih
    have hlink : link p (f (.str l)) = g l := by
      rw [hf]
      rfl
    rw [Npv.links, List.map_cons, List.mapM_cons, ih]
    change (Except.ok (link p (f (.str l)) :: links.map g) : Step _) = _
    rw [hlink]
    rfl

theorem utf8_toByteArray (p : Platform) (s : String) : p.utf8 (toByteArray s) = s := by
  rw [Platform.utf8, toByteArray, Utf8.decode_encode, String.ofList_toList]

theorem exportBody_not_blank (links : List String) : (exportBody links).blank = false := by
  have h : (exportBody links).toList = '\x7b' ::
      ("\"configs\":[".toList ++ (Json.itemsText (links.map .str) ++ "]\x7d".toList)) :=
    exportBody_toList
  rw [String.blank, h]
  rfl

/-- What `openExport` makes of an export: the marker is taken out of each link, and the sentinels
of what is left are decoded. -/
theorem openExport_exportText (hp : p.ReadsExports) :
    (openExport p (toByteArray (exportText links))).result = .ok
      (if links = [] then .invalid "فایل NPVO1 کانفیگی ندارد."
      else .opened ((links.map fun l => decodeSentinels p (strip l)).filter isNotBlank) "") := by
  have hbody : replace openMarker "" (exportBody links) = exportBody (links.map strip) := strip_body
  have hconfigs : (p.readObject (exportBody (links.map strip))).bind
      (fun o => o.optJSONArray "configs") = some ((links.map strip).map .str) := by
    rw [hp]
    rfl
  have hlinks : Npv.links p (decodeValue p) ((links.map strip).map .str) =
      .ok ((links.map strip).map (decodeSentinels p)) := links_texts fun s => by rw [decodeValue]
  simp only [openExport, utf8_toByteArray, replace_line, hbody, hconfigs, exportBody_not_blank]
  cases links with
  | nil => rfl
  | cons l links =>
    rw [if_neg (List.cons_ne_nil l links)]
    change Exits.result (Npv.links p (decodeValue p) (((l :: links).map strip).map .str) >>=
      fun found => pure (.opened (found.filter isNotBlank) "")) = _
    rw [hlinks, List.map_map]
    rfl

/-- The first sixteen bytes of an export. -/
theorem head_exportText : openMarker.toList.isPrefixOf
    (headText ((toByteArray (exportText links)).take 16)) = true := by
  have h : toByteArray (exportText links) =
      [0x4e, 0x50, 0x56, 0x4f, 0x31] ++ toByteArray ("\n" ++ exportBody links) := by
    rw [exportText, String.append_assoc, toByteArray, String.toList_append, Utf8.encode_append]
    rfl
  rw [h]
  rfl

theorem open_exportText (hp : p.ReadsExports) (passphrase : Option String) :
    «open» p (toByteArray (exportText links)) passphrase = .ok
      (if maxBytes < (toByteArray (exportText links)).length then
        .invalid "حجم فایل بیش از حد مجاز است."
      else if links = [] then .invalid "فایل NPVO1 کانفیگی ندارد."
      else .opened ((links.map fun l => decodeSentinels p (strip l)).filter isNotBlank) "") := by
  have hopened := @openExport_exportText _ links hp
  have hhead := @head_exportText links
  generalize toByteArray (exportText links) = b at hopened hhead ⊢
  rw [«open», openStep]
  by_cases hmax : maxBytes < b.length
  · rw [if_pos hmax, leaveIf, if_pos hmax]
    rfl
  · rw [if_neg hmax, leaveIf, if_neg hmax, ← hopened]
    change Exits.result ((copyOfRange b 0 (if size b ≤ 16 then size b else 16) : Step _) >>= _) = _
    rw [head_eq (Nat.le_of_not_lt hmax)]
    change Exits.result (if openMarker.toList.isPrefixOf (headText (b.take 16)) = true then _
      else _) = _
    rw [if_pos hhead]

theorem replaceN_sublist {w s : List Char} {n : ℕ} : List.Sublist (replaceN w [] n s) s := by
  induction n generalizing s with
  | zero => exact List.Sublist.refl s
  | succ n ih =>
    rw [replaceN]
    cases Search.index w s with
    | none => exact List.Sublist.refl s
    | some i =>
      have hrest := (@ih (s.drop (i + w.length))).trans
        (List.drop_sublist_drop_left s (Nat.le_add_right i w.length))
      simp only [List.append_nil]
      conv_rhs => rw [← List.take_append_drop i s]
      exact (List.Sublist.refl _).append hrest

theorem strip_eq_iff : strip l = l ↔ ¬marker <:+: l.toList := by
  constructor
  · intro he hin
    have hc := (@count_replaceN marker [] l.toList 'N' l.toList.length (by decide) (by simp)).2 hin
      (Nat.lt_of_lt_of_le (by decide) hin.length_le)
    have hs := strip_toList l
    rw [he, replaceAll] at hs
    rw [← hs] at hc
    exact Nat.lt_irrefl _ hc
  · exact fun hno => replace_plain marker_ne_nil hno

/-- A link comes through as it is when it has neither the marker nor a sentinel. -/
theorem kept_iff : decodeSentinels p (strip l) = l ↔ ¬marker <:+: l.toList ∧ NoSentinel l := by
  constructor
  · intro he
    have hsub : List.Sublist (strip l).toList l.toList := by
      rw [strip_toList]
      exact replaceN_sublist
    have hlen := decode_length (p := p) (strip l)
    rw [he] at hlen
    have hstrip : strip l = l := String.toList_inj.1 (hsub.eq_of_length_le hlen)
    rw [hstrip] at he
    exact ⟨strip_eq_iff.1 hstrip, (decode_eq_iff l).1 he⟩
  · rintro ⟨hno, hsent⟩
    rw [strip_eq_iff.2 hno, (decode_eq_iff l).2 hsent]

theorem filter_map_eq {f : String → String} {q : String → Bool} :
    (links.map f).filter q = links ↔ ∀ l ∈ links, q l = true ∧ f l = l := by
  constructor
  · intro he
    have hall : (links.map f).filter q = links.map f := by
      refine List.filter_sublist.eq_of_length_le ?_
      rw [he, List.length_map]
    rw [hall] at he
    have hf : ∀ l ∈ links, f l = id l := List.map_inj_left.1 (he.trans links.map_id.symm)
    rw [he] at hall
    exact fun l hl => ⟨List.filter_eq_self.1 hall l hl, hf l hl⟩
  · intro hall
    rw [List.map_congr_left (g := id) fun l hl => (hall l hl).2, List.map_id]
    exact List.filter_eq_self.2 fun l hl => (hall l hl).1

theorem open_iff (hp : p.ReadsExports) (passphrase : Option String) :
    «open» p (toByteArray (exportText links)) passphrase = .ok (.opened links "") ↔
      links ≠ [] ∧ (toByteArray (exportText links)).length ≤ maxBytes ∧
        ∀ l ∈ links, isNotBlank l ∧ ¬openMarker.toList <:+: l.toList ∧ NoSentinel l := by
  rw [open_exportText hp]
  by_cases hmax : maxBytes < (toByteArray (exportText links)).length
  · rw [if_pos hmax]
    exact ⟨fun h => (by cases h), fun h => absurd h.2.1 (Nat.not_le.2 hmax)⟩
  · rw [if_neg hmax]
    by_cases hnil : links = []
    · rw [if_pos hnil]
      exact ⟨fun h => (by cases h), fun h => absurd hnil h.1⟩
    · rw [if_neg hnil]
      simp only [Except.ok.injEq, Result.opened.injEq, and_true, filter_map_eq, kept_iff]
      exact ⟨fun h => ⟨hnil, Nat.le_of_not_lt hmax, h⟩, fun h => h.2.2⟩

end Export

/-! ## The first generation -/

section Generation

variable {p : Platform} {texts : List String} {text : String}

mutual

/-- The texts in a value. -/
def Value.texts : Value → List String
  | .str s => [s]
  | .obj fields => fieldTexts fields
  | .arr items => itemTexts items
  | _ => []

def itemTexts : List Value → List String
  | [] => []
  | v :: vs => v.texts ++ itemTexts vs

def fieldTexts : Fields → List String
  | [] => []
  | (_, v) :: fs => v.texts ++ fieldTexts fs

end

mutual

theorem decodeValue_eq : ∀ v : Value, (∀ s ∈ v.texts, NoSentinel s) → decodeValue p v = v
  | .str s, h => by
    rw [decodeValue, (decode_eq_iff s).2 (h s (by simp [Value.texts]))]
  | .obj fields, h => by
    rw [Value.texts] at h
    rw [decodeValue, decodeFields_eq fields h]
  | .arr items, h => by
    rw [Value.texts] at h
    rw [decodeValue, decodeItems_eq items h]
  | .missing, _ | .null, _ | .bool _, _ | .num _, _ => by rw [decodeValue] <;> simp

theorem decodeItems_eq : ∀ vs : List Value, (∀ s ∈ itemTexts vs, NoSentinel s) →
    decodeItems p vs = vs
  | [], _ => by rw [decodeItems]
  | v :: vs, h => by
    simp only [itemTexts, List.mem_append] at h
    rw [decodeItems, decodeValue_eq v fun s hs => h s (.inl hs),
      decodeItems_eq vs fun s hs => h s (.inr hs)]

theorem decodeFields_eq : ∀ fs : Fields, (∀ s ∈ fieldTexts fs, NoSentinel s) →
    decodeFields p fs = fs
  | [], _ => by rw [decodeFields]
  | (k, v) :: fs, h => by
    simp only [fieldTexts, List.mem_append] at h
    rw [decodeFields, decodeValue_eq v fun s hs => h s (.inl hs),
      decodeFields_eq fs fun s hs => h s (.inr hs)]

end

variable (p) in
/-- `linesFromPayload` with another treatment of the configurations. -/
def linesWith (f : Value → Value) (text : String) : Step (List String) := do
  let t := text.trimmed
  match payloadConfigs p t with
  | some configs =>
    let found ← links p f configs
    return found.filter isNotBlank
  | none =>
    return ((linesOf t.toList).map fun l => (String.ofList l).trimmed).filter hasScheme

variable (p) in
/-- `openV1` where the configurations of the decoded text are taken as they stand. -/
def openV1Once (b : List UInt8) (passphrase : Option String) : Step Result := do
  let parts ← v1Parts p b
  let text ← v1Text p parts passphrase
  let lines ← linesWith p id text
  return .opened lines (creatorMessage p (parts.hdr.optJSONObject "policy"))

theorem linesFromPayload_eq : linesFromPayload p text = linesWith p (decodeValue p) text := rfl

theorem blank_noSentinel {s : String} (h : s.blank = true) : NoSentinel s := by
  refine noSentinel_of_plain (Infix.not_infix (c := 'n') (by decide) fun hn => ?_)
  have hw := List.all_eq_true.1 (show s.toList.all Text.isWhitespace = true from h) 'n' hn
  exact absurd hw (by decide)

/-- The same texts are left where each text that changes was not blank. -/
theorem filter_map_same {f : String → String} {q : String → Bool}
    (hq : ∀ s, q s = false → f s = s) :
    (texts.map f).filter q = texts.filter q ↔ ∀ s ∈ texts, f s = s := by
  have hlen (texts : List String) : ((texts.map f).filter q).length ≤ (texts.filter q).length := by
    induction texts with
    | nil => exact Nat.le_refl _
    | cons s texts ih =>
      cases hs : q s with
      | false =>
        rw [List.map_cons, hq s hs, List.filter_cons_of_neg (by simp [hs]),
          List.filter_cons_of_neg (by simp [hs])]
        exact ih
      | true =>
        rw [List.map_cons, List.filter_cons_of_pos (l := texts) hs, List.length_cons,
          List.filter_cons]
        split
        · exact Nat.succ_le_succ ih
        · exact Nat.le_succ_of_le ih
  constructor
  · intro he
    induction texts with
    | nil => exact fun s hs => absurd hs List.not_mem_nil
    | cons s texts ih =>
      cases hs : q s with
      | false =>
        rw [List.map_cons, hq s hs, List.filter_cons_of_neg (by simp [hs]),
          List.filter_cons_of_neg (by simp [hs])] at he
        exact List.forall_mem_cons.2 ⟨hq s hs, ih he⟩
      | true =>
        rw [List.map_cons, List.filter_cons_of_pos (l := texts) hs, List.filter_cons] at he
        split at he
        · obtain ⟨hhead, htail⟩ := List.cons.inj he
          exact List.forall_mem_cons.2 ⟨hhead, ih htail⟩
        · have := hlen texts
          rw [he, List.length_cons] at this
          omega
  · intro hall
    rw [List.map_congr_left (g := id) hall, List.map_id]

theorem openV1_eq {b : List UInt8} {passphrase : Option String} {parts : V1Parts}
    (hparts : v1Parts p b = .ok parts) (htext : v1Text p parts passphrase = .ok text) :
    openV1 p b passphrase = openV1Once p b passphrase ↔
      linesFromPayload p text = linesWith p id text := by
  rw [openV1, openV1Once, hparts]
  change (v1Text p parts passphrase >>= _) = (v1Text p parts passphrase >>= _) ↔ _
  rw [htext]
  change (linesFromPayload p text >>= _) = (linesWith p id text >>= _) ↔ _
  generalize linesFromPayload p text = l
  generalize linesWith p id text = l'
  cases l <;> cases l' <;> simp [bind, Except.bind, pure, Except.pure]

theorem links_congr {f : Value → Value} {configs : List Value} (h : ∀ v ∈ configs, f v = v) :
    links p f configs = links p id configs := by
  induction configs with
  | nil => rfl
  | cons v configs ih =>
    obtain ⟨hv, hrest⟩ := List.forall_mem_cons.1 h
    have ih := ih hrest
    rw [links, links] at ih ⊢
    rw [List.mapM_cons, List.mapM_cons, ih]
    cases he : element v with
    | error e => rfl
    | ok w =>
      have hw : w = v := by
        cases v <;> cases he <;> rfl
      have hone : (Except.ok v >>= fun v => pure (link p (f v)) : Step String) =
          (Except.ok v >>= fun v => pure (link p (id v))) :=
        congrArg (fun v => (Except.ok (link p v) : Step String)) hv
      rw [hw, hone]

theorem once_of_noSentinel (h : ∀ configs, payloadConfigs p text.trimmed = some configs →
    ∀ v ∈ configs, ∀ s ∈ v.texts, NoSentinel s) :
    linesFromPayload p text = linesWith p id text := by
  rw [linesFromPayload_eq, linesWith, linesWith]
  cases hc : payloadConfigs p text.trimmed with
  | none => rfl
  | some configs =>
    have hv := h configs hc
    have hlinks : links p (decodeValue p) configs = links p id configs :=
      links_congr fun v hmem => decodeValue_eq v (hv v hmem)
    simp only [hlinks]

theorem once_iff (hc : payloadConfigs p text.trimmed = some (texts.map .str)) :
    linesFromPayload p text = linesWith p id text ↔ ∀ s ∈ texts, NoSentinel s := by
  have hdec : links p (decodeValue p) (texts.map .str) = .ok (texts.map (decodeSentinels p)) :=
    links_texts fun s => by rw [decodeValue]
  have hid : links p id (texts.map .str) = .ok (texts.map id) := links_texts fun s => rfl
  rw [linesFromPayload_eq, linesWith, linesWith]
  simp only [hc, hdec, hid]
  have hq : ∀ s, isNotBlank s = false → decodeSentinels p s = s := fun s hs =>
    (decode_eq_iff s).2 (blank_noSentinel (by simpa [isNotBlank] using hs))
  have hiff := @filter_map_same texts _ _ hq
  simp only [decode_eq_iff] at hiff
  rw [← hiff, List.map_id]
  exact ⟨fun h => Except.ok.inj h, fun h => congrArg Except.ok h⟩

end Generation

/-! ## What is kept -/

/-- **When an open export gives the links back, and how often sentinels are decoded.** Opening the
file that carries the links gives exactly these when the file is not too large, there is one, and
none is blank or has the marker or a sentinel that stands for a text. Decoding a text cuts it in the
one way there is, puts what each token stands for in its place and leaves the rest. A container of
the first generation gives the links of the text it decoded where no text of its configurations has
a sentinel again, and where all of them are texts only then. -/
theorem kept_in_export (p : Platform) (hp : p.ReadsExports) :
    (∀ (links : List String) (passphrase : Option String),
      «open» p (toByteArray (exportText links)) passphrase = .ok (.opened links "") ↔
        links ≠ [] ∧ (toByteArray (exportText links)).length ≤ maxBytes ∧
          ∀ l ∈ links, isNotBlank l ∧ ¬openMarker.toList <:+: l.toList ∧ NoSentinel l) ∧
    (∀ s : String, ∃ ps last, Cut s.toList ps last ∧
      (∀ ps' last', Cut s.toList ps' last' → ps' = ps ∧ last' = last) ∧
      s.toList = ps.flatMap (fun q => q.1 ++ (mark ++ q.2)) ++ last ∧
      (decodeSentinels p s).toList = ps.flatMap (fun q => q.1 ++ inPlace p q.2) ++ last) ∧
    ∀ (b : List UInt8) (passphrase : Option String) (parts : V1Parts) (text : String),
      v1Parts p b = .ok parts → v1Text p parts passphrase = .ok text →
      ((∀ configs, payloadConfigs p text.trimmed = some configs →
          ∀ v ∈ configs, ∀ s ∈ v.texts, NoSentinel s) →
        openV1 p b passphrase = openV1Once p b passphrase) ∧
      ∀ texts : List String, payloadConfigs p text.trimmed = some (texts.map .str) →
        (openV1 p b passphrase = openV1Once p b passphrase ↔ ∀ s ∈ texts, NoSentinel s) := by
  refine ⟨fun links passphrase => open_iff hp passphrase, fun s => ?_,
    fun b passphrase parts text hparts htext => ⟨fun h => ?_, fun texts hc => ?_⟩⟩
  · obtain ⟨ps, last, h⟩ := cut_exists s.toList
    refine ⟨ps, last, h, fun ps' last' h' => cut_unique h' h, join_pieces h, ?_⟩
    rw [decode_cut h, String.toList_ofList]
  · exact (openV1_eq hparts htext).2 (once_of_noSentinel h)
  · rw [openV1_eq hparts htext, once_iff hc]

/-! ## Two files -/

section Files

mutual

def Value.ofJson : Json → Value
  | .null => .null
  | .bool b => .bool b
  | .num t => .num ⟨t, none, 0⟩
  | .str t => .str t
  | .arr items => .arr (ofItems items)
  | .obj fields => .obj (ofFields fields)

def ofItems : List Json → List Value
  | [] => []
  | v :: vs => Value.ofJson v :: ofItems vs

def ofFields : List (String × Json) → Fields
  | [] => []
  | (k, v) :: fs => (k, Value.ofJson v) :: ofFields fs

end

/-- A platform that reads objects. -/
def readingPlatform : Platform where
  readObject s :=
    match Json.read s with
    | some (.obj fields) => some (ofFields fields)
    | _ => none
  readArray _ := none
  print _ := ""
  parseInt _ := none
  hmac _ _ := ⟨List.replicate 32 1, rfl⟩
  uppercase s := s
  lowercase s := s
  replaced _ := 1

theorem readingPlatform_readsExports : readingPlatform.ReadsExports := by
  intro links
  have hplain : Json.Plain (.obj [("configs", .arr (links.map .str))]) := by
    refine ⟨List.nodup_singleton _, Json.plain_arr fun v hv => ?_, trivial⟩
    obtain ⟨t, -, rfl⟩ := List.mem_map.1 hv
    exact Json.plain_str t
  have hitems : ofItems (links.map .str) = links.map .str := by
    clear hplain
    induction links with
    | nil => rfl
    | cons l links ih =>
      rw [List.map_cons, List.map_cons, ofItems, Value.ofJson, ih]
  have hfields : ofFields [("configs", .arr (links.map .str))] =
      [("configs", .arr (links.map .str))] := by
    rw [ofFields, ofFields, Value.ofJson, hitems]
  change (match Json.read (exportBody links) with
    | some (.obj fields) => some (ofFields fields)
    | _ => none) = _
  rw [exportBody, Json.read_print hplain]
  exact congrArg some hfields

/-- A link that is opened, and one whose remark is the marker. -/
def plainLink : String := "vless://id@host:443#npv"

def markedLink : String := "vless://id@host:443#NPVO1"

theorem links_fit : ∀ l ∈ [plainLink, markedLink],
    (toByteArray (exportText [l])).length ≤ maxBytes := by
  decide +kernel

theorem kept_in_export_plain :
    «open» readingPlatform (toByteArray (exportText [plainLink])) none =
      .ok (.opened [plainLink] "") :=
  ((kept_in_export readingPlatform readingPlatform_readsExports).1 [plainLink] none).2
    ⟨List.cons_ne_nil _ _, links_fit _ (by simp), fun l hl => by
      rw [List.mem_singleton.1 hl]
      exact ⟨by decide, by decide, noSentinel_of_plain (by decide)⟩⟩

/-- The marker goes out of the remark. -/
theorem marker_lost : ¬∀ (p : Platform), p.ReadsExports → ∀ links : List String, links ≠ [] →
    (toByteArray (exportText links)).length ≤ maxBytes →
    (∀ l ∈ links, isNotBlank l ∧ NoSentinel l) →
    «open» p (toByteArray (exportText links)) none = .ok (.opened links "") := by
  intro h
  have hopen := h readingPlatform readingPlatform_readsExports [markedLink] (List.cons_ne_nil _ _)
    (links_fit _ (by simp)) fun l hl => by
      rw [List.mem_singleton.1 hl]
      exact ⟨by decide, noSentinel_of_plain (by decide)⟩
  have hno := (((open_iff readingPlatform_readsExports none).1 hopen).2.2 markedLink
    List.mem_cons_self).2.1
  exact hno (by decide)

end Files

end Ghajar.Npv
