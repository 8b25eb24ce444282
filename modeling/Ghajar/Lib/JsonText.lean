import Ghajar.Lib.Json

/-!
# Reading a JSON text back

`Json.read` reads the texts that `Json.print` writes: `read_print` says that a value is
read back as it was, if its numbers are texts of numbers and no object in it has two
fields of one name (`Plain`). Each reader returns what it leaves unread.
-/

namespace Json

/-! ## The readers -/

def isNumberChar (c : Char) : Bool := c.isDigit || c ∈ ['-', '+', '.', 'e', 'E']

def hexValue (c : Char) : Nat :=
  if c.isDigit then c.toNat - '0'.toNat else c.toNat - 'a'.toNat + 10

/-- The character that an escape stands for, after its backslash. -/
def readEscape : List Char → Option (Char × List Char)
  | 't' :: cs => some ('\t', cs)
  | 'n' :: cs => some ('\n', cs)
  | 'r' :: cs => some ('\r', cs)
  | 'b' :: cs => some (Char.ofNat 8, cs)
  | 'f' :: cs => some (Char.ofNat 12, cs)
  | 'u' :: a :: b :: c :: d :: cs =>
    some (Char.ofNat (((hexValue a * 16 + hexValue b) * 16 + hexValue c) * 16 + hexValue d), cs)
  | c :: cs => some (c, cs)
  | [] => none

/-- A string, from behind its opening quote; the number bounds the escapes in it. -/
def readString : Nat → List Char → Option (List Char × List Char)
  | 0, _ => none
  | _ + 1, [] => none
  | n + 1, c :: cs =>
    if c = '"' then some ([], cs)
    else if c = '\\' then do
      let (e, rest) ← readEscape cs
      let (s, rest) ← readString n rest
      return (e :: s, rest)
    else do
      let (s, rest) ← readString n cs
      return (c :: s, rest)

def readWord (cs : List Char) : Option (Json × List Char) :=
  if "null".toList.isPrefixOf cs then some (.null, cs.drop 4)
  else if "true".toList.isPrefixOf cs then some (.bool true, cs.drop 4)
  else if "false".toList.isPrefixOf cs then some (.bool false, cs.drop 5)
  else none

mutual

def readValue : Nat → List Char → Option (Json × List Char)
  | 0, _ => none
  | _ + 1, [] => none
  | n + 1, c :: cs =>
    if c = '"' then (readString n cs).map fun (s, rest) => (.str (String.ofList s), rest)
    else if c = '\x7b' then
      if cs.head? = some '\x7d' then some (.obj [], cs.tail) else readFields n [] cs
    else if c = '[' then
      if cs.head? = some ']' then some (.arr [], cs.tail)
      else (readItems n cs).map fun (vs, rest) => (.arr vs, rest)
    else if isNumberChar c then
      some (.num (String.ofList (c :: cs.takeWhile isNumberChar)), cs.dropWhile isNumberChar)
    else readWord (c :: cs)

def readItems : Nat → List Char → Option (List Json × List Char)
  | 0, _ => none
  | n + 1, cs => do
    let (v, rest) ← readValue n cs
    match rest with
    | ',' :: rest => (readItems n rest).map fun (vs, rest) => (v :: vs, rest)
    | ']' :: rest => some ([v], rest)
    | _ => none

/-- The fields of an object behind those that are read; a later one of a name is put over an
earlier one. -/
def readFields : Nat → JSONObject → List Char → Option (Json × List Char)
  | 0, _, _ => none
  | _ + 1, _, [] => none
  | n + 1, o, _ :: cs => do
    let (k, rest) ← readString n cs
    let (v, rest) ← readValue n (rest.drop 1)
    match rest with
    | ',' :: rest => readFields n (o.put (String.ofList k) v) rest
    | '\x7d' :: rest => some (.obj (o.put (String.ofList k) v), rest)
    | _ => none

end

def read (s : String) : Option Json :=
  match readValue (s.toList.length + 1) s.toList with
  | some (v, []) => some v
  | _ => none

/-! ## Values that are read back -/

mutual

def Plain : Json → Prop
  | num t => t.toList ≠ [] ∧ ∀ c ∈ t.toList, isNumberChar c = true
  | arr items => PlainItems items
  | obj fields => (fields.map Prod.fst).Nodup ∧ PlainFields fields
  | _ => True

def PlainItems : List Json → Prop
  | [] => True
  | v :: vs => Plain v ∧ PlainItems vs

def PlainFields : List (String × Json) → Prop
  | [] => True
  | (_, v) :: fs => Plain v ∧ PlainFields fs

end

theorem plainItems_iff {vs : List Json} : PlainItems vs ↔ ∀ v ∈ vs, Plain v := by
  induction vs with
  | nil => simp [PlainItems]
  | cons v vs ih => simp [PlainItems, ih]

theorem plainFields_iff {fs : List (String × Json)} :
    PlainFields fs ↔ ∀ f ∈ fs, Plain f.2 := by
  induction fs with
  | nil => simp [PlainFields]
  | cons f fs ih => simp [PlainFields, ih]

theorem plain_str (t : String) : Plain (.str t) := trivial

theorem plain_bool (b : Bool) : Plain (.bool b) := trivial

theorem plain_arr {vs : List Json} (h : ∀ v ∈ vs, Plain v) : Plain (.arr vs) :=
  plainItems_iff.2 h

theorem plain_nil : Plain (.obj []) := ⟨List.nodup_nil, trivial⟩

/-- An object stays plain where a plain value is put. -/
theorem plain_put {o : JSONObject} {k : String} {v : Json} (h : Plain (.obj o)) (hv : Plain v) :
    Plain (.obj (o.put k v)) := by
  unfold JSONObject.put
  refine ⟨?_, plainFields_iff.2 fun f hf => ?_⟩
  · cases hg : Keyed.get Prod.fst o k with
    | none =>
      rw [Keyed.put_of_get_none hg, List.map_append, List.nodup_append]
      refine ⟨h.1, by simp, fun a ha b hb => ?_⟩
      obtain ⟨f, hf, rfl⟩ := List.mem_map.1 ha
      obtain rfl := List.mem_singleton.1 hb
      exact Keyed.get_none hg hf
    | some b =>
      rw [Keyed.map_put_of_get Prod.fst hg (Keyed.get_key hg)]
      exact h.1
  · rcases Keyed.mem_put hf with rfl | hf
    · exact hv
    · exact plainFields_iff.1 h.2 f hf

theorem isNumberChar_digits {n : Nat} : ∀ c ∈ Nat.toDigits 10 n, isNumberChar c = true := by
  intro c hc
  unfold isNumberChar
  rw [Nat.isDigit_of_mem_toDigits (by decide) (by decide) hc, Bool.true_or]

theorem plain_int (n : Int) : Plain (.num (toString n)) := by
  have hnat (m : Nat) : m.repr.toList = Nat.toDigits 10 m := by simp [Nat.repr]
  have hne (m : Nat) : Nat.toDigits 10 m ≠ [] := Nat.toDigits_ne_nil
  cases n with
  | ofNat m =>
    change m.repr.toList ≠ [] ∧ ∀ c ∈ m.repr.toList, _
    rw [hnat]
    exact ⟨hne m, isNumberChar_digits⟩
  | negSucc m =>
    change ("-" ++ (m + 1).repr).toList ≠ [] ∧ ∀ c ∈ ("-" ++ (m + 1).repr).toList, _
    rw [String.toList_append, hnat]
    refine ⟨by simp, fun c hc => ?_⟩
    rcases List.mem_append.1 hc with hc | hc
    · obtain rfl := List.mem_singleton.1 hc
      rfl
    · exact isNumberChar_digits c hc

/-- What follows a number does not go on with it. -/
def Stops (rest : List Char) : Prop := ∀ c ∈ rest.head?, isNumberChar c = false

/-! ## Strings -/

section Strings

variable {c : Char} {s rest : List Char} {n : Nat}

theorem hexDigits_control : ∀ k < 32, (hexDigits k).toList =
    ['0', '0', if k < 16 then '0' else '1', Nat.digitChar (k % 16)] := by decide

theorem hexValue_digitChar : ∀ k < 16, hexValue (Nat.digitChar k) = k := by decide

theorem readString_backslash {cs : List Char} {e : Char} (h : readEscape cs = some (e, rest)) :
    readString (n + 1) ('\\' :: cs) = (readString n rest).map fun r => (e :: r.1, r.2) := by
  rw [readString, if_neg (by decide), if_pos rfl, h]
  cases hr : readString n rest <;> simp [hr]

/-- A character as it is escaped is read back. -/
theorem readString_escape : readString (n + 1) ((escape c).toList ++ rest) =
    (readString n rest).map fun r => (c :: r.1, r.2) := by
  unfold escape
  split
  · rename_i h
    rw [String.toList_ofList]
    refine readString_backslash ?_
    rcases h with rfl | rfl | rfl <;> rfl
  split
  · rename_i h
    subst h
    exact readString_backslash rfl
  split
  · rename_i h
    subst h
    exact readString_backslash rfl
  split
  · rename_i h
    subst h
    exact readString_backslash rfl
  split
  · rename_i h
    rw [show c = Char.ofNat 8 by rw [← h, Char.ofNat_toNat]]
    exact readString_backslash rfl
  split
  · rename_i h
    rw [show c = Char.ofNat 12 by rw [← h, Char.ofNat_toNat]]
    exact readString_backslash rfl
  split
  · rename_i h
    have hu : "\\u".toList = ['\\', 'u'] := rfl
    rw [String.toList_append, hexDigits_control _ h, hu]
    change readString (n + 1) ('\\' :: 'u' :: '0' :: '0' ::
      (if c.toNat < 16 then '0' else '1') :: Nat.digitChar (c.toNat % 16) :: rest) = _
    refine readString_backslash ?_
    have hlow := hexValue_digitChar (c.toNat % 16) (by omega)
    have hval : ((0 * 16 + 0) * 16 + (if c.toNat < 16 then 0 else 1)) * 16 + c.toNat % 16 =
        c.toNat := by
      split <;> omega
    have hhigh : hexValue (if c.toNat < 16 then '0' else '1') =
        if c.toNat < 16 then 0 else 1 := by
      split <;> rfl
    have hzero : hexValue '0' = 0 := rfl
    simp only [readEscape, hlow, hhigh, hzero, hval, Char.ofNat_toNat]
  · rename_i hq ht hn hr hb hf hc
    have h1 : c ≠ '"' := fun h => hq (.inl h)
    have h2 : c ≠ '\\' := fun h => hq (.inr (.inl h))
    simp only [String.toList_ofList, List.cons_append, List.nil_append, readString, h1, h2,
      if_false]
    cases readString n rest <;> rfl

theorem readString_quoted (h : s.length < n) :
    readString n (s.flatMap (fun c => (escape c).toList) ++ '"' :: rest) = some (s, rest) := by
  induction s generalizing n with
  | nil =>
    obtain ⟨m, rfl⟩ : ∃ m, n = m + 1 := ⟨n - 1, by simp at h; omega⟩
    rfl
  | cons c s ih =>
    obtain ⟨m, rfl⟩ : ∃ m, n = m + 1 := ⟨n - 1, by omega⟩
    rw [List.flatMap_cons, List.append_assoc, readString_escape,
      ih (by simpa using h)]
    rfl

theorem quote_toList (t : String) :
    (quote t).toList = '"' :: (t.toList.flatMap (fun c => (escape c).toList) ++ ['"']) := by
  simp [quote, String.toList_append, List.flatMap_map]

/-- A quoted text is no shorter than what it quotes. -/
theorem length_quoted (t : List Char) :
    t.length ≤ (t.flatMap fun c => (escape c).toList).length := by
  induction t with
  | nil => exact Nat.le_refl _
  | cons c t ih =>
    have hc : 1 ≤ (escape c).toList.length := by
      unfold escape
      split_ifs <;> simp
    simp only [List.flatMap_cons, List.length_cons, List.length_append]
    omega

end Strings

/-! ## Values -/

section Values

variable {v : Json} {vs : List Json} {fs : List (String × Json)} {o : JSONObject} {k : String}
  {c : Char} {t rest : List Char} {n : Nat}

def itemsText (vs : List Json) : List Char := [','].intercalate ((printItems vs).map String.toList)

def fieldsText (fs : List (String × Json)) : List Char :=
  [','].intercalate ((printFields fs).map String.toList)

theorem print_num (t : String) : print (.num t) = t := by simp [print]

theorem print_str (t : String) : print (.str t) = quote t := by simp [print]

theorem print_arr : (print (.arr vs)).toList = '[' :: (itemsText vs ++ [']']) := by
  simp [print, itemsText, String.toList_append]

theorem print_obj : (print (.obj fs)).toList = '\x7b' :: (fieldsText fs ++ ['\x7d']) := by
  simp [print, fieldsText, String.toList_append]

theorem itemsText_cons (h : vs ≠ []) :
    itemsText (v :: vs) = (print v).toList ++ ',' :: itemsText vs := by
  obtain ⟨w, ws, rfl⟩ := List.exists_cons_of_ne_nil h
  simp [itemsText, printItems, List.intercalate_cons_cons]

theorem fieldsText_cons (h : fs ≠ []) : fieldsText ((k, v) :: fs) =
    (quote k).toList ++ ':' :: ((print v).toList ++ ',' :: fieldsText fs) := by
  obtain ⟨⟨k', w⟩, ws, rfl⟩ := List.exists_cons_of_ne_nil h
  simp [fieldsText, printFields, List.intercalate_cons_cons, String.toList_append]

theorem fieldsText_one : fieldsText [(k, v)] = (quote k).toList ++ ':' :: (print v).toList := by
  simp [fieldsText, printFields, String.toList_append]

/-- What a number starts with starts nothing else. -/
theorem isNumberChar_ne (h : isNumberChar c = true) :
    c ≠ '"' ∧ c ≠ '\x7b' ∧ c ≠ '[' ∧ c ≠ ']' := by
  refine ⟨?_, ?_, ?_, ?_⟩ <;> rintro rfl <;> exact absurd h (by decide)

theorem read_num (hne : t ≠ []) (h : ∀ c ∈ t, isNumberChar c = true) (hs : Stops rest) :
    readValue (n + 1) (t ++ rest) = some (.num (String.ofList t), rest) := by
  obtain ⟨c, t, rfl⟩ := List.exists_cons_of_ne_nil hne
  obtain ⟨h1, h2, h3, -⟩ := isNumberChar_ne (h c (.head _))
  have ht : ∀ c ∈ t, isNumberChar c = true := fun c hc => h c (.tail _ hc)
  have hrest : rest.takeWhile isNumberChar = [] ∧ rest.dropWhile isNumberChar = rest := by
    cases rest with
    | nil => exact ⟨rfl, rfl⟩
    | cons d rest => simp [hs d rfl]
  rw [List.cons_append, readValue, if_neg h1, if_neg h2, if_neg h3, if_pos (h c (.head _)),
    List.takeWhile_append_of_pos ht, List.dropWhile_append_of_pos ht, hrest.1, hrest.2,
    List.append_nil]

/-- A field is its name, and a value behind the colon. -/
theorem readFields_quote (h : k.toList.length < n) :
    readFields (n + 1) o ((quote k).toList ++ rest) =
      (readValue n (rest.drop 1)).bind fun (v, rest) =>
        match rest with
        | ',' :: rest => readFields n (o.put k v) rest
        | '\x7d' :: rest => some (.obj (o.put k v), rest)
        | _ => none := by
  rw [quote_toList, List.cons_append, List.append_assoc, List.singleton_append, readFields,
    readString_quoted h]
  simp only [Option.bind_eq_bind, Option.bind_some, String.ofList_toList]

/-- No value starts as an array ends. -/
theorem print_head (h : Plain v) : ∃ c t, (print v).toList = c :: t ∧ c ≠ ']' := by
  cases v with
  | null => exact ⟨'n', _, rfl, by decide⟩
  | bool b => cases b <;> exact ⟨_, _, rfl, by decide⟩
  | num t =>
    obtain ⟨c, cs, ht⟩ := List.exists_cons_of_ne_nil h.1
    exact ⟨c, cs, ht, (isNumberChar_ne (h.2 c (ht ▸ .head _))).2.2.2⟩
  | str t => exact ⟨'"', _, quote_toList t, by decide⟩
  | arr vs => exact ⟨'[', _, print_arr, by decide⟩
  | obj fs => exact ⟨'\x7b', _, print_obj, by decide⟩

theorem put_new (h : k ∉ o.map Prod.fst) : o.put k v = o ++ [(k, v)] := by
  unfold JSONObject.put
  induction o with
  | nil => rfl
  | cons f o ih =>
    simp only [List.map_cons, List.mem_cons, not_or] at h
    rw [Keyed.put, if_neg (Ne.symm h.1), ih h.2]
    rfl

theorem stops_of {c : Char} (h : isNumberChar c = false) : Stops (c :: rest) := by
  rintro d ⟨⟩
  exact h

end Values

/-! ## The round trip -/

mutual

/-- **What is printed is read back.** -/
theorem readValue_print : ∀ (v : Json) (n : Nat) (rest : List Char), Plain v →
    (print v).toList.length ≤ n → Stops rest →
    readValue n ((print v).toList ++ rest) = some (v, rest)
  | .null, n, rest, _, hn, _ => by
    obtain ⟨m, rfl⟩ : ∃ m, n = m + 1 := ⟨n - 1, by simp [print] at hn; omega⟩
    rfl
  | .bool b, n, rest, _, hn, _ => by
    obtain ⟨m, rfl⟩ : ∃ m, n = m + 1 := ⟨n - 1, by cases b <;> simp [print] at hn <;> omega⟩
    cases b <;> rfl
  | .num t, n, rest, h, hn, hs => by
    rw [print_num] at hn ⊢
    have hpos := List.length_pos_iff.2 h.1
    obtain ⟨m, rfl⟩ : ∃ m, n = m + 1 := ⟨n - 1, by omega⟩
    have hr := read_num (n := m) h.1 h.2 hs
    rwa [String.ofList_toList] at hr
  | .str t, n, rest, _, hn, _ => by
    rw [print_str] at hn ⊢
    simp only [quote_toList, List.length_cons, List.length_append, List.length_nil] at hn
    have hlen := length_quoted t.toList
    obtain ⟨m, rfl⟩ : ∃ m, n = m + 1 := ⟨n - 1, by omega⟩
    have hr : readString m (t.toList.flatMap (fun c => (escape c).toList) ++ '"' :: rest) =
        some (t.toList, rest) := readString_quoted (by omega)
    rw [quote_toList, List.cons_append, List.append_assoc, List.singleton_append, readValue,
      if_pos rfl, hr, Option.map_some]
    simp only [String.ofList_toList]
  | .arr [], n, rest, _, hn, _ => by
    obtain ⟨m, rfl⟩ : ∃ m, n = m + 1 := ⟨n - 1, by simp [print_arr] at hn; omega⟩
    rw [print_arr]
    simp [itemsText, printItems, readValue]
  | .arr (v :: vs), n, rest, h, hn, _ => by
    simp only [print_arr, List.length_cons, List.length_append, List.length_nil] at hn
    obtain ⟨m, rfl⟩ : ∃ m, n = m + 1 := ⟨n - 1, by omega⟩
    have hr := readItems_print (v :: vs) m rest (List.cons_ne_nil _ _) h (by omega)
    obtain ⟨c, t, hc, hne⟩ := print_head h.1
    have hhead : (itemsText (v :: vs) ++ ']' :: rest).head? ≠ some ']' := by
      cases vs with
      | nil => simpa [itemsText, printItems, hc] using hne
      | cons w ws => simpa [itemsText_cons, hc] using hne
    rw [print_arr, List.cons_append, List.append_assoc, List.singleton_append, readValue,
      if_neg (by decide), if_neg (by decide), if_pos rfl, if_neg hhead, hr]
    rfl
  | .obj [], n, rest, _, hn, _ => by
    obtain ⟨m, rfl⟩ : ∃ m, n = m + 1 := ⟨n - 1, by simp [print_obj] at hn; omega⟩
    rw [print_obj]
    simp [fieldsText, printFields, readValue]
  | .obj ((k, v) :: fs), n, rest, h, hn, _ => by
    simp only [print_obj, List.length_cons, List.length_append, List.length_nil] at hn
    obtain ⟨m, rfl⟩ : ∃ m, n = m + 1 := ⟨n - 1, by omega⟩
    have hr := readFields_print ((k, v) :: fs) m [] rest (List.cons_ne_nil _ _) h.1 h.2 (by omega)
    have hhead : (fieldsText ((k, v) :: fs) ++ '\x7d' :: rest).head? ≠ some '\x7d' := by
      cases fs with
      | nil => simp [fieldsText_one, quote_toList]
      | cons f fs => simp [fieldsText_cons, quote_toList]
    rw [print_obj, List.cons_append, List.append_assoc, List.singleton_append, readValue,
      if_neg (by decide), if_pos rfl, if_neg hhead, hr]
    rfl

theorem readItems_print : ∀ (vs : List Json) (n : Nat) (rest : List Char), vs ≠ [] →
    PlainItems vs → (itemsText vs).length < n →
    readItems n (itemsText vs ++ ']' :: rest) = some (vs, rest)
  | [], _, _, hne, _, _ => absurd rfl hne
  | [v], n, rest, _, h, hn => by
    obtain ⟨m, rfl⟩ : ∃ m, n = m + 1 := ⟨n - 1, by omega⟩
    have ht : itemsText [v] = (print v).toList := by simp [itemsText, printItems]
    rw [ht] at hn ⊢
    have hr := readValue_print v m (']' :: rest) h.1 (by omega) (stops_of (by decide))
    simp only [readItems, hr, Option.bind_eq_bind, Option.bind_some]
  | v :: w :: vs, n, rest, _, h, hn => by
    obtain ⟨m, rfl⟩ : ∃ m, n = m + 1 := ⟨n - 1, by omega⟩
    rw [itemsText_cons (List.cons_ne_nil _ _)] at hn ⊢
    simp only [List.length_append, List.length_cons] at hn
    have hr := readValue_print v m (',' :: (itemsText (w :: vs) ++ ']' :: rest)) h.1 (by omega)
      (stops_of (by decide))
    have hrest := readItems_print (w :: vs) m rest (List.cons_ne_nil _ _) h.2 (by omega)
    rw [List.append_assoc, List.cons_append, readItems, hr]
    simp only [Option.bind_eq_bind, Option.bind_some, hrest, Option.map_some]

theorem readFields_print : ∀ (fs : List (String × Json)) (n : Nat) (o : JSONObject)
    (rest : List Char), fs ≠ [] → ((o ++ fs).map Prod.fst).Nodup → PlainFields fs →
    (fieldsText fs).length < n →
    readFields n o (fieldsText fs ++ '\x7d' :: rest) = some (.obj (o ++ fs), rest)
  | [], _, _, _, hne, _, _, _ => absurd rfl hne
  | [(k, v)], n, o, rest, _, hnd, h, hn => by
    obtain ⟨m, rfl⟩ : ∃ m, n = m + 1 := ⟨n - 1, by omega⟩
    rw [fieldsText_one] at hn ⊢
    simp only [quote_toList, List.length_append, List.length_cons, List.length_nil] at hn
    have hlen := length_quoted k.toList
    have hr := readValue_print v m ('\x7d' :: rest) h.1 (by omega) (stops_of (by decide))
    have hnew : k ∉ o.map Prod.fst := fun hk => by
      rw [List.map_append, List.nodup_append] at hnd
      exact hnd.2.2 k hk k (.head _) rfl
    rw [List.append_assoc, List.cons_append, readFields_quote (by omega), List.drop_one,
      List.tail_cons, hr, Option.bind_some]
    simp only [put_new hnew]
  | (k, v) :: f :: fs, n, o, rest, _, hnd, h, hn => by
    obtain ⟨m, rfl⟩ : ∃ m, n = m + 1 := ⟨n - 1, by omega⟩
    rw [fieldsText_cons (List.cons_ne_nil _ _)] at hn ⊢
    simp only [quote_toList, List.length_append, List.length_cons, List.length_nil] at hn
    have hlen := length_quoted k.toList
    have hr := readValue_print v m (',' :: (fieldsText (f :: fs) ++ '\x7d' :: rest)) h.1
      (by omega) (stops_of (by decide))
    have hnew : k ∉ o.map Prod.fst := fun hk => by
      rw [List.map_append, List.nodup_append] at hnd
      exact hnd.2.2 k hk k (.head _) rfl
    have hrest := readFields_print (f :: fs) m (o ++ [(k, v)]) rest (List.cons_ne_nil _ _)
      (by rwa [List.append_assoc]) h.2 (by omega)
    rw [List.append_assoc, List.cons_append, readFields_quote (by omega), List.drop_one,
      List.tail_cons, List.append_assoc, List.cons_append, hr, Option.bind_some]
    simp only [put_new hnew, hrest, List.append_assoc, List.singleton_append]

end

/-- **A plain value is read back from its text.** -/
theorem read_print {v : Json} (h : Plain v) : read (print v) = some v := by
  have hr := readValue_print v ((print v).toList.length + 1) [] h (Nat.le_succ _)
    (fun c hc => by cases hc)
  rw [List.append_nil] at hr
  rw [read, hr]

/-! ## How long a text is -/

mutual

/-- As many characters are enough for a value. -/
def width : Json → Nat
  | null => 4
  | bool _ => 5
  | num t => t.toList.length
  | str t => 6 * t.toList.length + 2
  | arr items => widthItems items + 2
  | obj fields => widthFields fields + 2

def widthItems : List Json → Nat
  | [] => 0
  | v :: vs => width v + 1 + widthItems vs

def widthFields : List (String × Json) → Nat
  | [] => 0
  | (k, v) :: fs => 6 * k.toList.length + 4 + width v + widthFields fs

end

/-- A field with a text as its value. -/
theorem widthFields_str (k t : String) (fs : List (String × Json)) :
    widthFields ((k, .str t) :: fs) =
      6 * k.toList.length + 6 * t.toList.length + 6 + widthFields fs := by
  simp only [widthFields, width]
  omega

theorem quote_length (t : String) : (quote t).toList.length ≤ 6 * t.toList.length + 2 := by
  have hescape (c : Char) : (escape c).toList.length ≤ 6 := by
    unfold escape
    split_ifs with h1 h2 h3 h4 h5 h6 h7
    iterate 6 simp
    · rw [String.toList_append, hexDigits_control _ h7]
      simp
    · simp
  have hflat (l : List Char) :
      (l.flatMap fun c => (escape c).toList).length ≤ 6 * l.length := by
    induction l with
    | nil => exact Nat.le_refl _
    | cons c l ih =>
      have hc := hescape c
      simp only [List.flatMap_cons, List.length_append, List.length_cons]
      omega
  have ht := hflat t.toList
  simp only [quote_toList, List.length_cons, List.length_append, List.length_nil]
  omega

mutual

theorem print_length : ∀ v : Json, (print v).toList.length ≤ width v
  | .null => by simp [print, width]
  | .bool b => by cases b <;> simp [print, width]
  | .num t => by simp only [print_num, width, Nat.le_refl]
  | .str t => by
    rw [print_str, width]
    exact quote_length t
  | .arr vs => by
    have hi := items_length vs
    simp only [print_arr, width, List.length_cons, List.length_append, List.length_nil]
    omega
  | .obj fs => by
    have hf := fields_length fs
    simp only [print_obj, width, List.length_cons, List.length_append, List.length_nil]
    omega

theorem items_length : ∀ vs : List Json, (itemsText vs).length ≤ widthItems vs
  | [] => by simp [itemsText, printItems, widthItems]
  | [v] => by
    have hv := print_length v
    have ht : itemsText [v] = (print v).toList := by simp [itemsText, printItems]
    simp only [ht, widthItems]
    omega
  | v :: w :: vs => by
    have hv := print_length v
    have hrest := items_length (w :: vs)
    rw [itemsText_cons (List.cons_ne_nil _ _), widthItems, List.length_append, List.length_cons]
    omega

theorem fields_length : ∀ fs : List (String × Json), (fieldsText fs).length ≤ widthFields fs
  | [] => by simp [fieldsText, printFields, widthFields]
  | [(k, v)] => by
    have hk := quote_length k
    have hv := print_length v
    simp only [fieldsText_one, widthFields, List.length_append, List.length_cons]
    omega
  | (k, v) :: f :: fs => by
    have hk := quote_length k
    have hv := print_length v
    have hrest := fields_length (f :: fs)
    rw [fieldsText_cons (List.cons_ne_nil _ _), widthFields, List.length_append, List.length_cons,
      List.length_append, List.length_cons]
    omega

end

end Json
