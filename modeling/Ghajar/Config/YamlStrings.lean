import Ghajar.Config.YamlEnds

/-!
# Where the strings of a document come from

Every string that the YAML reader gives is cut out of a line and unquoted. So it has no more of a
character than the lines have without their comments, and no line break but one of a scalar between
double quotes, which takes two quotes off.
-/

namespace Ghajar.MiniYaml

/-- `s` is a string of a value. -/
inductive InValue (s : List Char) : Value → Prop where
  | str : InValue s (.str s)
  | list {v : Value} {l : List Value} : v ∈ l → InValue s v → InValue s (.list l)
  | map {k : List Char} {v : Value} {m : List (List Char × Value)} :
    (k, v) ∈ m → InValue s v → InValue s (.map m)

/-- `s` is what a part of `t` is read as. -/
structure ReadFrom (s t : List Char) : Prop where
  count : ∀ c ≠ '\n', s.count c ≤ t.count c
  breaks : '\n' ∈ s → '\n' ∈ t ∨ s.count '"' + 2 ≤ t.count '"'

section ReadFrom

variable {s t u l : List Char} {a b new c : Char}

theorem ReadFrom.of_sublist (h : s.Sublist t) : ReadFrom s t :=
  ⟨fun c _ => h.count_le c, fun hs => .inl (h.mem hs)⟩

theorem ReadFrom.mono (h : ReadFrom s t) (hu : t.Sublist u) : ReadFrom s u where
  count c hc := (h.count c hc).trans (hu.count_le c)
  breaks hs := (h.breaks hs).imp (hu.mem ·) fun h => h.trans (hu.count_le _)

theorem count_replacePair_le (h : c ≠ new ∨ new = b) (l : List Char) :
    (replacePair a b new l).count c ≤ l.count c := by
  fun_induction replacePair a b new l with
  | case1 d e r hde ih =>
    rw [List.count_cons, List.count_cons, List.count_cons]
    simp only [beq_iff_eq]
    rcases h with hne | rfl
    · rw [if_neg hne.symm]
      omega
    · rw [hde.2]
      omega
  | case2 d e r _ ih =>
    rw [List.count_cons, List.count_cons (b := d)]
    omega
  | case3 l _ => exact le_rfl

theorem trimStart_sublist (l : List Char) : (trimStart l).Sublist l := List.dropWhile_sublist _

theorem trimEnd_sublist (l : List Char) : (trimEnd l).Sublist l := by
  have := (List.dropWhile_sublist (l := l.reverse) Text.isWhitespace).reverse
  rwa [List.reverse_reverse] at this

theorem trimmed_sublist (l : List Char) : (trimmed l).Sublist l :=
  (trimEnd_sublist _).trans (trimStart_sublist l)

/-- A text between two quotes. -/
theorem between_quotes {q : Char} (hlen : 2 ≤ s.length) (hhead : s.head? = some q)
    (hlast : s.getLast? = some q) : s = q :: (s.tail.dropLast ++ [q]) := by
  obtain ⟨r, rfl⟩ := List.head?_eq_some_iff.1 hhead
  cases r using List.reverseRecOn with
  | nil => simp at hlen
  | append_singleton r d =>
    rw [← List.cons_append, List.getLast?_concat] at hlast
    rw [List.tail_cons, List.dropLast_concat, Option.some.inj hlast]

theorem unquote_readFrom (s : List Char) : ReadFrom (unquote s) s := by
  unfold unquote
  split
  case isTrue h =>
    have heq := between_quotes h.1 h.2.1 h.2.2
    set r := s.tail.dropLast
    have hcount : ∀ c ≠ '\n', (replacePair '\\' '\\' '\\'
        (replacePair '\\' '"' '"' (replacePair '\\' 'n' '\n' r))).count c ≤ r.count c :=
      fun c hc => (count_replacePair_le (.inr rfl) _).trans
        ((count_replacePair_le (.inr rfl) _).trans (count_replacePair_le (.inl hc) r))
    rw [heq]
    refine ⟨fun c hc => ?_, fun _ => .inr ?_⟩
    · have := hcount c hc
      rw [List.count_cons, List.count_append]
      omega
    · have := hcount '"' (by decide)
      rw [List.count_cons_self, List.count_append, List.count_singleton_self]
      omega
  case isFalse =>
    split
    case isTrue h =>
      have heq := between_quotes h.1 h.2.1 h.2.2
      set r := s.tail.dropLast
      have hcount (c : Char) : (replacePair '\'' '\'' '\'' r).count c ≤ s.count c := by
        have := count_replacePair_le (a := '\'') (c := c) (.inr rfl : c ≠ '\'' ∨ '\'' = '\'') r
        rw [heq, List.count_cons, List.count_append]
        omega
      exact ⟨fun c _ => hcount c, fun hs => .inl (List.count_pos_iff.1
        ((List.count_pos_iff.2 hs).trans_le (hcount _)))⟩
    case isFalse => exact .of_sublist (.refl s)

end ReadFrom

/-! ## Values -/

/-- Each string of the value is read from `t`. -/
def StringsFrom (t : List Char) (v : Value) : Prop := ∀ s, InValue s v → ReadFrom s t

section Strings

variable {t u : List Char} {v : Value} {l : List Value} {m : List (List Char × Value)}

theorem stringsFrom_null : StringsFrom t .null := nofun

theorem stringsFrom_str {s : List Char} (h : ReadFrom s t) : StringsFrom t (.str s) := by
  rintro _ ⟨⟩
  exact h

theorem stringsFrom_list (h : ∀ v ∈ l, StringsFrom t v) : StringsFrom t (.list l) := by
  rintro s (_ | ⟨hv, hs⟩)
  exact h _ hv s hs

theorem stringsFrom_map (h : ∀ e ∈ m, StringsFrom t e.2) : StringsFrom t (.map m) := by
  rintro s (_ | _ | ⟨hv, hs⟩)
  exact h _ hv s hs

theorem StringsFrom.mono (h : StringsFrom t v) (hu : t.Sublist u) : StringsFrom u v :=
  fun s hs => (h s hs).mono hu

theorem mem_put {α : Type} {m : List (List Char × α)} {k : List Char} {v : α}
    {e : List Char × α} (h : e ∈ put m k v) : e ∈ m ∨ e = (k, v) := by
  unfold put at h
  split at h
  · obtain ⟨e', he', rfl⟩ := List.mem_map.1 h
    split
    · exact .inr rfl
    · exact .inl he'
  · exact (List.mem_append.1 h).imp_right List.mem_singleton.1

end Strings

namespace Flow

theorem ws_sublist (t : List Char) : (ws t).Sublist t := List.dropWhile_sublist _

theorem skipColon_sublist (t : List Char) : (skipColon t).Sublist t := by
  unfold skipColon
  split
  · exact (ws_sublist _).trans ((List.tail_sublist _).trans (ws_sublist t))
  · exact ws_sublist t

theorem next_sublist (t : List Char) : (next t).Sublist t := by
  unfold next
  split
  · exact (ws_sublist _).trans ((List.tail_sublist _).trans (ws_sublist t))
  · exact ws_sublist t

theorem quotedBody_append (q : Char) (t : List Char) :
    (quotedBody q t).1 ++ (quotedBody q t).2 = t := by
  fun_induction quotedBody q t <;> simp_all

theorem plain_append (stop : Bool) (t : List Char) : (plain stop t).1 ++ (plain stop t).2 = t := by
  fun_induction plain stop t <;> simp_all

theorem scalar_readFrom (stop : Bool) (t : List Char) :
    ReadFrom (scalar stop t).1 t ∧ (scalar stop t).2.Sublist t := by
  have hws := ws_sublist t
  unfold scalar
  split
  · exact ⟨.of_sublist (List.nil_sublist t), List.nil_sublist t⟩
  · rename_i c r heq
    rw [heq] at hws
    split
    · have happ := quotedBody_append c r
      refine ⟨(unquote_readFrom _).mono (.trans ?_ hws), ?_⟩
      · refine List.cons_sublist_cons.2 ?_
        conv_rhs => rw [← happ]
        exact (List.Sublist.refl _).append (List.take_sublist _ _)
      · refine ((List.tail_sublist _).trans ?_).trans hws
        conv_rhs => rw [← happ]
        exact (List.sublist_append_right _ _).trans (List.sublist_cons_self _ _)
    · have happ := plain_append stop (c :: r)
      constructor
      · refine .of_sublist (.trans ?_ hws)
        conv_rhs => rw [← happ]
        exact (trimmed_sublist _).trans (List.sublist_append_left _ _)
      · refine .trans ?_ hws
        conv_rhs => rw [← happ]
        exact List.sublist_append_right _ _

theorem value_strings (n : Nat) :
    (∀ {t v r}, value n t = some (v, r) → StringsFrom t v ∧ r.Sublist t) ∧
    (∀ {m t u v r}, braces n m t = some (v, r) → t.Sublist u → (∀ e ∈ m, StringsFrom u e.2) →
      StringsFrom u v ∧ r.Sublist u) ∧
    ∀ {l t u v r}, brackets n l t = some (v, r) → t.Sublist u → (∀ w ∈ l, StringsFrom u w) →
      StringsFrom u v ∧ r.Sublist u := by
  induction n with
  | zero =>
    refine ⟨?_, ?_, ?_⟩
    · intro _ _ _ h
      cases h
    · intro _ _ _ _ _ h
      cases h
    · intro _ _ _ _ _ h
      cases h
  | succ n ih =>
    obtain ⟨hvalue, hbraces, hbrackets⟩ := ih
    refine ⟨?_, ?_, ?_⟩
    · intro t v r h
      have hws := ws_sublist t
      rw [value] at h
      split at h
      · cases h
        exact ⟨stringsFrom_null, List.nil_sublist t⟩
      · rename_i c u heq
        rw [heq] at hws
        have hu := (ws_sublist u).trans ((List.sublist_cons_self c u).trans hws)
        split at h
        · exact hbraces h hu fun _ he => absurd he List.not_mem_nil
        split at h
        · exact hbrackets h hu fun _ he => absurd he List.not_mem_nil
        obtain ⟨hs, hrest⟩ := scalar_readFrom false (c :: u)
        generalize scalar false (c :: u) = p at h hs hrest
        cases h
        refine ⟨?_, hrest.trans hws⟩
        split
        · exact stringsFrom_null
        · exact stringsFrom_str (hs.mono hws)
    · intro m t u v r h ht hm
      rw [braces.eq_def] at h
      dsimp only at h
      split at h
      · cases h
        exact ⟨stringsFrom_map hm, List.nil_sublist u⟩
      · rename_i c s
        split at h
        · cases h
          exact ⟨stringsFrom_map hm, (List.sublist_cons_self c _).trans ht⟩
        have hrest := (skipColon_sublist _).trans ((scalar_readFrom true (c :: s)).2.trans ht)
        have hput {k : List Char} {w : Value} (hw : StringsFrom u w) :
            ∀ e ∈ put m k w, StringsFrom u e.2 := fun e he =>
          (mem_put he).elim (hm e) fun he => he ▸ hw
        split at h
        · exact hbraces h ((next_sublist _).trans hrest) (hput stringsFrom_null)
        · split at h
          · cases h
          · rename_i w rest hv
            obtain ⟨hw, hr⟩ := hvalue hv
            exact hbraces h ((next_sublist _).trans (hr.trans hrest)) (hput (hw.mono hrest))
    · intro l t u v r h ht hl
      rw [brackets.eq_def] at h
      dsimp only at h
      split at h
      · cases h
        exact ⟨stringsFrom_list hl, List.nil_sublist u⟩
      · rename_i c s
        split at h
        · cases h
          exact ⟨stringsFrom_list hl, (List.sublist_cons_self c _).trans ht⟩
        split at h
        · cases h
        · rename_i w rest hv
          obtain ⟨hw, hr⟩ := hvalue hv
          refine hbrackets h ((next_sublist _).trans (hr.trans ht)) fun w' hw' => ?_
          rcases List.mem_append.1 hw' with hw' | hw'
          · exact hl w' hw'
          · exact List.mem_singleton.1 hw' ▸ hw.mono ht

end Flow

theorem inline_strings {n : Nat} {t : List Char} {v : Value} (h : inline n t = some v) :
    StringsFrom t v := by
  have ht := trimmed_sublist t
  unfold inline at h
  dsimp only at h
  split_ifs at h
  · obtain ⟨⟨w, r⟩, hw, rfl⟩ := Option.map_eq_some_iff.1 h
    exact ((Flow.value_strings n).1 hw).1.mono ht
  · cases h
    exact stringsFrom_null
  · cases h
    exact stringsFrom_str ((unquote_readFrom _).mono ht)

/-! ## Mappings and sequences -/

theorem keyFrom_sublist {q : Option Char} {before t k v : List Char}
    (h : keyFrom q before t = some (k, v)) : v.Sublist t := by
  induction t generalizing q before with
  | nil => cases h
  | cons c r ih =>
    rw [keyFrom.eq_def] at h
    dsimp only at h
    have hc := List.sublist_cons_self c r
    split at h
    · exact (ih h).trans hc
    · split_ifs at h
      · exact (ih h).trans hc
      · cases h
        exact (trimmed_sublist r).trans hc
      · exact (ih h).trans hc

theorem keyOf_sublist {t k v : List Char} (h : keyOf t = some (k, v)) : v.Sublist t :=
  keyFrom_sublist h

namespace Block

section Keeps

variable {α : Type} {y : Values α} {Q : List Char → Prop} {P : α → Prop}

/-- What holds of the values of the texts, and is kept where they are put together, holds of what
is read. -/
structure Keeps (y : Values α) (Q : List Char → Prop) (P : α → Prop) : Prop where
  sublist : ∀ {t u : List Char}, u.Sublist t → Q t → Q u
  inline : ∀ {t v}, Q t → y.inline t = some v → P v
  null : P y.null
  empty : P y.empty
  list : ∀ {l}, (∀ v ∈ l, P v) → P (y.list l)
  put : ∀ {m k v}, P m → P v → P (y.put m k v)

theorem keeps (hy : Keeps y Q P) (n : Nat) :
    (∀ {indent ls v r}, node y n indent ls = some (v, r) → (∀ l ∈ ls, Q l.text) →
      P v ∧ ∀ l ∈ r, Q l.text) ∧
    (∀ {indent out ls vs r}, seq y n indent out ls = some (vs, r) → (∀ l ∈ ls, Q l.text) →
      (∀ v ∈ out, P v) → (∀ v ∈ vs, P v) ∧ ∀ l ∈ r, Q l.text) ∧
    ∀ {indent out ls v r}, map y n indent out ls = some (v, r) → (∀ l ∈ ls, Q l.text) → P out →
      P v ∧ ∀ l ∈ r, Q l.text := by
  induction n with
  | zero =>
    refine ⟨?_, ?_, ?_⟩
    · intro _ _ _ _ h
      cases h
    · intro _ _ _ _ _ h
      cases h
    · intro _ _ _ _ _ h
      cases h
  | succ n ih =>
    obtain ⟨hnode, hseq, hmap⟩ := ih
    refine ⟨?_, ?_, ?_⟩
    · intro indent ls v r h hls
      cases ls with
      | nil =>
        cases h
        exact ⟨hy.null, hls⟩
      | cons l ls =>
        rw [node] at h
        split at h
        · obtain ⟨⟨vs, r'⟩, hs, h⟩ := Option.bind_eq_some_iff.1 h
          cases h
          obtain ⟨hvs, hr⟩ := hseq hs hls fun _ hv => absurd hv List.not_mem_nil
          exact ⟨hy.list hvs, hr⟩
        · exact hmap h hls hy.empty
    · intro indent out ls vs r h hls hout
      cases ls with
      | nil =>
        cases h
        exact ⟨hout, hls⟩
      | cons l ls =>
        have hrest : ∀ l' ∈ ls, Q l'.text := fun l' hl' => hls l' (.tail _ hl')
        have htext : Q (trimStart l.text.tail) :=
          hy.sublist ((trimStart_sublist _).trans (List.tail_sublist _)) (hls l (.head _))
        have hmore {v : α} (hv : P v) (w : α) (hw : w ∈ out ++ [v]) : P w :=
          (List.mem_append.1 hw).elim (hout w) fun hw => List.mem_singleton.1 hw ▸ hv
        rw [seq] at h
        dsimp only at h
        split_ifs at h
        · obtain ⟨⟨v, r'⟩, hv, h⟩ := Option.bind_eq_some_iff.1 h
          obtain ⟨hv, hr⟩ := hnode hv hrest
          exact hseq h hr (hmore hv)
        · exact hseq h hrest (hmore hy.null)
        · obtain ⟨⟨v, r'⟩, hv, h⟩ := Option.bind_eq_some_iff.1 h
          obtain ⟨hv, hr⟩ := hmap hv (List.forall_mem_cons.2 ⟨htext, hrest⟩) hy.empty
          exact hseq h hr (hmore hv)
        · obtain ⟨v, hv, h⟩ := Option.bind_eq_some_iff.1 h
          exact hseq h hrest (hmore (hy.inline htext hv))
        · cases h
          exact ⟨hout, hls⟩
    · intro indent out ls v r h hls hout
      cases ls with
      | nil =>
        cases h
        exact ⟨hout, hls⟩
      | cons l ls =>
        have hrest : ∀ l' ∈ ls, Q l'.text := fun l' hl' => hls l' (.tail _ hl')
        rw [map] at h
        split at h
        · cases hk : keyOf l.text with
          | none =>
            rw [hk] at h
            cases h
            exact ⟨hout, hls⟩
          | some kv =>
            rw [hk] at h
            dsimp only at h
            have htext := hy.sublist (keyOf_sublist hk) (hls l (.head _))
            split_ifs at h
            · obtain ⟨v, hv, h⟩ := Option.bind_eq_some_iff.1 h
              exact hmap h hrest (hy.put hout (hy.inline htext hv))
            · obtain ⟨⟨v, r'⟩, hv, h⟩ := Option.bind_eq_some_iff.1 h
              obtain ⟨hv, hr⟩ := hnode hv hrest
              exact hmap h hr (hy.put hout hv)
            · obtain ⟨⟨vs, r'⟩, hv, h⟩ := Option.bind_eq_some_iff.1 h
              obtain ⟨hvs, hr⟩ := hseq hv hrest fun _ hw => absurd hw List.not_mem_nil
              exact hmap h hr (hy.put hout (hy.list hvs))
            · exact hmap h hrest (hy.put hout hy.null)
        · cases h
          exact ⟨hout, hls⟩

end Keeps

end Block

/-! ## Lines -/

section Lines

variable {c : Char} {l : List Char} {ls : List (List Char)}

theorem lines_flatten_sublist (t : List Char) : (Awg.ConfigParser.lines t).flatten.Sublist t := by
  fun_induction Awg.ConfigParser.lines t with
  | case1 => exact .refl _
  | case2 cs ih => exact (ih.cons _).cons _
  | case3 c cs _ _ ih => exact ih.cons c
  | case4 c cs _ _ h ih => exact .cons_cons c (List.nil_sublist cs)
  | case5 c cs _ _ l ls h ih =>
    rw [h] at ih
    exact ih.cons_cons c

theorem lines_break {t l : List Char} (h : l ∈ Awg.ConfigParser.lines t) : '\n' ∉ l ∧ '\r' ∉ l := by
  fun_induction Awg.ConfigParser.lines t generalizing l with
  | case1 =>
    rw [List.mem_singleton.1 h]
    exact ⟨List.not_mem_nil, List.not_mem_nil⟩
  | case2 cs ih =>
    rcases List.mem_cons.1 h with rfl | h
    · exact ⟨List.not_mem_nil, List.not_mem_nil⟩
    · exact ih h
  | case3 c cs _ _ ih =>
    rcases List.mem_cons.1 h with rfl | h
    · exact ⟨List.not_mem_nil, List.not_mem_nil⟩
    · exact ih h
  | case4 c cs _ hc hnil ih =>
    rw [List.mem_singleton.1 h]
    exact ⟨fun h => hc (.inl (List.mem_singleton.1 h).symm),
      fun h => hc (.inr (List.mem_singleton.1 h).symm)⟩
  | case5 c cs _ hc l' ls heq ih =>
    rcases List.mem_cons.1 h with rfl | h
    · obtain ⟨hn, hr⟩ := ih (heq ▸ List.mem_cons_self)
      exact ⟨fun h => (List.mem_cons.1 h).elim (fun h => hc (.inl h.symm)) hn,
        fun h => (List.mem_cons.1 h).elim (fun h => hc (.inr h.symm)) hr⟩
    · exact ih (heq ▸ List.mem_cons_of_mem _ h)

theorem uncommented_sublist (q last : Option Char) (l : List Char) :
    (uncommented q last l).Sublist l := by
  induction l generalizing q last with
  | nil => exact .refl _
  | cons c l ih =>
    rw [uncommented]
    split
    · exact List.nil_sublist _
    · exact (ih _ _).cons_cons c

theorem stripComment_sublist (l : List Char) : (stripComment l).Sublist l :=
  (trimEnd_sublist _).trans (uncommented_sublist none none l)

/-- A line that is joined has no more than the lines it is joined of. -/
theorem count_joinFrom (hc : c ≠ ' ') {acc : Option (List Char × Int)} (h : l ∈ joinFrom acc ls) :
    l.count c ≤ ((acc.map (·.1)).getD []).count c + ls.flatten.count c := by
  have hgrown (a l : List Char) : (a ++ ' ' :: trimmed l).count c ≤ a.count c + l.count c := by
    have := (trimmed_sublist l).count_le c
    rw [List.count_append, List.count_cons_of_ne hc.symm]
    omega
  induction ls generalizing acc with
  | nil =>
    cases acc with
    | none => exact absurd h List.not_mem_nil
    | some p =>
      rw [List.mem_singleton.1 h]
      exact Nat.le_add_right _ _
  | cons r rs ih =>
    rw [List.flatten_cons, List.count_append]
    cases acc with
    | none =>
      rw [joinFrom] at h
      split at h
      · have := ih h
        simp only [Option.map, Option.getD] at this ⊢
        omega
      · rcases List.mem_cons.1 h with rfl | h
        · omega
        · have := ih h
          omega
    | some p =>
      have hp := hgrown p.1 r
      rw [joinFrom] at h
      split at h
      · rcases List.mem_cons.1 h with rfl | h
        · simp only [Option.map, Option.getD]
          omega
        · have := ih h
          simp only [Option.map, Option.getD, List.count_nil] at this ⊢
          omega
      · have := ih h
        simp only [Option.map, Option.getD] at this ⊢
        omega

/-- The text without its comments, the lines one behind the other. -/
def stripped (text : List Char) : List Char :=
  ((Awg.ConfigParser.lines (untab text)).map stripComment).flatten

theorem count_lines (hc : c ≠ ' ') {text : List Char} {l : Line} (h : l ∈ lines text) :
    l.text.count c ≤ (stripped text).count c := by
  obtain ⟨r, hr, rfl⟩ := List.mem_map.1 h
  refine ((trimmed_sublist r).count_le c).trans ?_
  have := count_joinFrom hc (List.mem_filter.1 hr).1
  rwa [Option.map_none, Option.getD_none, List.count_nil, Nat.zero_add] at this

theorem count_untab_le (hc : c ≠ ' ') (t : List Char) : (untab t).count c ≤ t.count c := by
  induction t with
  | nil => exact le_rfl
  | cons d t ih =>
    unfold untab at ih ⊢
    rw [List.flatMap_cons, List.count_append, List.count_cons]
    split
    · rw [List.count_cons_of_ne hc.symm, List.count_cons_of_ne hc.symm, List.count_nil]
      omega
    · rw [List.count_singleton]
      omega

theorem tab_not_mem_untab (t : List Char) : '\t' ∉ untab t := by
  intro h
  obtain ⟨c, -, h⟩ := List.mem_flatMap.1 h
  split at h
  · exact absurd h (by decide)
  · exact absurd (List.mem_singleton.1 h).symm ‹_›

theorem flatten_map_sublist {f : List Char → List Char} (hf : ∀ l, (f l).Sublist l)
    (ls : List (List Char)) : (ls.map f).flatten.Sublist ls.flatten := by
  induction ls with
  | nil => exact .refl _
  | cons l ls ih => exact (hf l).append ih

theorem stripped_sublist (text : List Char) : (stripped text).Sublist (untab text) :=
  (flatten_map_sublist stripComment_sublist _).trans (lines_flatten_sublist _)

theorem breaks_not_mem_stripped (text : List Char) :
    '\n' ∉ stripped text ∧ '\r' ∉ stripped text := by
  have h {c : Char} (hc : c ∈ stripped text) : ∃ l ∈ Awg.ConfigParser.lines (untab text), c ∈ l := by
    obtain ⟨l, hl, hc⟩ := List.mem_flatten.1 ((flatten_map_sublist stripComment_sublist _).mem hc)
    exact ⟨l, hl, hc⟩
  constructor <;> intro hc <;> obtain ⟨l, hl, hc⟩ := h hc
  · exact (lines_break hl).1 hc
  · exact (lines_break hl).2 hc

end Lines

/-- **A string of a document** has no more of a character than the document without its comments,
and a line break only for two quotes. -/
theorem parse_strings {n : Nat} {text s : List Char} {v : Value} (h : parse n text = some v)
    (hs : InValue s v) : (∀ c, c ≠ ' ' → c ≠ '\n' → s.count c ≤ (stripped text).count c) ∧
      ('\n' ∈ s → s.count '"' + 2 ≤ (stripped text).count '"') := by
  let Q (t : List Char) : Prop := ∃ l ∈ lines text, t.Sublist l.text
  let P (v : Value) : Prop := ∀ s, InValue s v → ∃ l ∈ lines text, ReadFrom s l.text
  have hkeeps : Block.Keeps (values n) Q P :=
    { sublist := fun h ⟨l, hl, ht⟩ => ⟨l, hl, h.trans ht⟩
      inline := fun ⟨l, hl, ht⟩ hv s hs => ⟨l, hl, (inline_strings hv s hs).mono ht⟩
      null := nofun
      empty := by
        rintro s (_ | _ | ⟨hm, -⟩)
        cases hm
      list := by
        rintro l h s (_ | ⟨hv, hs⟩)
        exact h _ hv s hs
      put := by
        intro m k v hm hv
        cases m with
        | map m =>
          rintro s (_ | _ | ⟨he, hs⟩)
          rcases mem_put he with he | he
          · exact hm s (.map he hs)
          · cases he
            exact hv s hs
        | null => exact hm
        | str _ => exact hm
        | list _ => exact hm }
  have hread : P v := by
    unfold parse at h
    cases hls : lines text with
    | nil =>
      rw [hls] at h
      cases h
      nofun
    | cons l ls =>
      rw [hls] at h
      obtain ⟨⟨w, r⟩, hw, rfl⟩ := Option.map_eq_some_iff.1 h
      refine ((Block.keeps hkeeps n).1 hw fun l' hl' => ?_).1
      exact ⟨l', hls ▸ hl', .refl _⟩
  obtain ⟨l, hl, hr⟩ := hread s hs
  constructor
  · intro c hspace hbreak
    exact (hr.count c hbreak).trans (count_lines hspace hl)
  · intro hn
    rcases hr.breaks hn with hn | hq
    · have hpos := (List.count_pos_iff.2 hn).trans_le (count_lines (by decide) hl)
      exact absurd (List.count_pos_iff.1 hpos) (breaks_not_mem_stripped text).1
    · exact hq.trans (count_lines (by decide) hl)

end Ghajar.MiniYaml
