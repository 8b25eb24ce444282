import Ghajar.Config.YamlReads

/-!
# What is read for a quoted scalar

The key stands in a mapping of plain words, either in the lines of a document or in a flow mapping
that is the value of a key there.
-/

namespace Ghajar.MiniYaml

open Awg SubscriptionFetcher

namespace Flow

section Scan

variable {c : Char} {k r t w : List Char} {stop : Bool}

/-! ## Scalars -/

theorem quotedBody_cons {q : Char} (hq : c ≠ q) (hb : ¬(c = '\\' ∧ q = '"')) (ht : t ≠ []) :
    quotedBody q (c :: t) = (c :: (quotedBody q t).1, (quotedBody q t).2) := by
  obtain ⟨d, r, rfl⟩ := List.exists_cons_of_ne_nil ht
  rw [quotedBody, if_neg hq, if_neg hb]

theorem quotedBody_backslash (c : Char) (t : List Char) : quotedBody '"' ('\\' :: c :: t) =
    ('\\' :: c :: (quotedBody '"' t).1, (quotedBody '"' t).2) := by
  rw [quotedBody, if_neg (by decide), if_pos ⟨rfl, rfl⟩]

theorem quotedBody_double (s r : List Char) :
    quotedBody '"' (s.flatMap escape ++ '"' :: r) = (s.flatMap escape, '"' :: r) := by
  induction s with
  | nil =>
    rw [List.flatMap_nil, List.nil_append]
    cases r with
    | nil => rfl
    | cons c r => rw [quotedBody, if_pos rfl, if_neg fun h => absurd h.1 (by decide)]
  | cons c s ih =>
    rw [List.flatMap_cons, List.append_assoc]
    have hpair (d : Char) : quotedBody '"' (['\\', d] ++ (s.flatMap escape ++ '"' :: r)) =
        (['\\', d] ++ s.flatMap escape, '"' :: r) := by
      simp only [List.cons_append, List.nil_append]
      rw [quotedBody_backslash, ih]
    rw [escape]
    split_ifs with hb hq
    · exact hpair _
    · exact hpair _
    · exact hpair _
    · exact hpair _
    · simp only [List.cons_append, List.nil_append]
      rw [quotedBody_cons hq (fun h => hb h.1) (by simp), ih]

theorem quotedBody_single (s : List Char) (hr : r.head? ≠ some '\'') :
    quotedBody '\'' (s.flatMap doubled ++ '\'' :: r) = (s.flatMap doubled, '\'' :: r) := by
  induction s with
  | nil =>
    rw [List.flatMap_nil, List.nil_append]
    cases r with
    | nil => rfl
    | cons c r =>
      rw [quotedBody, if_pos rfl, if_neg fun h => hr (congrArg some h.2)]
  | cons c s ih =>
    rw [List.flatMap_cons, List.append_assoc, doubled]
    split
    case isTrue =>
      simp only [List.cons_append, List.nil_append]
      rw [quotedBody, if_pos rfl, if_pos ⟨rfl, rfl⟩, ih]
    case isFalse hc =>
      simp only [List.cons_append, List.nil_append]
      rw [quotedBody_cons hc (fun h => absurd h.2 (by decide)) (by simp), ih]

theorem quotedBody_written (q : Style) (s : List Char) (hr : r.head? ≠ some '\'') :
    quotedBody q.quote (q.body s ++ q.quote :: r) = (q.body s, q.quote :: r) := by
  cases q with
  | double => exact quotedBody_double s r
  | single => exact quotedBody_single s hr

theorem scalar_written (q : Style) (s : List Char) (hr : r.head? ≠ some '\'') (stop : Bool) :
    scalar stop (written q s ++ r) = (unquote (written q s), r) := by
  have hquote : q.quote = '"' ∨ q.quote = '\'' := by cases q <;> decide
  have hspace : q.quote ≠ ' ' := by cases q <;> decide
  have heq : written q s ++ r = q.quote :: (q.body s ++ q.quote :: r) := by
    rw [written, List.cons_append, List.append_assoc]
    rfl
  rw [heq]
  unfold scalar
  rw [ws_cons hspace]
  dsimp only
  rw [if_pos hquote, quotedBody_written q s hr]
  rfl

theorem plain_append_plain (h : ∀ c ∈ w, plainChar c = true) (r : List Char) :
    plain stop (w ++ r) = (w ++ (plain stop r).1, (plain stop r).2) := by
  induction w with
  | nil => rfl
  | cons c w ih =>
    obtain ⟨-, -, -, -, -, h1, -, h2, h3, h4⟩ := plainChar_iff.1 (h c (.head _))
    have hstop : ¬stops stop c (w ++ r) := by
      rintro (hc | hc | hc | ⟨-, hc, -⟩)
      · exact h3 hc
      · exact h1 hc
      · exact h2 hc
      · exact h4 hc
    rw [List.cons_append, plain, if_neg hstop, ih fun d hd => h d (.tail _ hd)]
    rfl

theorem scalar_plain (h : Plain w) (hr : stops stop c r) :
    scalar stop (w ++ c :: r) = (w, c :: r) := by
  have hbody : plain stop (w ++ c :: r) = _ := plain_append_plain h.2 (c :: r)
  rw [plain, if_pos hr, List.append_nil] at hbody
  obtain ⟨d, w, rfl⟩ := List.exists_cons_of_ne_nil h.1
  obtain ⟨hblank, h1, h2, -⟩ := plainChar_iff.1 (h.2 d (.head _))
  have hspace : d ≠ ' ' := by
    rintro rfl
    cases hblank
  rw [List.cons_append] at hbody ⊢
  unfold scalar
  rw [ws_cons hspace]
  dsimp only
  rw [if_neg (not_or.2 ⟨h1, h2⟩), hbody, h.solid.trimmed]

end Scan

/-! ## Mappings -/

/-- `t` is read as `x` in front of what ends an item of a mapping. -/
structure Item (t : List Char) (x : Value) : Prop where
  starts : ∃ c r, t = c :: r ∧ c ≠ ' ' ∧ c ≠ ',' ∧ c ≠ '\x7d'
  reads : ∀ n r c, c = ',' ∨ c = '\x7d' → value (n + 1) (t ++ c :: r) = some (x, c :: r)

section Items

variable {k r t w : List Char} {x : Value}

/-- A scalar as a value. -/
def scalarValue (s : List Char) : Value := if s = ['~'] ∨ s = "null".toList then .null else .str s

theorem value_scalar {c : Char} (hspace : c ≠ ' ') (h : c ≠ '\x7b') (h' : c ≠ '[') (n : Nat)
    (r : List Char) : value (n + 1) (c :: r) =
      some (scalarValue (scalar false (c :: r)).1, (scalar false (c :: r)).2) := by
  rw [value, ws_cons hspace]
  dsimp only
  rw [if_neg h, if_neg h']
  rfl

theorem item_written (q : Style) (s : List Char) :
    Item (written q s) (scalarValue (unquote (written q s))) where
  starts := ⟨q.quote, _, rfl, by cases q <;> decide, by cases q <;> decide, by cases q <;> decide⟩
  reads n r c hc := by
    have hr : (c :: r).head? ≠ some '\'' := by
      rintro ⟨⟩
      exact absurd hc (by decide)
    have hs := scalar_written q s hr false
    have heq : written q s ++ c :: r = q.quote :: (q.body s ++ [q.quote] ++ c :: r) := rfl
    rw [heq] at hs ⊢
    rw [value_scalar (by cases q <;> decide) (by cases q <;> decide) (by cases q <;> decide), hs]

theorem item_plain (h : Plain w) : Item w (scalarValue w) where
  starts := by
    obtain ⟨c, w, rfl⟩ := List.exists_cons_of_ne_nil h.1
    obtain ⟨hblank, -, -, -, -, h1, -, -, h2, -⟩ := plainChar_iff.1 (h.2 c (.head _))
    refine ⟨c, w, rfl, ?_, h2, h1⟩
    rintro rfl
    cases hblank
  reads n r c hc := by
    have hs : scalar false (w ++ c :: r) = _ := scalar_plain h (hc.imp_right .inl)
    obtain ⟨d, w, rfl⟩ := List.exists_cons_of_ne_nil h.1
    obtain ⟨hblank, -, -, -, h1, -, h2, -⟩ := plainChar_iff.1 (h.2 d (.head _))
    have hspace : d ≠ ' ' := by
      rintro rfl
      cases hblank
    rw [List.cons_append] at hs ⊢
    rw [value_scalar hspace h1 h2, hs]

theorem braces_item (hk : Plain k) (ht : Item t x) (n : Nat) (m : List (List Char × Value))
    {c : Char} (hc : c = ',' ∨ c = '\x7d') (r : List Char) :
    braces (n + 2) m (pairLine k t ++ c :: r) = braces (n + 1) (put m k x) (next (c :: r)) := by
  obtain ⟨e, u, rfl, hspace, hcomma, hbrace⟩ := ht.starts
  have hline : pairLine k (e :: u) ++ c :: r = k ++ ':' :: ' ' :: (e :: u ++ c :: r) := by
    rw [pairLine, List.append_assoc]
    rfl
  have hkey : scalar true (k ++ ':' :: ' ' :: (e :: u ++ c :: r)) = _ := scalar_plain hk
    (.inr (.inr (.inr ⟨rfl, rfl, .inr rfl⟩)))
  have hcolon : skipColon (':' :: ' ' :: (e :: u ++ c :: r)) = e :: (u ++ c :: r) := by
    unfold skipColon
    rw [ws_cons (by decide), List.head?_cons, if_pos rfl, List.tail_cons, ws, List.dropWhile_cons_of_pos (by decide)]
    exact ws_cons hspace
  have hopen : ¬(some e = some ',' ∨ some e = some '\x7d') := by
    rintro (h | h)
    · exact hcomma (Option.some.inj h)
    · exact hbrace (Option.some.inj h)
  have hv := ht.reads n r c hc
  obtain ⟨d, k', rfl⟩ := List.exists_cons_of_ne_nil hk.1
  have hd : d ≠ '\x7d' := by
    rintro rfl
    exact hk.not_mem (by decide) (.head _)
  rw [hline]
  rw [List.cons_append] at hkey ⊢
  rw [braces.eq_def]
  dsimp only
  rw [if_neg hd, hkey]
  dsimp only
  rw [hcolon, List.head?_cons, if_neg hopen]
  rw [List.cons_append] at hv
  rw [hv]

theorem ws_pairLines {e : List Char × List Char} (hk : Plain e.1)
    (E : List (List Char × List Char)) (r : List Char) :
    ws ([',', ' '].intercalate (pairLines (e :: E)) ++ r) =
      [',', ' '].intercalate (pairLines (e :: E)) ++ r := by
  have hstarts : ∃ t, [',', ' '].intercalate (pairLines (e :: E)) = e.1 ++ t := by
    cases E with
    | nil => exact ⟨_, List.intercalate_singleton⟩
    | cons e' E =>
      refine ⟨':' :: ' ' :: e.2 ++ ([',', ' '] ++ [',', ' '].intercalate (pairLines (e' :: E))), ?_⟩
      rw [pairLines, List.map_cons, List.map_cons, List.intercalate_cons_cons, pairLine]
      simp only [List.append_assoc]
      rfl
  obtain ⟨t, ht⟩ := hstarts
  obtain ⟨c, k, hck⟩ := List.exists_cons_of_ne_nil hk.1
  have hspace : c ≠ ' ' := by
    rintro rfl
    exact hk.not_mem (by decide) (hck ▸ List.mem_cons_self)
  rw [ht, hck]
  exact ws_cons hspace

theorem next_brace (r : List Char) : next ('\x7d' :: r) = '\x7d' :: r :=
  next_cons (by decide) (by decide)

theorem braces_end (n : Nat) (m : List (List Char × Value)) (r : List Char) :
    braces (n + 1) m ('\x7d' :: r) = some (.map m, r) := by
  rw [braces, if_pos rfl]

/-- The items of a mapping are read one after the other. -/
theorem braces_items {E : List (List Char × List Char)} {f : List Char × List Char → Value}
    (hE : ∀ e ∈ E, Plain e.1 ∧ Item e.2 (f e)) (hne : E ≠ []) (n : Nat)
    (m : List (List Char × Value)) (r : List Char) :
    braces (n + 1 + E.length) m ([',', ' '].intercalate (pairLines E) ++ '\x7d' :: r) =
      some (.map (putAll f E m), r) := by
  induction E generalizing m with
  | nil => exact absurd rfl hne
  | cons e E ih =>
    obtain ⟨hk, hv⟩ := hE e (.head _)
    cases E with
    | nil =>
      change braces (n + 2) m ([',', ' '].intercalate [pairLine e.1 e.2] ++ _) = _
      rw [List.intercalate_singleton, braces_item hk hv n m (.inr rfl) r, next_brace, braces_end]
      rfl
    | cons e' E =>
      have hlines : [',', ' '].intercalate (pairLines (e :: e' :: E)) ++ '\x7d' :: r =
          pairLine e.1 e.2 ++ ',' :: ' ' ::
            ([',', ' '].intercalate (pairLines (e' :: E)) ++ '\x7d' :: r) := by
        rw [pairLines, List.map_cons, List.map_cons, List.intercalate_cons_cons]
        simp only [List.append_assoc]
        rfl
      have hstarts : ws (' ' :: ([',', ' '].intercalate (pairLines (e' :: E)) ++ '\x7d' :: r)) =
          [',', ' '].intercalate (pairLines (e' :: E)) ++ '\x7d' :: r := by
        rw [ws, List.dropWhile_cons_of_pos (by decide)]
        exact ws_pairLines (hE e' (.tail _ (.head _))).1 E _
      have hn : n + 1 + (e :: e' :: E).length = (n + (e' :: E).length) + 2 := by
        rw [List.length_cons]
        omega
      rw [hlines, hn, braces_item hk hv _ m (.inl rfl), next_comma, hstarts,
        show n + (e' :: E).length + 1 = n + 1 + (e' :: E).length by omega,
        ih (fun e he => hE e (.tail _ he)) (List.cons_ne_nil _ _)]
      rfl

end Items

end Flow

namespace Around

section Flow

variable {k : List Char} (d : Around k) (v : List Char)

def items : List (List Char × List Char) := d.before ++ (k, v) :: d.after

theorem lines_items : d.lines v = pairLines (d.items v) := by
  rw [lines, items, pairLines, pairLines, pairLines, List.map_append, List.map_cons]

theorem flow_cons : d.flow v = '\x7b' :: ([',', ' '].intercalate (d.lines v) ++ ['\x7d']) := rfl

theorem solid_flow : Solid (d.flow v) where
  ne := List.cons_ne_nil _ _
  first c hc := by
    obtain rfl := Option.some.inj hc
    decide
  last c hc := by
    rw [flow_cons, ← List.cons_append, List.getLast?_concat] at hc
    obtain rfl := Option.some.inj hc
    decide

variable {v}

theorem value_flow {x : Value} (hv : Flow.Item v x) {n : Nat} (hn : (d.items v).length + 2 ≤ n)
    (r : List Char) : ∃ w, Flow.value n (d.flow v ++ r) = some (w, r) ∧ w.at k = some x := by
  obtain ⟨m, rfl⟩ : ∃ m, n = m + 1 + (d.items v).length + 1 := ⟨n - (d.items v).length - 2, by omega⟩
  have hitems : ∀ e ∈ d.items v, Plain e.1 ∧
      Flow.Item e.2 (if e.1 = k then x else Flow.scalarValue e.2) := by
    intro e he
    rcases List.mem_append.1 he with he | he
    · rw [if_neg (d.not_before e he)]
      exact (d.plain_before e he).imp_right Flow.item_plain
    · rcases List.mem_cons.1 he with rfl | he
      · rw [if_pos rfl]
        exact ⟨d.key, hv⟩
      · rw [if_neg (d.not_after e he)]
        exact (d.plain_after e he).imp_right Flow.item_plain
  have hne : d.items v ≠ [] := List.append_ne_nil_of_right_ne_nil _ (List.cons_ne_nil _ _)
  have hread := Flow.braces_items hitems hne m [] r
  have hws : Flow.ws ([',', ' '].intercalate (pairLines (d.items v)) ++ '\x7d' :: r) =
      [',', ' '].intercalate (pairLines (d.items v)) ++ '\x7d' :: r := by
    obtain ⟨e, E, hE⟩ := List.exists_cons_of_ne_nil hne
    have hk := (hitems e (hE ▸ List.mem_cons_self)).1
    rw [hE]
    exact Flow.ws_pairLines hk E _
  refine ⟨.map (putAll (fun e => if e.1 = k then x else Flow.scalarValue e.2) (d.items v) []),
    ?_, ?_⟩
  rotate_left
  · rw [items, at_putAll v d.not_after, if_pos rfl]
  rw [flow_cons, lines_items, List.cons_append, List.append_assoc, Flow.value,
    Flow.ws_cons (by decide)]
  dsimp only
  rw [if_pos rfl]
  exact (congrArg _ hws).trans hread

theorem inline_flow {x : Value} (hv : Flow.Item v x) {n : Nat} (hn : (d.items v).length + 2 ≤ n)
    {r : List Char} (hr : Solid (d.flow v ++ r)) :
    ∃ w, inline n (d.flow v ++ r) = some w ∧ w.at k = some x := by
  obtain ⟨w, hw, hat⟩ := d.value_flow hv hn r
  refine ⟨w, ?_, hat⟩
  unfold inline
  rw [hr.trimmed]
  dsimp only
  rw [if_pos (.inl rfl), hw]
  rfl

end Flow

end Around

/-! ## What stands around the scalar -/

/-- Plain words and what stands between them. -/
def Framed (l : List Char) : Prop := ∀ c ∈ l, plainChar c = true ∨ c ∈ "\x7b\x7d,: ".toList

section Framed

variable {c : Char} {k l v w : List Char}

theorem Plain.framed (h : Plain w) : Framed w := fun c hc => .inl (h.2 c hc)

theorem framed_append {m : List Char} (hl : Framed l) (hm : Framed m) : Framed (l ++ m) :=
  fun c hc => (List.mem_append.1 hc).elim (hl c) (hm c)

theorem framed_pairLine (hk : Framed k) (hv : Framed v) : Framed (pairLine k v) := by
  intro c hc
  rcases mem_pairLine hc with h | rfl | rfl | h
  · exact hk c h
  · exact .inr (by decide)
  · exact .inr (by decide)
  · exact hv c h

theorem Framed.not_mem (h : Framed l) (hc : plainChar c = false)
    (hc' : c ∉ "\x7b\x7d,: ".toList) : c ∉ l := by
  intro hl
  rcases h c hl with h | h
  · rw [hc] at h
    cases h
  · exact hc' h

theorem Framed.calm (h : Framed l) : Calm l := fun c hc =>
  ⟨fun e => h.not_mem (by decide) (by decide) (e ▸ hc),
    fun e => h.not_mem (by decide) (by decide) (e ▸ hc),
    fun e => h.not_mem (by decide) (by decide) (e ▸ hc)⟩

theorem framed_pairLines {E : List (List Char × List Char)} (hE : PlainPairs E)
    (hl : l ∈ pairLines E) : Framed l := by
  obtain ⟨k, v, hk, hv, rfl⟩ := Around.mem_pairLines hE hl
  exact framed_pairLine hk.framed hv.framed

/-- What is before and what is behind one of the texts that are joined. -/
theorem intercalate_split (sep : List Char) (A : List (List Char)) (l : List Char)
    (B : List (List Char)) : ∃ pre post, sep.intercalate (A ++ l :: B) = pre ++ (l ++ post) ∧
      (∀ c ∈ pre, c ∈ sep ∨ ∃ m ∈ A, c ∈ m) ∧ ∀ c ∈ post, c ∈ sep ∨ ∃ m ∈ B, c ∈ m := by
  induction A with
  | nil =>
    cases B with
    | nil => exact ⟨[], [], by simp, nofun, nofun⟩
    | cons m B =>
      refine ⟨[], sep ++ sep.intercalate (m :: B), ?_, nofun, fun c hc => ?_⟩
      · rw [List.nil_append, List.nil_append, List.intercalate_cons_cons, List.append_assoc]
      · exact (List.mem_append.1 hc).elim .inl mem_intercalate
  | cons a A ih =>
    obtain ⟨pre, post, heq, hpre, hpost⟩ := ih
    refine ⟨a ++ (sep ++ pre), post, ?_, fun c hc => ?_, hpost⟩
    · obtain ⟨b, B', hb⟩ := List.exists_cons_of_ne_nil
        (List.append_ne_nil_of_right_ne_nil A (List.cons_ne_nil l B))
      rw [List.cons_append, hb, List.intercalate_cons_cons, ← hb, heq]
      simp only [List.append_assoc]
    · rcases List.mem_append.1 hc with hc | hc
      · exact .inr ⟨a, .head _, hc⟩
      · rcases List.mem_append.1 hc with hc | hc
        · exact .inl hc
        · exact (hpre c hc).imp id fun ⟨m, hm, hcm⟩ => ⟨m, .tail _ hm, hcm⟩

theorem Around.flow_split (d : Around k) (v : List Char) :
    ∃ pre post, d.flow v = pre ++ (v ++ post) ∧ Framed pre ∧ Framed post := by
  obtain ⟨pre, post, heq, hpre, hpost⟩ := intercalate_split [',', ' '] (pairLines d.before)
    (pairLine k v) (pairLines d.after)
  have hsep : Framed [',', ' '] := by
    rintro c (_ | ⟨_, _ | ⟨_, ⟨⟩⟩⟩) <;> exact .inr (by decide)
  have hframed {E l} (hE : PlainPairs E) (hl : ∀ c ∈ l, c ∈ [',', ' '] ∨ ∃ m ∈ pairLines E, c ∈ m) :
      Framed l := by
    intro c hc
    rcases hl c hc with hc | ⟨m, hm, hc⟩
    · exact hsep c hc
    · exact framed_pairLines hE hm c hc
  have hkey : Framed (k ++ [':', ' ']) := by
    refine framed_append d.key.framed ?_
    rintro c (_ | ⟨_, _ | ⟨_, ⟨⟩⟩⟩) <;> exact .inr (by decide)
  refine ⟨['\x7b'] ++ (pre ++ (k ++ [':', ' '])), post ++ ['\x7d'], ?_, ?_, ?_⟩
  · rw [Around.flow_cons, Around.lines, heq, pairLine]
    simp
  · refine framed_append ?_ (framed_append (hframed d.plain_before hpre) hkey)
    rintro c (_ | ⟨_, ⟨⟩⟩)
    exact .inr (by decide)
  · refine framed_append (hframed d.plain_after hpost) ?_
    rintro c (_ | ⟨_, ⟨⟩⟩)
    exact .inr (by decide)

end Framed

/-! ## Where the scanners agree -/

section Counts

variable {c : Char} {k l s : List Char} {q : Style}

theorem count_escape (h : c ≠ '\\') (hn : c ≠ 'n') (ht : c ≠ 't') (hb : c ≠ '\n') (htab : c ≠ '\t')
    (s : List Char) : (s.flatMap escape).count c = s.count c := by
  induction s with
  | nil => rfl
  | cons d s ih =>
    rw [List.flatMap_cons, List.count_append, ih, List.count_cons (b := d), Nat.add_comm]
    refine congrArg _ ?_
    rw [escape]
    split_ifs <;> simp only [List.count_cons, List.count_nil, beq_iff_eq] <;> grind

theorem count_doubled (h : c ≠ '\'') (s : List Char) : (s.flatMap doubled).count c = s.count c := by
  induction s with
  | nil => rfl
  | cons d s ih =>
    rw [List.flatMap_cons, List.count_append, ih, List.count_cons (b := d), Nat.add_comm]
    refine congrArg _ ?_
    rw [doubled]
    split_ifs <;> simp only [List.count_cons, List.count_nil, beq_iff_eq] <;> grind

theorem mem_double (h : c ∈ s.flatMap escape) :
    (c ≠ '\n' ∧ c ≠ '\t') ∧ (c ∈ s ∨ c = '\\' ∨ c = 'n' ∨ c = 't') := by
  obtain ⟨d, hd, hc⟩ := List.mem_flatMap.1 h
  rw [escape] at hc
  split_ifs at hc <;> simp only [List.mem_cons, List.not_mem_nil, or_false] at hc <;> grind

theorem mem_single (h : c ∈ s.flatMap doubled) : c ∈ s := by
  obtain ⟨d, hd, hc⟩ := List.mem_flatMap.1 h
  rw [doubled] at hc
  split_ifs at hc <;> simp only [List.mem_cons, List.not_mem_nil, or_false] at hc <;> grind

theorem mem_written (h : c ∈ written q s) : c = q.quote ∨ c ∈ q.body s := by
  rcases List.mem_cons.1 h with h | h
  · exact .inl h
  · exact (List.mem_append.1 h).symm.imp_left List.mem_singleton.1

theorem oneLine_written (hr : '\r' ∉ s) (hn : q = .single → '\n' ∉ s) : OneLine (written q s) := by
  cases q with
  | double =>
    refine ⟨fun h => ?_, fun h => ?_⟩ <;> rcases mem_written h with h | h
    · exact absurd h (by decide)
    · exact (mem_double h).1.1 rfl
    · exact absurd h (by decide)
    · exact (mem_double h).2.elim hr (by decide)
  | single =>
    refine ⟨fun h => ?_, fun h => ?_⟩ <;> rcases mem_written h with h | h
    · exact absurd h (by decide)
    · exact hn rfl (mem_single h)
    · exact absurd h (by decide)
    · exact hr (mem_single h)

theorem tab_not_mem_written (ht : '\t' ∉ s) (q : Style) : '\t' ∉ written q s := by
  intro h
  cases q <;> rcases mem_written h with h | h
  · exact absurd h (by decide)
  · exact (mem_double h).1.2 rfl
  · exact absurd h (by decide)
  · exact ht (mem_single h)

theorem solid_written (q : Style) (s : List Char) : Solid (written q s) where
  ne := List.cons_ne_nil _ _
  first c hc := by
    obtain rfl := Option.some.inj hc
    cases q <;> decide
  last c hc := by
    rw [written, ← List.cons_append, List.getLast?_concat] at hc
    obtain rfl := Option.some.inj hc
    cases q <;> decide

theorem uncommented_of_not_mem (h : '#' ∉ l) (q last : Option Char) : uncommented q last l = l := by
  induction l generalizing q last with
  | nil => rfl
  | cons c l ih =>
    have hc : c ≠ '#' := by
      rintro rfl
      exact h (.head _)
    rw [uncommented, if_neg fun hq => hc hq.2.1, ih fun hl => h (.tail _ hl)]

/-- A comment is seen in what is written, or it is not. -/
theorem uncommented_written {pre post : List Char} (hpre : Calm pre) (hpost : Calm post)
    (q : Style) (s : List Char) :
    uncommented none none (pre ++ (written q s ++ post)) = pre ++ (written q s ++ post) ↔
      ¬(q = .double ∧ Comments s) := by
  have hcalm : '#' ∉ post := fun h => (hpost _ h).2.2 rfl
  have hwritten : written q s ++ post = q.quote :: (q.body s ++ q.quote :: post) := by
    rw [written, List.cons_append, List.append_assoc]
    rfl
  rw [uncommented_calm hpre, hwritten]
  cases q with
  | double =>
    have hstep (last : Option Char) : uncommented none last ('"' :: (s.flatMap escape ++ '"' :: post))
        = '"' :: uncommented (some '"') (some '"') (s.flatMap escape ++ '"' :: post) :=
      uncommented_step (fun h => absurd h.2.1 (by decide)) _
    rw [← shows_iff_comments]
    change pre ++ uncommented none _ ('"' :: (s.flatMap escape ++ '"' :: post)) =
      pre ++ '"' :: (s.flatMap escape ++ '"' :: post) ↔ _
    rw [hstep, List.append_cancel_left_eq, List.cons.injEq, eq_self_iff_true, true_and]
    constructor
    · rintro h ⟨-, hs⟩
      exact uncommented_double_ne (.inr (.inl rfl)) (by decide) s ('"' :: post) hs h
    · intro h
      rw [uncommented_double (.inr (.inl rfl)) (by decide) s post fun hs => h ⟨rfl, hs⟩,
        uncommented_of_not_mem hcalm]
  | single =>
    have hstep (last : Option Char) :
        uncommented none last ('\'' :: (Style.single.body s ++ '\'' :: post)) =
          '\'' :: uncommented (some '\'') (some '\'') (Style.single.body s ++ '\'' :: post) :=
      uncommented_step (fun h => absurd h.2.1 (by decide)) _
    refine iff_of_true ?_ (fun h => nomatch h.1)
    refine congrArg _ ((hstep _).trans ?_)
    rw [uncommented_single, uncommented_of_not_mem hcalm]
    rfl

theorem count_unquote (hb : c ≠ '\\') (hn : c ≠ 'n') (hl : c ≠ '\n') (hq : c ≠ '"') (hs : c ≠ '\'')
    (t : List Char) : (unquote t).count c = t.count c := by
  have hbetween {q : Char} (hc : c ≠ q) (hlen : 2 ≤ t.length) (hhead : t.head? = some q)
      (hlast : t.getLast? = some q) : t.tail.dropLast.count c = t.count c := by
    conv_rhs => rw [between_quotes hlen hhead hlast]
    rw [List.count_cons_of_ne hc.symm, List.count_append, List.count_singleton,
      if_neg (by simpa using hc.symm), Nat.add_zero]
  unfold unquote
  split
  case isTrue h =>
    rw [count_replacePair hb hb hb, count_replacePair hb hq hq, count_replacePair hb hn hl]
    exact hbetween hq h.1 h.2.1 h.2.2
  case isFalse =>
    split
    case isTrue h =>
      rw [count_replacePair hs hs hs]
      exact hbetween hs h.1 h.2.1 h.2.2
    case isFalse => rfl

end Counts

/-! ## What is read -/

/-- In all rounds from some on, `s` is what is found in the document. -/
def Reads (text : List Char) (look : Value → Option Value) (s : List Char) : Prop :=
  ∃ n₀, ∀ n ≥ n₀, ∃ v, parse n text = some v ∧ look v = some (.str s)

/-- Nothing of the scalar is lost before it is unquoted: no tab is made two blanks, no line is
ended and no comment seen within it. -/
structure Whole (q : Style) (s : List Char) : Prop where
  tab : '\t' ∉ s
  ret : '\r' ∉ s
  linefeed : q = .single → '\n' ∉ s
  comment : q = .double → ¬Comments s

/-- And nothing is made of it that was not written: no backslash stands before an `n`. -/
structure Kept (q : Style) (s : List Char) : Prop extends Whole q s where
  letter : q = .double → ¬['\\', 'n'] <:+: s

section Reads

variable {k o s : List Char} {q : Style}

theorem inValue_of_at {v w : Value} (h : v.at k = some w) (hs : InValue s w) : InValue s v := by
  cases v with
  | map m =>
    obtain ⟨e, he, rfl⟩ := Option.map_eq_some_iff.1 h
    exact .map (List.mem_of_find?_eq_some he) hs
  | null => cases h
  | str _ => cases h
  | list _ => cases h

theorem Framed.count {l : List Char} {c : Char} (h : Framed l) (hc : plainChar c = false)
    (hc' : c ∉ "\x7b\x7d,: ".toList) : l.count c = 0 := List.count_eq_zero.2 (h.not_mem hc hc')

theorem count_pairLine {c : Char} (hk : Plain k) (hc : plainChar c = false)
    (hc' : c ∉ "\x7b\x7d,: ".toList) (v : List Char) : (pairLine k v).count c = v.count c := by
  have hcolon : c ≠ ':' := by
    rintro rfl
    exact hc' (by decide)
  have hspace : c ≠ ' ' := by
    rintro rfl
    exact hc' (by decide)
  rw [pairLine, List.count_append, hk.framed.count hc hc', List.count_cons_of_ne hcolon.symm,
    List.count_cons_of_ne hspace.symm, Nat.zero_add]

theorem count_block {c : Char} (d : Around k) (hc : plainChar c = false)
    (hc' : c ∉ "\x7b\x7d,: ".toList) (hn : c ≠ '\n') (v : List Char) :
    (d.block v).count c = v.count c := by
  obtain ⟨pre, post, heq, hpre, hpost⟩ := intercalate_split ['\n'] (pairLines d.before)
    (pairLine k v) (pairLines d.after)
  have hnone {E : List (List Char × List Char)} {l : List Char} (hE : PlainPairs E)
      (hl : ∀ c ∈ l, c ∈ ['\n'] ∨ ∃ m ∈ pairLines E, c ∈ m) : l.count c = 0 := by
    refine List.count_eq_zero.2 fun hcl => ?_
    rcases hl c hcl with h | ⟨m, hm, h⟩
    · exact hn (List.mem_singleton.1 h)
    · exact (framed_pairLines hE hm).not_mem hc hc' h
  rw [Around.block, Around.lines, heq, List.count_append, List.count_append,
    hnone d.plain_before hpre, hnone d.plain_after hpost, count_pairLine d.key hc hc', Nat.zero_add,
    Nat.add_zero]

/-- Around a scalar between frames. -/
structure Frame (q : Style) (s u : List Char) : Prop where
  solid : Solid u
  split : ∃ pre post, u = pre ++ (written q s ++ post) ∧ Framed pre ∧ Framed post

theorem frame_written (q : Style) (s : List Char) : Frame q s (written q s) :=
  ⟨solid_written q s, [], [], (List.append_nil _).symm, nofun, nofun⟩

theorem frame_flow (d : Around k) (q : Style) (s : List Char) :
    Frame q s (d.flow (written q s)) :=
  ⟨d.solid_flow _, d.flow_split (written q s)⟩

namespace Frame

variable {u : List Char}

theorem count (h : Frame q s u) {c : Char} (hc : plainChar c = false)
    (hc' : c ∉ "\x7b\x7d,: ".toList) : u.count c = (written q s).count c := by
  obtain ⟨pre, post, rfl, hpre, hpost⟩ := h.split
  rw [List.count_append, List.count_append, hpre.count hc hc', hpost.count hc hc', Nat.zero_add,
    Nat.add_zero]

theorem not_mem (h : Frame q s u) {c : Char} (hc : plainChar c = false)
    (hc' : c ∉ "\x7b\x7d,: ".toList) (hw : c ∉ written q s) : c ∉ u :=
  List.count_eq_zero.1 ((h.count hc hc').trans (List.count_eq_zero.2 hw))

theorem oneLine (h : Frame q s u) (hr : '\r' ∉ s) (hn : q = .single → '\n' ∉ s) : OneLine u :=
  ⟨h.not_mem (by decide) (by decide) (oneLine_written hr hn).1,
    h.not_mem (by decide) (by decide) (oneLine_written hr hn).2⟩

theorem tab (h : Frame q s u) (ht : '\t' ∉ s) : '\t' ∉ u :=
  h.not_mem (by decide) (by decide) (tab_not_mem_written ht q)

theorem uncommented_iff (h : Frame q s u) (hk : Plain k) :
    uncommented none none (pairLine k u) = pairLine k u ↔ ¬(q = .double ∧ Comments s) := by
  obtain ⟨pre, post, rfl, hpre, hpost⟩ := h.split
  have hline : pairLine k (pre ++ (written q s ++ post)) =
      (k ++ [':', ' '] ++ pre) ++ (written q s ++ post) := by
    rw [pairLine]
    simp
  have hcalm : Calm (k ++ [':', ' '] ++ pre) :=
    calm_append (calm_append hk.calm (by simp [Calm])) hpre.calm
  rw [hline]
  exact uncommented_written hcalm hpost.calm q s

theorem stripComment (h : Frame q s u) (hk : Plain k) (hs : ¬(q = .double ∧ Comments s)) :
    MiniYaml.stripComment (pairLine k u) = pairLine k u := by
  unfold MiniYaml.stripComment
  rw [(h.uncommented_iff hk).2 hs]
  exact trimEnd_eq (solid_pairLine hk h.solid).last

/-- With its comment a `#` is lost. -/
theorem count_stripped (h : Frame .double s u) (d : Around k) (ht : '\t' ∉ s) (hr : '\r' ∉ s)
    (hs : Comments s) : (stripped (d.block u)).count '#' < s.count '#' := by
  have hplain {E} (hE : PlainPairs E) :
      (((pairLines E).map MiniYaml.stripComment).flatten).count '#' = 0 := by
    refine List.count_eq_zero.2 fun hc => ?_
    obtain ⟨l, hl, hc⟩ := List.mem_flatten.1 ((flatten_map_sublist stripComment_sublist _).mem hc)
    exact (framed_pairLines hE hl).not_mem (by decide) (by decide) hc
  have hstrip := (trimEnd_sublist (uncommented none none (pairLine k u))).count_le '#'
  have hcut := (uncommented_eq_or none none (pairLine k u)).resolve_left fun heq =>
    (h.uncommented_iff d.key).1 heq ⟨rfl, hs⟩
  have hcount : (written .double s).count '#' = s.count '#' := by
    rw [written, List.count_cons_of_ne (by decide), List.count_append]
    exact count_escape (by decide) (by decide) (by decide) (by decide) (by decide) s
  rw [count_pairLine d.key (by decide) (by decide), h.count (by decide) (by decide), hcount] at hcut
  rw [stripped, d.lines_block_eq (h.oneLine hr nofun) (h.tab ht), Around.lines, List.map_append,
    List.map_cons, List.flatten_append, List.flatten_cons, List.count_append, List.count_append,
    hplain d.plain_before, hplain d.plain_after, Nat.zero_add, Nat.add_zero]
  exact hstrip.trans_lt hcut

/-- What is read back was there as a whole. -/
theorem whole (h : Frame q s u) (d : Around k) {look : Value → Option Value}
    (hlook : ∀ {v}, look v = some (.str s) → InValue s v) (hr : Reads (d.block u) look s) :
    Whole q s := by
  obtain ⟨n, hn⟩ := hr
  obtain ⟨v, hv, hat⟩ := hn n le_rfl
  obtain ⟨hcount, hbreaks⟩ := parse_strings hv (hlook hat)
  have hmem {c : Char} (hspace : c ≠ ' ') (hbreak : c ≠ '\n') (hc : c ∉ stripped (d.block u)) :
      c ∉ s := by
    have := hcount c hspace hbreak
    rw [List.count_eq_zero.2 hc] at this
    exact List.count_eq_zero.1 (Nat.le_zero.1 this)
  have htab := hmem (c := '\t') (by decide) (by decide)
    fun hc => tab_not_mem_untab _ ((stripped_sublist _).mem hc)
  have hret := hmem (c := '\r') (by decide) (by decide) (breaks_not_mem_stripped _).2
  refine ⟨htab, hret, ?_, ?_⟩
  · rintro rfl hbreak
    have hle : (stripped (d.block u)).count '"' ≤ s.count '"' := by
      refine ((stripped_sublist _).count_le _).trans ((count_untab_le (by decide) _).trans ?_)
      rw [count_block d (by decide) (by decide) (by decide), h.count (by decide) (by decide), written,
        List.count_cons_of_ne (by decide), List.count_append]
      exact (count_doubled (by decide) s).le
    have := hbreaks hbreak
    omega
  · rintro rfl hs
    have hlt := h.count_stripped d htab hret hs
    have := hcount '#' (by decide) (by decide)
    omega

end Frame

theorem unquote_written_iff (hw : Whole q s) :
    unquote (written q s) = s ↔ (q = .double → ¬['\\', 'n'] <:+: s) := by
  cases q with
  | double =>
    refine ⟨fun h _ hn => unquote_written_ne hw.tab hn h, fun h => ?_⟩
    exact unquote_written_double hw.tab (h rfl)
  | single => exact iff_of_true (unquote_written_single s) nofun

theorem balance_written (q : Style) (s : List Char) :
    0 < balance (written q s) ↔ q = .double ∧ 0 < balanceFrom (some '"') s := by
  have hstep (c : Char) (hc : c = '"' ∨ c = '\'') (l : List Char) :
      balance (c :: l) = balanceFrom (some c) l := by
    have hdepth : depthOf c = 0 := by
      rcases hc with rfl | rfl <;> rfl
    rw [balance, balance_step hdepth, quoted, if_pos hc]
  cases q with
  | double =>
    have hlast (q : Option Char) : balanceFrom q ['"'] = 0 := balance_step rfl []
    have heq : balance (written .double s) = balanceFrom (some '"') s := by
      refine (hstep '"' (.inl rfl) _).trans ?_
      change balanceFrom (some '"') (s.flatMap escape ++ ['"']) = _
      rw [balance_double (.inr (.inl rfl)), balanceFrom_append, hlast, Int.add_zero]
    rw [heq, eq_self_iff_true, true_and]
  | single =>
    have heq : balance (written .single s) = 0 :=
      (hstep '\'' (.inr rfl) _).trans (balance_single s [])
    rw [heq]
    exact iff_of_false (Int.lt_irrefl 0) fun h => absurd h.1 (by simp)

theorem tail_eq_nil (d : Around k) (v : List Char) :
    d.tail v = [] ↔ ¬(0 < balance v ∧ d.after ≠ []) := by
  unfold Around.tail
  split
  case isFalse h => exact iff_of_true rfl fun h' => h h'.1
  case isTrue h =>
    cases hafter : d.after with
    | nil => exact iff_of_true rfl fun h' => h'.2 rfl
    | cons e E =>
      rw [pairLines, List.map_cons, List.flatMap_cons]
      exact iff_of_false (List.cons_ne_nil _ _) fun h' => h' ⟨h, List.cons_ne_nil _ _⟩

/-- With the lines behind it, a scalar is no scalar. -/
theorem unquote_tail (d : Around k) (v : List Char) (h : d.tail v ≠ []) :
    ':' ∈ d.tail v := by
  unfold Around.tail at h ⊢
  split at h
  case isFalse => exact absurd rfl h
  case isTrue hb =>
    rw [if_pos hb]
    cases hafter : d.after with
    | nil =>
      rw [hafter] at h
      exact absurd rfl h
    | cons e E =>
      rw [pairLines, List.map_cons, List.flatMap_cons]
      exact List.mem_append_left _ (.tail _ (colon_mem_pairLine e.1 e.2))

theorem inline_written (q : Style) (s : List Char) {r : List Char} (hr : Solid (written q s ++ r))
    (n : Nat) : inline n (written q s ++ r) = some (.str (unquote (written q s ++ r))) := by
  have hhead : (written q s ++ r).head? = some q.quote := rfl
  have hne {c : Char} {t : List Char} (ht : t.head? = some c) (hc : q.quote ≠ c) :
      written q s ++ r ≠ t := by
    intro h
    rw [h, ht] at hhead
    exact hc (Option.some.inj hhead).symm
  unfold inline
  rw [hr.trimmed]
  dsimp only
  rw [hhead, if_neg (by cases q <;> decide), if_neg]
  rintro (h | h)
  · exact hne rfl (by cases q <;> decide) h
  · exact hne rfl (by cases q <;> decide) h

theorem count_colon_written (q : Style) (s : List Char) :
    (written q s).count ':' = s.count ':' := by
  have hne : q.quote ≠ ':' := by cases q <;> decide
  rw [written, List.count_cons_of_ne hne, List.count_append, List.count_singleton,
    if_neg (by simpa using hne)]
  cases q with
  | double => exact count_escape (by decide) (by decide) (by decide) (by decide) (by decide) s
  | single => exact count_doubled (by decide) s

theorem block_reads_iff (d : Around k) (q : Style) (s : List Char) :
    Reads (d.block (written q s)) (·.at k) s ↔
      Kept q s ∧ ¬(q = .double ∧ 0 < balanceFrom (some '"') s ∧ d.after ≠ []) := by
  have hframe := frame_written q s
  have hparse (hw : Whole q s) {n : Nat} (hn : (d.pairs (written q s)).length + 1 < n) :=
    d.parse_block hframe.solid (hframe.oneLine hw.ret hw.linefeed) (hframe.tab hw.tab)
      (hframe.stripComment d.key fun h => hw.comment h.1 h.2)
      (inline_written q s (d.solid_tail (solid_written q s)) n) hn
  have htail : d.tail (written q s) = [] ↔
      ¬(q = .double ∧ 0 < balanceFrom (some '"') s ∧ d.after ≠ []) := by
    rw [tail_eq_nil, balance_written, and_assoc]
  rw [← htail]
  constructor
  · intro h
    have hw := hframe.whole d (fun hat => inValue_of_at hat .str) h
    obtain ⟨n, hn⟩ := h
    obtain ⟨v, hv, hs⟩ := hn (max n ((d.pairs (written q s)).length + 2)) (le_max_left _ _)
    obtain ⟨w, hpw, hat⟩ := hparse hw (n := max n ((d.pairs (written q s)).length + 2))
      (lt_of_lt_of_le (Nat.lt_succ_self _) (le_max_right _ _))
    obtain rfl := Option.some.inj (hpw.symm.trans hv)
    have heq : unquote (written q s ++ d.tail (written q s)) = s :=
      Value.str.inj (Option.some.inj (hat.symm.trans hs))
    have hnil : d.tail (written q s) = [] := by
      by_contra hne
      have hcount := congrArg (List.count ':') heq
      rw [count_unquote (by decide) (by decide) (by decide) (by decide) (by decide),
        List.count_append, count_colon_written] at hcount
      have := List.count_pos_iff.2 (unquote_tail d _ hne)
      omega
    rw [hnil, List.append_nil] at heq
    exact ⟨⟨hw, (unquote_written_iff hw).1 heq⟩, hnil⟩
  · rintro ⟨hk, hnil⟩
    refine ⟨(d.pairs (written q s)).length + 2, fun n hn => ?_⟩
    obtain ⟨w, hpw, hat⟩ := hparse hk.toWhole (n := n) hn
    refine ⟨w, hpw, hat.trans ?_⟩
    rw [hnil, List.append_nil, (unquote_written_iff hk.toWhole).2 hk.letter]

theorem scalarValue_eq_str {t s : List Char} :
    Flow.scalarValue t = .str s ↔ t = s ∧ s ≠ ['~'] ∧ s ≠ "null".toList := by
  unfold Flow.scalarValue
  split
  case isTrue h =>
    refine iff_of_false nofun ?_
    rintro ⟨rfl, h1, h2⟩
    exact h.elim h1 h2
  case isFalse h =>
    rw [Value.str.injEq]
    refine ⟨?_, And.left⟩
    rintro rfl
    exact ⟨rfl, not_or.1 h⟩

theorem flow_reads_iff (d : Around o) (f : Around k) (q : Style) (s : List Char) :
    Reads (d.block (f.flow (written q s))) (fun v => (v.at o).bind (·.at k)) s ↔
      Kept q s ∧ s ≠ ['~'] ∧ s ≠ "null".toList := by
  have hframe := frame_flow f q s
  have hparse (hw : Whole q s) {n : Nat} (hn : (d.pairs (f.flow (written q s))).length + 1 < n)
      (hn' : (f.items (written q s)).length + 2 ≤ n) :
      ∃ v, parse n (d.block (f.flow (written q s))) = some v ∧
        (v.at o).bind (·.at k) = some (Flow.scalarValue (unquote (written q s))) := by
    obtain ⟨x, hx, hat⟩ := f.inline_flow (Flow.item_written q s) hn'
      (d.solid_tail (f.solid_flow (written q s)))
    obtain ⟨v, hv, ho⟩ := d.parse_block hframe.solid (hframe.oneLine hw.ret hw.linefeed)
      (hframe.tab hw.tab) (hframe.stripComment d.key fun h => hw.comment h.1 h.2) hx hn
    exact ⟨v, hv, by rw [ho, Option.bind_some, hat]⟩
  set m := max ((d.pairs (f.flow (written q s))).length + 2) ((f.items (written q s)).length + 2)
  constructor
  · intro h
    have hw := hframe.whole d (fun {v} hat => by
      obtain ⟨w, hw, hat⟩ := Option.bind_eq_some_iff.1 hat
      exact inValue_of_at hw (inValue_of_at hat .str)) h
    obtain ⟨n, hn⟩ := h
    obtain ⟨v, hv, hs⟩ := hn (max n m) (le_max_left _ _)
    obtain ⟨w, hpw, hat⟩ := hparse hw (n := max n m)
      ((Nat.lt_succ_self _).trans_le ((le_max_left _ _).trans (le_max_right n m)))
      ((le_max_right _ _).trans (le_max_right n m))
    obtain rfl := Option.some.inj (hpw.symm.trans hv)
    obtain ⟨heq, hnull⟩ := scalarValue_eq_str.1 (Option.some.inj (hat.symm.trans hs))
    exact ⟨⟨hw, (unquote_written_iff hw).1 heq⟩, hnull⟩
  · rintro ⟨hk, hnull⟩
    refine ⟨m, fun n hn => ?_⟩
    obtain ⟨w, hpw, hat⟩ := hparse hk.toWhole (n := n)
      ((Nat.lt_succ_self _).trans_le ((le_max_left _ _).trans hn)) ((le_max_right _ _).trans hn)
    refine ⟨w, hpw, hat.trans (congrArg some (scalarValue_eq_str.2 ⟨?_, hnull⟩))⟩
    exact (unquote_written_iff hk.toWhole).2 hk.letter

/-- **A quoted scalar is read back**, in a line of its own and in a flow mapping, exactly where it is
kept as a whole, unquoting makes nothing else of it, no line behind it is taken for a part of it, and
a flow mapping does not take it for nothing. -/
theorem quoted_scalar_iff (d : Around k) (e : Around o) (f : Around k) (q : Style) (s : List Char) :
    (Reads (d.block (written q s)) (·.at k) s ↔
      Kept q s ∧ ¬(q = .double ∧ 0 < balanceFrom (some '"') s ∧ d.after ≠ [])) ∧
    (Reads (e.block (f.flow (written q s))) (fun v => (v.at o).bind (·.at k)) s ↔
      Kept q s ∧ s ≠ ['~'] ∧ s ≠ "null".toList) :=
  ⟨block_reads_iff d q s, flow_reads_iff e f q s⟩

end Reads

/-- A document of one pair. -/
def alone (k : List Char) (h : Plain k) : Around k where
  before := []
  after := []
  key := h
  plain_before := nofun
  plain_after := nofun
  not_before := nofun
  not_after := nofun

theorem plain_k : Plain ['k'] := by simp [Plain, plainChar, Text.isWhitespace]

example : (alone ['k'] plain_k).flow (written .double ['a', '"']) =
    ['\x7b', 'k', ':', ' ', '"', 'a', '\\', '"', '"', '\x7d'] := rfl

/-- `k: "\\n"` is a backslash and an `n`, and is read as a line break. -/
theorem backslash_n_not_read :
    ¬Reads ((alone ['k'] plain_k).block (written .double ['\\', 'n'])) (·.at ['k']) ['\\', 'n'] := by
  intro h
  exact ((block_reads_iff _ _ _).1 h).1.letter rfl (List.infix_refl _)

end Ghajar.MiniYaml
