import Ghajar.Config.YamlQuoted

/-!
# Documents of plain words

A mapping of plain words around one key, in block style. The lines behind it stay lines of their own
unless the value at the key opens more than it closes; what is at the key is then what `inline` makes
of the value and of all the lines behind it.
-/

namespace Ghajar.MiniYaml

open Awg SubscriptionFetcher

/-! ## Documents -/

/-- A character of a plain word: no blank, and none that the scanners look for. -/
def plainChar (c : Char) : Bool :=
  !Text.isWhitespace c && c ∉ "\"'#\x7b\x7d[],:".toList

def Plain (w : List Char) : Prop := w ≠ [] ∧ ∀ c ∈ w, plainChar c = true

/-- Pairs of plain words. -/
def PlainPairs (l : List (List Char × List Char)) : Prop := ∀ e ∈ l, Plain e.1 ∧ Plain e.2

/-- A line with a key and what stands behind it. -/
def pairLine (k v : List Char) : List Char := k ++ ':' :: ' ' :: v

def pairLines (l : List (List Char × List Char)) : List (List Char) :=
  l.map fun e => pairLine e.1 e.2

/-- A mapping around the key `k`: plain words at other keys, before and after it. -/
structure Around (k : List Char) where
  before : List (List Char × List Char)
  after : List (List Char × List Char)
  key : Plain k
  plain_before : PlainPairs before
  plain_after : PlainPairs after
  not_before : ∀ e ∈ before, e.1 ≠ k
  not_after : ∀ e ∈ after, e.1 ≠ k

section Around

variable {k : List Char} (d : Around k) (v : List Char)

def Around.lines : List (List Char) := pairLines d.before ++ pairLine k v :: pairLines d.after

/-- The mapping in block style, with `v` at the key. -/
def Around.block : List Char := ['\n'].intercalate (d.lines v)

/-- The mapping in flow style. -/
def Around.flow : List Char := '\x7b' :: ([',', ' '].intercalate (d.lines v) ++ ['\x7d'])

end Around

/-- What is at a key of a mapping. -/
def Value.at (v : Value) (k : List Char) : Option Value :=
  match v with
  | .map m => (m.find? (·.1 = k)).map (·.2)
  | _ => none

section Plain

variable {c : Char} {l w k v : List Char}

theorem plainChar_iff : plainChar c = true ↔ Text.isWhitespace c = false ∧ c ≠ '"' ∧ c ≠ '\'' ∧
    c ≠ '#' ∧ c ≠ '\x7b' ∧ c ≠ '\x7d' ∧ c ≠ '[' ∧ c ≠ ']' ∧ c ≠ ',' ∧ c ≠ ':' := by
  simp [plainChar]

theorem Plain.calm (h : Plain w) : Calm w := fun c hc =>
  have h := plainChar_iff.1 (h.2 c hc)
  ⟨h.2.1, h.2.2.1, h.2.2.2.1⟩

theorem calm_pairLine (hk : Calm k) (hv : Calm v) : Calm (pairLine k v) := by
  refine calm_append hk fun c hc => ?_
  rcases List.mem_cons.1 hc with rfl | hc
  · decide
  · rcases List.mem_cons.1 hc with rfl | hc
    · decide
    · exact hv c hc

theorem depthOf_plain (h : plainChar c = true) : depthOf c = 0 := by
  obtain ⟨-, -, -, -, h1, h2, h3, h4, -⟩ := plainChar_iff.1 h
  rw [depthOf, if_neg (not_or.2 ⟨h1, h3⟩), if_neg (not_or.2 ⟨h2, h4⟩)]

theorem depth_plain (h : Plain w) : (w.map depthOf).sum = 0 :=
  List.sum_eq_zero fun d hd => by
    obtain ⟨c, hc, rfl⟩ := List.mem_map.1 hd
    exact depthOf_plain (h.2 c hc)

theorem depth_pairLine (k v : List Char) :
    ((pairLine k v).map depthOf).sum = (k.map depthOf).sum + (v.map depthOf).sum := by
  have hcolon : depthOf ':' = 0 := rfl
  have hspace : depthOf ' ' = 0 := rfl
  rw [pairLine, List.map_append, List.sum_append, List.map_cons, List.map_cons, List.sum_cons,
    List.sum_cons, hcolon, hspace, Int.zero_add, Int.zero_add]

theorem trimEnd_eq (h : ∀ c ∈ l.getLast?, Text.isWhitespace c = false) : trimEnd l = l := by
  unfold trimEnd
  rw [dropWhile_of_head (by rwa [List.head?_reverse]), List.reverse_reverse]

theorem trimStart_eq (h : ∀ c ∈ l.head?, Text.isWhitespace c = false) : trimStart l = l :=
  dropWhile_of_head h

theorem trimmed_eq (h : ∀ c ∈ l.head?, Text.isWhitespace c = false)
    (h' : ∀ c ∈ l.getLast?, Text.isWhitespace c = false) : trimmed l = l := by
  unfold trimmed trim
  rw [dropWhile_of_head h]
  exact trimEnd_eq h'

/-- A text with something at both ends. -/
structure Solid (t : List Char) : Prop where
  ne : t ≠ []
  first : ∀ c ∈ t.head?, Text.isWhitespace c = false
  last : ∀ c ∈ t.getLast?, Text.isWhitespace c = false

theorem Solid.trimmed (h : Solid l) : trimmed l = l := trimmed_eq h.first h.last

theorem Solid.append {m : List Char} (h : Solid l)
    (hm : ∀ c ∈ m.getLast?, Text.isWhitespace c = false) : Solid (l ++ m) where
  ne := List.append_ne_nil_of_left_ne_nil h.ne m
  first := by
    rw [List.head?_append_of_ne_nil _ h.ne]
    exact h.first
  last c hc := by
    rw [List.getLast?_append] at hc
    cases hl : m.getLast? with
    | none =>
      rw [hl, Option.none_or] at hc
      exact h.last c hc
    | some d =>
      rw [hl, Option.some_or] at hc
      exact hm c (hl ▸ hc)

theorem Plain.blank (h : Plain w) : ∀ c ∈ w, Text.isWhitespace c = false :=
  fun c hc => (plainChar_iff.1 (h.2 c hc)).1

theorem Plain.solid (h : Plain w) : Solid w :=
  ⟨h.1, fun c hc => h.blank c (List.mem_of_mem_head? hc),
    fun c hc => h.blank c (List.mem_of_mem_getLast? hc)⟩

theorem solid_pairLine (hk : Plain k) (hv : Solid v) : Solid (pairLine k v) := by
  refine hk.solid.append fun c hc => ?_
  obtain ⟨d, r, rfl⟩ := List.exists_cons_of_ne_nil hv.ne
  rw [List.getLast?_cons_cons, List.getLast?_cons_cons] at hc
  exact hv.last c hc

end Plain

/-! ## Lines -/

section Lines

variable {l : List Char} {ls : List (List Char)}

def OneLine (l : List Char) : Prop := '\n' ∉ l ∧ '\r' ∉ l

theorem lines_append_break (h : OneLine l) (r : List Char) :
    ConfigParser.lines (l ++ '\n' :: r) = l :: ConfigParser.lines r := by
  induction l with
  | nil => rw [List.nil_append, ConfigParser.lines.eq_def]; rfl
  | cons c l ih =>
    have hc : ¬(c = '\n' ∨ c = '\r') := by
      rintro (rfl | rfl)
      · exact h.1 (.head _)
      · exact h.2 (.head _)
    have hl := ih ⟨fun h' => h.1 (.tail _ h'), fun h' => h.2 (.tail _ h')⟩
    rw [List.cons_append, ConfigParser.lines, hl, if_neg hc]
    exact fun _ hcr => absurd hcr (hc ∘ .inr)

theorem lines_of_oneLine (h : OneLine l) : ConfigParser.lines l = [l] := by
  induction l with
  | nil => rfl
  | cons c l ih =>
    have hc : ¬(c = '\n' ∨ c = '\r') := by
      rintro (rfl | rfl)
      · exact h.1 (.head _)
      · exact h.2 (.head _)
    have hl := ih ⟨fun h' => h.1 (.tail _ h'), fun h' => h.2 (.tail _ h')⟩
    rw [ConfigParser.lines, hl, if_neg hc]
    exact fun _ hcr => absurd hcr (hc ∘ .inr)

theorem lines_intercalate (hne : ls ≠ []) (h : ∀ l ∈ ls, OneLine l) :
    ConfigParser.lines (['\n'].intercalate ls) = ls := by
  induction ls with
  | nil => exact absurd rfl hne
  | cons l ls ih =>
    have hl := h l (.head _)
    cases ls with
    | nil => rw [List.intercalate_singleton, lines_of_oneLine hl]
    | cons l' ls =>
      rw [List.intercalate_cons_cons, List.append_assoc]
      exact (lines_append_break hl _).trans
        (congrArg _ (ih (List.cons_ne_nil _ _) fun m hm => h m (.tail _ hm)))

theorem untab_eq (h : '\t' ∉ l) : untab l = l := by
  induction l with
  | nil => rfl
  | cons c l ih =>
    unfold untab at ih ⊢
    rw [List.flatMap_cons, if_neg (fun hc => h (List.mem_cons.2 (.inl hc.symm))),
      ih fun h' => h (.tail _ h')]
    rfl

theorem mem_intercalate {α : Type} {sep : List α} {ls : List (List α)} {x : α}
    (h : x ∈ sep.intercalate ls) : x ∈ sep ∨ ∃ l ∈ ls, x ∈ l := by
  induction ls with
  | nil => cases h
  | cons l ls ih =>
    cases ls with
    | nil =>
      rw [List.intercalate_singleton] at h
      exact .inr ⟨l, .head _, h⟩
    | cons l' ls =>
      rw [List.intercalate_cons_cons, List.append_assoc] at h
      rcases List.mem_append.1 h with h | h
      · exact .inr ⟨l, .head _, h⟩
      · rcases List.mem_append.1 h with h | h
        · exact .inl h
        · exact (ih h).imp id fun ⟨m, hm, hx⟩ => ⟨m, .tail _ hm, hx⟩

theorem joinFrom_level {ls : List (List Char)} (h : ∀ l ∈ ls, ¬0 < balance l)
    (r : List (List Char)) : joinFrom none (ls ++ r) = ls ++ joinFrom none r := by
  induction ls with
  | nil => rfl
  | cons l ls ih =>
    rw [List.cons_append, joinFrom]
    rw [if_neg (h l (.head _)), ih fun m hm => h m (.tail _ hm)]
    rfl

/-- Lines that neither open nor close are all taken by what is open. -/
theorem joinFrom_open {a : List Char} {depth : Int} (hd : 0 < depth)
    (h : ∀ l ∈ ls, balance l = 0 ∧ trimmed l = l) :
    joinFrom (some (a, depth)) ls = [a ++ ls.flatMap (' ' :: ·)] := by
  induction ls generalizing a with
  | nil =>
    rw [List.flatMap_nil, List.append_nil]
    rfl
  | cons l ls ih =>
    obtain ⟨hzero, htrim⟩ := h l (.head _)
    rw [joinFrom, hzero, htrim, Int.add_zero, if_neg (not_le.2 hd), ih fun m hm => h m (.tail _ hm),
      List.flatMap_cons, List.append_assoc]

end Lines

section PlainLines

variable {c : Char} {k v w : List Char}

theorem balance_pairLine (hk : Plain k) (v : List Char) :
    balance (pairLine k v) = balance v := by
  have hline : pairLine k v = (k ++ [':', ' ']) ++ v := by
    rw [pairLine, List.append_assoc]
    rfl
  have hcalm : Calm (k ++ [':', ' ']) := calm_append hk.calm (by simp [Calm])
  have hsum : ((k ++ [':', ' ']).map depthOf).sum = 0 := by
    rw [List.map_append, List.sum_append, depth_plain hk]
    rfl
  rw [balance, hline, balance_calm hcalm, hsum, Int.zero_add]
  rfl

theorem balance_plain (hv : Plain v) : balance v = 0 := by
  have := balance_calm hv.calm []
  rwa [List.append_nil, depth_plain hv] at this

theorem stripComment_pairLine (hk : Plain k) (hv : Plain v) :
    stripComment (pairLine k v) = pairLine k v := by
  unfold stripComment
  rw [uncommented_of_calm (calm_pairLine hk.calm hv.calm)]
  exact trimEnd_eq (solid_pairLine hk hv.solid).last

theorem mem_pairLine (h : c ∈ pairLine k v) : c ∈ k ∨ c = ':' ∨ c = ' ' ∨ c ∈ v := by
  rcases List.mem_append.1 h with h | h
  · exact .inl h
  · rcases List.mem_cons.1 h with h | h
    · exact .inr (.inl h)
    · exact .inr (.inr (List.mem_cons.1 h))

theorem Plain.not_mem (h : Plain w) (hc : plainChar c = false) : c ∉ w := fun hw => by
  rw [h.2 c hw] at hc
  cases hc

theorem oneLine_pairLine (hk : Plain k) (hv : OneLine v) : OneLine (pairLine k v) := by
  constructor
  · intro h
    rcases mem_pairLine h with h | h | h | h
    · exact hk.not_mem (by decide) h
    · exact absurd h (by decide)
    · exact absurd h (by decide)
    · exact hv.1 h
  · intro h
    rcases mem_pairLine h with h | h | h | h
    · exact hk.not_mem (by decide) h
    · exact absurd h (by decide)
    · exact absurd h (by decide)
    · exact hv.2 h

theorem Plain.oneLine (h : Plain w) : OneLine w := ⟨h.not_mem (by decide), h.not_mem (by decide)⟩

theorem tab_not_mem_pairLine (hk : Plain k) (hv : '\t' ∉ v) : '\t' ∉ pairLine k v := by
  intro h
  rcases mem_pairLine h with h | h | h | h
  · exact hk.not_mem (by decide) h
  · exact absurd h (by decide)
  · exact absurd h (by decide)
  · exact hv h

end PlainLines

namespace Around

section Lines

variable {k : List Char} (d : Around k) {v : List Char}

theorem mem_pairLines {l : List (List Char × List Char)} (h : PlainPairs l) {m : List Char}
    (hm : m ∈ pairLines l) : ∃ k v, Plain k ∧ Plain v ∧ m = pairLine k v := by
  obtain ⟨e, he, rfl⟩ := List.mem_map.1 hm
  exact ⟨e.1, e.2, (h e he).1, (h e he).2, rfl⟩

theorem mem_lines {l : List Char} (h : l ∈ d.lines v) :
    (∃ k v, Plain k ∧ Plain v ∧ l = pairLine k v) ∨ l = pairLine k v := by
  rcases List.mem_append.1 h with h | h
  · exact .inl (mem_pairLines d.plain_before h)
  · rcases List.mem_cons.1 h with rfl | h
    · exact .inr rfl
    · exact .inl (mem_pairLines d.plain_after h)

/-- The lines of the document are those it was made of. -/
theorem lines_block_eq (hv : OneLine v) (ht : '\t' ∉ v) :
    ConfigParser.lines (untab (d.block v)) = d.lines v := by
  have htab : '\t' ∉ d.block v := by
    intro h
    rcases mem_intercalate h with h | ⟨l, hl, h⟩
    · exact absurd h (by decide)
    · rcases d.mem_lines hl with ⟨k, v, hk, hv, rfl⟩ | rfl
      · exact tab_not_mem_pairLine hk (hv.not_mem (by decide)) h
      · exact tab_not_mem_pairLine d.key ht h
  rw [untab_eq htab]
  refine lines_intercalate (by simp [lines]) fun l hl => ?_
  rcases d.mem_lines hl with ⟨k, v, hk, hv, rfl⟩ | rfl
  · exact oneLine_pairLine hk hv.oneLine
  · exact oneLine_pairLine d.key hv

/-- What a value that opens more than it closes takes of the document: all the lines behind it. -/
def tail (v : List Char) : List Char :=
  if 0 < balance v then (pairLines d.after).flatMap (' ' :: ·) else []

def rest (v : List Char) : List (List Char × List Char) := if 0 < balance v then [] else d.after

/-- The pairs that are read. -/
def pairs (v : List Char) : List (List Char × List Char) :=
  d.before ++ (k, v ++ d.tail v) :: d.rest v

theorem join_block (hstrip : stripComment (pairLine k v) = pairLine k v) :
    join ((d.lines v).map stripComment) = (d.pairs v).map fun e => pairLine e.1 e.2 := by
  have hplain {l} (h : PlainPairs l) : (pairLines l).map stripComment = pairLines l := by
    refine (List.map_congr_left fun m hm => ?_).trans (List.map_id _)
    obtain ⟨k, v, hk, hv, rfl⟩ := mem_pairLines h hm
    exact stripComment_pairLine hk hv
  have hlevel {l} (h : PlainPairs l) {m} (hm : m ∈ pairLines l) :
      balance m = 0 ∧ trimmed m = m := by
    obtain ⟨k, v, hk, hv, rfl⟩ := mem_pairLines h hm
    exact ⟨(balance_pairLine hk v).trans (balance_plain hv), (solid_pairLine hk hv.solid).trimmed⟩
  rw [lines, List.map_append, List.map_cons, hplain d.plain_before, hplain d.plain_after, hstrip,
    join, joinFrom_level fun m hm => (hlevel d.plain_before hm).1.not_gt, pairs, List.map_append,
    List.map_cons, joinFrom]
  refine congrArg _ ?_
  dsimp only
  rw [balance_pairLine d.key, tail, rest]
  split
  case isTrue h =>
    rw [joinFrom_open h fun m hm => hlevel d.plain_after hm, pairLine, pairLine, List.append_assoc]
    rfl
  case isFalse =>
    have := joinFrom_level (fun m hm => (hlevel d.plain_after hm).1.not_gt) []
    rw [List.append_nil] at this
    rw [this, List.append_nil]
    exact congrArg _ (List.append_nil _)

theorem tail_last (v : List Char) : ∀ c ∈ (d.tail v).getLast?, Text.isWhitespace c = false := by
  have hsolid : ∀ l ∈ pairLines d.after, Solid l := fun l hl => by
    obtain ⟨k, v, hk, hv, rfl⟩ := mem_pairLines d.plain_after hl
    exact solid_pairLine hk hv.solid
  unfold tail
  split
  case isFalse => exact nofun
  case isTrue =>
    generalize pairLines d.after = ls at hsolid
    intro c hc
    induction ls with
    | nil => cases hc
    | cons l ls ih =>
      have hl := hsolid l (.head _)
      rw [List.flatMap_cons, List.getLast?_append] at hc
      cases hlast : (ls.flatMap (' ' :: ·)).getLast? with
      | some e =>
        rw [hlast, Option.some_or] at hc
        exact ih (fun m hm => hsolid m (.tail _ hm)) (hlast ▸ hc)
      | none =>
        obtain ⟨e, r, rfl⟩ := List.exists_cons_of_ne_nil hl.ne
        rw [hlast, Option.none_or, List.getLast?_cons_cons] at hc
        exact hl.last c hc

theorem solid_tail (hv : Solid v) : Solid (v ++ d.tail v) := hv.append (d.tail_last v)

theorem rest_subset {e : List Char × List Char} (h : e ∈ d.rest v) : e ∈ d.after := by
  unfold rest at h
  split at h
  · cases h
  · exact h

theorem solid_pairs (hv : Solid v) {e : List Char × List Char} (h : e ∈ d.pairs v) :
    Plain e.1 ∧ Solid e.2 := by
  rcases List.mem_append.1 h with h | h
  · exact (d.plain_before e h).imp_right Plain.solid
  · rcases List.mem_cons.1 h with rfl | h
    · exact ⟨d.key, d.solid_tail hv⟩
    · exact (d.plain_after e (d.rest_subset h)).imp_right Plain.solid

end Lines

end Around

section Pairs

variable {k v w : List Char} {E : List (List Char × List Char)}

def lineOf (e : List Char × List Char) : Line := ⟨0, pairLine e.1 e.2⟩

theorem line_of_pairLine (hk : Plain k) (hv : Solid v) :
    Line.of (pairLine k v) = ⟨0, pairLine k v⟩ := by
  have h := solid_pairLine hk hv
  rw [Line.of, h.trimmed, trimStart_eq h.first, Nat.sub_self]

theorem colon_mem_pairLine (k v : List Char) : ':' ∈ pairLine k v :=
  List.mem_append_right _ (.head _)

theorem lines_of_join {text : List Char} (hE : ∀ e ∈ E, Plain e.1 ∧ Solid e.2)
    (h : join ((ConfigParser.lines (untab text)).map stripComment) =
      E.map fun e => pairLine e.1 e.2) : lines text = E.map lineOf := by
  have hkeep : ∀ l ∈ E.map fun e => pairLine e.1 e.2,
      (!Text.isBlank l && trimmed l ≠ "---".toList && trimmed l ≠ "...".toList) = true := by
    intro l hl
    obtain ⟨e, he, rfl⟩ := List.mem_map.1 hl
    obtain ⟨hk, hv⟩ := hE e he
    have hsolid := solid_pairLine hk hv
    have hcolon := colon_mem_pairLine e.1 e.2
    have hblank : Text.isBlank (pairLine e.1 e.2) = false := by
      rw [Text.isBlank, List.all_eq_false]
      exact ⟨':', hcolon, by decide⟩
    have hne (t : List Char) (ht : ':' ∉ t) : pairLine e.1 e.2 ≠ t := fun h => ht (h ▸ hcolon)
    rw [hblank, hsolid.trimmed]
    simpa using ⟨hne "---".toList (by decide), hne "...".toList (by decide)⟩
  rw [lines, h, List.filter_eq_self.2 hkeep, List.map_map]
  exact List.map_congr_left fun e he => line_of_pairLine (hE e he).1 (hE e he).2

theorem unquote_unquoted (h : w.head? ≠ some '"') (h' : w.head? ≠ some '\'') : unquote w = w := by
  unfold unquote
  rw [if_neg fun hq => h hq.2.1, if_neg fun hq => h' hq.2.1]

theorem Plain.unquote (h : Plain w) : unquote w = w := by
  refine unquote_unquoted (fun hq => ?_) fun hq => ?_
  · exact h.not_mem (by decide) (List.mem_of_mem_head? hq)
  · exact h.not_mem (by decide) (List.mem_of_mem_head? hq)

theorem keyFrom_plain (h : ∀ c ∈ w, plainChar c = true) (before r : List Char) :
    keyFrom none before (w ++ r) = keyFrom none (before ++ w) r := by
  induction w generalizing before with
  | nil => rw [List.append_nil, List.nil_append]
  | cons c w ih =>
    obtain ⟨-, h1, h2, -, h3, -, h4, -, -, h5⟩ := plainChar_iff.1 (h c (.head _))
    rw [List.cons_append, keyFrom, if_neg fun hq => hq.1.elim h1 h2, if_neg fun hq => h5 hq.1,
      if_neg (not_or.2 ⟨h3, h4⟩), ih fun d hd => h d (.tail _ hd), List.append_assoc]
    rfl

theorem keyOf_pairLine (hk : Plain k) (hv : Solid v) : keyOf (pairLine k v) = some (k, v) := by
  have htrim : trimmed (' ' :: v) = v := by
    have := hv.trimmed
    unfold trimmed trim at this ⊢
    rwa [List.dropWhile_cons_of_pos (by decide)]
  rw [keyOf, pairLine, keyFrom_plain hk.2, List.nil_append, keyFrom,
    if_neg fun hq => absurd hq.1 (by decide), if_pos ⟨rfl, .inr rfl⟩, hk.solid.trimmed, hk.unquote,
    htrim]

theorem isDash_pairLine (hk : Plain k) (v : List Char) : isDash (pairLine k v) = false := by
  have hblank : ' ' ∉ k := hk.not_mem (by decide)
  obtain ⟨c, r, rfl⟩ := List.exists_cons_of_ne_nil hk.1
  unfold isDash
  cases r with
  | nil => simp [pairLine, List.isPrefixOf]
  | cons d r =>
    have hd : d ≠ ' ' := fun h => hblank (h ▸ .tail _ (.head _))
    simp [pairLine, List.isPrefixOf, hd.symm]

end Pairs

namespace Block

variable {α : Type} {y : Values α} {E : List (List Char × List Char)}

/-- Lines with keys are read one after the other. -/
theorem map_lines {f : List Char × List Char → α} (out : α)
    (hE : ∀ e ∈ E, (Plain e.1 ∧ Solid e.2) ∧ y.inline e.2 = some (f e)) {n : Nat}
    (hn : E.length < n) :
    map y n 0 out (E.map lineOf) = some (E.foldl (fun m e => y.put m e.1 (f e)) out, []) := by
  induction E generalizing out n with
  | nil =>
    obtain ⟨m, rfl⟩ : ∃ m, n = m + 1 := ⟨n - 1, by simp at hn; omega⟩
    rfl
  | cons e E ih =>
    obtain ⟨m, rfl⟩ : ∃ m, n = m + 1 := ⟨n - 1, by omega⟩
    obtain ⟨⟨hk, hv⟩, hf⟩ := hE e (.head _)
    have hdash : (lineOf e).indent = 0 ∧ (!isDash (lineOf e).text) = true :=
      ⟨rfl, by rw [lineOf, isDash_pairLine hk]; rfl⟩
    have hkey : keyOf (lineOf e).text = some (e.1, e.2) := keyOf_pairLine hk hv
    rw [List.map_cons, map, if_pos hdash, hkey]
    dsimp only
    rw [if_pos hv.ne, hf, Option.bind_some,
      ih _ (fun e he => hE e (.tail _ he)) (Nat.lt_of_succ_lt_succ hn), List.foldl_cons]

end Block

/-! ## What is at a key -/

section At

variable {α : Type} {k k' : List Char} {E m : List (List Char × α)}

theorem find_put (m : List (List Char × α)) (k : List Char) (v : α) (k' : List Char) :
    (put m k v).find? (·.1 = k') = if k = k' then some (k, v) else m.find? (·.1 = k') := by
  unfold put
  split
  case isFalse h =>
    have hnone : k = k' → m.find? (·.1 = k') = none := by
      rintro rfl
      refine List.find?_eq_none.2 fun e he hk => h (List.any_eq_true.2 ⟨e, he, ?_⟩)
      simpa using hk
    rw [List.find?_append]
    by_cases hk : k = k'
    · rw [hnone hk, if_pos hk]
      simp [hk]
    · rw [if_neg hk]
      simp [hk]
  case isTrue h =>
    induction m with
    | nil => cases h
    | cons e m ih =>
      by_cases he : e.1 = k
      · rw [List.map_cons, if_pos he, List.find?_cons]
        by_cases hk : k = k'
        · simp [hk]
        · simp only [hk, decide_false, if_false, List.find?_cons, he]
          clear ih h
          induction m with
          | nil => rfl
          | cons e m ih =>
            rw [List.map_cons, List.find?_cons, List.find?_cons, ih]
            by_cases he : e.1 = k
            · rw [if_pos he, he]
              simp [hk]
            · rw [if_neg he]
      · have hany : m.any (·.1 == k) = true := by
          rw [List.any_cons] at h
          simpa [he] using h
        rw [List.map_cons, if_neg he, List.find?_cons, List.find?_cons, ih hany]
        by_cases hk : k = k'
        · have hek : e.1 ≠ k' := fun h => he (h.trans hk.symm)
          simp [hk, hek]
        · simp [hk]

/-- Pairs put one after the other. -/
def putAll (f : List Char × List Char → α) (E : List (List Char × List Char))
    (m : List (List Char × α)) : List (List Char × α) :=
  E.foldl (fun m e => put m e.1 (f e)) m

theorem find_putAll_of_ne {f : List Char × List Char → α} {E : List (List Char × List Char)}
    (h : ∀ e ∈ E, e.1 ≠ k) : (putAll f E m).find? (·.1 = k) = m.find? (·.1 = k) := by
  induction E generalizing m with
  | nil => rfl
  | cons e E ih =>
    rw [putAll, List.foldl_cons]
    refine (ih fun e he => h e (.tail _ he)).trans ?_
    rw [find_put, if_neg (h e (.head _))]

theorem at_putAll {f : List Char × List Char → Value} {A B : List (List Char × List Char)}
    (v : List Char) (h : ∀ e ∈ B, e.1 ≠ k) :
    (Value.map (putAll f (A ++ (k, v) :: B) [])).at k = some (f (k, v)) := by
  have hsplit : putAll f (A ++ (k, v) :: B) [] = putAll f B (put (putAll f A []) k (f (k, v))) := by
    rw [putAll, List.foldl_append, List.foldl_cons]
    rfl
  rw [Value.at, hsplit, find_putAll_of_ne h, find_put, if_pos rfl]
  rfl

end At

theorem putAll_values (n : Nat) (f : List Char × List Char → Value)
    (E : List (List Char × List Char)) (m : List (List Char × Value)) :
    E.foldl (fun m e => (values n).put m e.1 (f e)) (.map m) = .map (putAll f E m) := by
  induction E generalizing m with
  | nil => rfl
  | cons e E ih => exact ih _

/-- **A document is read** in enough rounds, with what stands behind a key at the key. -/
theorem parse_pairs {text : List Char} {E : List (List Char × List Char)}
    (hlines : lines text = E.map lineOf) (hne : E ≠ []) {f : List Char × List Char → Value} {n : Nat}
    (hE : ∀ e ∈ E, (Plain e.1 ∧ Solid e.2) ∧ inline n e.2 = some (f e)) (hn : E.length + 1 < n) :
    parse n text = some (.map (putAll f E [])) := by
  obtain ⟨m, rfl⟩ : ∃ m, n = m + 1 := ⟨n - 1, by omega⟩
  obtain ⟨e, E, rfl⟩ := List.exists_cons_of_ne_nil hne
  have hdash : ¬isDash (lineOf e).text = true := by
    rw [lineOf, isDash_pairLine (hE e (.head _)).1.1]
    exact Bool.false_ne_true
  have hmap := Block.map_lines (y := values (m + 1)) (.map []) hE (Nat.lt_of_succ_lt_succ hn)
  unfold parse
  rw [hlines]
  change (Block.node (values (m + 1)) (m + 1) 0 (lineOf e :: E.map lineOf)).map (·.1) = _
  rw [Block.node, if_neg hdash]
  change (Block.map (values (m + 1)) m 0 (.map []) ((e :: E).map lineOf)).map (·.1) = _
  rw [hmap, putAll_values]
  rfl

theorem inline_plain {w : List Char} (h : Plain w) (n : Nat) : ∃ v, inline n w = some v := by
  have hopen : ¬(w.head? = some '\x7b' ∨ w.head? = some '[') := by
    rintro (hw | hw) <;> exact h.not_mem (by decide) (List.mem_of_mem_head? hw)
  unfold inline
  rw [h.solid.trimmed, if_neg hopen]
  split
  · exact ⟨_, rfl⟩
  · exact ⟨_, rfl⟩

namespace Around

variable {k : List Char} (d : Around k) {v : List Char}

/-- The value at the key of a document in block style. -/
theorem parse_block (hv : Solid v) (hbreaks : OneLine v) (htab : '\t' ∉ v)
    (hstrip : stripComment (pairLine k v) = pairLine k v) {n : Nat} {x : Value}
    (hx : inline n (v ++ d.tail v) = some x) (hn : (d.pairs v).length + 1 < n) :
    ∃ w, parse n (d.block v) = some w ∧ w.at k = some x := by
  have hlines : Ghajar.MiniYaml.lines (d.block v) = (d.pairs v).map lineOf :=
    lines_of_join (fun e he => d.solid_pairs hv he) (by
      rw [d.lines_block_eq hbreaks htab]
      exact d.join_block hstrip)
  have hread : ∀ e ∈ d.pairs v, ∃ x, inline n e.2 = some x := by
    intro e he
    rcases List.mem_append.1 he with he | he
    · exact inline_plain (d.plain_before e he).2 n
    · rcases List.mem_cons.1 he with rfl | he
      · exact ⟨x, hx⟩
      · exact inline_plain (d.plain_after e (d.rest_subset he)).2 n
  have hE : ∀ e ∈ d.pairs v, (Plain e.1 ∧ Solid e.2) ∧
      inline n e.2 = some ((inline n e.2).getD .null) := by
    intro e he
    obtain ⟨x, hx⟩ := hread e he
    exact ⟨d.solid_pairs hv he, by rw [hx, Option.getD_some]⟩
  refine ⟨_, parse_pairs hlines (List.append_ne_nil_of_right_ne_nil _ (List.cons_ne_nil _ _)) hE hn,
    ?_⟩
  have hrest : ∀ e ∈ d.rest v, e.1 ≠ k := fun e he => d.not_after e (d.rest_subset he)
  rw [pairs, at_putAll _ hrest, hx, Option.getD_some]

end Around

end Ghajar.MiniYaml
