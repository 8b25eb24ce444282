import Ghajar.Config.YamlStrings
import Ghajar.Config.SubscriptionFetcher

/-!
# Quoted scalars

A string is written between double quotes, with four characters escaped, or between single quotes,
with its quotes doubled. Here is what the reader makes of it as the value of a key, on a line of its
own and in a flow mapping. `unquote` undoes the writing but for a tab and for a backslash before an
`n`; what is left is whether the other scanners of the reader take the quotes for quotes.
-/

namespace Ghajar.MiniYaml

open Awg SubscriptionFetcher

inductive Style where
  | double
  | single
  deriving DecidableEq

def Style.quote : Style → Char
  | .double => '"'
  | .single => '\''

def escape (c : Char) : List Char :=
  if c = '\\' then ['\\', '\\']
  else if c = '"' then ['\\', '"']
  else if c = '\n' then ['\\', 'n']
  else if c = '\t' then ['\\', 't']
  else [c]

def doubled (c : Char) : List Char := if c = '\'' then ['\'', '\''] else [c]

def Style.body : Style → List Char → List Char
  | .double, s => s.flatMap escape
  | .single, s => s.flatMap doubled

/-- `s` as a quoted scalar. -/
def written (q : Style) (s : List Char) : List Char := q.quote :: (q.body s ++ [q.quote])

/-! ## Unquoting -/

section Unquote

variable {a b new c : Char} {l s : List Char}

theorem replacePair_pair : replacePair a b new (a :: b :: l) = new :: replacePair a b new l := by
  rw [replacePair, if_pos ⟨rfl, rfl⟩]

theorem replacePair_ne (h : c ≠ a) : replacePair a b new (c :: l) = c :: replacePair a b new l := by
  cases l with
  | nil => rfl
  | cons d l => rw [replacePair, if_neg fun hc => h hc.1]

theorem replacePair_head (h : l.head? ≠ some b) :
    replacePair a b new (c :: l) = c :: replacePair a b new l := by
  cases l with
  | nil => rfl
  | cons d l => rw [replacePair, if_neg fun hc => h (congrArg some hc.2)]

theorem unquote_single (l : List Char) :
    unquote ('\'' :: (l ++ ['\''])) = replacePair '\'' '\'' '\'' l := by
  have hlast : ('\'' :: (l ++ ['\''])).getLast? = some '\'' := by
    rw [← List.cons_append, List.getLast?_concat]
  unfold unquote
  rw [if_neg (fun h => absurd h.2.1 (by simp)), if_pos ⟨by simp, rfl, hlast⟩, List.tail_cons,
    List.dropLast_concat]

theorem unquote_double (l : List Char) : unquote ('"' :: (l ++ ['"'])) =
    replacePair '\\' '\\' '\\' (replacePair '\\' '"' '"' (replacePair '\\' 'n' '\n' l)) := by
  have hlast : ('"' :: (l ++ ['"'])).getLast? = some '"' := by
    rw [← List.cons_append, List.getLast?_concat]
  unfold unquote
  rw [if_pos ⟨by simp, rfl, hlast⟩, List.tail_cons, List.dropLast_concat]

theorem unquote_written_single (s : List Char) : unquote (written .single s) = s := by
  refine (unquote_single _).trans ?_
  change replacePair '\'' '\'' '\'' (s.flatMap doubled) = s
  induction s with
  | nil => rfl
  | cons c s ih =>
    rw [List.flatMap_cons, doubled]
    split
    case isTrue h => rw [h, List.cons_append, List.cons_append, List.nil_append, replacePair_pair, ih]
    case isFalse h => rw [List.cons_append, List.nil_append, replacePair_ne h, ih]

/-- What is left to unescape after line breaks, and after quotes. -/
def escapeLess (c : Char) : List Char :=
  if c = '\\' then ['\\', '\\'] else if c = '"' then ['\\', '"'] else [c]

def escapeLeast (c : Char) : List Char := if c = '\\' then ['\\', '\\'] else [c]

theorem head_escape (s : List Char) : (s.flatMap escape).head? = some 'n' ↔ s.head? = some 'n' := by
  cases s with
  | nil => rfl
  | cons c s =>
    rw [List.flatMap_cons, escape]
    split_ifs <;> simp_all

theorem newlines_unescaped (ht : '\t' ∉ s) (hn : ¬['\\', 'n'] <:+: s) :
    replacePair '\\' 'n' '\n' (s.flatMap escape) = s.flatMap escapeLess := by
  induction s with
  | nil => rfl
  | cons c s ih =>
    have ih := ih (fun h => ht (.tail _ h)) fun h => hn (h.trans (List.suffix_cons c s).isInfix)
    have htab : c ≠ '\t' := fun h => ht (h ▸ .head _)
    rw [List.flatMap_cons, List.flatMap_cons, ← ih, escape, escapeLess]
    by_cases hc : c = '\\'
    · have hhead : s.head? ≠ some 'n' := by
        intro hs
        obtain ⟨r, rfl⟩ := List.head?_eq_some_iff.1 hs
        exact hn (hc ▸ (List.prefix_append ['\\', 'n'] r).isInfix)
      rw [if_pos hc, if_pos hc]
      simp only [List.cons_append, List.nil_append]
      rw [replacePair_head (by simp), replacePair_head (mt (head_escape s).1 hhead)]
    · rw [if_neg hc, if_neg hc]
      by_cases hq : c = '"'
      · rw [if_pos hq, if_pos hq]
        simp only [List.cons_append, List.nil_append]
        rw [replacePair_head (by simp), replacePair_ne (by decide)]
      · rw [if_neg hq, if_neg hq]
        by_cases hl : c = '\n'
        · rw [if_pos hl, hl]
          exact replacePair_pair
        · rw [if_neg hl, if_neg htab]
          exact replacePair_ne hc

theorem quotes_unescaped (s : List Char) :
    replacePair '\\' '"' '"' (s.flatMap escapeLess) = s.flatMap escapeLeast := by
  induction s with
  | nil => rfl
  | cons c s ih =>
    rw [List.flatMap_cons, List.flatMap_cons, ← ih, escapeLess, escapeLeast]
    by_cases hc : c = '\\'
    · have hhead : (s.flatMap escapeLess).head? ≠ some '"' := by
        cases s with
        | nil => simp
        | cons d s =>
          rw [List.flatMap_cons, escapeLess]
          split_ifs <;> simp_all
      rw [if_pos hc, if_pos hc]
      simp only [List.cons_append, List.nil_append]
      rw [replacePair_head (by simp), replacePair_head hhead]
    · rw [if_neg hc, if_neg hc]
      by_cases hq : c = '"'
      · rw [if_pos hq, hq]
        exact replacePair_pair
      · rw [if_neg hq]
        exact replacePair_ne hc

theorem backslashes_unescaped (s : List Char) :
    replacePair '\\' '\\' '\\' (s.flatMap escapeLeast) = s := by
  induction s with
  | nil => rfl
  | cons c s ih =>
    rw [List.flatMap_cons, escapeLeast]
    split
    case isTrue h => rw [h, List.cons_append, List.cons_append, List.nil_append, replacePair_pair, ih]
    case isFalse h => rw [List.cons_append, List.nil_append, replacePair_ne h, ih]

theorem unquote_written_double (ht : '\t' ∉ s) (hn : ¬['\\', 'n'] <:+: s) :
    unquote (written .double s) = s := by
  refine (unquote_double _).trans ?_
  change replacePair _ _ _ (replacePair _ _ _ (replacePair _ _ _ (s.flatMap escape))) = s
  rw [newlines_unescaped ht hn, quotes_unescaped, backslashes_unescaped]

/-! A backslash before an `n` becomes one line break more. -/

theorem count_replacePair {d : Char} (ha : d ≠ a) (hb : d ≠ b) (hnew : d ≠ new) (l : List Char) :
    (replacePair a b new l).count d = l.count d := by
  fun_induction replacePair a b new l with
  | case1 c e r h ih =>
    rw [List.count_cons_of_ne hnew.symm, ih, List.count_cons_of_ne (h.1 ▸ ha.symm),
      List.count_cons_of_ne (h.2 ▸ hb.symm)]
  | case2 c e r h ih => rw [List.count_cons, ih, List.count_cons (a := d) (b := c)]
  | case3 l h => rfl

def newlines (l : List Char) : Nat := (replacePair '\\' 'n' '\n' l).count '\n'

theorem newlines_backslash (l : List Char) : newlines ('\\' :: l) =
    if l.head? = some 'n' then 1 + newlines l else newlines l := by
  unfold newlines
  split
  case isTrue h =>
    obtain ⟨r, rfl⟩ := List.head?_eq_some_iff.1 h
    rw [replacePair_pair, replacePair_ne (by decide), List.count_cons_self,
      List.count_cons_of_ne (by decide), Nat.add_comm]
  case isFalse h => rw [replacePair_head h, List.count_cons_of_ne (by decide)]

theorem newlines_cons (h : c ≠ '\\') : newlines (c :: l) =
    newlines l + if c = '\n' then 1 else 0 := by
  unfold newlines
  rw [replacePair_ne h, List.count_cons]
  simp [beq_iff_eq]

theorem newlines_escape (htab : c ≠ '\t') (s : List Char) :
    newlines ((c :: s).flatMap escape) = newlines (s.flatMap escape) +
      if c = '\n' ∨ c = '\\' ∧ s.head? = some 'n' then 1 else 0 := by
  rw [List.flatMap_cons, escape]
  by_cases hc : c = '\\'
  · subst hc
    rw [if_pos rfl, List.cons_append, List.cons_append, List.nil_append, newlines_backslash,
      if_neg (by simp), newlines_backslash]
    by_cases hs : s.head? = some 'n'
    · rw [if_pos ((head_escape s).2 hs), if_pos (.inr ⟨rfl, hs⟩), Nat.add_comm]
    · rw [if_neg (mt (head_escape s).1 hs), if_neg (by simp [hs]), Nat.add_zero]
  · rw [if_neg hc]
    by_cases hq : c = '"'
    · subst hq
      rw [if_pos rfl, List.cons_append, List.cons_append, List.nil_append, newlines_backslash,
        if_neg (by simp), newlines_cons (by decide), if_neg (by decide), if_neg (by simp)]
    · rw [if_neg hq]
      by_cases hl : c = '\n'
      · subst hl
        rw [if_pos rfl, List.cons_append, List.cons_append, List.nil_append, newlines_backslash,
          if_pos List.head?_cons, newlines_cons (by decide), if_neg (by decide), if_pos (.inl rfl),
          Nat.add_comm, Nat.add_zero]
      · rw [if_neg hl, if_neg htab, List.cons_append, List.nil_append, newlines_cons hc, if_neg hl,
          if_neg (by simp [hl, hc])]

theorem count_le_newlines (ht : '\t' ∉ s) : s.count '\n' ≤ newlines (s.flatMap escape) ∧
    (['\\', 'n'] <:+: s → s.count '\n' < newlines (s.flatMap escape)) := by
  induction s with
  | nil => exact ⟨Nat.zero_le _, fun h => absurd h.length_le (by decide)⟩
  | cons c s ih =>
    obtain ⟨hle, hlt⟩ := ih fun h => ht (.tail _ h)
    have hstep := newlines_escape (fun h => ht (h ▸ .head _) : c ≠ '\t') s
    rw [hstep, List.count_cons]
    simp only [beq_iff_eq]
    constructor
    · split_ifs <;> simp_all
      omega
    · intro hinfix
      rcases List.infix_cons_iff.1 hinfix with hpre | hinfix
      · obtain ⟨rfl, hn⟩ := List.cons_prefix_cons.1 hpre
        have hhead : s.head? = some 'n' := by
          obtain ⟨r, rfl⟩ := hn
          rfl
        rw [if_neg (by decide), if_pos (.inr ⟨rfl, hhead⟩)]
        omega
      · have := hlt hinfix
        split_ifs <;> simp_all

theorem unquote_written_ne (ht : '\t' ∉ s) (hn : ['\\', 'n'] <:+: s) :
    unquote (written .double s) ≠ s := by
  intro h
  have hlt := (count_le_newlines ht).2 hn
  have hcount := congrArg (List.count '\n') ((unquote_double (s.flatMap escape)).symm.trans h)
  rw [count_replacePair (by decide) (by decide) (by decide),
    count_replacePair (by decide) (by decide) (by decide)] at hcount
  exact absurd hcount (Nat.ne_of_gt hlt)

end Unquote

/-! ## The scanners of a line -/

section Scan

variable {c : Char} {l : List Char} {last : Option Char}

/-- Neither a quote nor the beginning of a comment. -/
def Calm (l : List Char) : Prop := ∀ c ∈ l, c ≠ '"' ∧ c ≠ '\'' ∧ c ≠ '#'

theorem calm_append {l m : List Char} (hl : Calm l) (hm : Calm m) : Calm (l ++ m) :=
  fun c hc => (List.mem_append.1 hc).elim (hl c) (hm c)

theorem Calm.tail (h : Calm (c :: l)) : Calm l := fun d hd => h d (.tail _ hd)

theorem quoted_calm (h : c ≠ '"' ∧ c ≠ '\'' ∧ c ≠ '#') : quoted none c = none := by
  rw [quoted, if_neg (not_or.2 ⟨h.1, h.2.1⟩)]

theorem uncommented_calm (h : Calm l) (last : Option Char) (r : List Char) :
    uncommented none last (l ++ r) = l ++ uncommented none (l.getLast?.or last) r := by
  induction l generalizing last with
  | nil => rfl
  | cons c l ih =>
    have hc := h c (.head _)
    rw [List.cons_append, uncommented, if_neg (fun hn => hc.2.2 hn.2.1), quoted_calm hc,
      ih h.tail, List.cons_append]
    congr 3
    rw [List.getLast?_cons, Option.some_or]
    cases l.getLast? <;> rfl

theorem uncommented_of_calm (h : Calm l) (last : Option Char) : uncommented none last l = l := by
  have := uncommented_calm h last []
  rwa [List.append_nil, uncommented, List.append_nil] at this

theorem balance_calm (h : Calm l) (r : List Char) :
    balanceFrom none (l ++ r) = (l.map depthOf).sum + balanceFrom none r := by
  induction l with
  | nil => simp
  | cons c l ih =>
    rw [List.cons_append, balanceFrom, if_pos rfl, quoted_calm (h c (.head _)), ih h.tail,
      List.map_cons, List.sum_cons, Int.add_assoc]

/-- Between single quotes nothing is seen, as a doubled quote opens what it closes. -/
theorem uncommented_single (s r : List Char) (last : Option Char) :
    uncommented (some '\'') last (Style.single.body s ++ '\'' :: r) =
      Style.single.body s ++ '\'' :: uncommented none (some '\'') r := by
  change uncommented _ _ (s.flatMap doubled ++ _) = s.flatMap doubled ++ _
  induction s generalizing last with
  | nil => rfl
  | cons c s ih =>
    rw [List.flatMap_cons, doubled]
    by_cases hc : c = '\''
    · subst hc
      rw [if_pos rfl]
      simp only [List.cons_append, List.nil_append]
      rw [uncommented, if_neg (fun h => absurd h.1 (by simp)), quoted, if_pos rfl, uncommented,
        if_neg (fun h => absurd h.2.1 (by decide)), quoted, if_pos (.inr rfl), ih]
    · rw [if_neg hc]
      simp only [List.cons_append, List.nil_append]
      rw [uncommented, if_neg (fun h => absurd h.1 (by simp)), quoted, if_neg hc, ih]

theorem balance_single (s r : List Char) :
    balanceFrom (some '\'') (Style.single.body s ++ '\'' :: r) = balanceFrom none r := by
  change balanceFrom _ (s.flatMap doubled ++ _) = _
  induction s with
  | nil =>
    rw [List.flatMap_nil, List.nil_append, balanceFrom, if_neg (by decide), quoted, if_pos rfl,
      Int.zero_add]
  | cons c s ih =>
    rw [List.flatMap_cons, doubled]
    by_cases hc : c = '\''
    · subst hc
      rw [if_pos rfl]
      simp only [List.cons_append, List.nil_append]
      rw [balanceFrom, if_neg (by decide), quoted, if_pos rfl, balanceFrom, if_pos rfl, quoted,
        if_pos (.inr rfl), ih, Int.zero_add]
      exact Int.zero_add _
    · rw [if_neg hc]
      simp only [List.cons_append, List.nil_append]
      rw [balanceFrom, if_neg (by decide), quoted, if_neg hc, ih, Int.zero_add]

/-! A scanner goes through an escaped text as through the text: at an escaped quote as well. -/

/-- What a scanner has open: nothing, or a quote. -/
def IsQuote (q : Option Char) : Prop := q = none ∨ q = some '"' ∨ q = some '\''

theorem isQuote_quoted {q : Option Char} (hq : IsQuote q) (c : Char) : IsQuote (quoted q c) := by
  have hnone : IsQuote (quoted none c) := by
    rw [quoted]
    split
    case isTrue h => exact .inr (h.imp (congrArg some) (congrArg some))
    case isFalse => exact .inl rfl
  have hsome {d : Char} (hd : IsQuote (some d)) : IsQuote (quoted (some d) c) := by
    rw [quoted]
    split
    · exact .inl rfl
    · exact hd
  rcases hq with rfl | rfl | rfl
  · exact hnone
  · exact hsome (.inr (.inl rfl))
  · exact hsome (.inr (.inr rfl))

theorem quoted_other {q : Option Char} (hq : IsQuote q) (h : c ≠ '"') (h' : c ≠ '\'') :
    quoted q c = q := by
  rcases hq with rfl | rfl | rfl
  · exact if_neg (not_or.2 ⟨h, h'⟩)
  · exact if_neg h
  · exact if_neg h'

theorem isQuote_foldl {q : Option Char} (hq : IsQuote q) (s : List Char) :
    IsQuote (s.foldl quoted q) := by
  induction s generalizing q with
  | nil => exact hq
  | cons c s ih => exact ih (isQuote_quoted hq c)

/-- `s` has a `#` behind a blank where the scanner, with `q` open and behind `before`, is outside of
quotes. -/
def Shows (q : Option Char) (before : Char) : List Char → Prop
  | [] => False
  | c :: s => q = none ∧ c = '#' ∧ before = ' ' ∨ Shows (quoted q c) c s

/-- The same, said without the scanner's steps. -/
def Comments (s : List Char) : Prop :=
  ∃ p r, s = p ++ ' ' :: '#' :: r ∧ p.foldl quoted (some '"') = none

theorem shows_iff {q : Option Char} (hq : IsQuote q) (before : Char) (s : List Char) :
    Shows q before s ↔ q = none ∧ before = ' ' ∧ s.head? = some '#' ∨
      ∃ p r, s = p ++ ' ' :: '#' :: r ∧ p.foldl quoted q = none := by
  induction s generalizing q before with
  | nil =>
    refine ⟨False.elim, ?_⟩
    rintro (⟨-, -, h⟩ | ⟨p, r, h, -⟩)
    · cases h
    · simp at h
  | cons c s ih =>
    rw [Shows, ih (isQuote_quoted hq c), List.head?_cons, Option.some.injEq]
    constructor
    · rintro (⟨hn, hc, hb⟩ | ⟨hn, rfl, hs⟩ | ⟨p, r, rfl, hp⟩)
      · exact .inl ⟨hn, hb, hc⟩
      · obtain ⟨r, rfl⟩ := List.head?_eq_some_iff.1 hs
        rw [quoted_other hq (by decide) (by decide)] at hn
        exact .inr ⟨[], r, rfl, hn⟩
      · exact .inr ⟨c :: p, r, rfl, hp⟩
    · rintro (⟨hn, hb, hc⟩ | ⟨p, r, hs, hp⟩)
      · exact .inl ⟨hn, hc, hb⟩
      · cases p with
        | nil =>
          obtain ⟨rfl, rfl⟩ := List.cons.inj hs
          exact .inr (.inl ⟨(quoted_other hq (by decide) (by decide)).trans hp, rfl, rfl⟩)
        | cons d p =>
          obtain ⟨rfl, rfl⟩ := List.cons.inj hs
          exact .inr (.inr ⟨p, r, rfl, hp⟩)

theorem shows_iff_comments (s : List Char) : Shows (some '"') '"' s ↔ Comments s := by
  rw [shows_iff (.inr (.inl rfl))]
  refine ⟨?_, .inr⟩
  rintro (⟨h, -⟩ | h)
  · cases h
  · exact h

theorem uncommented_step {q : Option Char} (h : ¬(q = none ∧ c = '#' ∧ last.getD ' ' = ' '))
    (r : List Char) : uncommented q last (c :: r) = c :: uncommented (quoted q c) (some c) r := by
  rw [uncommented, if_neg h]

/-- An escaped character is one step of the scanner. -/
theorem uncommented_escape {q : Option Char} (hq : IsQuote q) (r : List Char)
    (h : ¬(q = none ∧ c = '#' ∧ last.getD ' ' = ' ')) :
    ∃ d, ((some d).getD ' ' = ' ' ↔ c = ' ') ∧
      uncommented q last (escape c ++ r) = escape c ++ uncommented (quoted q c) (some d) r := by
  have hpair {d e : Char} (hd : d = '\\') (he : e ≠ '#') :
      uncommented q last (d :: e :: r) = d :: e :: uncommented (quoted q e) (some e) r := by
    subst hd
    rw [uncommented_step (fun h => absurd h.2.1 (by decide)),
      quoted_other hq (by decide) (by decide), uncommented_step fun h => he h.2.1]
  unfold escape
  by_cases hc : c = '\\'
  · rw [if_pos hc, hc]
    exact ⟨_, Iff.rfl, hpair rfl (by decide)⟩
  rw [if_neg hc]
  by_cases hc : c = '"'
  · rw [if_pos hc, hc]
    exact ⟨_, Iff.rfl, hpair rfl (by decide)⟩
  rw [if_neg hc]
  by_cases hc : c = '\n'
  · rw [if_pos hc, hc]
    refine ⟨'n', by decide, (hpair rfl (by decide)).trans ?_⟩
    rw [quoted_other hq (by decide) (by decide), quoted_other hq (by decide) (by decide)]
    rfl
  rw [if_neg hc]
  by_cases hc : c = '\t'
  · rw [if_pos hc, hc]
    refine ⟨'t', by decide, (hpair rfl (by decide)).trans ?_⟩
    rw [quoted_other hq (by decide) (by decide), quoted_other hq (by decide) (by decide)]
    rfl
  rw [if_neg hc]
  exact ⟨c, Iff.rfl, uncommented_step h r⟩

theorem uncommented_double {q : Option Char} (hq : IsQuote q) {before : Char}
    (hlast : last.getD ' ' = ' ' ↔ before = ' ') (s r : List Char) (h : ¬Shows q before s) :
    uncommented q last (s.flatMap escape ++ '"' :: r) =
      s.flatMap escape ++ '"' :: uncommented (quoted (s.foldl quoted q) '"') (some '"') r := by
  induction s generalizing q last before with
  | nil => exact uncommented_step (fun h => absurd h.2.1 (by decide)) r
  | cons c s ih =>
    obtain ⟨hc, hs⟩ := not_or.1 h
    rw [List.flatMap_cons, List.append_assoc, List.append_assoc]
    obtain ⟨d, hd, heq⟩ := uncommented_escape hq (s.flatMap escape ++ '"' :: r)
      (fun h => hc ⟨h.1, h.2.1, hlast.1 h.2.2⟩)
    rw [heq, ih (isQuote_quoted hq c) hd hs]
    rfl

theorem uncommented_double_ne {q : Option Char} (hq : IsQuote q) {before : Char}
    (hlast : last.getD ' ' = ' ' ↔ before = ' ') (s r : List Char) (h : Shows q before s) :
    uncommented q last (s.flatMap escape ++ r) ≠ s.flatMap escape ++ r := by
  induction s generalizing q last before with
  | nil => exact h.elim
  | cons c s ih =>
    rw [List.flatMap_cons, List.append_assoc]
    by_cases hc : q = none ∧ c = '#' ∧ last.getD ' ' = ' '
    · obtain ⟨rfl, rfl, hl⟩ := hc
      have hcut : uncommented none last (escape '#' ++ (s.flatMap escape ++ r)) = [] := by
        change uncommented none last ('#' :: _) = []
        rw [uncommented, if_pos ⟨rfl, rfl, hl⟩]
      rw [hcut]
      exact (List.cons_ne_nil '#' _).symm
    · obtain ⟨d, hd, heq⟩ := uncommented_escape hq (s.flatMap escape ++ r) hc
      rw [heq]
      have hs := h.resolve_left fun h => hc ⟨h.1, h.2.1, hlast.2 h.2.2⟩
      exact fun h => ih (isQuote_quoted hq c) hd hs (List.append_cancel_left h)

/-- A comment takes its `#` along. -/
theorem uncommented_eq_or (q last : Option Char) (l : List Char) :
    uncommented q last l = l ∨ (uncommented q last l).count '#' < l.count '#' := by
  induction l generalizing q last with
  | nil => exact .inl rfl
  | cons c l ih =>
    rw [uncommented]
    split
    case isTrue h =>
      rw [h.2.1, List.count_cons_self]
      exact .inr (Nat.zero_lt_succ _)
    case isFalse =>
      rcases ih (quoted q c) (some c) with heq | hlt
      · exact .inl (congrArg _ heq)
      · rw [List.count_cons, List.count_cons (a := '#') (b := c)]
        exact .inr (Nat.add_lt_add_right hlt _)

theorem balanceFrom_append (q : Option Char) (l r : List Char) :
    balanceFrom q (l ++ r) = balanceFrom q l + balanceFrom (l.foldl quoted q) r := by
  induction l generalizing q with
  | nil => exact (Int.zero_add _).symm
  | cons c l ih => rw [List.cons_append, balanceFrom, balanceFrom, ih, List.foldl_cons, Int.add_assoc]

theorem balance_step {q : Option Char} (h : depthOf c = 0) (r : List Char) :
    balanceFrom q (c :: r) = balanceFrom (quoted q c) r := by
  rw [balanceFrom, h, ite_self, Int.zero_add]

theorem balance_double {q : Option Char} (hq : IsQuote q) (s r : List Char) :
    balanceFrom q (s.flatMap escape ++ r) = balanceFrom q (s ++ r) := by
  induction s generalizing q with
  | nil => rfl
  | cons c s ih =>
    have hbackslash (d : Char) (hd : depthOf d = 0) (t : List Char) :
        balanceFrom q ('\\' :: d :: t) = balanceFrom (quoted q d) t := by
      rw [balance_step rfl, quoted_other hq (by decide) (by decide), balance_step hd]
    rw [List.flatMap_cons, List.append_assoc, escape, List.cons_append (a := c)]
    by_cases hc : c = '\\'
    · rw [if_pos hc, hc]
      exact (hbackslash _ rfl _).trans ((ih (isQuote_quoted hq _)).trans (balance_step rfl _).symm)
    rw [if_neg hc]
    by_cases hc : c = '"'
    · rw [if_pos hc, hc]
      exact (hbackslash _ rfl _).trans ((ih (isQuote_quoted hq _)).trans (balance_step rfl _).symm)
    rw [if_neg hc]
    by_cases hc : c = '\n'
    · rw [if_pos hc, hc, balance_step rfl, quoted_other hq (by decide) (by decide), ← ih hq]
      refine (hbackslash 'n' rfl _).trans ?_
      rw [quoted_other hq (by decide) (by decide)]
      rfl
    rw [if_neg hc]
    by_cases hc : c = '\t'
    · rw [if_pos hc, hc, balance_step rfl, quoted_other hq (by decide) (by decide), ← ih hq]
      refine (hbackslash 't' rfl _).trans ?_
      rw [quoted_other hq (by decide) (by decide)]
      rfl
    rw [if_neg hc]
    change balanceFrom q (c :: (s.flatMap escape ++ r)) = _
    rw [balanceFrom, balanceFrom, ih (isQuote_quoted hq c)]

end Scan

end Ghajar.MiniYaml
