import Ghajar.Config.MiniYaml
import Ghajar.Lib.Rounds

/-!
# When the YAML reader ends

The parser by indentation always ends: each turn of its loops takes a line, or the dash of one. The
parser of flow collections does not where a loop comes to the closing bracket of the other kind,
which no scalar takes. `wrong` looks for such a bracket with the brackets that are open on a stack;
`parse_ends_iff` says that the reader ends exactly where none is found.
-/

namespace Ghajar.MiniYaml

open Rounds

namespace Flow

inductive Bracket where
  | brace
  | bracket
  deriving DecidableEq

def Bracket.close : Bracket → Char
  | .brace => '\x7d'
  | .bracket => ']'

def Bracket.other : Bracket → Bracket
  | .brace => .bracket
  | .bracket => .brace

/-- Where the value of an item may stand: in braces behind its key. -/
def item : Bracket → List Char → List Char
  | .brace, t => skipColon (scalar true t).2
  | .bracket, t => ws t

theorem item_brace (t : List Char) : item .brace t = skipColon (scalar true t).2 := rfl

theorem item_bracket (t : List Char) : item .bracket t = ws t := rfl

/-! ## What is left -/

section Length

variable {t r : List Char} {c d : Char} {stop : Bool}

theorem ws_length (t : List Char) : (ws t).length ≤ t.length :=
  (List.dropWhile_sublist _).length_le

theorem ws_ws (t : List Char) : ws (ws t) = ws t := List.dropWhile_idempotent _ _

theorem ws_head (h : ws t = c :: r) : c ≠ ' ' := by
  have := List.head?_dropWhile_not (· = ' ') t
  rw [show t.dropWhile (· = ' ') = c :: r from h] at this
  simpa using this

theorem ws_cons (h : c ≠ ' ') : ws (c :: r) = c :: r := by
  rw [ws, List.dropWhile_cons_of_neg]
  simpa using h

theorem skipColon_length (t : List Char) : (skipColon t).length ≤ t.length := by
  unfold skipColon
  have h := ws_length t
  split
  · have h' := ws_length (ws t).tail
    rw [List.length_tail] at h'
    omega
  · exact h

theorem next_length (t : List Char) : (next t).length ≤ t.length := by
  unfold next
  have h := ws_length t
  split
  · have h' := ws_length (ws t).tail
    rw [List.length_tail] at h'
    omega
  · exact h

theorem quotedBody_length (q : Char) (t : List Char) : (quotedBody q t).2.length ≤ t.length := by
  fun_induction quotedBody q t <;> simp only [List.length_cons, List.length_nil] at * <;> omega

theorem plain_length (stop : Bool) (t : List Char) : (plain stop t).2.length ≤ t.length := by
  fun_induction plain stop t <;> simp only [List.length_cons, List.length_nil] at * <;> omega

theorem scalar_length (stop : Bool) (t : List Char) : (scalar stop t).2.length ≤ t.length := by
  have h := ws_length t
  unfold scalar
  split
  · exact Nat.zero_le _
  · rename_i c r hws
    rw [hws] at h
    split
    · have hq := quotedBody_length c r
      simp only [List.length_tail]
      rw [List.length_cons] at h
      omega
    · exact (plain_length stop (c :: r)).trans h

theorem scalar_stops (hs : c ≠ ' ') (h : stops stop c r) : scalar stop (c :: r) = ([], c :: r) := by
  have hq : ¬(c = '"' ∨ c = '\'') := by
    rcases h with rfl | rfl | rfl | ⟨-, rfl, -⟩ <;> decide
  unfold scalar
  rw [ws_cons hs]
  dsimp only
  rw [if_neg hq, plain, if_pos h]
  rfl

theorem scalar_lt (h : ¬stops stop c r) (hs : c ≠ ' ') :
    (scalar stop (c :: r)).2.length < (c :: r).length := by
  unfold scalar
  rw [ws_cons hs]
  dsimp only
  split
  · have hq := quotedBody_length c r
    simp only [List.length_tail, List.length_cons]
    omega
  · rw [plain, if_neg h]
    exact Nat.lt_succ_of_le (plain_length stop r)

theorem next_comma (r : List Char) : next (',' :: r) = ws r := by
  unfold next
  rw [ws_cons (by decide)]
  rfl

theorem next_cons (hs : c ≠ ' ') (hc : c ≠ ',') : next (c :: r) = c :: r := by
  unfold next
  rw [ws_cons hs, if_neg (by simpa using hc)]

theorem skipColon_cons (hs : c ≠ ' ') (hc : c ≠ ':') : skipColon (c :: r) = c :: r := by
  unfold skipColon
  rw [ws_cons hs, if_neg (by simpa using hc)]

theorem skipColon_colon (r : List Char) : skipColon (':' :: r) = ws r := by
  unfold skipColon
  rw [ws_cons (by decide)]
  rfl

theorem item_comma (b : Bracket) (r : List Char) : item b (',' :: r) = ',' :: r := by
  cases b with
  | brace =>
    rw [item, scalar_stops (by decide) (.inl rfl), skipColon_cons (by decide) (by decide)]
  | bracket => exact ws_cons (by decide)

/-- A key or its colon takes something. -/
theorem item_lt (hs : c ≠ ' ') (hc : c ≠ ',') (hbrace : c ≠ '\x7d') (hbracket : c ≠ ']') :
    (item .brace (c :: r)).length < (c :: r).length := by
  change (skipColon (scalar true (c :: r)).2).length < _
  by_cases h : stops true c r
  · obtain rfl : c = ':' := by
      rcases h with h | h | h | h
      · exact absurd h hc
      · exact absurd h hbrace
      · exact absurd h hbracket
      · exact h.2.1
    rw [scalar_stops hs h, skipColon_colon]
    exact Nat.lt_succ_of_le (ws_length r)
  · exact (skipColon_length _).trans_lt (scalar_lt h hs)

theorem item_length (b : Bracket) (t : List Char) : (item b t).length ≤ t.length := by
  cases b with
  | brace => exact (skipColon_length _).trans (scalar_length true t)
  | bracket => exact ws_length t

theorem item_head {b : Bracket} {d : Char} (h : item b t = d :: r) : d ≠ ' ' := by
  cases b with
  | brace =>
    change skipColon (scalar true t).2 = d :: r at h
    unfold skipColon at h
    split at h
    · exact ws_head h
    · exact ws_head h
  | bracket => exact ws_head h

/-- Each turn takes something: the comma behind an item, the key before it or the item itself. -/
theorem item_turn {b : Bracket} {d : Char} {t : List Char} (hs : c ≠ ' ') (hclose : c ≠ b.close)
    (hother : c ≠ b.other.close) (h : item b (c :: r) = d :: t) :
    t.length < (c :: r).length ∧ (next (d :: t)).length < (c :: r).length ∨
      b = .bracket ∧ d = c ∧ t = r ∧ c ≠ ',' := by
  have hlen := item_length b (c :: r)
  rw [h, List.length_cons] at hlen
  have hbrace : c ≠ '\x7d' := by cases b <;> assumption
  have hbracket : c ≠ ']' := by cases b <;> assumption
  by_cases hcomma : c = ','
  · subst hcomma
    rw [item_comma] at h
    cases h
    rw [next_comma]
    exact .inl ⟨Nat.lt_succ_self _, Nat.lt_succ_of_le (ws_length _)⟩
  · cases b with
    | brace =>
      have hlt := item_lt (r := r) hs hcomma hbrace hbracket
      rw [h] at hlt
      exact .inl ⟨(Nat.lt_succ_self _).trans hlt, (next_length _).trans_lt hlt⟩
    | bracket =>
      rw [item, ws_cons hs] at h
      cases h
      exact .inr ⟨rfl, rfl, rfl, hcomma⟩

end Length

/-! ## Brackets -/

/-- Whether one comes to a closing bracket of the other kind, at an item of the brackets that are
open, the innermost first. -/
def wrong : List Bracket → List Char → Bool
  | [], _ => false
  | b :: k, t =>
    match hws : ws t with
    | [] => false
    | c :: r =>
      if hclose : c = b.close then wrong k (next r)
      else if hother : c = b.other.close then true
      else
        match hitem : item b (c :: r) with
        | [] => false
        | d :: t' =>
          if d = ',' ∨ d = b.close then wrong (b :: k) (next (d :: t'))
          else if d = '\x7b' then wrong (.brace :: b :: k) (ws t')
          else if d = '[' then wrong (.bracket :: b :: k) (ws t')
          else wrong (b :: k) (next (scalar false (d :: t')).2)
termination_by _ t => t.length
decreasing_by
  all_goals
    have hlen := ws_length t
    rw [hws] at hlen
  · have := next_length r
    rw [List.length_cons] at hlen
    omega
  · rcases item_turn (ws_head hws) hclose hother hitem with ⟨-, hlt⟩ | ⟨rfl, rfl, rfl, hc⟩
    · omega
    · exact absurd ‹_› (not_or.2 ⟨hc, hclose⟩)
  · have := ws_length t'
    rcases item_turn (ws_head hws) hclose hother hitem with ⟨hlt, -⟩ | ⟨rfl, rfl, rfl, -⟩
    · omega
    · rw [List.length_cons] at hlen
      omega
  · have := ws_length t'
    rcases item_turn (ws_head hws) hclose hother hitem with ⟨hlt, -⟩ | ⟨rfl, rfl, rfl, -⟩
    · omega
    · rw [List.length_cons] at hlen
      omega
  · have := next_length (scalar false (d :: t')).2
    have hd := not_or.1 ‹¬(d = ',' ∨ d = b.close)›
    rcases item_turn (ws_head hws) hclose hother hitem with ⟨-, hlt⟩ | ⟨rfl, rfl, rfl, hc⟩
    · have := scalar_length false (d :: t')
      rw [next_cons (item_head hitem) hd.1] at hlt
      omega
    · have hstops : ¬stops false d t' := by
        rintro (h | h | h | h)
        exacts [hc h, hother h, hclose h, nomatch h.1]
      have := scalar_lt hstops (ws_head hws)
      omega

section Wrong

variable {b : Bracket} {k : List Bracket} {t r t' : List Char} {c d : Char}

theorem wrong_nil (t : List Char) : wrong [] t = false := by rw [wrong]

theorem wrong_end (h : ws t = []) : wrong (b :: k) t = false := by
  rw [wrong]
  split
  · rfl
  · rw [h] at *
    contradiction

theorem wrong_cons (h : ws t = c :: r) : wrong (b :: k) t =
    if c = b.close then wrong k (next r)
    else if c = b.other.close then true
    else match item b (c :: r) with
      | [] => false
      | d :: t' =>
        if d = ',' ∨ d = b.close then wrong (b :: k) (next (d :: t'))
        else if d = '\x7b' then wrong (.brace :: b :: k) (ws t')
        else if d = '[' then wrong (.bracket :: b :: k) (ws t')
        else wrong (b :: k) (next (scalar false (d :: t')).2) := by
  rw [wrong]
  split
  · rw [h] at *
    contradiction
  · rename_i hws
    rw [h] at hws
    cases hws
    by_cases hclose : c = b.close
    · rw [dif_pos hclose, if_pos hclose]
    · rw [dif_neg hclose, if_neg hclose]
      by_cases hother : c = b.other.close
      · rw [dif_pos hother, if_pos hother]
      · rw [dif_neg hother, if_neg hother]
        split <;> simp_all

end Wrong

theorem wrong_ws (k : List Bracket) (t : List Char) : wrong k (ws t) = wrong k t := by
  cases k with
  | nil => rw [wrong_nil, wrong_nil]
  | cons b k =>
    cases h : ws t with
    | nil => rw [wrong_end h, wrong_end rfl]
    | cons c r => rw [wrong_cons h, wrong_cons (ws_cons (ws_head h))]

/-! ## Loops -/

section Loops

variable {b : Bracket} {t r r' t' : List Char} {c d : Char}

def Ends : Bracket → List Char → List Char → Prop
  | .brace, t, r => Leaves (fun n m => braces n m t) r
  | .bracket, t, r => Leaves (fun n l => brackets n l t) r

def Sticks : Bracket → List Char → Prop
  | .brace, t => Never fun n m => braces n m t
  | .bracket, t => Never fun n l => brackets n l t

/-- The value at `t` ends at `r`. -/
abbrev Reads (t r : List Char) : Prop := Leaves (fun n (_ : Unit) => value n t) r

abbrev Hangs (t : List Char) : Prop := Never fun n (_ : Unit) => value n t

theorem reads_end (h : ws t = []) : Reads t [] where
  only {n _ v r'} hv := by
    cases n with
    | zero => cases hv
    | succ n =>
      simp only [value, h] at hv
      cases hv
      rfl
  enough := ⟨1, fun m hm _ => by
    obtain ⟨m, rfl⟩ : ∃ k, m = k + 1 := ⟨m - 1, by omega⟩
    exact ⟨.null, by simp only [value, h]⟩⟩

theorem reads_scalar (h : ws t = c :: r) (hbrace : c ≠ '\x7b') (hbracket : c ≠ '[') :
    Reads t (scalar false (c :: r)).2 where
  only {n _ v r'} hv := by
    cases n with
    | zero => cases hv
    | succ n =>
      simp only [value, h, if_neg hbrace, if_neg hbracket] at hv
      cases hv
      rfl
  enough := ⟨1, fun m hm _ => by
    obtain ⟨m, rfl⟩ : ∃ k, m = k + 1 := ⟨m - 1, by omega⟩
    simp only [value, h, if_neg hbrace, if_neg hbracket]
    exact ⟨_, rfl⟩⟩

/-- A collection is read by its loop. -/
def Bracket.opening : Bracket → Char
  | .brace => '\x7b'
  | .bracket => '['

theorem reads_open (h : ws t = b.opening :: r) (he : Ends b (ws r) r') : Reads t r' := by
  cases b with
  | brace =>
    exact Leaves.goesOn (u := fun _ => []) (fun _ => rfl)
      (fun n _ => by rw [value, h]; exact if_pos rfl) he
  | bracket =>
    exact Leaves.goesOn (u := fun _ => []) (fun _ => rfl)
      (fun n _ => by rw [value, h]; exact (if_neg (by decide)).trans (if_pos rfl)) he

theorem hangs_open (h : ws t = b.opening :: r) (he : Sticks b (ws r)) : Hangs t := by
  cases b with
  | brace =>
    exact Never.goesOn (u := fun _ => []) (fun _ => rfl)
      (fun n _ => by rw [value, h]; exact if_pos rfl) he
  | bracket =>
    exact Never.goesOn (u := fun _ => []) (fun _ => rfl)
      (fun n _ => by rw [value, h]; exact (if_neg (by decide)).trans (if_pos rfl)) he

theorem value_ws (n : Nat) (t : List Char) : value n (ws t) = value n t := by
  cases n with
  | zero => rfl
  | succ n => rw [value, value, ws_ws]

/-- The turn of a loop at an item that has a value. -/
theorem braces_turn (hc : c ≠ '\x7d')
    (hv : ¬((item .brace (c :: r)).head? = some ',' ∨ (item .brace (c :: r)).head? = some '\x7d'))
    (n : Nat) (m : List (List Char × Value)) : braces (n + 1) m (c :: r) =
      (value n (item .brace (c :: r))).bind fun p =>
        braces n (put m (scalar true (c :: r)).1 p.1) (next p.2) := by
  rw [item_brace] at hv ⊢
  rw [braces, if_neg hc]
  dsimp only
  rw [if_neg hv]
  cases value n (skipColon (scalar true (c :: r)).2) <;> rfl

theorem brackets_turn (hc : c ≠ ']') (n : Nat) (l : List Value) : brackets (n + 1) l (c :: r) =
    (value n (item .bracket (c :: r))).bind fun p => brackets n (l ++ [p.1]) (next p.2) := by
  rw [brackets, if_neg hc, item, value_ws]
  cases value n (c :: r) <;> rfl

/-- In braces a comma or the end stands for the value as well. -/
theorem braces_empty (hc : c ≠ '\x7d')
    (hv : (item .brace (c :: r)).head? = some ',' ∨ (item .brace (c :: r)).head? = some '\x7d')
    (n : Nat) (m : List (List Char × Value)) : braces (n + 1) m (c :: r) =
      braces n (put m (scalar true (c :: r)).1 .null) (next (item .brace (c :: r))) := by
  rw [item_brace] at hv ⊢
  rw [braces, if_neg hc]
  dsimp only
  rw [if_pos hv]

theorem ends_nil (b : Bracket) : Ends b [] [] := by
  cases b
  all_goals
    refine ⟨fun {n i v r'} h => ?_, 1, fun m hm i => ?_⟩
    · cases n with
      | zero => cases h
      | succ n => cases h; rfl
    · obtain ⟨m, rfl⟩ : ∃ k, m = k + 1 := ⟨m - 1, by omega⟩
      exact ⟨_, rfl⟩

theorem ends_close (b : Bracket) (r : List Char) : Ends b (b.close :: r) r := by
  cases b
  all_goals
    refine ⟨fun {n i v r'} h => ?_, 1, fun m hm i => ?_⟩
    · cases n with
      | zero => cases h
      | succ n => cases h; rfl
    · obtain ⟨m, rfl⟩ : ∃ k, m = k + 1 := ⟨m - 1, by omega⟩
      exact ⟨_, rfl⟩

section Turn

variable (hc : c ≠ b.close)
  (hv : b = .brace → ¬((item b (c :: r)).head? = some ',' ∨ (item b (c :: r)).head? = some '\x7d'))

include hc hv

theorem ends_turn {r₁ r₂ : List Char} (hr : Reads (item b (c :: r)) r₁) (he : Ends b (next r₁) r₂) :
    Ends b (c :: r) r₂ := by
  cases b with
  | brace =>
    exact Leaves.turn (l := fun t n m => braces n m (next t)) (fun _ => rfl)
      (braces_turn hc (hv rfl)) hr he
  | bracket =>
    exact Leaves.turn (l := fun t n l => brackets n l (next t))
      (w := fun l v => l ++ [v]) (fun _ => rfl)
      (brackets_turn hc) hr he

theorem sticks_hangs (hr : Hangs (item b (c :: r))) : Sticks b (c :: r) := by
  cases b with
  | brace =>
    exact Never.reads (l := fun t n m => braces n m (next t)) (fun _ => rfl)
      (braces_turn hc (hv rfl)) hr
  | bracket =>
    exact Never.reads (l := fun t n l => brackets n l (next t))
      (w := fun l v => l ++ [v]) (fun _ => rfl)
      (brackets_turn hc) hr

theorem sticks_turn {r₁ : List Char} (hr : Reads (item b (c :: r)) r₁)
    (he : Sticks b (next r₁)) : Sticks b (c :: r) := by
  cases b with
  | brace =>
    exact Never.turn (l := fun t n m => braces n m (next t)) (fun _ => rfl)
      (braces_turn hc (hv rfl)) hr he
  | bracket =>
    exact Never.turn (l := fun t n l => brackets n l (next t))
      (w := fun l v => l ++ [v]) (fun _ => rfl)
      (brackets_turn hc) hr he

end Turn

/-- No scalar takes the other closing bracket, so the loop stays where it is. -/
theorem sticks_other (b : Bracket) (r : List Char) : Sticks b (b.other.close :: r) := by
  have hs (stop : Bool) : scalar stop (b.other.close :: r) = ([], b.other.close :: r) := by
    cases b
    · exact scalar_stops (by decide) (.inr (.inr (.inl rfl)))
    · exact scalar_stops (by decide) (.inr (.inl rfl))
  have hnext : next (b.other.close :: r) = b.other.close :: r := by
    cases b <;> exact next_cons (by decide) (by decide)
  have hread : Reads (b.other.close :: r) (b.other.close :: r) := by
    have h := reads_scalar (t := b.other.close :: r) (c := b.other.close) (r := r)
      (ws_cons (by cases b <;> decide)) (by cases b <;> decide) (by cases b <;> decide)
    rwa [hs] at h
  have hitem : item b (b.other.close :: r) = b.other.close :: r := by
    cases b with
    | brace => rw [item_brace, hs]; exact skipColon_cons (by decide) (by decide)
    | bracket => exact ws_cons (by decide)
  have hturn (n : Nat) : ∀ i : List (List Char × Value), ∀ l : List Value,
      (b = .brace → braces n i (b.other.close :: r) = none) ∧
        (b = .bracket → brackets n l (b.other.close :: r) = none) := by
    induction n with
    | zero => exact fun _ _ => ⟨fun _ => rfl, fun _ => rfl⟩
    | succ n ih =>
      intro i l
      constructor
      · rintro rfl
        rw [braces_turn (by decide) (by rw [hitem]; simp [Bracket.other, Bracket.close]), hitem]
        cases hv : value n (Bracket.brace.other.close :: r) with
        | none => rfl
        | some p =>
          have := hread.only (i := ()) (show value n _ = some (p.1, p.2) from hv)
          rw [Option.bind_some, this, hnext]
          exact (ih _ []).1 rfl
      · rintro rfl
        rw [brackets_turn (by decide), hitem]
        cases hv : value n (Bracket.bracket.other.close :: r) with
        | none => rfl
        | some p =>
          have := hread.only (i := ()) (show value n _ = some (p.1, p.2) from hv)
          rw [Option.bind_some, this, hnext]
          exact (ih [] _).2 rfl
  cases b with
  | brace => exact fun n i => (hturn n i []).1 rfl
  | bracket => exact fun n l => (hturn n [] l).2 rfl

theorem next_ws (t : List Char) : ws (next t) = next t := by
  unfold next
  split <;> exact ws_ws _

theorem next_nil : next [] = [] := rfl

theorem wrong_empty (k : List Bracket) : wrong k [] = false := by
  cases k with
  | nil => exact wrong_nil []
  | cons b k => exact wrong_end rfl

/-- A loop ends, and `wrong` goes on behind it; or it does not, and `wrong` finds the bracket. -/
def Settled (b : Bracket) (t : List Char) : Prop :=
  (∃ r, r.length ≤ t.length ∧ Ends b t r ∧ ∀ k, wrong (b :: k) t = wrong k (next r)) ∨
    Sticks b t ∧ ∀ k, wrong (b :: k) t = true

/-- A value is read, and the loop goes on behind it. -/
theorem settled_turn {r₁ : List Char} (hs : c ≠ ' ') (hc : c ≠ b.close)
    (hv : b = .brace → ¬((item b (c :: r)).head? = some ',' ∨
      (item b (c :: r)).head? = some '\x7d'))
    (hr : Reads (item b (c :: r)) r₁) (hlen : (next r₁).length ≤ (c :: r).length)
    (hw : ∀ k, wrong (b :: k) (c :: r) = wrong (b :: k) (next r₁)) (h : Settled b (next r₁)) :
    Settled b (c :: r) := by
  rcases h with ⟨r₂, hlen₂, he, hwrong⟩ | ⟨hsticks, hwrong⟩
  · exact .inl ⟨r₂, hlen₂.trans hlen, ends_turn hc hv hr he, fun k => (hw k).trans (hwrong k)⟩
  · exact .inr ⟨sticks_turn hc hv hr hsticks, fun k => (hw k).trans (hwrong k)⟩

theorem settled (b : Bracket) (t : List Char) (hws : ws t = t) : Settled b t := by
  induction hN : t.length using Nat.strong_induction_on generalizing b t with
  | _ N ih =>
    subst hN
    cases t with
    | nil =>
      exact .inl ⟨[], le_rfl, ends_nil b, fun k => by rw [next_nil, wrong_empty, wrong_empty]⟩
    | cons c r =>
      have hs := ws_head hws
      have hwrong (k : List Bracket) := wrong_cons (b := b) (k := k) hws
      by_cases hclose : c = b.close
      · subst hclose
        exact .inl ⟨r, Nat.le_succ _, ends_close b r, fun k => by rw [hwrong, if_pos rfl]⟩
      by_cases hother : c = b.other.close
      · subst hother
        exact .inr ⟨sticks_other b r, fun k => by rw [hwrong, if_neg hclose, if_pos rfl]⟩
      simp only [if_neg hclose, if_neg hother] at hwrong
      cases hitem : item b (c :: r) with
      | nil =>
        rw [hitem] at hwrong
        have hread : Reads (item b (c :: r)) [] := by rw [hitem]; exact reads_end rfl
        exact .inl ⟨[], Nat.zero_le _, ends_turn hclose (by rw [hitem]; simp) hread (ends_nil b),
          fun k => by rw [hwrong, next_nil, wrong_empty]⟩
      | cons d t' =>
        rw [hitem] at hwrong
        have hd := item_head hitem
        have hturn := item_turn hs hclose hother hitem
        have hcomma_or : d = ',' ∨ d = b.close → (next (d :: t')).length < (c :: r).length := by
          intro h
          rcases hturn with ⟨-, hlt⟩ | ⟨rfl, rfl, rfl, hne⟩
          · exact hlt
          · exact absurd h (not_or.2 ⟨hne, hclose⟩)
        have hmem (e : Char) : (item b (c :: r)).head? = some e ↔ d = e := by
          rw [hitem, List.head?_cons, Option.some.injEq]
        by_cases hempty : d = ',' ∨ d = b.close
        · simp only [if_pos hempty] at hwrong
          have hlt := hcomma_or hempty
          have hrest := ih _ hlt b _ (next_ws _) rfl
          cases b with
          | brace =>
            have hstep := braces_empty (r := r) hclose (by rw [hmem, hmem]; exact hempty)
            rw [hitem] at hstep
            rcases hrest with ⟨r₂, hlen₂, he, hw⟩ | ⟨hsticks, hw⟩
            · exact .inl ⟨r₂, hlen₂.trans hlt.le, Leaves.goesOn (fun _ => rfl) hstep he,
                fun k => (hwrong k).trans (hw k)⟩
            · exact .inr ⟨Never.goesOn (fun _ => rfl) hstep hsticks,
                fun k => (hwrong k).trans (hw k)⟩
          | bracket =>
            have hne := ws_cons (r := r) hs
            rw [← item_bracket, hitem] at hne
            cases hne
            obtain rfl : c = ',' := hempty.resolve_right hclose
            have hread : Reads (item .bracket (',' :: r)) (',' :: r) := by
              have h := reads_scalar (r := r) hws (by decide) (by decide)
              rw [scalar_stops (by decide) (.inl rfl)] at h
              rwa [hitem]
            exact settled_turn hs hclose (fun h => nomatch h) hread (next_length _) hwrong hrest
        simp only [if_neg hempty] at hwrong
        have hv : b = .brace → ¬((item b (c :: r)).head? = some ',' ∨
            (item b (c :: r)).head? = some '\x7d') := by
          rintro rfl
          rw [hmem, hmem]
          exact hempty
        have hlt' : t'.length < (c :: r).length := by
          rcases hturn with ⟨hlt, -⟩ | ⟨-, -, rfl, -⟩
          · exact hlt
          · exact Nat.lt_succ_self _
        -- a collection is read by its own loop, which takes less
        have hopen (b' : Bracket) (hd' : d = b'.opening)
            (hw : ∀ k, wrong (b :: k) (c :: r) = wrong (b' :: b :: k) (ws t')) :
            Settled b (c :: r) := by
          have hrest := ih _ ((ws_length t').trans_lt hlt') b' _ (ws_ws t') rfl
          have hitem' : ws (item b (c :: r)) = b'.opening :: t' := by
            rw [hitem, ws_cons hd, hd']
          rcases hrest with ⟨r₁, hlen₁, he, hw₁⟩ | ⟨hsticks, hw₁⟩
          · have hlen : (next r₁).length < (c :: r).length :=
              ((next_length r₁).trans hlen₁).trans_lt ((ws_length t').trans_lt hlt')
            exact settled_turn hs hclose hv (reads_open hitem' he) hlen.le
              (fun k => (hw k).trans (hw₁ (b :: k))) (ih _ hlen b _ (next_ws _) rfl)
          · exact .inr ⟨sticks_hangs hclose hv (hangs_open hitem' hsticks),
              fun k => (hw k).trans (hw₁ (b :: k))⟩
        by_cases hbrace : d = '\x7b'
        · exact hopen .brace hbrace fun k => by rw [hwrong, if_pos hbrace]
        simp only [if_neg hbrace] at hwrong
        by_cases hbracket : d = '['
        · exact hopen .bracket hbracket fun k => by rw [hwrong, if_pos hbracket]
        simp only [if_neg hbracket] at hwrong
        have hread : Reads (item b (c :: r)) (scalar false (d :: t')).2 := by
          rw [hitem]
          exact reads_scalar (ws_cons hd) hbrace hbracket
        have hlen : (next (scalar false (d :: t')).2).length < (c :: r).length := by
          have hle := (next_length (scalar false (d :: t')).2).trans (scalar_length false (d :: t'))
          rcases hturn with ⟨-, hlt⟩ | ⟨rfl, rfl, rfl, hne⟩
          · rw [next_cons hd (not_or.1 hempty).1] at hlt
            exact hle.trans_lt hlt
          · have hstops : ¬stops false d t' := by
              rintro (h | h | h | h)
              exacts [hne h, hother h, hclose h, nomatch h.1]
            exact (next_length _).trans_lt (scalar_lt hstops hs)
        exact settled_turn hs hclose hv hread hlen.le hwrong (ih _ hlen b _ (next_ws _) rfl)

end Loops

/-- Whether a text that begins with a bracket comes to a wrong one. -/
def Wrong (t : List Char) : Prop :=
  ∃ b : Bracket, ∃ r, t = b.opening :: r ∧ wrong [b] r = true

/-- A collection is read, or hangs on a wrong bracket. -/
theorem reads_or_hangs (b : Bracket) (r : List Char) :
    (∃ r', Reads (b.opening :: r) r') ∧ wrong [b] r = false ∨
      Hangs (b.opening :: r) ∧ wrong [b] r = true := by
  have hws : ws (b.opening :: r) = b.opening :: r := ws_cons (by cases b <;> decide)
  rw [← wrong_ws]
  rcases settled b (ws r) (ws_ws r) with ⟨r', -, he, hw⟩ | ⟨hsticks, hw⟩
  · exact .inl ⟨⟨r', reads_open hws he⟩, by rw [hw, wrong_nil]⟩
  · exact .inr ⟨hangs_open hws hsticks, hw []⟩

end Flow

open Flow

/-- **A value is read** with enough rounds, unless it is a collection with a wrong bracket. -/
theorem inline_ends {s : List Char} (h : ¬Wrong (trimmed s)) :
    ∃ n, ∀ m ≥ n, (inline m s).isSome := by
  have hcollection (b : Bracket) (r : List Char) (ht : trimmed s = b.opening :: r) :
      ∃ n, ∀ m ≥ n, (inline m s).isSome := by
    rcases reads_or_hangs b r with ⟨⟨r', hread⟩, -⟩ | ⟨-, hw⟩
    · obtain ⟨n, hn⟩ := hread.enough
      refine ⟨n, fun m hm => ?_⟩
      obtain ⟨v, hv⟩ := hn m hm ()
      unfold inline
      rw [ht, if_pos (by cases b <;> simp [Bracket.opening]), hv]
      rfl
    · exact absurd ⟨b, r, ht, hw⟩ h
  by_cases hopen : (trimmed s).head? = some '\x7b' ∨ (trimmed s).head? = some '['
  · rcases hopen with hopen | hopen
    · obtain ⟨r, hr⟩ := List.head?_eq_some_iff.1 hopen
      exact hcollection .brace r hr
    · obtain ⟨r, hr⟩ := List.head?_eq_some_iff.1 hopen
      exact hcollection .bracket r hr
  · refine ⟨0, fun m _ => ?_⟩
    unfold inline
    rw [if_neg hopen]
    split <;> rfl

theorem inline_hangs {s : List Char} (h : Wrong (trimmed s)) (n : Nat) : inline n s = none := by
  obtain ⟨b, r, ht, hw⟩ := h
  have hhangs : Hangs (b.opening :: r) := by
    rcases reads_or_hangs b r with ⟨-, hw'⟩ | ⟨hh, -⟩
    · rw [hw] at hw'
      cases hw'
    · exact hh
  unfold inline
  rw [ht, if_pos (by cases b <;> simp [Bracket.opening])]
  exact congrArg (Option.map (·.1)) (hhangs n ())

/-! ## The parser by indentation -/

/-- The texts that are read for values. -/
def handed : Values (List (List Char)) where
  null := []
  inline t := some [t]
  list := List.flatten
  empty := []
  put out _ v := out ++ v

/-- What is left to read: the lines and their characters. -/
def size (ls : List Line) : Nat := (ls.map fun l => l.text.length + 1).sum

namespace Block

section Ends

variable {ls : List Line} {l : Line} {n indent : Nat}

@[simp] theorem size_cons (l : Line) (ls : List Line) :
    size (l :: ls) = l.text.length + 1 + size ls := by
  rw [size, List.map_cons, List.sum_cons]
  rfl

theorem dash_length {t : List Char} (h : isDash t = true) :
    (trimStart t.tail).length + 1 ≤ t.length := by
  have hdrop : (trimStart t.tail).length ≤ t.tail.length := (List.dropWhile_sublist _).length_le
  cases t with
  | nil => cases h
  | cons c t => exact Nat.succ_le_succ hdrop

/-- Each turn leaves less, so twice as many rounds as there is to read are enough. -/
theorem handed_ends (n : Nat) :
    (∀ indent ls, 2 * size ls + 2 ≤ n →
      ∃ ts rest, node handed n indent ls = some (ts, rest) ∧ size rest ≤ size ls) ∧
    (∀ indent out ls, 2 * size ls + 1 ≤ n →
      ∃ ts rest, seq handed n indent out ls = some (ts, rest) ∧ size rest ≤ size ls) ∧
    ∀ indent out ls, 2 * size ls + 1 ≤ n →
      ∃ ts rest, map handed n indent out ls = some (ts, rest) ∧ size rest ≤ size ls := by
  induction n with
  | zero => exact ⟨fun _ _ h => by omega, fun _ _ _ h => by omega, fun _ _ _ h => by omega⟩
  | succ n ih =>
    obtain ⟨hnode, hseq, hmap⟩ := ih
    refine ⟨fun indent ls h => ?_, fun indent out ls h => ?_, fun indent out ls h => ?_⟩
    · cases ls with
      | nil => exact ⟨_, _, rfl, le_rfl⟩
      | cons l ls =>
        rw [node]
        split
        · obtain ⟨ts, rest, hs, hle⟩ := hseq l.indent [] (l :: ls) (by omega)
          exact ⟨_, rest, by rw [hs]; rfl, hle⟩
        · exact hmap l.indent _ (l :: ls) (by omega)
    · cases ls with
      | nil => exact ⟨_, _, rfl, le_rfl⟩
      | cons l ls =>
        rw [size_cons] at h ⊢
        have hgo (out : List (List (List Char))) (more : List Line) (hm : size more ≤ size ls) :
            ∃ ts rest, seq handed n indent out more = some (ts, rest) ∧
              size rest ≤ l.text.length + 1 + size ls := by
          obtain ⟨ts, rest, hs, hle⟩ := hseq indent out more (by omega)
          exact ⟨ts, rest, hs, by omega⟩
        rw [seq]
        by_cases hdash : l.indent = indent ∧ isDash l.text
        · have hshort := dash_length hdash.2
          rw [if_pos hdash]
          dsimp only
          by_cases hrest : trimStart l.text.tail = []
          · rw [if_pos hrest]
            split
            · obtain ⟨v, more, hv, hm⟩ := hnode (indentOf ls) ls (by omega)
              rw [hv]
              exact hgo _ more hm
            · exact hgo _ ls le_rfl
          · rw [if_neg hrest]
            split
            · -- the dash of the line is taken
              obtain ⟨v, more, hv, hm⟩ := hmap (indent + (l.text.length -
                (trimStart l.text.tail).length)) handed.empty (⟨_, trimStart l.text.tail⟩ :: ls)
                (by rw [size_cons]; dsimp only; omega)
              rw [size_cons] at hm
              obtain ⟨ts, rest, hs, hle⟩ := hseq indent (out ++ [v]) more (by
                dsimp only at hm
                omega)
              rw [hv]
              exact ⟨ts, rest, hs, by dsimp only at hm; omega⟩
            · exact hgo _ ls le_rfl
        · rw [if_neg hdash]
          exact ⟨_, _, rfl, by rw [size_cons]⟩
    · cases ls with
      | nil => exact ⟨_, _, rfl, le_rfl⟩
      | cons l ls =>
        rw [size_cons] at h ⊢
        have hgo (out : List (List Char)) (more : List Line) (hm : size more ≤ size ls) :
            ∃ ts rest, map handed n indent out more = some (ts, rest) ∧
              size rest ≤ l.text.length + 1 + size ls := by
          obtain ⟨ts, rest, hs, hle⟩ := hmap indent out more (by omega)
          exact ⟨ts, rest, hs, by omega⟩
        rw [map]
        by_cases hline : l.indent = indent ∧ (!isDash l.text) = true
        · rw [if_pos hline]
          cases keyOf l.text with
          | none => exact ⟨_, _, rfl, by rw [size_cons]⟩
          | some kv =>
            obtain ⟨k, v⟩ := kv
            dsimp only
            by_cases hv : v ≠ []
            · rw [if_pos hv]
              exact hgo _ ls le_rfl
            · rw [if_neg hv]
              split
              · obtain ⟨v, more, hv, hm⟩ := hnode (indentOf ls) ls (by omega)
                rw [hv]
                exact hgo _ more hm
              · split
                · obtain ⟨vs, more, hv, hm⟩ := hseq indent [] ls (by omega)
                  rw [hv]
                  exact hgo _ more hm
                · exact hgo _ ls le_rfl
        · rw [if_neg hline]
          exact ⟨_, _, rfl, by rw [size_cons]⟩

end Ends

/-- What has been handed over stays. -/
theorem handed_keeps (n : Nat) :
    (∀ {indent out ls ts rest}, seq handed n indent out ls = some (ts, rest) →
      ∀ t ∈ out.flatten, t ∈ ts.flatten) ∧
    ∀ {indent out ls ts rest}, map handed n indent out ls = some (ts, rest) →
      ∀ t ∈ out, t ∈ ts := by
  induction n with
  | zero => constructor <;> (intro _ _ _ _ _ h; cases h)
  | succ n ih =>
    obtain ⟨hseq, hmap⟩ := ih
    have hseq' {indent out ls ts rest v} (h : seq handed n indent (out ++ [v]) ls = some (ts, rest))
        (t : List Char) (ht : t ∈ out.flatten) : t ∈ ts.flatten :=
      hseq h t (by rw [List.flatten_append]; exact List.mem_append_left _ ht)
    have hmap' {indent out ls ts rest k v}
        (h : map handed n indent (handed.put out k v) ls = some (ts, rest))
        (t : List Char) (ht : t ∈ out) : t ∈ ts := hmap h t (List.mem_append_left _ ht)
    constructor
    · intro indent out ls ts rest h
      cases ls with
      | nil => cases h; exact fun _ ht => ht
      | cons l ls =>
        rw [seq] at h
        dsimp only at h
        repeat' split at h
        all_goals first
          | exact hseq' h
          | (obtain ⟨p, -, h⟩ := Option.bind_eq_some_iff.1 h; exact hseq' h)
          | (cases h; exact fun _ ht => ht)
    · intro indent out ls ts rest h
      cases ls with
      | nil => cases h; exact fun _ ht => ht
      | cons l ls =>
        rw [map] at h
        repeat' split at h
        all_goals first
          | exact hmap' h
          | (obtain ⟨p, -, h⟩ := Option.bind_eq_some_iff.1 h; exact hmap' h)
          | (cases h; exact fun _ ht => ht)

section Follows

variable {α β γ δ ε : Type} (y : Values α)

/-- `a` comes to where `b` does, unless a text that `b` has handed over gives no value. -/
def Follows (a : Option (β × List Line)) (b : Option (γ × List Line))
    (texts : γ → List (List Char)) : Prop :=
  match b with
  | none => a = none
  | some (ts, rest) => (∃ v, a = some (v, rest)) ∧ (∀ t ∈ texts ts, (y.inline t).isSome) ∨
      a = none ∧ ∃ t ∈ texts ts, y.inline t = none

variable {y}

theorem Follows.step {a : Option (β × List Line)} {b : Option (γ × List Line)}
    {texts : γ → List (List Char)} {texts' : ε → List (List Char)}
    {k : β × List Line → Option (δ × List Line)} {k' : γ × List Line → Option (ε × List Line)}
    (h : Follows y a b texts)
    (hk : ∀ v ts rest, (∀ t ∈ texts ts, (y.inline t).isSome) →
      Follows y (k (v, rest)) (k' (ts, rest)) texts')
    (hkeeps : ∀ {p ts rest}, k' p = some (ts, rest) → ∀ t ∈ texts p.1, t ∈ texts' ts) :
    Follows y (a.bind k) (b.bind k') texts' := by
  cases b with
  | none =>
    obtain rfl : a = none := h
    exact rfl
  | some p =>
    rcases h with ⟨⟨v, rfl⟩, hok⟩ | ⟨rfl, t, ht, hbad⟩
    · exact hk v p.1 p.2 hok
    · change Follows y none (k' p) texts'
      cases hp : k' p with
      | none => exact rfl
      | some q => exact .inr ⟨rfl, t, hkeeps hp t ht, hbad⟩

/-- A text that is handed over here. -/
theorem Follows.reads {t : List Char} {b : Option (ε × List Line)} {texts : ε → List (List Char)}
    {k : α → Option (δ × List Line)}
    (hk : ∀ v, y.inline t = some v → Follows y (k v) b texts)
    (hkeeps : ∀ {ts rest}, b = some (ts, rest) → t ∈ texts ts) :
    Follows y ((y.inline t).bind k) b texts := by
  cases hv : y.inline t with
  | some v => exact hk v hv
  | none =>
    change Follows y none b texts
    cases hb : b with
    | none => exact rfl
    | some q => exact .inr ⟨rfl, t, hkeeps hb, hv⟩

theorem follows (n : Nat) :
    (∀ indent ls, Follows y (node y n indent ls) (node handed n indent ls) id) ∧
    (∀ indent out out' ls, (∀ t ∈ out'.flatten, (y.inline t).isSome) →
      Follows y (seq y n indent out ls) (seq handed n indent out' ls) List.flatten) ∧
    ∀ indent out out' ls, (∀ t ∈ out', (y.inline t).isSome) →
      Follows y (map y n indent out ls) (map handed n indent out' ls) id := by
  induction n with
  | zero => exact ⟨fun _ _ => rfl, fun _ _ _ _ _ => rfl, fun _ _ _ _ _ => rfl⟩
  | succ n ih =>
    obtain ⟨hnode, hseq, hmap⟩ := ih
    have hkeeps := handed_keeps n
    refine ⟨fun indent ls => ?_, fun indent out out' ls hout => ?_,
      fun indent out out' ls hout => ?_⟩
    · cases ls with
      | nil => exact .inl ⟨⟨_, rfl⟩, fun _ ht => absurd ht List.not_mem_nil⟩
      | cons l ls =>
        rw [node, node]
        split
        · refine (hseq l.indent [] [] (l :: ls) (fun _ ht => absurd ht List.not_mem_nil)).step
            (fun v ts rest hok => .inl ⟨⟨_, rfl⟩, hok⟩) ?_
          intro p ts rest h
          cases h
          exact fun _ ht => ht
        · exact hmap l.indent _ _ (l :: ls) (fun _ ht => absurd ht List.not_mem_nil)
    · cases ls with
      | nil => exact .inl ⟨⟨_, rfl⟩, hout⟩
      | cons l ls =>
        have hlast {out : List (List (List Char))} {v : List (List Char)} {more ts rest}
            (h : seq handed n indent (out ++ [v]) more = some (ts, rest)) (t : List Char)
            (ht : t ∈ v) : t ∈ ts.flatten :=
          hkeeps.1 h t (by
            rw [List.flatten_append, List.flatten_singleton]
            exact List.mem_append_right _ ht)
        have hmore (v : List (List Char)) (hv : ∀ t ∈ v, (y.inline t).isSome) (t : List Char)
            (ht : t ∈ (out' ++ [v]).flatten) : (y.inline t).isSome := by
          rw [List.flatten_append, List.flatten_singleton] at ht
          exact (List.mem_append.1 ht).elim (hout t) (hv t)
        rw [seq, seq]
        dsimp only
        split
        · split
          · split
            · exact (hnode _ ls).step (fun v ts rest hok => hseq _ _ _ rest (hmore ts hok))
                fun h => hlast h
            · exact hseq _ _ _ ls (hmore [] fun _ ht => absurd ht List.not_mem_nil)
          · split
            · exact (hmap _ _ _ _ fun _ ht => absurd ht List.not_mem_nil).step
                (fun v ts rest hok => hseq _ _ _ rest (hmore ts hok)) fun h => hlast h
            · exact Follows.reads (fun v hv => hseq _ _ _ ls (hmore [_] fun t ht => by
                rw [List.mem_singleton.1 ht, hv]
                rfl)) fun h => hlast h _ (List.mem_singleton.2 rfl)
        · exact .inl ⟨⟨_, rfl⟩, hout⟩
    · cases ls with
      | nil => exact .inl ⟨⟨_, rfl⟩, hout⟩
      | cons l ls =>
        have hlast {out v : List (List Char)} {key : List Char} {more ts rest}
            (h : map handed n indent (handed.put out key v) more = some (ts, rest)) (t : List Char)
            (ht : t ∈ v) : t ∈ ts := hkeeps.2 h t (List.mem_append_right _ ht)
        have hmore (v : List (List Char)) (hv : ∀ t ∈ v, (y.inline t).isSome) (t : List Char)
            (ht : t ∈ out' ++ v) : (y.inline t).isSome :=
          (List.mem_append.1 ht).elim (hout t) (hv t)
        rw [map, map]
        split
        · cases keyOf l.text with
          | none => exact .inl ⟨⟨_, rfl⟩, hout⟩
          | some kv =>
            dsimp only
            split
            · exact Follows.reads (fun v hv => hmap _ _ _ ls (hmore [_] fun t ht => by
                rw [List.mem_singleton.1 ht, hv]
                rfl)) fun h => hlast h _ (List.mem_singleton.2 rfl)
            · split
              · exact (hnode _ ls).step (fun v ts rest hok => hmap _ _ _ rest (hmore ts hok))
                  fun h => hlast h
              · split
                · exact (hseq _ _ _ ls fun _ ht => absurd ht List.not_mem_nil).step
                    (fun v ts rest hok => hmap _ _ _ rest (hmore _ hok)) fun h => hlast h
                · exact hmap _ _ _ ls (hmore [] fun _ ht => absurd ht List.not_mem_nil)
        · exact .inl ⟨⟨_, rfl⟩, hout⟩

/-- More rounds give the same, also where more rounds are given to the values. -/
theorem more_rounds {f : List Char → Option α} (hf : ∀ {t v}, y.inline t = some v → f t = some v)
    (n : Nat) :
    (∀ {indent ls r}, node y n indent ls = some r →
      node { y with inline := f } (n + 1) indent ls = some r) ∧
    (∀ {indent out ls r}, seq y n indent out ls = some r →
      seq { y with inline := f } (n + 1) indent out ls = some r) ∧
    ∀ {indent out ls r}, map y n indent out ls = some r →
      map { y with inline := f } (n + 1) indent out ls = some r := by
  have hbind {β δ : Type} {a a' : Option β} {k k' : β → Option δ} {r : δ} (h : a.bind k = some r)
      (ha : ∀ {p}, a = some p → a' = some p) (hk : ∀ {p}, k p = some r → k' p = some r) :
      a'.bind k' = some r := by
    obtain ⟨p, hp, hr⟩ := Option.bind_eq_some_iff.1 h
    exact Option.bind_eq_some_iff.2 ⟨p, ha hp, hk hr⟩
  induction n with
  | zero =>
    refine ⟨?_, ?_, ?_⟩
    · intro _ _ _ h
      cases h
    · intro _ _ _ _ h
      cases h
    · intro _ _ _ _ h
      cases h
  | succ n ih =>
    obtain ⟨hnode, hseq, hmap⟩ := ih
    refine ⟨?_, ?_, ?_⟩
    · intro indent ls r h
      cases ls with
      | nil => exact h
      | cons l ls =>
        rw [node] at h ⊢
        split
        · rw [if_pos ‹_›] at h
          exact hbind h hseq id
        · rw [if_neg ‹_›] at h
          exact hmap h
    · intro indent out ls r h
      cases ls with
      | nil => exact h
      | cons l ls =>
        rw [seq] at h ⊢
        dsimp only at h ⊢
        split_ifs at h ⊢
        · exact hbind h hnode hseq
        · exact hseq h
        · exact hbind h hmap hseq
        · exact hbind h hf hseq
        · exact h
    · intro indent out ls r h
      cases ls with
      | nil => exact h
      | cons l ls =>
        rw [map] at h ⊢
        split
        · rw [if_pos ‹_›] at h
          cases hk : keyOf l.text with
          | none => rwa [hk] at h
          | some kv =>
            rw [hk] at h
            dsimp only at h ⊢
            split_ifs at h ⊢
            · exact hbind h hf hmap
            · exact hbind h hnode hmap
            · exact hbind h hseq hmap
            · exact hmap h
        · rw [if_neg ‹_›] at h
          exact h

theorem node_rounds {n m indent : Nat} {ls : List Line} {r : α × List Line} (hle : n ≤ m)
    (h : node y n indent ls = some r) : node y m indent ls = some r := by
  induction hle with
  | refl => exact h
  | step _ ih => exact (more_rounds id _).1 ih

end Follows

end Block

/-- The texts that stand for values in a text. -/
def standing (text : List Char) : List (List Char) :=
  match lines text with
  | [] => []
  | l :: ls => ((Block.node handed (2 * size (l :: ls) + 2) l.indent (l :: ls)).map (·.1)).getD []

/-- **The reader ends** exactly where no text that stands for a value comes to a closing bracket of
the other kind. -/
theorem parse_ends_iff (text : List Char) :
    (∃ n v, parse n text = some v) ↔ ∀ t ∈ standing text, ¬Wrong (trimmed t) := by
  unfold parse standing
  cases lines text with
  | nil => exact ⟨fun _ _ ht => absurd ht List.not_mem_nil, fun _ => ⟨0, .null, rfl⟩⟩
  | cons l ls =>
    obtain ⟨ts, rest, hts, -⟩ := (Block.handed_ends (2 * size (l :: ls) + 2)).1 l.indent _ le_rfl
    dsimp only
    rw [hts]
    change _ ↔ ∀ t ∈ ts, _
    constructor
    · rintro ⟨n, v, hv⟩ t ht hwrong
      have hf := (Block.follows (y := values n) n).1 l.indent (l :: ls)
      obtain ⟨p, hp, -⟩ := Option.map_eq_some_iff.1 hv
      cases hn : Block.node handed n l.indent (l :: ls) with
      | none =>
        rw [hn, hp] at hf
        cases hf
      | some q =>
        have hsame := Block.node_rounds (le_max_left n (2 * size (l :: ls) + 2)) hn
        have hmax := Block.node_rounds (le_max_right n (2 * size (l :: ls) + 2)) hts
        rw [hsame] at hmax
        cases hmax
        rw [hn, hp] at hf
        rcases hf with ⟨-, hok⟩ | ⟨hnone, -⟩
        · have := hok t ht
          rw [show (values n).inline t = none from inline_hangs hwrong n] at this
          cases this
        · cases hnone
    · intro hok
      obtain ⟨n, hn⟩ : ∃ n, ∀ m ≥ n, ∀ t ∈ ts, (inline m t).isSome := by
        clear hts
        induction ts with
        | nil => exact ⟨0, fun _ _ _ ht => absurd ht List.not_mem_nil⟩
        | cons t ts ih =>
          obtain ⟨n₁, h₁⟩ := inline_ends (hok t List.mem_cons_self)
          obtain ⟨n₂, h₂⟩ := ih fun t ht => hok t (List.mem_cons_of_mem _ ht)
          refine ⟨max n₁ n₂, fun m hm t' ht' => ?_⟩
          rcases List.mem_cons.1 ht' with rfl | ht'
          · exact h₁ m ((le_max_left _ _).trans hm)
          · exact h₂ m ((le_max_right _ _).trans hm) t' ht'
      let m := max n (2 * size (l :: ls) + 2)
      have hf := (Block.follows (y := values m) m).1 l.indent (l :: ls)
      rw [Block.node_rounds (le_max_right n _) hts] at hf
      rcases hf with ⟨⟨v, hv⟩, -⟩ | ⟨-, t, ht, hbad⟩
      · exact ⟨m, v, by rw [hv]; rfl⟩
      · have := hn m (le_max_left _ _) t ht
        rw [show inline m t = none from hbad] at this
        cases this

/-- A list that is closed by a brace: the loop reads nothing for ever. -/
theorem closed_by_brace : ¬∃ n v, parse n "proxies: [\x7d".toList = some v := by
  have hstanding : standing "proxies: [\x7d".toList = [['[', '\x7d']] := by decide +kernel
  rw [parse_ends_iff, hstanding]
  intro h
  refine h _ (List.mem_singleton.2 rfl) ⟨.bracket, ['\x7d'], rfl, ?_⟩
  rw [wrong_cons (ws_cons (by decide)), if_neg (by decide)]
  exact if_pos rfl

end Ghajar.MiniYaml
