import Mathlib
import Ghajar.Config.AmneziaWg

/-!
# The YAML reader

`MiniYaml`: comments are cut off, flow collections over several lines are joined, mappings and
sequences are read by indentation (`Block`), and what stands behind a key or a dash is a flow
collection or a scalar (`inline`). The loops of both parsers count rounds: nothing comes back where
the rounds are used up.

The parser by indentation never looks at the values, so it is written for any type of them
(`Values`).
-/

namespace Ghajar.MiniYaml

open Ghajar Awg

inductive Value where
  | null
  | str (s : List Char)
  | list (l : List Value)
  | map (m : List (List Char × Value))

structure Line where
  indent : Nat
  text : List Char

def trimStart (l : List Char) : List Char := l.dropWhile Text.isWhitespace

def trimEnd (l : List Char) : List Char := (l.reverse.dropWhile Text.isWhitespace).reverse

def trimmed (l : List Char) : List Char := trim Text.isWhitespace l

/-- `m[k] = v`, which leaves a key at its place. -/
def put {α : Type} (m : List (List Char × α)) (k : List Char) (v : α) : List (List Char × α) :=
  if m.any (·.1 == k) then m.map fun e => if e.1 = k then (k, v) else e else m ++ [(k, v)]

/-- `replace`, of two characters by one. -/
def replacePair (a b new : Char) : List Char → List Char
  | c :: d :: r =>
    if c = a ∧ d = b then new :: replacePair a b new r else c :: replacePair a b new (d :: r)
  | l => l

def unquote (s : List Char) : List Char :=
  if 2 ≤ s.length ∧ s.head? = some '"' ∧ s.getLast? = some '"' then
    replacePair '\\' '\\' '\\'
      (replacePair '\\' '"' '"' (replacePair '\\' 'n' '\n' s.tail.dropLast))
  else if 2 ≤ s.length ∧ s.head? = some '\'' ∧ s.getLast? = some '\'' then
    replacePair '\'' '\'' '\'' s.tail.dropLast
  else s

/-! ## Lines -/

/-- The quote that is open after `c`. -/
def quoted (q : Option Char) (c : Char) : Option Char :=
  match q with
  | some d => if c = d then none else q
  | none => if c = '"' ∨ c = '\'' then some c else none

/-- A line up to its comment; `last` is the character before. -/
def uncommented (q last : Option Char) : List Char → List Char
  | [] => []
  | c :: r =>
    if q = none ∧ c = '#' ∧ last.getD ' ' = ' ' then []
    else c :: uncommented (quoted q c) (some c) r

def stripComment (l : List Char) : List Char := trimEnd (uncommented none none l)

def depthOf (c : Char) : Int :=
  if c = '\x7b' ∨ c = '[' then 1 else if c = '\x7d' ∨ c = ']' then -1 else 0

def balanceFrom (q : Option Char) : List Char → Int
  | [] => 0
  | c :: r => (if q = none then depthOf c else 0) + balanceFrom (quoted q c) r

def balance (l : List Char) : Int := balanceFrom none l

/-- `join`, with the lines that are being joined and their depth. -/
def joinFrom (acc : Option (List Char × Int)) : List (List Char) → List (List Char)
  | [] => (acc.map (·.1)).toList
  | l :: ls =>
    match acc with
    | some (a, depth) =>
      let depth := depth + balance l
      if depth ≤ 0 then (a ++ ' ' :: trimmed l) :: joinFrom none ls
      else joinFrom (some (a ++ ' ' :: trimmed l, depth)) ls
    | none => if 0 < balance l then joinFrom (some (l, balance l)) ls else l :: joinFrom none ls

def join (lines : List (List Char)) : List (List Char) := joinFrom none lines

def untab (text : List Char) : List Char :=
  text.flatMap fun c => if c = '\t' then [' ', ' '] else [c]

def Line.of (l : List Char) : Line := ⟨l.length - (trimStart l).length, trimmed l⟩

def lines (text : List Char) : List Line :=
  ((join ((ConfigParser.lines (untab text)).map stripComment)).filter fun l =>
    !Text.isBlank l && trimmed l ≠ "---".toList && trimmed l ≠ "...".toList).map Line.of

/-! ## Keys -/

/-- `keyOf`, behind the characters `before`. -/
def keyFrom (q : Option Char) (before : List Char) : List Char → Option (List Char × List Char)
  | [] => none
  | c :: r =>
    match q with
    | some d => keyFrom (if c = d then none else q) (before ++ [c]) r
    | none =>
      if (c = '"' ∨ c = '\'') ∧ before = [] then keyFrom (some c) (before ++ [c]) r
      else if c = ':' ∧ (r = [] ∨ r.head? = some ' ') then
        some (unquote (trimmed before), trimmed r)
      else if c = '\x7b' ∨ c = '[' then none
      else keyFrom none (before ++ [c]) r

def keyOf (t : List Char) : Option (List Char × List Char) := keyFrom none [] t

/-! ## Flow collections -/

namespace Flow

def ws (t : List Char) : List Char := t.dropWhile (· = ' ')

/-- What is within a quoted scalar, and the rest from its closing quote on. -/
def quotedBody (q : Char) : List Char → List Char × List Char
  | [] => ([], [])
  | [c] => if c = q then ([], [c]) else ([c], [])
  | c :: d :: r =>
    if c = q then
      if q = '\'' ∧ d = '\'' then (c :: d :: (quotedBody q r).1, (quotedBody q r).2)
      else ([], c :: d :: r)
    else if c = '\\' ∧ q = '"' then (c :: d :: (quotedBody q r).1, (quotedBody q r).2)
    else (c :: (quotedBody q (d :: r)).1, (quotedBody q (d :: r)).2)

/-- Where a plain scalar stops: at `c`, with `r` behind it. -/
def stops (stopAtColon : Bool) (c : Char) (r : List Char) : Prop :=
  c = ',' ∨ c = '\x7d' ∨ c = ']' ∨ (stopAtColon ∧ c = ':' ∧ (r = [] ∨ r.head? = some ' '))

instance (stopAtColon : Bool) (c : Char) (r : List Char) : Decidable (stops stopAtColon c r) :=
  inferInstanceAs (Decidable (_ ∨ _))

/-- A plain scalar and the rest. -/
def plain (stopAtColon : Bool) : List Char → List Char × List Char
  | [] => ([], [])
  | c :: r =>
    if stops stopAtColon c r then ([], c :: r)
    else (c :: (plain stopAtColon r).1, (plain stopAtColon r).2)

def scalar (stopAtColon : Bool) (t : List Char) : List Char × List Char :=
  match ws t with
  | [] => ([], [])
  | c :: r =>
    if c = '"' ∨ c = '\'' then
      (unquote (c :: (quotedBody c r).1 ++ (quotedBody c r).2.take 1), (quotedBody c r).2.tail)
    else (trimmed (plain stopAtColon (c :: r)).1, (plain stopAtColon (c :: r)).2)

/-- Behind a key: its colon, if there is one. -/
def skipColon (t : List Char) : List Char :=
  if (ws t).head? = some ':' then ws (ws t).tail else ws t

/-- Behind a value: a comma, if there is one. -/
def next (t : List Char) : List Char :=
  if (ws t).head? = some ',' then ws (ws t).tail else ws t

mutual

def value : Nat → List Char → Option (Value × List Char)
  | 0, _ => none
  | n + 1, t =>
    match ws t with
    | [] => some (.null, [])
    | c :: r =>
      if c = '\x7b' then braces n [] (ws r)
      else if c = '[' then brackets n [] (ws r)
      else
        let (s, rest) := scalar false (c :: r)
        some (if s = ['~'] ∨ s = "null".toList then .null else .str s, rest)

/-- `while (i < s.length && s[i] != '\x7d')` -/
def braces : Nat → List (List Char × Value) → List Char → Option (Value × List Char)
  | 0, _, _ => none
  | n + 1, m, t =>
    match t with
    | [] => some (.map m, [])
    | c :: r =>
      if c = '\x7d' then some (.map m, r)
      else
        let (k, rest) := scalar true (c :: r)
        let t := skipColon rest
        if t.head? = some ',' ∨ t.head? = some '\x7d' then braces n (put m k .null) (next t)
        else
          match value n t with
          | none => none
          | some (v, rest) => braces n (put m k v) (next rest)

/-- `while (i < s.length && s[i] != ']')` -/
def brackets : Nat → List Value → List Char → Option (Value × List Char)
  | 0, _, _ => none
  | n + 1, l, t =>
    match t with
    | [] => some (.list l, [])
    | c :: r =>
      if c = ']' then some (.list l, r)
      else
        match value n (c :: r) with
        | none => none
        | some (v, rest) => brackets n (l ++ [v]) (next rest)

end

end Flow

/-- `inline`; nothing where `n` rounds are not enough. -/
def inline (n : Nat) (s : List Char) : Option Value :=
  let t := trimmed s
  if t.head? = some '\x7b' ∨ t.head? = some '[' then (Flow.value n t).map (·.1)
  else if t = ['~'] ∨ t = "null".toList then some .null
  else some (.str (unquote t))

/-! ## Mappings and sequences by indentation -/

/-- What is made of the values that are read. -/
structure Values (α : Type) where
  null : α
  inline : List Char → Option α
  list : List α → α
  empty : α
  put : α → List Char → α → α

def isDash (t : List Char) : Bool := t = ['-'] || "- ".toList.isPrefixOf t

/-- Whether what is behind a dash is the first line of a mapping. -/
def opensMap (rest : List Char) : Bool :=
  (keyOf rest).isSome && rest.head? ≠ some '\x7b' && rest.head? ≠ some '[' &&
    rest.head? ≠ some '"' && rest.head? ≠ some '\''

/-- `ls[i].indent` -/
def indentOf (ls : List Line) : Nat := (ls.head?.map (·.indent)).getD 0

/-- `i < ls.size && ls[i].indent > indent` -/
def deeper (indent : Nat) (ls : List Line) : Bool := ls.head?.any (indent < ·.indent)

/-- `i < ls.size && ls[i].indent == indent && ls[i].text.startsWith("- ")` -/
def dashed (indent : Nat) (ls : List Line) : Bool :=
  ls.head?.any fun l => l.indent = indent ∧ "- ".toList.isPrefixOf l.text

namespace Block

variable {α : Type} (y : Values α)

mutual

def node : Nat → Nat → List Line → Option (α × List Line)
  | 0, _, _ => none
  | _ + 1, _, [] => some (y.null, [])
  | n + 1, _, l :: ls =>
    if isDash l.text then (seq n l.indent [] (l :: ls)).bind fun p => some (y.list p.1, p.2)
    else map n l.indent y.empty (l :: ls)

/-- The loop of `seq`, with the values so far. -/
def seq : Nat → Nat → List α → List Line → Option (List α × List Line)
  | 0, _, _, _ => none
  | _ + 1, _, out, [] => some (out, [])
  | n + 1, indent, out, l :: ls =>
    if l.indent = indent ∧ isDash l.text then
      let rest := trimStart l.text.tail
      if rest = [] then
        if deeper indent ls then
          (node n (indentOf ls) ls).bind fun p => seq n indent (out ++ [p.1]) p.2
        else seq n indent (out ++ [y.null]) ls
      else if opensMap rest then
        let inner := indent + (l.text.length - rest.length)
        (map n inner y.empty (⟨inner, rest⟩ :: ls)).bind fun p => seq n indent (out ++ [p.1]) p.2
      else (y.inline rest).bind fun v => seq n indent (out ++ [v]) ls
    else some (out, l :: ls)

/-- The loop of `map`, with the mapping so far. -/
def map : Nat → Nat → α → List Line → Option (α × List Line)
  | 0, _, _, _ => none
  | _ + 1, _, out, [] => some (out, [])
  | n + 1, indent, out, l :: ls =>
    if l.indent = indent ∧ !isDash l.text then
      match keyOf l.text with
      | none => some (out, l :: ls)
      | some (k, v) =>
        if v ≠ [] then (y.inline v).bind fun v => map n indent (y.put out k v) ls
        else if deeper indent ls then
          (node n (indentOf ls) ls).bind fun p => map n indent (y.put out k p.1) p.2
        else if dashed indent ls then
          (seq n indent [] ls).bind fun p => map n indent (y.put out k (y.list p.1)) p.2
        else map n indent (y.put out k y.null) ls
    else some (out, l :: ls)

end

end Block

/-- The values of a text. -/
def values (n : Nat) : Values Value where
  null := .null
  inline := inline n
  list := .list
  empty := .map []
  put
    | .map m, k, v => .map (put m k v)
    | out, _, _ => out

/-- `parse`, in `n` rounds. -/
def parse (n : Nat) (text : List Char) : Option Value :=
  match lines text with
  | [] => some .null
  | l :: ls => (Block.node (values n) n l.indent (l :: ls)).map (·.1)

end Ghajar.MiniYaml
