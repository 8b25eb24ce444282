import Mathlib
import Ghajar.Config.ProxyConfig
import Ghajar.Lib.Search
import Ghajar.Lib.Utf8

/-!
# Parts of a share link

What the parsers of `ConfigParser` have in common: the name after `#`, the query after `?`, host
and port, and the two ways an escaped text is decoded. A text that cannot be decoded is left as it
is, a port that is no number makes a parser give up.
-/

namespace Ghajar.ShareLink

open Ghajar

abbrev Chars := List Char

def trim (cs : Chars) : Chars :=
  ((cs.dropWhile Text.isWhitespace).reverse.dropWhile Text.isWhitespace).reverse

/-- The text before the first `sep`, all of it where there is none. -/
def before (sep : Char) (cs : Chars) : Chars := cs.takeWhile (· ≠ sep)

/-- The text after the first `sep`, nothing where there is none. -/
def after (sep : Char) (cs : Chars) : Chars := (cs.dropWhile (· ≠ sep)).tail

theorem takeWhile_sep {sep : Char} {as bs : Chars} (h : sep ∉ as) :
    before sep (as ++ sep :: bs) = as ∧ after sep (as ++ sep :: bs) = bs := by
  have hp : ∀ c ∈ as, decide (c ≠ sep) = true := fun c hc =>
    decide_eq_true fun he => h (he ▸ hc)
  rw [before, after, List.takeWhile_append_of_pos hp, List.dropWhile_append_of_pos hp]
  simp

theorem sep_inj {sep : Char} {as bs as' bs' : Chars} (h : sep ∉ as) (h' : sep ∉ as')
    (he : as ++ sep :: bs = as' ++ sep :: bs') : as = as' ∧ bs = bs' := by
  have hl := @takeWhile_sep sep as bs h
  rw [he] at hl
  have hr := @takeWhile_sep sep as' bs' h'
  exact ⟨hl.1.symm.trans hr.1, hl.2.symm.trans hr.2⟩

/-- `substringAfterLast` -/
def afterLast (sep : Char) (cs : Chars) : Chars := (before sep cs.reverse).reverse

/-- The text before the last `sep`, nothing where there is none. -/
def beforeLast (sep : Char) (cs : Chars) : Chars := (after sep cs.reverse).reverse

def isBlank (cs : Chars) : Bool := cs.all Text.isWhitespace

def ifBlank (cs fallback : Chars) : Chars := if isBlank cs then fallback else cs

def ifEmpty (cs fallback : Chars) : Chars := if cs = [] then fallback else cs

/-! ## Escapes -/

def hexValue (c : Char) : Option Nat :=
  if '0' ≤ c ∧ c ≤ '9' then some (c.toNat - 48)
  else if 'A' ≤ c ∧ c ≤ 'F' then some (c.toNat - 55)
  else if 'a' ≤ c ∧ c ≤ 'f' then some (c.toNat - 87)
  else none

/-- The bytes of the escapes a text begins with and what stands after them. -/
def escapes : Chars → Option (List UInt8 × Chars)
  | '%' :: x :: y :: cs =>
    match hexValue x, hexValue y with
    | some h, some l => (escapes cs).map fun r => (UInt8.ofNat (16 * h + l) :: r.1, r.2)
    | _, _ => none
  | '%' :: _ => none
  | cs => some ([], cs)

/-- How many bytes one replacement character stands for where the bytes are no UTF-8. -/
abbrev Replaced := List UInt8 → Nat

def decodeN (skip : Replaced) : Nat → Chars → Option Chars
  | 0, _ | _, [] => some []
  | n + 1, c :: cs =>
    if c = '+' then (decodeN skip n cs).map (' ' :: ·)
    else if c = '%' then
      (escapes (c :: cs)).bind fun r =>
        (decodeN skip n r.2).map (Utf8.decode skip r.1 ++ ·)
    else (decodeN skip n cs).map (c :: ·)

/-- `URLDecoder.decode`, nothing where it throws. -/
def urlDecode (skip : Replaced) (cs : Chars) : Option Chars := decodeN skip cs.length cs

def formDecode (skip : Replaced) (cs : Chars) : Chars := (urlDecode skip cs).getD cs

def pctDecode (skip : Replaced) (cs : Chars) : Chars :=
  (urlDecode skip (cs.flatMap fun c => if c = '+' then ['%', '2', 'B'] else [c])).getD cs

/-! ## Query -/

/-- The pairs in the order they were put. -/
abbrev Query := List (Chars × Chars)

def parseQuery (skip : Replaced) (query : Chars) : Query :=
  (Text.split '&' query).filterMap fun part =>
    if '=' ∈ part ∧ trim (before '=' part) ≠ [] then
      some (trim (before '=' part), formDecode skip (after '=' part))
    else none

/-- The last value under this name in any case. -/
def Query.get? (q : Query) (name : String) : Option Chars :=
  (q.reverse.find? fun e => Text.equalsIgnoreCase (String.ofList e.1) name).map Prod.snd

/-- `orEmpty()` -/
def Query.get (q : Query) (name : String) : Chars := (q.get? name).getD []

def splitUserUri (skip : Replaced) (body fallback : Chars) : Chars × Chars × Query :=
  let main := before '#' body
  (ifEmpty (trim (formDecode skip (after '#' body))) fallback, trim (before '?' main),
    parseQuery skip (after '?' main))

/-! ## Host and port -/

def toInt (cs : Chars) : Option Int := Text.toIntOrNull (String.ofList (trim cs))

def splitHostPort (raw : Chars) : Option (Chars × Int) :=
  match before '/' (trim raw) with
  | '[' :: s =>
    if ']' ∈ s then
      match after ']' s with
      | _ :: port => (toInt port).map (before ']' s, ·)
      | [] => none
    else none
  | s => if ':' ∈ s then (toInt (afterLast ':' s)).map (beforeLast ':' s, ·) else none

def removeBrackets (s : Chars) : Chars :=
  let t := if s.head? = some '[' then s.tail else s
  if t.getLast? = some ']' then t.dropLast else t

def splitHostPortOrDefault (raw : Chars) (fallback : Int) : Option (Chars × Int) :=
  let s := before '/' (trim raw)
  let hasPort : Bool :=
    if s.head? = some '[' then (Search.index [']', ':'] s).isSome else s.count ':' == 1
  if hasPort then splitHostPort s else some (removeBrackets s, fallback)

end Ghajar.ShareLink
