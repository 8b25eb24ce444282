/-!
# Text

The classes of characters the program's own library functions go by, and those
functions.
-/

namespace Text

/-- Blanks, separators and the control characters that separate text. -/
def isWhitespace (c : Char) : Bool :=
  let n := c.toNat
  (9 ≤ n && n ≤ 13) || (28 ≤ n && n ≤ 32) || n == 0xA0 || n == 0x1680 ||
    (0x2000 ≤ n && n ≤ 0x200A) || n == 0x2028 || n == 0x2029 || n == 0x202F || n == 0x205F ||
    n == 0x3000

def isBlank (cs : List Char) : Bool := cs.all isWhitespace

/-- The zeros of the decimal digits, ten of each in a row. -/
def digitZeros : List Nat :=
  [0x30, 0x660, 0x6F0, 0x7C0, 0x966, 0x9E6, 0xA66, 0xAE6, 0xB66, 0xBE6, 0xC66, 0xCE6, 0xD66,
    0xDE6, 0xE50, 0xED0, 0xF20, 0x1040, 0x1090, 0x17E0, 0x1810, 0x1946, 0x19D0, 0x1A80, 0x1A90,
    0x1B50, 0x1BB0, 0x1C40, 0x1C50, 0xA620, 0xA8D0, 0xA900, 0xA9D0, 0xA9F0, 0xAA50, 0xABF0,
    0xFF10]

def digitOf (c : Char) : Option Nat :=
  (digitZeros.find? fun z => z ≤ c.toNat ∧ c.toNat < z + 10).map (c.toNat - ·)

def digits : List Char → Option Nat
  | [] => none
  | cs => cs.foldl (fun n c => n.bind fun n => (digitOf c).map (10 * n + ·)) (some 0)

/-- A decimal number of 32 bits, with a sign or without. -/
def toIntOrNull (s : String) : Option Int :=
  let n : Option Int := match s.toList with
    | '-' :: cs => (digits cs).map fun n => -(n : Int)
    | '+' :: cs => (digits cs).map fun n => (n : Int)
    | cs => (digits cs).map fun n => (n : Int)
  n.filter fun n => -2147483648 ≤ n ∧ n ≤ 2147483647

/-- The letter a character is where case is ignored, down to the ASCII letters. -/
def foldCase (c : Char) : Char :=
  if c.toNat = 0x17F then 's'
  else if c.toNat = 0x130 ∨ c.toNat = 0x131 then 'i'
  else if c.toNat = 0x212A then 'k'
  else c.toLower

/-- Equality but for case, with a word of ASCII letters. -/
def equalsIgnoreCase (s word : String) : Bool := s.toList.map foldCase == word.toList.map foldCase

def split (sep : Char) : List Char → List (List Char)
  | [] => [[]]
  | c :: cs =>
    if c = sep then [] :: split sep cs
    else match split sep cs with
      | [] => [[c]]
      | w :: ws => (c :: w) :: ws

theorem split_ne_nil (sep : Char) (cs : List Char) : split sep cs ≠ [] := by
  cases cs with
  | nil => exact List.cons_ne_nil [] []
  | cons c cs =>
    unfold split
    split
    · exact List.cons_ne_nil _ _
    · cases split sep cs <;> exact List.cons_ne_nil _ _

end Text

namespace String

def blank (s : String) : Bool := Text.isBlank s.toList

def ifBlank (s fallback : String) : String := if s.blank then fallback else s

def ifEmpty (s fallback : String) : String := if s = "" then fallback else s

def trimmed (s : String) : String :=
  String.ofList ((s.toList.dropWhile Text.isWhitespace).reverse.dropWhile Text.isWhitespace).reverse

/-- Lower case, down to the ASCII letters. -/
def lowercase (s : String) : String := String.ofList (s.toList.map Char.toLower)

def parts (s : String) (sep : Char) : List String := (Text.split sep s.toList).map String.ofList

def substringBefore (s : String) (sep : Char) : String :=
  String.ofList (s.toList.takeWhile (· ≠ sep))

end String
