import Mathlib.Data.List.Basic

/-!
# Base64

`encode` writes three bytes as four digits of an alphabet, the last group with padding or
without. `decode` reads one character after the other: a character that is no digit and no
padding is skipped, and padding may be left out. `decode_encode` is the round trip,
`decode_filter` says that only digits and padding count.
-/

namespace Base64

inductive Alphabet where
  | standard
  | urlSafe
  deriving Repr, DecidableEq

namespace Alphabet

def char (a : Alphabet) (n : Nat) : Char :=
  if n < 26 then Char.ofNat (65 + n)
  else if n < 52 then Char.ofNat (71 + n)
  else if n < 62 then Char.ofNat (n - 4)
  else if n = 62 then match a with
    | standard => '+'
    | urlSafe => '-'
  else match a with
    | standard => '/'
    | urlSafe => '_'

def digit (a : Alphabet) (c : Char) : Option Nat :=
  if c.isUpper then some (c.toNat - 65)
  else if c.isLower then some (c.toNat - 71)
  else if c.isDigit then some (c.toNat + 4)
  else match a with
    | standard => if c = '+' then some 62 else if c = '/' then some 63 else none
    | urlSafe => if c = '-' then some 62 else if c = '_' then some 63 else none

theorem digit_char (a : Alphabet) : ∀ n < 64, a.digit (a.char n) = some n := by
  cases a <;> decide

theorem digit_pad (a : Alphabet) : a.digit '=' = none := by
  cases a <;> decide

end Alphabet

/-! ## Writing -/

def encode (a : Alphabet) (pad : Bool) : List UInt8 → List Char
  | [] => []
  | [x] =>
    a.char (x.toNat / 4) :: a.char (x.toNat % 4 * 16) :: if pad then ['=', '='] else []
  | [x, y] =>
    a.char (x.toNat / 4) :: a.char (x.toNat % 4 * 16 + y.toNat / 16) ::
      a.char (y.toNat % 16 * 4) :: if pad then ['='] else []
  | x :: y :: z :: bs =>
    a.char (x.toNat / 4) :: a.char (x.toNat % 4 * 16 + y.toNat / 16) ::
      a.char (y.toNat % 16 * 4 + z.toNat / 64) :: a.char (z.toNat % 64) :: encode a pad bs

/-! ## Reading -/

/-- How many digits of a group are read, and their number; or how the padding stands. -/
inductive State where
  | start
  | one (v : Nat)
  | two (v : Nat)
  | three (v : Nat)
  /-- One more is expected. -/
  | padding
  | done
  deriving Repr, DecidableEq

/-- What the digits of an unfinished group stand for, at the end or before the padding. -/
def State.bytes : State → List UInt8
  | two v => [UInt8.ofNat (v / 16)]
  | three v => [UInt8.ofNat (v / 1024), UInt8.ofNat (v / 4)]
  | _ => []

/-- Whether the input may end here. -/
def State.ends : State → Bool
  | one _ | padding => false
  | _ => true

/-- A digit: the bytes of the group it closes, and the state behind it. -/
def State.digit (d : Nat) : State → Option (List UInt8 × State)
  | start => some ([], one d)
  | one v => some ([], two (v * 64 + d))
  | two v => some ([], three (v * 64 + d))
  | three v =>
    let v := v * 64 + d
    some ([UInt8.ofNat (v / 65536), UInt8.ofNat (v / 256), UInt8.ofNat v], start)
  | padding | done => none

def State.pad : State → Option (List UInt8 × State)
  | two v => some ((two v).bytes, padding)
  | three v => some ((three v).bytes, done)
  | padding => some ([], done)
  | start | one _ | done => none

def State.next (a : Alphabet) (s : State) (c : Char) : Option (List UInt8 × State) :=
  match a.digit c with
  | some d => s.digit d
  | none => if c = '=' then s.pad else some ([], s)

def read (a : Alphabet) : State → List Char → Option (List UInt8)
  | s, [] => if s.ends then some s.bytes else none
  | s, c :: cs => (s.next a c).bind fun r => (read a r.2 cs).map (r.1 ++ ·)

def decode (a : Alphabet) (cs : List Char) : Option (List UInt8) := read a .start cs

/-- A character that counts. -/
def counts (a : Alphabet) (c : Char) : Bool := (a.digit c).isSome || c == '='

section Lemmas

variable {a : Alphabet} {s : State} {c : Char} {cs : List Char} {d n : Nat} {bs : List UInt8}

theorem next_char (h : n < 64) : s.next a (a.char n) = s.digit n := by
  rw [State.next, a.digit_char n h]

theorem next_pad : s.next a '=' = s.pad := by
  rw [State.next, a.digit_pad]
  rfl

theorem read_char (h : n < 64) :
    read a s (a.char n :: cs) = (s.digit n).bind fun r => (read a r.2 cs).map (r.1 ++ ·) := by
  rw [read, next_char h]

theorem read_skip (h : counts a c = false) : read a s (c :: cs) = read a s cs := by
  have hd : a.digit c = none := by
    cases hd : a.digit c with
    | none => rfl
    | some d => simp [counts, hd] at h
  have hc : c ≠ '=' := by
    rintro rfl
    simp [counts] at h
  rw [read, State.next, hd]
  simp [hc]

/-- Only digits and padding count. -/
theorem read_filter : read a s (cs.filter (counts a)) = read a s cs := by
  induction cs generalizing s with
  | nil => rfl
  | cons c cs ih =>
    cases hc : counts a c with
    | false => rw [List.filter_cons_of_neg (by simp [hc]), read_skip hc, ih]
    | true =>
      rw [List.filter_cons_of_pos hc, read, read]
      simp only [ih]

theorem decode_filter : decode a (cs.filter (counts a)) = decode a cs := read_filter

theorem read_encode (pad : Bool) : read a .start (encode a pad bs) = some bs := by
  fun_induction encode a pad bs with
  | case1 => rfl
  | case2 x =>
    have hx := x.toNat_lt
    have h : UInt8.ofNat ((x.toNat / 4 * 64 + x.toNat % 4 * 16) / 16) = x := by
      apply UInt8.toNat_inj.1
      rw [UInt8.toNat_ofNat']
      omega
    rw [read_char (by omega)]
    simp only [State.digit, Option.bind_some]
    rw [read_char (by omega)]
    cases pad
    · simp [State.digit, read, State.ends, State.bytes, h]
    · simp [State.digit, read, next_pad, State.pad, State.ends, State.bytes, h]
  | case3 x y =>
    have hx := x.toNat_lt
    have hy := y.toNat_lt
    have h1 : UInt8.ofNat (((x.toNat / 4 * 64 + (x.toNat % 4 * 16 + y.toNat / 16)) * 64 +
        y.toNat % 16 * 4) / 1024) = x := by
      apply UInt8.toNat_inj.1
      rw [UInt8.toNat_ofNat']
      omega
    have h2 : UInt8.ofNat (((x.toNat / 4 * 64 + (x.toNat % 4 * 16 + y.toNat / 16)) * 64 +
        y.toNat % 16 * 4) / 4) = y := by
      apply UInt8.toNat_inj.1
      rw [UInt8.toNat_ofNat']
      omega
    rw [read_char (by omega)]
    simp only [State.digit, Option.bind_some]
    rw [read_char (by omega)]
    simp only [State.digit, Option.bind_some]
    rw [read_char (by omega)]
    cases pad
    · simp [State.digit, read, State.ends, State.bytes, h1, h2]
    · simp [State.digit, read, next_pad, State.pad, State.ends, State.bytes, h1, h2]
  | case4 x y z bs ih =>
    have hx := x.toNat_lt
    have hy := y.toNat_lt
    have hz := z.toNat_lt
    have hv : ((x.toNat / 4 * 64 + (x.toNat % 4 * 16 + y.toNat / 16)) * 64 +
        (y.toNat % 16 * 4 + z.toNat / 64)) * 64 + z.toNat % 64 =
        x.toNat * 65536 + y.toNat * 256 + z.toNat := by omega
    have h1 : UInt8.ofNat ((x.toNat * 65536 + y.toNat * 256 + z.toNat) / 65536) = x := by
      apply UInt8.toNat_inj.1
      rw [UInt8.toNat_ofNat']
      omega
    have h2 : UInt8.ofNat ((x.toNat * 65536 + y.toNat * 256 + z.toNat) / 256) = y := by
      apply UInt8.toNat_inj.1
      rw [UInt8.toNat_ofNat']
      omega
    have h3 : UInt8.ofNat (x.toNat * 65536 + y.toNat * 256 + z.toNat) = z := by
      apply UInt8.toNat_inj.1
      rw [UInt8.toNat_ofNat']
      omega
    rw [read_char (by omega)]
    simp only [State.digit, Option.bind_some]
    rw [read_char (by omega)]
    simp only [State.digit, Option.bind_some]
    rw [read_char (by omega)]
    simp only [State.digit, Option.bind_some]
    rw [read_char (by omega)]
    simp only [State.digit, Option.bind_some, ih, hv, h1, h2, h3]
    rfl

/-- Everything that is written counts. -/
theorem counts_encode {pad : Bool} (h : c ∈ encode a pad bs) : counts a c = true := by
  have hchar (n : Nat) (hn : n < 64) : counts a (a.char n) = true := by
    simp [counts, a.digit_char n hn]
  have hpad : counts a '=' = true := by simp [counts]
  fun_induction encode a pad bs with
  | case1 => cases h
  | case2 x =>
    have hx := x.toNat_lt
    simp only [List.mem_cons] at h
    rcases h with rfl | rfl | h
    · exact hchar _ (by omega)
    · exact hchar _ (by omega)
    · cases pad
      · cases h
      · simp only [if_true, List.mem_cons, List.not_mem_nil, or_false, or_self] at h
        rw [h, hpad]
  | case3 x y =>
    have hx := x.toNat_lt
    have hy := y.toNat_lt
    simp only [List.mem_cons] at h
    rcases h with rfl | rfl | rfl | h
    · exact hchar _ (by omega)
    · exact hchar _ (by omega)
    · exact hchar _ (by omega)
    · cases pad
      · cases h
      · rw [List.mem_singleton.1 h, hpad]
  | case4 x y z bs ih =>
    have hx := x.toNat_lt
    have hy := y.toNat_lt
    have hz := z.toNat_lt
    simp only [List.mem_cons] at h
    rcases h with rfl | rfl | rfl | rfl | h
    · exact hchar _ (by omega)
    · exact hchar _ (by omega)
    · exact hchar _ (by omega)
    · exact hchar _ (by omega)
    · exact ih h

/-- **What is written is read back**, with padding or without. -/
theorem decode_encode (pad : Bool) : decode a (encode a pad bs) = some bs := read_encode pad

end Lemmas

/-! ## Lengths -/

/-- How many bytes more than there are characters may follow. -/
def State.owed : State → ℕ
  | two _ => 1
  | three _ => 2
  | _ => 0

theorem read_length {a : Alphabet} {s : State} {cs : List Char} {b : List UInt8}
    (h : read a s cs = some b) : b.length ≤ cs.length + s.owed := by
  induction cs generalizing s b with
  | nil =>
    rw [read] at h
    split at h
    · cases h
      cases s <;> simp [State.bytes, State.owed]
    · cases h
  | cons c cs ih =>
    rw [read, Option.bind_eq_some_iff] at h
    obtain ⟨⟨out, next⟩, hnext, h⟩ := h
    obtain ⟨rest, hrest, rfl⟩ := Option.map_eq_some_iff.1 h
    have hlen := ih hrest
    have hstep : out.length + next.owed ≤ 1 + s.owed := by
      unfold State.next at hnext
      split at hnext
      · cases s <;> simp only [State.digit] at hnext <;> cases hnext <;> simp [State.owed]
      · split at hnext
        · cases s <;> simp only [State.pad] at hnext <;> cases hnext <;>
            simp [State.owed, State.bytes]
        · cases hnext
          simp
    simp only [List.length_append, List.length_cons] at hlen ⊢
    omega

theorem decode_length {a : Alphabet} {cs : List Char} {b : List UInt8}
    (h : decode a cs = some b) : b.length ≤ cs.length := read_length h

end Base64
