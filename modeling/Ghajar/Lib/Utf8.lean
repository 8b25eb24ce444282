/-!
# UTF-8 with replacement

`encode` is the UTF-8 of a text. `decode skip` reads any bytes back: a well
formed head gives its character, a malformed one gives U+FFFD and drops
`skip` bytes (decoders differ in how many). Reading an encoding gives the text
back whatever `skip` is (`decode_encode`).
-/

namespace Utf8

def encode (s : List Char) : List UInt8 := s.flatMap String.utf8EncodeChar

/-- `decode` with as many rounds as there are bytes; each takes at least one. -/
def decodeN (skip : List UInt8 → Nat) : Nat → List UInt8 → List Char
  | _, [] => []
  | 0, _ :: _ => []
  | n + 1, b :: bs =>
    match (b :: bs).toByteArray.utf8DecodeChar? 0 with
    | some c => c :: decodeN skip n ((b :: bs).drop c.utf8Size)
    | none => '\uFFFD' :: decodeN skip n (bs.drop (skip (b :: bs) - 1))

def decode (skip : List UInt8 → Nat) (b : List UInt8) : List Char := decodeN skip b.length b

@[simp] theorem encode_nil : encode [] = [] := rfl

theorem encode_cons (c : Char) (s : List Char) :
    encode (c :: s) = String.utf8EncodeChar c ++ encode s := rfl

@[simp] theorem encode_append (s t : List Char) : encode (s ++ t) = encode s ++ encode t :=
  List.flatMap_append

theorem utf8EncodeChar_ne_nil (c : Char) : String.utf8EncodeChar c ≠ [] := by
  intro h
  have hl := String.length_utf8EncodeChar c
  have hp := c.utf8Size_pos
  rw [h, List.length_nil] at hl
  omega

theorem decodeN_encode {skip : List UInt8 → Nat} :
    ∀ {s : List Char} {n : Nat}, (encode s).length ≤ n → decodeN skip n (encode s) = s := by
  intro s
  induction s with
  | nil => intro n _; cases n <;> rfl
  | cons c s ih =>
    intro n hn
    rw [encode_cons] at hn ⊢
    obtain ⟨b, bs, hb⟩ := List.exists_cons_of_ne_nil (utf8EncodeChar_ne_nil c)
    have hlen : (b :: bs).length = c.utf8Size := by rw [← hb]; exact String.length_utf8EncodeChar c
    rw [List.length_append] at hn
    obtain ⟨m, rfl⟩ : ∃ m, n = m + 1 := ⟨n - 1, by
      have := c.utf8Size_pos; rw [hb, hlen] at hn; omega⟩
    have hdec : (b :: bs ++ encode s).toByteArray.utf8DecodeChar? 0 = some c := by
      rw [← hb, List.toByteArray_append]
      exact ByteArray.utf8DecodeChar?_utf8EncodeChar_append
    rw [hb, List.cons_append, decodeN]
    rw [List.cons_append] at hdec
    rw [hdec]
    simp only [← List.cons_append]
    rw [← hlen, List.drop_left, ih]
    rw [hb] at hn
    simp only [List.length_cons] at hn
    omega

/-- No character takes more than four bytes. -/
theorem encode_length (s : List Char) : (encode s).length ≤ 4 * s.length := by
  induction s with
  | nil => exact Nat.le_refl _
  | cons c s ih =>
    have hc := String.length_utf8EncodeChar c
    have hle := c.utf8Size_le_four
    rw [encode_cons, List.length_append, List.length_cons]
    omega

theorem decode_encode (skip : List UInt8 → Nat) (s : List Char) : decode skip (encode s) = s :=
  decodeN_encode (Nat.le_refl _)

theorem decodeN_length {skip : List UInt8 → Nat} {n : Nat} {b : List UInt8} :
    (decodeN skip n b).length ≤ b.length := by
  induction n generalizing b with
  | zero => cases b <;> simp [decodeN]
  | succ n ih =>
    cases b with
    | nil => simp [decodeN]
    | cons x b =>
      rw [decodeN]
      split
      case h_1 c _ =>
        have hlen := @ih ((x :: b).drop c.utf8Size)
        have hpos := c.utf8Size_pos
        simp only [List.length_cons, List.length_drop] at hlen ⊢
        omega
      case h_2 =>
        have hlen := @ih (b.drop (skip (x :: b) - 1))
        simp only [List.length_cons, List.length_drop] at hlen ⊢
        omega

end Utf8
