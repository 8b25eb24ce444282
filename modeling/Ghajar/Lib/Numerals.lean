import Mathlib
import Ghajar.Lib.Text

/-!
# Numbers written out

A number that is not negative is read as it is written (`toIntOrNull_toString`).
-/

namespace Text

theorem digitOf_digit {c : Char} (h : c.isDigit = true) :
    digitOf c = some (c.toNat - '0'.toNat) := by
  simp only [Char.isDigit, Bool.and_eq_true, decide_eq_true_eq, ge_iff_le,
    UInt32.le_iff_toNat_le] at h
  change 48 ≤ c.toNat ∧ c.toNat ≤ 57 at h
  have hz : (0x30 ≤ c.toNat ∧ c.toNat < 0x30 + 10) := by omega
  rw [digitOf, digitZeros, List.find?_cons_of_pos (by simpa using hz)]
  rfl

theorem digits_foldl {cs : List Char} (h : ∀ c ∈ cs, c.isDigit = true) (n : ℕ) :
    cs.foldl (fun n c => n.bind fun n => (digitOf c).map (10 * n + ·)) (some n) =
      some (Nat.ofDigitChars 10 cs n) := by
  induction cs generalizing n with
  | nil => rfl
  | cons c cs ih =>
    rw [List.foldl_cons, Option.bind_some, digitOf_digit (h c List.mem_cons_self), Option.map_some,
      ih fun d hd => h d (List.mem_cons_of_mem _ hd), Nat.ofDigitChars_cons]

theorem digits_toDigits (n : ℕ) : digits (Nat.toDigits 10 n) = some n := by
  have hne : Nat.toDigits 10 n ≠ [] := Nat.toDigits_ne_nil
  have hall : ∀ c ∈ Nat.toDigits 10 n, c.isDigit = true := fun c hc =>
    Nat.isDigit_of_mem_toDigits (by decide) (by decide) hc
  have hfold := digits_foldl hall 0
  rw [Nat.ofDigitChars_ten_toDigits] at hfold
  rw [← hfold]
  cases hd : Nat.toDigits 10 n with
  | nil => exact absurd hd hne
  | cons c cs => rfl

/-- A number that is not negative is read as it is written. -/
theorem toIntOrNull_toString {n : ℤ} (h0 : 0 ≤ n) (h : n ≤ 2147483647) :
    toIntOrNull (toString n) = some n := by
  obtain ⟨m, rfl⟩ := Int.eq_ofNat_of_zero_le h0
  have hlist : (toString (m : ℤ)).toList = Nat.toDigits 10 m := Nat.toList_repr
  have hdigit : ∀ c ∈ Nat.toDigits 10 m, c.isDigit = true := fun c hc =>
    Nat.isDigit_of_mem_toDigits (by decide) (by decide) hc
  have hread := digits_toDigits m
  unfold toIntOrNull
  dsimp only
  rw [hlist]
  cases hd : Nat.toDigits 10 m with
  | nil => exact absurd hd Nat.toDigits_ne_nil
  | cons c cs =>
    rw [hd] at hread hdigit
    have hc := hdigit c List.mem_cons_self
    split
    · next he =>
      cases he
      cases hc
    · next he =>
      cases he
      cases hc
    · rw [hread]
      exact Option.filter_eq_some_iff.2 ⟨rfl, decide_eq_true ⟨by omega, h⟩⟩

end Text
