import Ghajar.Crypto.Carry
import Ghajar.Lib.X25519
import Mathlib.Data.Int.Cast.Lemmas

/-!
# The field operations are exact

A product is `Reduced`: carried but for the lowest limb, which is off by at most one
carry of thirty-eight. A sum or a difference of two reduced elements is `Loose`, and
a product needs no more of its factors than that. `value` is the element of the
field that an array stands for.
-/

namespace Ghajar.Curve25519

open Checked Limbs

/-- What every product is. -/
structure Reduced (t : List Long) : Prop where
  length : t.length = 16
  lowest : -38 ≤ limb t 0 ∧ limb t 0 ≤ 65573
  rest : ∀ k, 1 ≤ k → k < 16 → 0 ≤ limb t k ∧ limb t k < 65536

/-- What a factor may be. -/
structure Loose (t : List Long) : Prop where
  length : t.length = 16
  limbs : ∀ k < 16, -131146 ≤ limb t k ∧ limb t k ≤ 131146

theorem Reduced.limbs {t : List Long} (h : Reduced t) :
    ∀ k < 16, -38 ≤ limb t k ∧ limb t k ≤ 65573 := by
  intro k hk
  rcases Nat.eq_zero_or_pos k with rfl | hp
  · exact h.lowest
  · have := h.rest k hp hk
    omega

theorem Reduced.loose {t : List Long} (h : Reduced t) : Loose t where
  length := h.length
  limbs := fun k hk => by
    have := h.limbs k hk
    omega

/-- The element that an array stands for. -/
def value (t : List Long) : ZMod X25519.prime := ((part t 16 : Int) : ZMod X25519.prime)

theorem weight_eq_zero : ((2 ^ 256 - 38 : Int) : ZMod X25519.prime) = 0 := by
  rw [ZMod.intCast_zmod_eq_zero_iff_dvd]
  exact ⟨2, by decide⟩

/-- Multiples of `2^256 - 38` do not change the element. -/
theorem value_eq {s t : List Long} {q : Int} (h : part s 16 = part t 16 - q * (2 ^ 256 - 38)) :
    value s = value t := by
  rw [value, value, h, Int.cast_sub, Int.cast_mul, weight_eq_zero, mul_zero, sub_zero]

/-! ## Sums and differences -/

section Pointwise

variable {a b : List Long} {f : Long → Long → Checked Long} {g : Int → Int → Int}

/-- A loop that writes each limb of the result from those of its arguments. -/
theorem pointwise_ok (hf : ∀ k < 16, Ok (f (a.getD k 0) (b.getD k 0)) fun v =>
      v.toInt = g (limb a k) (limb b k)) :
    Ok ((List.range 16).foldlM (fun o i => do return o.set i (← f (a.getD i 0) (b.getD i 0)))
      (List.replicate 16 0)) fun o =>
        o.length = 16 ∧ ∀ k < 16, limb o k = g (limb a k) (limb b k) := by
  have h := ok_loop (n := 16)
    (f := fun o i => do return o.set i (← f (a.getD i 0) (b.getD i 0)))
    (fun i (o : List Long) => o.length = 16 ∧ ∀ k < i, limb o k = g (limb a k) (limb b k))
    (fun i hi o ho => ?_) (a := List.replicate 16 0)
    ⟨List.length_replicate, fun k hk => absurd hk (Nat.not_lt_zero k)⟩
  · exact h
  · apply Ok.bind (hf i hi)
    intro v hv
    apply ok_pure
    refine ⟨by rw [List.length_set]; exact ho.1, fun k hk => ?_⟩
    rcases Nat.lt_or_eq_of_le (Nat.le_of_lt_succ hk) with hlt | rfl
    · rw [limb_set_ne (by omega)]
      exact ho.2 k hlt
    · rw [limb_set_self (by omega)]
      exact hv

end Pointwise

theorem add_ok {a b : List Long} (ha : Reduced a) (hb : Reduced b) :
    Ok (add a b) fun o => Loose o ∧ value o = value a + value b := by
  refine (pointwise_ok (a := a) (b := b) (g := (· + ·)) fun k hk => ?_).mono fun o ho => ?_
  · have h1 := ha.limbs k hk
    have h2 := hb.limbs k hk
    exact ok_add (by show _ ≤ limb a k + limb b k ∧ limb a k + limb b k < _; omega)
  · refine ⟨⟨ho.1, fun k hk => ?_⟩, ?_⟩
    · have h1 := ha.limbs k hk
      have h2 := hb.limbs k hk
      rw [ho.2 k hk]
      omega
    · rw [value, part_linear (s := a) (t := b) 1 fun k hk => by rw [ho.2 k hk, one_mul], one_mul,
        Int.cast_add]
      rfl

theorem sub_ok {a b : List Long} (ha : Reduced a) (hb : Reduced b) :
    Ok (sub a b) fun o => Loose o ∧ value o = value a - value b := by
  refine (pointwise_ok (a := a) (b := b) (g := (· - ·)) fun k hk => ?_).mono fun o ho => ?_
  · have h1 := ha.limbs k hk
    have h2 := hb.limbs k hk
    exact ok_sub (by show _ ≤ limb a k - limb b k ∧ limb a k - limb b k < _; omega)
  · refine ⟨⟨ho.1, fun k hk => ?_⟩, ?_⟩
    · have h1 := ha.limbs k hk
      have h2 := hb.limbs k hk
      rw [ho.2 k hk]
      omega
    · rw [value, part_linear (s := a) (t := b) (-1) fun k hk => by rw [ho.2 k hk]; ring,
        neg_one_mul, ← sub_eq_add_neg, Int.cast_sub]
      rfl

/-! ## Products -/

theorem mul_bound {a b m : Int} (ha : -m ≤ a ∧ a ≤ m) (hb : -m ≤ b ∧ b ≤ m) :
    -(m * m) ≤ a * b ∧ a * b ≤ m * m := by
  rw [← abs_le, abs_mul]
  exact mul_le_mul (abs_le.2 ha) (abs_le.2 hb) (abs_nonneg b) (le_trans (abs_nonneg a) (abs_le.2 ha))

/-- The limbs of the product before the turn `j` of the row `i`. -/
structure Rows (a b : List Long) (i j : Nat) (t : List Long) : Prop where
  length : t.length = 31
  limbs : ∀ k, -((16 * i + j) * (131146 * 131146)) ≤ limb t k ∧
    limb t k ≤ (16 * i + j) * (131146 * 131146)
  part : part t 31 = part a i * part b 16 + limb a i * 65536 ^ i * part b j

theorem rows_step {a b : List Long} (ha : Loose a) (hb : Loose b) {i j : Nat} (hi : i < 16)
    (hj : j < 16) {t : List Long} (h : Rows a b i j t) :
    Ok (mulStep a b i t j) (Rows a b i (j + 1)) := by
  have hm := mul_bound (ha.limbs i hi) (hb.limbs j hj)
  have ht := h.limbs (i + j)
  have hi' : (i : Int) < 16 := by omega
  have hj' : (j : Int) < 16 := by omega
  have hl := h.length
  unfold mulStep
  apply Ok.bind (ok_mul (by show _ ≤ limb a i * limb b j ∧ limb a i * limb b j < _; omega))
  intro p hp
  have hp : p.toInt = limb a i * limb b j := hp
  apply Ok.bind (ok_add (by show _ ≤ limb t (i + j) + _ ∧ limb t (i + j) + _ < _; omega))
  intro v hv
  have hv : v.toInt = limb t (i + j) + limb a i * limb b j := by rw [hv, hp]; rfl
  apply ok_pure
  refine ⟨by rw [List.length_set, hl], fun k => ?_, ?_⟩
  · rcases eq_or_ne (i + j) k with rfl | hne
    · rw [limb_set_self (by omega), hv]
      push_cast
      omega
    · rw [limb_set_ne hne]
      have hk := h.limbs k
      push_cast
      omega
  · rw [part_set (by omega) (by omega), h.part, hv, part_succ b j, pow_add]
    ring

/-- The sixteen rows. -/
theorem rows_ok {a b : List Long} (ha : Loose a) (hb : Loose b) :
    Ok ((List.range 16).foldlM (fun t i => (List.range 16).foldlM (mulStep a b i) t)
      (List.replicate 31 0)) (Rows a b 16 0) := by
  refine ok_loop (n := 16) (fun i => Rows a b i 0) (fun i hi t ht => ?_)
    ⟨List.length_replicate, fun k => ?_, ?_⟩
  · refine (ok_loop (n := 16) (Rows a b i) (fun j hj u hu => rows_step ha hb hi hj hu) ht).mono
      fun u hu => ⟨hu.length, fun k => ?_, ?_⟩
    · have hk := hu.limbs k
      push_cast at hk ⊢
      omega
    · rw [hu.part, part_succ a i, part_zero]
      ring
  · rw [limb_zero]
    omega
  · rw [part_zero, part_zero, zero_mul, mul_zero, add_zero, part]
    exact Finset.sum_eq_zero fun k _ => by rw [limb_zero, zero_mul]

/-- The product before the turn `i` of the second loop, which takes the upper limbs down. -/
structure Folded (t₀ : List Long) (i : Nat) (t : List Long) : Prop where
  length : t.length = 31
  low : ∀ k < i, limb t k = limb t₀ k + 38 * limb t₀ (k + 16)
  high : ∀ k, i ≤ k → limb t k = limb t₀ k

theorem foldStep_ok {t₀ t : List Long} {i : Nat} (hi : i < 15)
    (hb : ∀ k, -2 ^ 43 ≤ limb t₀ k ∧ limb t₀ k ≤ 2 ^ 43) (h : Folded t₀ i t) :
    Ok (foldStep t i) (Folded t₀ (i + 1)) := by
  have h38 : (38 : Long).toInt = 38 := by decide
  have hl := h.length
  have h1 := hb i
  have h2 := hb (i + 16)
  have e1 := h.high i (Nat.le_refl i)
  have e2 := h.high (i + 16) (by omega)
  unfold foldStep
  apply Ok.bind (ok_mul (a := 38)
    (by rw [h38]; show _ ≤ 38 * limb t (i + 16) ∧ 38 * limb t (i + 16) < _; omega))
  intro p hp
  have hp : p.toInt = 38 * limb t₀ (i + 16) := by rw [hp, h38, ← e2]; rfl
  apply Ok.bind (ok_add (by show _ ≤ limb t i + _ ∧ limb t i + _ < _; omega))
  intro v hv
  have hv : v.toInt = limb t₀ i + 38 * limb t₀ (i + 16) := by rw [hv, hp, ← e1]; rfl
  apply ok_pure
  refine ⟨by rw [List.length_set, hl], fun k hk => ?_, fun k hk => ?_⟩
  · rcases Nat.lt_or_eq_of_le (Nat.le_of_lt_succ hk) with hlt | rfl
    · rw [limb_set_ne (by omega)]
      exact h.low k hlt
    · rw [limb_set_self (by omega), hv]
  · rw [limb_set_ne (by omega)]
    exact h.high k (by omega)

/-- The carries of the first loop over a product. -/
def wide : Nat → Int
  | 0 => 0
  | _ + 1 => 2 ^ 34

/-- The carries of the second, out of an array whose lowest limb alone is large. -/
def narrow : Nat → Int
  | 0 => 0
  | 1 => 2 ^ 24
  | 2 => 256
  | _ + 3 => 1

theorem wide_carries {o : List Long} (hl : o.length = 16)
    (hb : ∀ k < 16, -2 ^ 49 ≤ limb o k ∧ limb o k ≤ 2 ^ 49) : Carries o wide where
  length := hl
  first := rfl
  bound
    | 0, _ => by decide
    | _ + 1, _ => by simp only [wide]; omega
  limbs := fun i hi => by have := hb i hi; omega
  out
    | 0, hi => by have := hb 0 hi; simp only [wide]; omega
    | i + 1, hi => by have := hb (i + 1) hi; simp only [wide]; omega

theorem narrow_carries {o : List Long} (hl : o.length = 16)
    (h0 : -2 ^ 40 ≤ limb o 0 ∧ limb o 0 < 2 ^ 40)
    (hb : ∀ k, 1 ≤ k → k < 16 → 0 ≤ limb o k ∧ limb o k < 65536) : Carries o narrow where
  length := hl
  first := rfl
  bound
    | 0, _ => by decide
    | 1, _ => by decide
    | 2, _ => by decide
    | _ + 3, _ => by simp only [narrow]; omega
  limbs
    | 0, _ => by omega
    | i + 1, hi => by have := hb (i + 1) (by omega) hi; omega
  out
    | 0, _ => by simp only [narrow]; omega
    | 1, hi => by have := hb 1 (by omega) hi; simp only [narrow]; omega
    | 2, hi => by have := hb 2 (by omega) hi; simp only [narrow]; omega
    | i + 3, hi => by have := hb (i + 3) (by omega) hi; simp only [narrow]; omega

/-- The two carries at the end of a product. -/
theorem carries_ok {o : List Long} (hl : o.length = 16)
    (hb : ∀ k < 16, -2 ^ 49 ≤ limb o k ∧ limb o k ≤ 2 ^ 49) :
    Ok (do car25519 (← car25519 o)) fun o' => Reduced o' ∧ value o' = value o := by
  apply Ok.bind (car25519_ok (wide_carries hl hb))
  rintro p ⟨hpl, hpr, q, r, hq1, hq2, hr1, hr2, hp0, hpp⟩
  have hw : wide 16 = 2 ^ 34 := rfl
  rw [hw] at hq1 hq2
  refine (car25519_ok (narrow_carries hpl (by omega) hpr)).mono ?_
  rintro u ⟨hul, hur, q', r', hq1', hq2', hr1', hr2', hu0, hup⟩
  have hn : narrow 16 = 1 := rfl
  rw [hn] at hq1' hq2'
  exact ⟨⟨hul, by omega, hur⟩, (value_eq hup).trans (value_eq hpp)⟩

theorem mul_ok {a b : List Long} (ha : Loose a) (hb : Loose b) :
    Ok (mul a b) fun o => Reduced o ∧ value o = value a * value b := by
  unfold mul
  apply Ok.bind (rows_ok ha hb)
  intro t ht
  have hlimbs : ∀ k, -2 ^ 43 ≤ limb t k ∧ limb t k ≤ 2 ^ 43 := fun k => by
    have := ht.limbs k
    push_cast at this
    omega
  apply Ok.bind (ok_loop (n := 15) (Folded t) (fun i hi u hu => foldStep_ok hi hlimbs hu)
    ⟨ht.length, fun k hk => absurd hk (Nat.not_lt_zero k), fun _ _ => rfl⟩)
  intro u hu
  have hul : (u.take 16).length = 16 := by rw [List.length_take, hu.length]; rfl
  have htop : limb (t.drop 16) 15 = 0 := by
    rw [limb_drop]
    exact limb_of_le (by have := ht.length; omega)
  have hlow (k : Nat) (hk : k < 16) :
      limb (u.take 16) k = limb t k + 38 * limb (t.drop 16) k := by
    rw [limb_take hk]
    rcases Nat.lt_or_eq_of_le (Nat.le_of_lt_succ hk) with hlt | rfl
    · rw [limb_drop, Nat.add_comm 16 k]
      exact hu.low k hlt
    · rw [htop, mul_zero, add_zero]
      exact hu.high 15 (Nat.le_refl 15)
  refine (carries_ok hul fun k hk => ?_).mono fun o ho => ⟨ho.1, ?_⟩
  · have h1 := hlimbs k
    have h2 := hlimbs (16 + k)
    rw [hlow k hk, limb_drop]
    omega
  · have hp : part (u.take 16) 16 = part t 16 + 38 * part (t.drop 16) 16 := part_linear 38 hlow
    have hd : part t 31 = part t 16 + 65536 ^ 16 * part (t.drop 16) 15 := part_drop t 16 15
    have hz : part (t.drop 16) 16 = part (t.drop 16) 15 := by
      rw [part_succ _ 15, htop, zero_mul, add_zero]
    have hr : part t 31 = part a 16 * part b 16 := by rw [ht.part, part_zero, mul_zero, add_zero]
    have he : part (u.take 16) 16 =
        part a 16 * part b 16 - part (t.drop 16) 15 * (2 ^ 256 - 38) := by
      rw [hp, hz, ← hr, hd]
      ring
    rw [ho.2, value, he, Int.cast_sub, Int.cast_mul, Int.cast_mul _ (2 ^ 256 - 38 : Int),
      weight_eq_zero, mul_zero, sub_zero]
    rfl

theorem sqr_ok {a : List Long} (ha : Loose a) :
    Ok (sqr a) fun o => Reduced o ∧ value o = value a ^ 2 := by
  rw [pow_two]
  exact mul_ok ha ha

end Ghajar.Curve25519
