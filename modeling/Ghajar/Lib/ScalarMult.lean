import Ghajar.Lib.Montgomery
import Ghajar.Lib.Prime25519
import Ghajar.Lib.X25519
import Mathlib.FieldTheory.Finite.Basic
import Mathlib.FieldTheory.IsAlgClosed.Basic

/-!
# X25519 is the u-coordinate of a multiple

Between two turns the swapped state of the ladder has the u-coordinates of `n P` and
`(n + 1) P`, where `n` is what the bits read so far stand for. The points are those
over any field above the one of `2^255 - 19` elements, so every coordinate is met,
on the curve or on its twist.
-/

namespace X25519

open Montgomery

instance : Fact prime.Prime := ⟨Prime25519.prime_25519⟩

variable {K : Type} [Field K] [DecidableEq K] {P : (curve (486662 : K)).Point}

/-- The swapped state has the multiples `n` and `n + 1`. -/
def Climbs (P : (curve (486662 : K)).Point) (n : Nat) (s : State K) : Prop :=
  Rep (n • P) (swapped s).x₂ (swapped s).z₂ ∧ Rep ((n + 1) • P) (swapped s).x₃ (swapped s).z₃

theorem turn_double (h2 : (2 : K) ≠ 0) {Q : (curve (486662 : K)).Point} {x₁ : K} {s : State K}
    (h : Rep Q s.x₂ s.z₂) : Rep (Q + Q) (turn x₁ s).x₂ (turn x₁ s).z₂ := by
  have hx : (turn x₁ s).x₂ = (s.x₂ ^ 2 - s.z₂ ^ 2) ^ 2 := by
    simp only [turn]
    ring
  have hz : (turn x₁ s).z₂ =
      4 * s.x₂ * s.z₂ * (s.x₂ ^ 2 + 486662 * s.x₂ * s.z₂ + s.z₂ ^ 2) := by
    simp only [turn, a24]
    push_cast
    ring
  rw [hx, hz]
  exact h.double h2

theorem turn_sum (h2 : (2 : K) ≠ 0) {Q R : (curve (486662 : K)).Point} {x₁ : K} {s : State K}
    (hd : Over (R - Q) x₁) (hx₁ : x₁ ≠ 0) (hQ : Rep Q s.x₂ s.z₂) (hR : Rep R s.x₃ s.z₃) :
    Rep (Q + R) (turn x₁ s).x₃ (turn x₁ s).z₃ := by
  have hx : (turn x₁ s).x₃ = 4 * (s.x₂ * s.x₃ - s.z₂ * s.z₃) ^ 2 := by
    simp only [turn]
    ring
  have hz : (turn x₁ s).z₃ = 4 * x₁ * (s.x₂ * s.z₃ - s.x₃ * s.z₂) ^ 2 := by
    simp only [turn]
    ring
  rw [hx, hz]
  exact Rep.sum h2 hd hx₁ hQ hR

theorem step_climbs (h2 : (2 : K) ≠ 0) {x₁ : K} (hP : Over P x₁) (hx₁ : x₁ ≠ 0) {n k t : Nat}
    {s : State K} (h : Climbs P n s) :
    Climbs P (2 * n + (k.testBit t).toNat) (step k x₁ s t) := by
  obtain ⟨hn, hn'⟩ := h
  have hstep : step k x₁ s t =
      { turn x₁ (swapped { swapped s with swap := k.testBit t }) with swap := k.testBit t } := by
    rw [step, swapped_xor]
    rfl
  rw [hstep]
  cases k.testBit t with
  | false =>
    have hd : Over ((n + 1) • P - n • P) x₁ := by rwa [succ_nsmul, add_sub_cancel_left]
    have h1 : Rep (n • P + n • P) (turn x₁ (swapped s)).x₂ (turn x₁ (swapped s)).z₂ :=
      turn_double h2 hn
    have h3 := turn_sum h2 (s := swapped s) hd hx₁ hn hn'
    have e1 : (2 * n + 0) • P = n • P + n • P := by rw [add_zero, two_mul, add_nsmul]
    have e3 : (2 * n + 0 + 1) • P = n • P + (n + 1) • P := by rw [← add_nsmul]; congr 1; omega
    exact ⟨e1 ▸ h1, e3 ▸ h3⟩
  | true =>
    have hd : Over (n • P - (n + 1) • P) x₁ := by
      have he : n • P - (n + 1) • P = -P := by rw [succ_nsmul, sub_add_cancel_left]
      rw [he]
      exact hP.neg
    let σ := swapped { swapped s with swap := true }
    have h1 : Rep ((n + 1) • P + (n + 1) • P) (turn x₁ σ).x₂ (turn x₁ σ).z₂ := turn_double h2 hn'
    have h3 : Rep ((n + 1) • P + n • P) (turn x₁ σ).x₃ (turn x₁ σ).z₃ := turn_sum h2 hd hx₁ hn' hn
    have e1 : (2 * n + 1 + 1) • P = (n + 1) • P + (n + 1) • P := by rw [← add_nsmul]; congr 1; omega
    have e3 : (2 * n + 1) • P = (n + 1) • P + n • P := by rw [← add_nsmul]; congr 1; omega
    exact ⟨e3 ▸ h3, e1 ▸ h1⟩

/-- The bits of `k` below `m`, from the highest. -/
theorem fold_climbs (h2 : (2 : K) ≠ 0) {x₁ : K} (hP : Over P x₁) (hx₁ : x₁ ≠ 0) {k m : Nat}
    {s : State K} (h : Climbs P (k / 2 ^ m) s) :
    Climbs P k ((List.range m).reverse.foldl (step k x₁) s) := by
  induction m generalizing s with
  | zero => simpa using h
  | succ m ih =>
    rw [List.range_succ, List.reverse_append, List.reverse_singleton, List.singleton_append,
      List.foldl_cons]
    apply ih
    have hb : k / 2 ^ m = 2 * (k / 2 ^ (m + 1)) + (k.testBit m).toNat := by
      rw [Nat.toNat_testBit, pow_succ, ← Nat.div_div_eq_div_mul]
      omega
    rw [hb]
    exact step_climbs h2 hP hx₁ h

theorem ladder_rep (h2 : (2 : K) ≠ 0) {x₁ : K} (hP : Over P x₁) (hx₁ : x₁ ≠ 0) {k : Nat}
    (hk : k < 2 ^ 255) : Rep (k • P) (ladder k x₁).x₂ (ladder k x₁).z₂ := by
  refine (fold_climbs h2 hP hx₁ (m := 255) ⟨?_, ?_⟩).1
  · rw [Nat.div_eq_of_lt hk, zero_nsmul]
    exact ⟨rfl, one_ne_zero⟩
  · rw [Nat.div_eq_of_lt hk, zero_add, one_nsmul, hP.rep_iff]
    exact ⟨one_ne_zero, (mul_one x₁).symm⟩

/-! ## The coordinate zero -/

/-- Above the coordinate zero each pair has a zero in it. -/
def Flat {R : Type} [CommRing R] (s : State R) : Prop :=
  s.x₂ * s.z₂ = 0 ∧ s.x₃ * s.z₃ = 0

theorem swapped_flat {R : Type} [CommRing R] {s : State R} : Flat (swapped s) ↔ Flat s := by
  cases s with
  | mk x₂ z₂ x₃ z₃ c =>
    cases c
    · exact Iff.rfl
    · exact and_comm

theorem step_flat {R : Type} [CommRing R] {k t : Nat} {s : State R} (h : Flat s) :
    Flat (step k 0 s t) := by
  have hs : Flat (swapped { s with swap := s.swap ^^ k.testBit t }) := swapped_flat.2 h
  generalize hτ : swapped { s with swap := s.swap ^^ k.testBit t } = τ at hs
  have hstep : step k 0 s t = { turn 0 τ with swap := k.testBit t } := by rw [← hτ]; rfl
  rw [hstep]
  constructor
  · simp only [turn]
    linear_combination
      4 * (τ.x₂ ^ 2 - τ.z₂ ^ 2) ^ 2 * ((τ.x₂ + τ.z₂) ^ 2 + 4 * (a24 : R) * τ.x₂ * τ.z₂) * hs.1
  · simp only [turn, zero_mul, mul_zero]

theorem ladder_flat {R : Type} [CommRing R] (k : Nat) :
    (ladder k (0 : R)).x₂ * (ladder k (0 : R)).z₂ = 0 := by
  have hf (l : List Nat) {s : State R} (h : Flat s) : Flat (l.foldl (step k 0) s) := by
    induction l generalizing s with
    | nil => exact h
    | cons t l ih => exact ih (step_flat h)
  exact (swapped_flat.2 (hf _ ⟨mul_zero 1, zero_mul 1⟩)).1

/-- The only point above the coordinate zero is its own negative. -/
theorem u_nsmul_zero (hP : Over P 0) (k : Nat) : u (k • P) = 0 := by
  have hd : P + P = 0 := by
    obtain ⟨y, h, rfl⟩ := hP
    have hy : y = 0 := by simpa using equation h
    subst hy
    exact double_axis h
  have he (m : Nat) : (m + m) • P = 0 := by
    rw [← two_mul, mul_comm, mul_nsmul', two_nsmul, hd, nsmul_zero]
  rcases Nat.even_or_odd' k with ⟨m, rfl | rfl⟩
  · rw [two_mul, he]
    rfl
  · rw [two_mul, succ_nsmul, he, zero_add]
    exact hP.u_eq

/-! ## Over the field of the coordinates -/

section Map

variable {R S : Type} [CommRing R] [CommRing S] (f : R →+* S)

def State.map (s : State R) : State S :=
  { x₂ := f s.x₂, z₂ := f s.z₂, x₃ := f s.x₃, z₃ := f s.z₃, swap := s.swap }

theorem swapped_map (s : State R) : swapped (s.map f) = (swapped s).map f := by
  cases s with
  | mk x₂ z₂ x₃ z₃ c => cases c <;> rfl

theorem turn_map (x : R) (s : State R) : turn (f x) (s.map f) = (turn x s).map f := by
  simp only [turn, State.map, map_add, map_sub, map_mul, map_pow, map_natCast]

theorem step_map (k : Nat) (x : R) (s : State R) (t : Nat) :
    step k (f x) (s.map f) t = (step k x s t).map f := by
  have hs : swapped { s.map f with swap := (s.map f).swap ^^ k.testBit t } =
      (swapped { s with swap := s.swap ^^ k.testBit t }).map f :=
    swapped_map f { s with swap := s.swap ^^ k.testBit t }
  rw [step, hs, turn_map]
  rfl

theorem ladder_map (k : Nat) (x : R) : ladder k (f x) = (ladder k x).map f := by
  have hf (l : List Nat) (s : State R) :
      l.foldl (step k (f x)) (s.map f) = (l.foldl (step k x) s).map f := by
    induction l generalizing s with
    | nil => rfl
    | cons t l ih => rw [List.foldl_cons, List.foldl_cons, step_map, ih]
  have h0 : ({ x₂ := 1, z₂ := 0, x₃ := f x, z₃ := 1, swap := false } : State S) =
      State.map f { x₂ := 1, z₂ := 0, x₃ := x, z₃ := 1, swap := false } := by
    rw [State.map, map_one, map_zero]
  rw [ladder, ladder, h0, hf, swapped_map]

end Map

/-- The power that the ladder ends with is the inverse. -/
theorem pow_inverse (z : ZMod prime) : z ^ (prime - 2) = z⁻¹ := by
  rcases eq_or_ne z 0 with rfl | hz
  · rw [inv_zero]
    exact zero_pow (by decide)
  · apply eq_inv_of_mul_eq_one_left
    rw [← pow_succ]
    exact ZMod.pow_card_sub_one_eq_one hz

/-- The ladder's value is the u-coordinate of the multiple of any point over its coordinate. -/
theorem ladderValue_smul [Algebra (ZMod prime) K] {k x : Nat} (hk : k < 2 ^ 255)
    (hP : Over P (algebraMap (ZMod prime) K x)) :
    algebraMap (ZMod prime) K (ladderValue k x) = u (k • P) := by
  have h2 : (2 : K) ≠ 0 := by
    have e : algebraMap (ZMod prime) K 2 = 2 := map_ofNat _ 2
    rw [← e, Ne, map_eq_zero]
    decide
  have hm := ladder_map (algebraMap (ZMod prime) K) k (x : ZMod prime)
  rw [ladderValue, pow_inverse, map_mul, map_inv₀]
  rcases eq_or_ne (x : ZMod prime) 0 with h0 | h0
  · rw [h0, map_zero] at hP
    have hf := ladder_flat (R := ZMod prime) k
    rw [u_nsmul_zero hP, h0]
    rcases mul_eq_zero.1 hf with h | h
    · rw [h, map_zero, zero_mul]
    · rw [h, map_zero, inv_zero, mul_zero]
  · have hx : algebraMap (ZMod prime) K x ≠ 0 := by rwa [Ne, map_eq_zero]
    have hr := ladder_rep h2 hP hx hk
    rw [hm] at hr
    exact hr.u_eq.symm

omit [DecidableEq K] in
/-- Every coordinate has a point over it once the field has its square roots. -/
theorem exists_over [Algebra (ZMod prime) K] [IsAlgClosed K] (x : K) :
    ∃ P : (curve (486662 : K)).Point, Over P x := by
  have hc (m : Nat) (hm : (m : ZMod prime) ≠ 0) : (m : K) ≠ 0 := by
    rwa [← map_natCast (algebraMap (ZMod prime) K), Ne, map_eq_zero]
  obtain ⟨y, hy⟩ := IsAlgClosed.exists_pow_nat_eq (x ^ 3 + 486662 * x ^ 2 + x) zero_lt_two
  refine ⟨.some x y (nonsingular_of ?_ ?_ hy), y, _, rfl⟩
  · exact_mod_cast hc 2 (by decide)
  · intro he
    apply hc (486662 ^ 2 - 4) (by decide)
    have e : ((486662 ^ 2 - 4 : Nat) : K) = 486662 ^ 2 - 4 := by norm_num
    rw [e, he, sub_self]

end X25519
