import Mathlib.AlgebraicGeometry.EllipticCurve.Affine.Point
import Mathlib.Tactic.FieldSimp
import Mathlib.Tactic.LinearCombination

/-!
# The u-coordinate on a Montgomery curve

On `y² = x³ + A x² + x` the u-coordinate of a double depends on that of the point,
and the u-coordinate of a sum on those of its terms and of their difference. In
coordinates `x : z` both are polynomials that hold at infinity as well, so a ladder
of them computes the u-coordinate of every multiple.
-/

namespace Montgomery

open WeierstrassCurve Affine

variable {K : Type} [Field K] {A : K}

def curve (A : K) : Affine K := { a₁ := 0, a₂ := A, a₃ := 0, a₄ := 1, a₆ := 0 }

/-- The u-coordinate, with zero for the point at infinity. -/
def u : (curve A).Point → K
  | .zero => 0
  | .some x _ _ => x

/-- `P` is a point of the plane over `x`. -/
def Over (P : (curve A).Point) (x : K) : Prop := ∃ y h, P = .some x y h

/-- `x : z` is the u-coordinate of `P`, infinite where `z` is zero. -/
def Rep : (curve A).Point → K → K → Prop
  | .zero, x, z => z = 0 ∧ x ≠ 0
  | .some X _ _, x, z => z ≠ 0 ∧ x = X * z

theorem rep_zero {x z : K} : Rep (0 : (curve A).Point) x z ↔ z = 0 ∧ x ≠ 0 := Iff.rfl

theorem Over.rep_iff {P : (curve A).Point} {X x z : K} (h : Over P X) :
    Rep P x z ↔ z ≠ 0 ∧ x = X * z := by
  obtain ⟨y, h, rfl⟩ := h
  rfl

theorem Over.u_eq {P : (curve A).Point} {x : K} (h : Over P x) : u P = x := by
  obtain ⟨y, h, rfl⟩ := h
  rfl

theorem Over.unique {P : (curve A).Point} {x x' : K} (h : Over P x) (h' : Over P x') : x = x' :=
  h.u_eq.symm.trans h'.u_eq

theorem Over.neg {P : (curve A).Point} {x : K} (h : Over P x) : Over (-P) x := by
  obtain ⟨y, h, rfl⟩ := h
  exact ⟨_, _, rfl⟩

theorem Over.ne_zero {P : (curve A).Point} {x : K} (h : Over P x) : P ≠ 0 := by
  obtain ⟨y, h, rfl⟩ := h
  exact Point.some_ne_zero h

/-- A represented point has the quotient as its u-coordinate. -/
theorem Rep.u_eq {P : (curve A).Point} {x z : K} (h : Rep P x z) : u P = x * z⁻¹ := by
  cases P with
  | zero =>
    obtain ⟨hz, -⟩ := h
    rw [hz, inv_zero, mul_zero]
    rfl
  | some X Y hP =>
    obtain ⟨hz, hx⟩ := h
    rw [hx, mul_assoc, mul_inv_cancel₀ hz, mul_one]
    rfl

section Points

variable {X Y : K}

theorem equation (h : (curve A).Nonsingular X Y) : Y ^ 2 = X ^ 3 + A * X ^ 2 + X := by
  have := (equation_iff X Y).1 h.1
  simpa [curve] using this

/-- Where the point is its own negative the curve crosses the axis. -/
theorem crossing (h : (curve A).Nonsingular X 0) :
    3 * X ^ 2 + 2 * A * X + 1 ≠ 0 := by
  have := ((nonsingular_iff X 0).1 h).2
  simpa [curve, eq_comm] using this

theorem eq_neg_iff (h2 : (2 : K) ≠ 0) : Y = -Y ↔ Y = 0 := by
  rw [eq_neg_iff_add_eq_zero, ← two_mul, mul_eq_zero]
  exact ⟨fun h => h.resolve_left h2, Or.inr⟩

/-- The curve has no singular point where `A²` is not four. -/
theorem nonsingular_of (h2 : (2 : K) ≠ 0) (hA : A ^ 2 ≠ 4) (h : Y ^ 2 = X ^ 3 + A * X ^ 2 + X) :
    (curve A).Nonsingular X Y := by
  rw [nonsingular_iff]
  constructor
  · rw [equation_iff]
    simpa [curve] using h
  · by_cases hy : Y = 0
    · left
      intro hd
      have hd' : 3 * X ^ 2 + 2 * A * X + 1 = 0 := by simpa [curve, eq_comm] using hd
      have hf : X * (X ^ 2 + A * X + 1) = 0 := by
        rw [hy] at h
        linear_combination -h
      rcases mul_eq_zero.1 hf with hx | hx
      · rw [hx] at hd'
        norm_num at hd'
      · -- a common root of the cubic's factor and of its derivative is a double root
        apply hA
        linear_combination ((2 * X + A) ^ 2 + (2 * X + A) * (X + A) - 4) * hx -
          (2 * X + A) * (X + A) * hd'
    · right
      simpa [curve] using fun hn => hy ((eq_neg_iff h2).1 hn)

theorem negY_eq (x y : K) : (curve A).negY x y = -y := by simp [negY, curve]

variable [DecidableEq K]

theorem double_axis (h : (curve A).Nonsingular X 0) :
    Point.some X 0 h + Point.some X 0 h = 0 :=
  Point.add_self_of_Y_eq (by rw [negY_eq, neg_zero])

theorem double_over (h2 : (2 : K) ≠ 0) (h : (curve A).Nonsingular X Y) (hy : Y ≠ 0) :
    ∃ X', Over (Point.some X Y h + Point.some X Y h) X' ∧
      X' * (4 * Y ^ 2) = (X ^ 2 - 1) ^ 2 := by
  have hn : Y ≠ (curve A).negY X Y := by rwa [negY_eq, Ne, eq_neg_iff h2]
  refine ⟨_, ⟨_, _, Point.add_self_of_Y_ne hn⟩, ?_⟩
  have he := equation h
  have hs : (curve A).slope X X Y Y = (3 * X ^ 2 + 2 * A * X + 1) / (2 * Y) := by
    rw [slope_of_Y_ne rfl hn, negY_eq]
    simp [curve]
    ring
  have hm : (3 * X ^ 2 + 2 * A * X + 1) / (2 * Y) * (2 * Y) = 3 * X ^ 2 + 2 * A * X + 1 :=
    div_mul_cancel₀ _ (mul_ne_zero h2 hy)
  rw [hs]
  generalize (3 * X ^ 2 + 2 * A * X + 1) / (2 * Y) = l at hm
  have ha : (curve A).addX X X l = l ^ 2 - A - X - X := by simp [addX, curve]
  rw [ha]
  linear_combination (l * (2 * Y) + 3 * X ^ 2 + 2 * A * X + 1) * hm - 4 * (A + 2 * X) * he

variable {X' Y' : K}

theorem sum_over (h : (curve A).Nonsingular X Y) (h' : (curve A).Nonsingular X' Y')
    (hx : X ≠ X') : ∃ S D, Over (Point.some X Y h + Point.some X' Y' h') S ∧
      Over (Point.some X' Y' h' - Point.some X Y h) D ∧
      S * D * (X - X') ^ 2 = (X * X' - 1) ^ 2 := by
  have hd : X - X' ≠ 0 := sub_ne_zero.2 hx
  have hd' : X' - X ≠ 0 := sub_ne_zero.2 hx.symm
  have hs : (curve A).slope X X' Y Y' = (Y - Y') / (X - X') := slope_of_X_ne hx
  have ht : (curve A).slope X' X Y' (-Y) = (Y' + Y) / (X' - X) := by
    rw [slope_of_X_ne hx.symm, sub_neg_eq_add]
  have hm : (Y - Y') / (X - X') * (X - X') = Y - Y' := div_mul_cancel₀ _ hd
  have hm' : (Y' + Y) / (X' - X) * (X' - X) = Y' + Y := div_mul_cancel₀ _ hd'
  have hneg : (curve A).Nonsingular X (-Y) := by
    rw [← negY_eq X Y]
    exact (nonsingular_neg ..).2 h
  have hdiff : Point.some X' Y' h' - Point.some X Y h =
      Point.some X' Y' h' + Point.some X (-Y) hneg := by
    rw [sub_eq_add_neg]
    congr 1
    rw [Point.neg_some]
    congr 1
    exact negY_eq X Y
  rw [hdiff]
  refine ⟨_, _, ⟨_, _, Point.add_of_X_ne hx⟩, ⟨_, _, Point.add_of_X_ne hx.symm⟩, ?_⟩
  rw [hs, ht]
  generalize (Y - Y') / (X - X') = l at hm
  generalize (Y' + Y) / (X' - X) = m at hm'
  have ha (x x' k : K) : (curve A).addX x x' k = k ^ 2 - A - x - x' := by simp [addX, curve]
  rw [ha, ha]
  have e := equation h
  have e' := equation h'
  have hS : (l ^ 2 - A - X - X') * (X - X') ^ 2 = (Y - Y') ^ 2 - (A + X + X') * (X - X') ^ 2 := by
    linear_combination (l * (X - X') + (Y - Y')) * hm
  have hD : (m ^ 2 - A - X' - X) * (X - X') ^ 2 = (Y + Y') ^ 2 - (A + X + X') * (X - X') ^ 2 := by
    linear_combination (m * (X' - X) + (Y' + Y)) * hm'
  apply mul_right_cancel₀ (pow_ne_zero 2 hd)
  calc (l ^ 2 - A - X - X') * (m ^ 2 - A - X' - X) * (X - X') ^ 2 * (X - X') ^ 2
      = ((l ^ 2 - A - X - X') * (X - X') ^ 2) * ((m ^ 2 - A - X' - X) * (X - X') ^ 2) := by ring
    _ = ((Y - Y') ^ 2 - (A + X + X') * (X - X') ^ 2) *
        ((Y + Y') ^ 2 - (A + X + X') * (X - X') ^ 2) := by rw [hS, hD]
    _ = (X * X' - 1) ^ 2 * (X - X') ^ 2 := by
      linear_combination
        (Y ^ 2 + (X ^ 3 + A * X ^ 2 + X) - 2 * Y' ^ 2 - 2 * ((A + X + X') * (X - X') ^ 2)) * e +
        (Y' ^ 2 + (X' ^ 3 + A * X' ^ 2 + X') - 2 * (X ^ 3 + A * X ^ 2 + X) -
          2 * ((A + X + X') * (X - X') ^ 2)) * e'

end Points

/-! ## The two rules of a ladder -/

section Rules

variable [DecidableEq K] {P Q : (curve A).Point} {x z x' z' : K}

omit [DecidableEq K] in
theorem four_ne_zero_of (h2 : (2 : K) ≠ 0) : (4 : K) ≠ 0 := by
  have h : (4 : K) = 2 * 2 := by norm_num
  rw [h]
  exact mul_ne_zero h2 h2

theorem Rep.double (h2 : (2 : K) ≠ 0) (h : Rep P x z) :
    Rep (P + P) ((x ^ 2 - z ^ 2) ^ 2) (4 * x * z * (x ^ 2 + A * x * z + z ^ 2)) := by
  cases P with
  | zero =>
    obtain ⟨rfl, hx⟩ := h
    have hz : (Point.zero : (curve A).Point) + Point.zero = 0 := add_zero _
    rw [hz, rep_zero]
    refine ⟨by ring, ?_⟩
    simpa using hx
  | some X Y hP =>
    obtain ⟨hz, rfl⟩ := h
    have he := equation hP
    by_cases hy : Y = 0
    · subst hy
      have hc := crossing hP
      rw [double_axis, rep_zero]
      constructor
      · linear_combination (-4 * z ^ 4) * he
      · have hX : X ^ 2 - 1 ≠ 0 := by
          intro h1
          have hX0 : X * (3 * X ^ 2 + 2 * A * X + 1) = 0 := by
            linear_combination X * h1 - 2 * he
          have hX := (mul_eq_zero.1 hX0).resolve_right hc
          rw [hX] at h1
          norm_num at h1
        have hf : ((X * z) ^ 2 - z ^ 2) ^ 2 = (X ^ 2 - 1) ^ 2 * z ^ 4 := by ring
        rw [hf]
        exact mul_ne_zero (pow_ne_zero 2 hX) (pow_ne_zero 4 hz)
    · obtain ⟨X', ho, hX'⟩ := double_over h2 hP hy
      have h4 := four_ne_zero_of h2
      rw [ho.rep_iff]
      have hd : 4 * (X * z) * z * ((X * z) ^ 2 + A * (X * z) * z + z ^ 2) = 4 * Y ^ 2 * z ^ 4 := by
        linear_combination (-4 * z ^ 4) * he
      rw [hd]
      refine ⟨mul_ne_zero (mul_ne_zero h4 (pow_ne_zero 2 hy)) (pow_ne_zero 4 hz), ?_⟩
      linear_combination (-z ^ 4) * hX'

/-- The sum of two points over different places, or of two whose difference is not at infinity. -/
theorem Rep.sum (h2 : (2 : K) ≠ 0) {x₁ : K} (hd : Over (Q - P) x₁) (hx₁ : x₁ ≠ 0)
    (hP : Rep P x z) (hQ : Rep Q x' z') :
    Rep (P + Q) (4 * (x * x' - z * z') ^ 2) (4 * x₁ * (x * z' - x' * z) ^ 2) := by
  have h4 := four_ne_zero_of h2
  cases P with
  | zero =>
    obtain ⟨rfl, hx⟩ := hP
    have hq : Over Q x₁ := by
      have : Q - Point.zero = Q := sub_zero Q
      rwa [this] at hd
    obtain ⟨hz', rfl⟩ := hq.rep_iff.1 hQ
    have hs : Point.zero + Q = Q := zero_add Q
    rw [hs, hq.rep_iff, zero_mul, sub_zero, mul_zero, sub_zero]
    refine ⟨mul_ne_zero (mul_ne_zero h4 hx₁) (pow_ne_zero 2 (mul_ne_zero hx hz')), ?_⟩
    ring
  | some X Y h =>
    obtain ⟨hz, rfl⟩ := hP
    cases Q with
    | zero =>
      obtain ⟨rfl, hx'⟩ := hQ
      have hp : Over (Point.some X Y h) x₁ := by
        have : (Point.zero : (curve A).Point) - Point.some X Y h = -Point.some X Y h := zero_sub _
        rw [this] at hd
        rw [← neg_neg (Point.some X Y h)]
        exact hd.neg
      have hX : X = x₁ := Over.unique ⟨Y, h, rfl⟩ hp
      have hs : Point.some X Y h + Point.zero = Point.some X Y h := add_zero _
      rw [hs, hp.rep_iff, ← hX, mul_zero, mul_zero, sub_zero, zero_sub]
      rw [← hX] at hx₁
      have hne : -(x' * z) ≠ 0 := neg_ne_zero.2 (mul_ne_zero hx' hz)
      refine ⟨mul_ne_zero (mul_ne_zero h4 hx₁) (pow_ne_zero 2 hne), ?_⟩
      ring
    | some X' Y' h' =>
      obtain ⟨hz', rfl⟩ := hQ
      by_cases hX : X = X'
      · rcases Point.X_eq_iff.1 hX with he | he
        · rw [he, sub_self] at hd
          exact absurd rfl hd.ne_zero
        · rw [he, sub_neg_eq_add] at hd
          rw [he, neg_add_cancel, rep_zero, hX]
          refine ⟨by ring, ?_⟩
          have hy : Y' ≠ 0 := by
            rintro rfl
            rw [double_axis] at hd
            exact absurd rfl hd.ne_zero
          obtain ⟨D, hD, hDe⟩ := double_over h2 h' hy
          rw [hD.unique hd] at hDe
          have hne : (X' ^ 2 - 1) ^ 2 ≠ 0 := by
            rw [← hDe]
            exact mul_ne_zero hx₁ (mul_ne_zero h4 (pow_ne_zero 2 hy))
          have hf : 4 * (X' * z * (X' * z') - z * z') ^ 2 =
              4 * ((X' ^ 2 - 1) ^ 2 * (z * z') ^ 2) := by ring
          rw [hf]
          exact mul_ne_zero h4 (mul_ne_zero hne (pow_ne_zero 2 (mul_ne_zero hz hz')))
      · obtain ⟨S, D, hS, hD, he⟩ := sum_over h h' hX
        rw [hD.unique hd] at he
        rw [hS.rep_iff]
        constructor
        · have hf : 4 * x₁ * (X * z * z' - X' * z' * z) ^ 2 =
              4 * x₁ * ((X - X') ^ 2 * (z * z') ^ 2) := by ring
          rw [hf]
          exact mul_ne_zero (mul_ne_zero h4 hx₁) (mul_ne_zero (pow_ne_zero 2 (sub_ne_zero.2 hX))
            (pow_ne_zero 2 (mul_ne_zero hz hz')))
        · linear_combination (-4 * (z * z') ^ 2) * he

end Rules

end Montgomery
