import Mathlib

/-!
# Binary floating-point numbers

Single and double precision by sign, biased exponent and fraction. A double is rounded to the
nearest single, halves to even, and every single is a double; a normal single comes back
(`toSingle_toDouble`). Comparisons are those of the magnitudes with their signs, and nothing is less
or greater than what is not a number.
-/

namespace Binary

structure Single where
  neg : Bool
  exp : Fin (2 ^ 8)
  frac : Fin (2 ^ 23)
  deriving DecidableEq, Repr

structure Double where
  neg : Bool
  exp : Fin (2 ^ 11)
  frac : Fin (2 ^ 52)
  deriving DecidableEq, Repr

/-- `m / 2 ^ s` to the nearest whole number, a half to the even one. -/
def halfEven (m s : ℕ) : ℕ :=
  let q := m / 2 ^ s
  let r := m % 2 ^ s
  if 2 ^ s < 2 * r ∨ 2 * r = 2 ^ s ∧ q % 2 = 1 then q + 1 else q

theorem halfEven_exact (q s : ℕ) : halfEven (q * 2 ^ s) s = q := by
  have hpos : 0 < 2 ^ s := Nat.two_pow_pos s
  simp only [halfEven, Nat.mul_mod_left, Nat.mul_div_cancel q hpos]
  rw [if_neg (by omega)]

namespace Single

def isNaN (f : Single) : Bool := f.exp = 255 ∧ f.frac ≠ 0

def infinity (neg : Bool) : Single := ⟨neg, 255, 0⟩

/-- The single whose exponent and fraction, as one number, are `n`; infinite where `n` is too
large. -/
def ofBits (neg : Bool) (n : ℕ) : Single :=
  if n < 255 * 2 ^ 23 then ⟨neg, Fin.ofNat _ (n / 2 ^ 23), Fin.ofNat _ (n % 2 ^ 23)⟩
  else infinity neg

def toDouble (f : Single) : Double :=
  if f.exp = 255 then ⟨f.neg, 2047, Fin.ofNat _ (f.frac * 2 ^ 29)⟩
  else if f.exp = 0 then
    if f.frac = 0 then ⟨f.neg, 0, 0⟩
    else
      let k := f.frac.val.log2
      ⟨f.neg, Fin.ofNat _ (k + 874), Fin.ofNat _ ((f.frac - 2 ^ k) * 2 ^ (52 - k))⟩
  else ⟨f.neg, Fin.ofNat _ (f.exp + 896), Fin.ofNat _ (f.frac * 2 ^ 29)⟩

/-- The exponent and the fraction as one number, with the sign. -/
def key (f : Single) : ℤ := (if f.neg then -1 else 1) * (f.exp * 2 ^ 23 + f.frac)

def lt (f g : Single) : Bool := !f.isNaN && !g.isNaN && f.key < g.key

/-- `coerceIn` -/
def coerceIn (f low high : Single) : Single :=
  if lt f low then low else if lt high f then high else f

end Single

namespace Double

def isFinite (d : Double) : Bool := d.exp ≠ 2047

def toSingle (d : Double) : Single :=
  if d.exp = 2047 then
    ⟨d.neg, 255, if d.frac = 0 then 0 else Fin.ofNat _ (d.frac / 2 ^ 29 ||| 2 ^ 22)⟩
  else if 897 ≤ d.exp then
    .ofBits d.neg ((d.exp - 896) * 2 ^ 23 + halfEven d.frac 29)
  else
    .ofBits d.neg (halfEven ((if d.exp = 0 then 0 else 2 ^ 52) + d.frac) (926 - d.exp))

end Double

variable {f low high : Single}

theorem toDouble_normal (h0 : f.exp ≠ 0) (h255 : f.exp ≠ 255) :
    f.toDouble.neg = f.neg ∧ f.toDouble.exp.val = f.exp + 896 ∧
      f.toDouble.frac.val = f.frac * 2 ^ 29 := by
  have hexp := f.exp.isLt
  have hfrac := f.frac.isLt
  rw [Single.toDouble, if_neg h255, if_neg h0]
  refine ⟨rfl, ?_, ?_⟩
  · exact Nat.mod_eq_of_lt (by omega)
  · exact Nat.mod_eq_of_lt (by omega)

theorem isFinite_toDouble (h0 : f.exp ≠ 0) (h255 : f.exp ≠ 255) : f.toDouble.isFinite = true := by
  obtain ⟨-, hexp, -⟩ := toDouble_normal h0 h255
  have hlt : f.exp.val < 255 := by
    have := f.exp.isLt
    have hne : f.exp.val ≠ 255 := fun h => h255 (Fin.ext h)
    omega
  rw [Double.isFinite, decide_eq_true_eq]
  intro h
  have := congrArg Fin.val h
  rw [hexp] at this
  change f.exp.val + 896 = 2047 at this
  omega

/-- A normal single is not changed by way of a double. -/
theorem toSingle_toDouble (h0 : f.exp ≠ 0) (h255 : f.exp ≠ 255) : f.toDouble.toSingle = f := by
  obtain ⟨hneg, hexp, hfrac⟩ := toDouble_normal h0 h255
  have hfin := isFinite_toDouble h0 h255
  have hpos : 0 < f.exp.val := Nat.pos_of_ne_zero fun h => h0 (Fin.ext h)
  have hlt : f.exp.val < 255 := by
    have := f.exp.isLt
    have hne : f.exp.val ≠ 255 := fun h => h255 (Fin.ext h)
    omega
  have hb := f.frac.isLt
  have hbig : (897 : Fin (2 ^ 11)) ≤ f.toDouble.exp := by
    rw [Fin.le_def, hexp]
    change 897 ≤ f.exp.val + 896
    omega
  rw [Double.toSingle, if_neg (by simpa [Double.isFinite] using hfin), if_pos hbig, hexp, hfrac,
    halfEven_exact, Nat.add_sub_cancel, Single.ofBits, if_pos (by omega), hneg]
  obtain ⟨neg, exp, frac⟩ := f
  simp only at hpos hlt hb ⊢
  congr 1
  · apply Fin.ext
    change (exp.val * 2 ^ 23 + frac.val) / 2 ^ 23 % 2 ^ 8 = exp.val
    omega
  · apply Fin.ext
    change (exp.val * 2 ^ 23 + frac.val) % 2 ^ 23 % 2 ^ 23 = frac.val
    omega

/-- A number from `low` to `high`. -/
structure Single.Within (f low high : Single) : Prop where
  number : f.isNaN = false
  above : low.key ≤ f.key
  below : f.key ≤ high.key

theorem coerceIn_within (hf : f.isNaN = false) (hlow : low.isNaN = false)
    (hhigh : high.isNaN = false) (h : low.key ≤ high.key) :
    (f.coerceIn low high).Within low high := by
  unfold Single.coerceIn
  by_cases hl : Single.lt f low
  · rw [if_pos hl]
    exact ⟨hlow, le_refl _, h⟩
  · have hl : low.key ≤ f.key := by simpa [Single.lt, hf, hlow] using hl
    rw [if_neg (by simpa [Single.lt, hf, hlow] using hl)]
    by_cases hh : Single.lt high f
    · rw [if_pos hh]
      exact ⟨hhigh, h, le_refl _⟩
    · rw [if_neg hh]
      exact ⟨hf, hl, by simpa [Single.lt, hf, hhigh] using hh⟩

theorem coerceIn_of_within (h : f.Within low high) : f.coerceIn low high = f := by
  have hl : Single.lt f low = false := by simp [Single.lt, h.above]
  have hh : Single.lt high f = false := by simp [Single.lt, h.below]
  simp [Single.coerceIn, hl, hh]

end Binary
