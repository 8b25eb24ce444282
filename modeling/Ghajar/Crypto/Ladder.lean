import Ghajar.Crypto.Pack

/-!
# The exchange is X25519

Each turn of the loop is a turn of the ladder on the elements that the arrays stand
for: the code undoes its swap at once, the ladder puts it off, so the arrays are
compared with the swapped state. All arrays stay reduced, hence nothing overflows.
-/

namespace Ghajar.Curve25519

open Bytes Words Checked Limbs

/-! ## The scalar -/

theorem clamped_eq {n : List UInt8} (hn : n.length = 32) :
    leNat (clamped n) = X25519.decodeScalar n := by
  have hz : ((List.range 32).map fun i => n.getD i 0) = n := by
    apply List.ext_getElem (by simp [hn])
    intro i h1 h2
    rw [List.getElem_map, List.getElem_range, List.getD_eq_getElem _ _ h2]
  have hb (a : UInt8) : toByte ((toInt a &&& 127) ||| 64) = (a &&& 127) ||| 64 := by
    rw [toByte_or, toByte_and, toByte_toInt]
    rfl
  have hc (a : UInt8) : toByte (toInt a &&& 248) = a &&& 248 := by
    rw [toByte_and, toByte_toInt]
    rfl
  have h31 (v : UInt8) : (n.set 31 v).getD 0 0 = n.getD 0 0 := getD_set_ne (by decide)
  have h0 (v : UInt8) : (n.set 0 v).getD 31 0 = n.getD 31 0 := getD_set_ne (by decide)
  have hs (v w : UInt8) : ((n.set 0 v).set 31 w).getD 31 0 = w :=
    getD_set_self (by rw [List.length_set]; omega)
  rw [X25519.decodeScalar, clamped, hz]
  simp only [hb, hc, h31, h0, hs, List.set_set]
  rw [List.set_comm _ _ (by decide : 0 ≠ 31)]

theorem bit_eq (z : List UInt8) (i : Nat) : bit z i = bitInt ((leNat z).testBit i) := by
  have h : ∀ j < 8, ∀ b : BitVec 8,
      ((b.setWidth 32).sshiftRight j) &&& 1#32 = if b.toNat.testBit j then 1#32 else 0#32 := by
    decide +kernel
  have hs : i >>> 3 = i / 8 := Nat.shiftRight_eq_div_pow i 3
  have hm : i &&& 7 = i % 8 := Nat.and_two_pow_sub_one_eq_mod i 3
  rw [bit, Words.toInt_and, hs, hm, testBit_leNat]
  exact h _ (Nat.mod_lt _ (by decide)) _

/-! ## The inverse -/

/-- The exponent after `j` turns of `inv25519`. -/
def exponent : Nat → Nat
  | 0 => 1
  | j + 1 => 2 * exponent j + if 253 - j ≠ 2 ∧ 253 - j ≠ 4 then 1 else 0

theorem exponent_last : exponent 254 = X25519.prime - 2 := by decide +kernel

theorem invStep_ok {i c : List Long} (hi : Reduced i) (hc : Reduced c) (a : Nat) :
    Ok (invStep i c a) fun o => Reduced o ∧
      value o = value c ^ 2 * value i ^ (if a ≠ 2 ∧ a ≠ 4 then 1 else 0) := by
  unfold invStep
  apply Ok.bind (sqr_ok hc.loose)
  rintro s ⟨hs, hv⟩
  split
  · rw [pow_one, ← hv]
    exact mul_ok hs.loose hi.loose
  · rw [pow_zero, mul_one]
    exact ok_pure ⟨hs, hv⟩

theorem inv25519_ok {i : List Long} (hi : Reduced i) :
    Ok (inv25519 i) fun o => Reduced o ∧ value o = value i ^ (X25519.prime - 2) := by
  rw [← exponent_last]
  refine ok_loop (n := 254) (fun j o => Reduced o ∧ value o = value i ^ exponent j)
    (fun j _ o ho => (invStep_ok hi ho.1 (253 - j)).mono fun u hu => ⟨hu.1, ?_⟩)
    ⟨hi, (pow_one _).symm⟩
  rw [hu.2, ho.2, exponent, pow_add, pow_mul']

/-! ## The turns -/

/-- The arrays stand for the state, with the swap that it has put off. -/
structure Stands (s : Rungs) (σ : X25519.State (ZMod X25519.prime)) : Prop where
  a : Reduced s.a
  b : Reduced s.b
  c : Reduced s.c
  d : Reduced s.d
  x₂ : value s.a = (X25519.swapped σ).x₂
  x₃ : value s.b = (X25519.swapped σ).x₃
  z₂ : value s.c = (X25519.swapped σ).z₂
  z₃ : value s.d = (X25519.swapped σ).z₃

theorem value_one : value ((List.replicate 16 0).set 0 1) = 1 := by
  have h : part ((List.replicate 16 0).set 0 1) 16 = 1 := by decide
  rw [value, h, Int.cast_one]

theorem value_zero : value (List.replicate 16 0) = 0 := by
  have h : part (List.replicate 16 0) 16 = 0 := by decide
  rw [value, h, Int.cast_zero]

theorem value_121665 : value _121665 = (X25519.a24 : ZMod X25519.prime) := by
  have h : part _121665 16 = (X25519.a24 : Int) := by decide
  rw [value, h, Int.cast_natCast]

theorem reduced_121665 : Reduced _121665 := ⟨rfl, by decide, by decide⟩

/-- Two arrays that change places, or not. -/
theorem select_ok {p q : List Long} (hp : Reduced p) (hq : Reduced q) (r : Bool) :
    Ok (sel25519 p q (bitInt r)) fun pq =>
      Reduced pq.1 ∧ Reduced pq.2 ∧
      (value pq.1, value pq.2) = X25519.cswap r (value p) (value q) := by
  refine (sel25519_ok hp.length hq.length r).mono ?_
  rintro _ rfl
  cases r
  · exact ⟨hp, hq, rfl⟩
  · exact ⟨hq, hp, rfl⟩

theorem ladderStep_ok {z : List UInt8} {x : List Long} (hx : Reduced x) {s : Rungs}
    {σ : X25519.State (ZMod X25519.prime)} (h : Stands s σ) (t : Nat) :
    Ok (ladderStep z x s t) fun s' => Stands s' (X25519.step (leNat z) (value x) σ t) := by
  unfold ladderStep
  simp only [bit_eq]
  generalize hr : (leNat z).testBit t = r
  apply Ok.bind (select_ok h.a h.b r)
  rintro ⟨a, b⟩ ⟨ha, hb, hab⟩
  apply Ok.bind (select_ok h.c h.d r)
  rintro ⟨c, d⟩ ⟨hc, hd, hcd⟩
  simp only at ha hb hab hc hd hcd ⊢
  apply Ok.bind (add_ok ha hc)
  rintro A ⟨hA, vA⟩
  apply Ok.bind (sub_ok ha hc)
  rintro B ⟨hB, vB⟩
  apply Ok.bind (add_ok hb hd)
  rintro C ⟨hC, vC⟩
  apply Ok.bind (sub_ok hb hd)
  rintro D ⟨hD, vD⟩
  apply Ok.bind (sqr_ok hA)
  rintro AA ⟨hAA, vAA⟩
  apply Ok.bind (sqr_ok hB)
  rintro BB ⟨hBB, vBB⟩
  apply Ok.bind (mul_ok hC hB)
  rintro CB ⟨hCB, vCB⟩
  apply Ok.bind (mul_ok hD hA)
  rintro DA ⟨hDA, vDA⟩
  apply Ok.bind (add_ok hCB hDA)
  rintro e ⟨he, ve⟩
  apply Ok.bind (sub_ok hCB hDA)
  rintro f ⟨hf, vf⟩
  apply Ok.bind (sqr_ok hf)
  rintro g ⟨hg, vg⟩
  apply Ok.bind (sub_ok hAA hBB)
  rintro E ⟨hE, vE⟩
  apply Ok.bind (mul_ok hE reduced_121665.loose)
  rintro i ⟨hi, vi⟩
  apply Ok.bind (add_ok hi hAA)
  rintro j ⟨hj, vj⟩
  apply Ok.bind (mul_ok hE hj)
  rintro z₂ ⟨hz₂, vz₂⟩
  apply Ok.bind (mul_ok hAA.loose hBB.loose)
  rintro x₂ ⟨hx₂, vx₂⟩
  apply Ok.bind (mul_ok hg.loose hx.loose)
  rintro z₃ ⟨hz₃, vz₃⟩
  apply Ok.bind (sqr_ok he)
  rintro x₃ ⟨hx₃, vx₃⟩
  apply Ok.bind (select_ok hx₂ hx₃ r)
  rintro ⟨a', b'⟩ ⟨ha', hb', hab'⟩
  apply Ok.bind (select_ok hz₂ hz₃ r)
  rintro ⟨c', d'⟩ ⟨hc', hd', hcd'⟩
  apply ok_pure
  simp only at ha' hb' hab' hc' hd' hcd'
  -- the state that the turn works on, and what it makes of it
  let τ := X25519.swapped { σ with swap := σ.swap ^^ r }
  have hτ : τ = { X25519.swapped { X25519.swapped σ with swap := r } with swap := σ.swap ^^ r } :=
    X25519.swapped_xor σ r
  have hx2 : (τ.x₂, τ.x₃) = (value a, value b) := by
    rw [hab, h.x₂, h.x₃, hτ]
    rfl
  have hz2 : (τ.z₂, τ.z₃) = (value c, value d) := by
    rw [hcd, h.z₂, h.z₃, hτ]
    rfl
  obtain ⟨ex₂, ex₃⟩ := Prod.mk.inj hx2
  obtain ⟨ez₂, ez₃⟩ := Prod.mk.inj hz2
  have hturn : X25519.turn (value x) τ =
      { τ with x₂ := value x₂, z₂ := value z₂, x₃ := value x₃, z₃ := value z₃ } := by
    rw [X25519.turn, vx₂, vz₂, vx₃, vz₃, vj, vi, vE, vAA, vBB, vg, vf, ve, vCB, vDA, vA, vB, vC, vD,
      value_121665, ex₂, ex₃, ez₂, ez₃]
    rw [X25519.State.mk.injEq]
    refine ⟨?_, ?_, ?_, ?_, rfl⟩ <;> ring
  have hstep : X25519.step (leNat z) (value x) σ t =
      { X25519.turn (value x) τ with swap := r } := by
    simp only [X25519.step, hr, τ]
  have hx' : ((X25519.swapped (X25519.step (leNat z) (value x) σ t)).x₂,
      (X25519.swapped (X25519.step (leNat z) (value x) σ t)).x₃) = (value a', value b') := by
    rw [hab', hstep, hturn]
    rfl
  have hz' : ((X25519.swapped (X25519.step (leNat z) (value x) σ t)).z₂,
      (X25519.swapped (X25519.step (leNat z) (value x) σ t)).z₃) = (value c', value d') := by
    rw [hcd', hstep, hturn]
    rfl
  obtain ⟨fx₂, fx₃⟩ := Prod.mk.inj hx'
  obtain ⟨fz₂, fz₃⟩ := Prod.mk.inj hz'
  exact ⟨ha', hb', hc', hd', fx₂.symm, fx₃.symm, fz₂.symm, fz₃.symm⟩

/-- The whole loop. -/
theorem ladder_ok {z : List UInt8} {x : List Long} (hx : Reduced x) :
    Ok ((List.range 255).foldlM (fun s j => ladderStep z x s (254 - j))
      { a := (List.replicate 16 0).set 0 1, b := x, c := List.replicate 16 0,
        d := (List.replicate 16 0).set 0 1 }) fun s =>
      Reduced s.a ∧ Reduced s.c ∧
        value s.a = (X25519.ladder (leNat z) (value x)).x₂ ∧
        value s.c = (X25519.ladder (leNat z) (value x)).z₂ := by
  have hr : (List.range 255).reverse = (List.range 255).map (254 - ·) := by
    apply List.ext_getElem (by simp)
    intro i h1 h2
    simp
  have hl : X25519.ladder (leNat z) (value x) =
      X25519.swapped ((List.range 255).foldl
        (fun σ j => X25519.step (leNat z) (value x) σ (254 - j))
        { x₂ := 1, z₂ := 0, x₃ := value x, z₃ := 1, swap := false }) := by
    rw [X25519.ladder, hr, List.foldl_map]
  have hone : Reduced ((List.replicate 16 0).set 0 1) := ⟨rfl, by decide, by decide⟩
  have hzero : Reduced (List.replicate 16 0) := ⟨rfl, by decide, by decide⟩
  rw [hl]
  refine (ok_loop (n := 255) (fun j s => Stands s ((List.range j).foldl
    (fun σ j => X25519.step (leNat z) (value x) σ (254 - j))
    { x₂ := 1, z₂ := 0, x₃ := value x, z₃ := 1, swap := false }))
    (fun j _ s hs => ?_) ⟨hone, hx, hzero, hone, ?_, ?_, ?_, ?_⟩).mono
      fun s hs => ⟨hs.a, hs.c, hs.x₂, hs.z₂⟩
  · rw [List.range_succ, List.foldl_append]
    exact ladderStep_ok hx hs (254 - j)
  · exact value_one
  · rfl
  · exact value_zero
  · exact value_one

theorem scalarmult_ok {n p : List UInt8} (hn : n.length = 32) (hp : p.length = 32) :
    Ok (scalarmult n p) (· = X25519.x25519 n p) := by
  unfold scalarmult
  apply Ok.bind (unpack25519_ok hp)
  rintro x ⟨hx, hxp⟩
  have hv : value x = ((X25519.decodeUCoordinate p : Nat) : ZMod X25519.prime) := by
    rw [value, hxp, Int.cast_natCast]
  apply Ok.bind (ladder_ok (z := clamped n) hx)
  rintro s ⟨ha, hc, va, vc⟩
  apply Ok.bind (inv25519_ok hc)
  rintro c ⟨hc', vc'⟩
  apply Ok.bind (mul_ok ha.loose hc'.loose)
  rintro a ⟨ha', va'⟩
  refine (pack25519_ok ha').mono ?_
  rintro _ rfl
  rw [va', vc', va, vc, clamped_eq hn, hv]
  rfl

end Ghajar.Curve25519
