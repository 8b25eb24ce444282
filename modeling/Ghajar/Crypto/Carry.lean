import Ghajar.Crypto.Curve25519
import Ghajar.Lib.Limbs

/-!
# What a carry does

One turn of `car25519` leaves its limb with sixteen bits and adds the rest to the
next, or thirty-eight times the rest to the lowest at the end. From bounds on the
carries out of each limb, the whole loop is exact and takes a multiple of
`2^256 - 38` from the number.
-/

namespace Ghajar.Curve25519

open Checked Limbs

/-- The limb that the turn `i` carries into, and the factor. -/
def after (i : Nat) : Nat := (i + 1) * (if i < 15 then 1 else 0)

def factor (i : Nat) : Int := if i = 15 then 38 else 1

theorem after_of_lt {i : Nat} (h : i < 15) : after i = i + 1 := by simp [after, h]

theorem carStep_ok {o : List Long} {i : Nat} (hl : o.length = 16) (hi : i < 16)
    (hx : -2 ^ 60 ≤ limb o i ∧ limb o i < 2 ^ 60)
    (hk : -2 ^ 60 ≤ limb o (after i) ∧ limb o (after i) < 2 ^ 60) :
    Ok (carStep o i) fun o' =>
      o'.length = 16 ∧ limb o' i = limb o i % 65536 ∧
      limb o' (after i) = limb o (after i) + factor i * (limb o i / 65536) ∧
      ∀ j, j ≠ i → j ≠ after i → limb o' j = limb o j := by
  have hn : after i < 16 := by unfold after; split <;> omega
  have hne : i ≠ after i := by unfold after; split <;> omega
  have hf : factor i = 1 ∨ factor i = 38 := by unfold factor; split <;> simp
  unfold carStep
  apply Ok.bind (ok_shl (by decide) (by decide))
  intro w hw
  have hw : w.toInt = 65536 := hw
  apply Ok.bind (ok_add (a := o.getD i 0) (b := w) (by show _ ≤ limb o i + _ ∧ limb o i + _ < _; omega))
  intro v hv
  have hv : v.toInt = limb o i + 65536 := by rw [hv, hw]; rfl
  have hg : (o.set i v).getD i 0 = v := Words.getD_set_self (by omega)
  simp only [hg]
  have hc : (v.sshiftRight 16).toInt = limb o i / 65536 + 1 := by
    rw [toInt_sshiftRight, hv]
    omega
  generalize v.sshiftRight 16 = c at hc
  have hq : -2 ^ 44 ≤ limb o i / 65536 ∧ limb o i / 65536 < 2 ^ 44 := by omega
  have hr : limb o i % 65536 = limb o i - limb o i / 65536 * 65536 := by omega
  rw [hr]
  generalize limb o i / 65536 = q at hc hq ⊢
  have h1 : (1 : Long).toInt = 1 := by decide
  have h37 : (37 : Long).toInt = 37 := by decide
  have hsub : Ok (Checked.sub c 1) fun d => d.toInt = q :=
    (ok_sub (by rw [hc, h1]; omega)).mono fun d hd => by rw [hd, hc, h1]; omega
  apply Ok.bind hsub
  intro d hd
  apply Ok.bind (ok_mul (a := 37) (b := d) (by rw [h37, hd]; omega))
  intro t ht
  have hb : (if i = 15 then 1 else 0 : Long).toInt = if i = 15 then 1 else 0 := by
    split <;> decide
  apply Ok.bind (ok_mul (a := t) (by rw [hb, ht, h37, hd]; split <;> omega))
  intro t' ht'
  have ht' : q + t'.toInt = factor i * q := by
    rw [ht', hb, ht, h37, hd, factor]
    split <;> omega
  apply Ok.bind hsub
  intro e he
  have hfq : -2 ^ 50 ≤ factor i * q ∧ factor i * q < 2 ^ 50 := by
    rcases hf with hf | hf <;> rw [hf] <;> omega
  apply Ok.bind (ok_add (a := e) (b := t') (by rw [he, ht']; omega))
  intro g hg
  rw [he, ht'] at hg
  have hk' : limb (o.set i v) (after i) = limb o (after i) := limb_set_ne hne
  apply Ok.bind (ok_add (b := g)
    (by show _ ≤ limb (o.set i v) (after i) + _ ∧ limb (o.set i v) (after i) + _ < _
        rw [hk', hg]; omega))
  intro u hu
  have hu : u.toInt = limb o (after i) + factor i * q := by
    rw [hu, hg, ← hk']
    rfl
  apply Ok.bind (ok_shl (by decide) (by rw [hc]; omega))
  intro f hf16
  have hl1 : i < (o.set i v).length := by rw [List.length_set]; omega
  have hi' : limb ((o.set i v).set (after i) u) i = limb o i + 65536 := by
    rw [limb_set_ne hne.symm, limb_set_self (by omega), hv]
  apply Ok.bind (ok_sub (b := f)
    (by show _ ≤ limb ((o.set i v).set (after i) u) i - _ ∧
          limb ((o.set i v).set (after i) u) i - _ < _
        rw [hi', hf16, hc]; omega))
  intro y hy
  have hy : y.toInt = limb o i - q * 65536 := by
    have : y.toInt = limb ((o.set i v).set (after i) u) i - f.toInt := hy
    rw [this, hi', hf16, hc]
    omega
  apply ok_pure
  have hl2 : ((o.set i v).set (after i) u).length = 16 := by
    rw [List.length_set, List.length_set, hl]
  refine ⟨by rw [List.length_set]; exact hl2, ?_, ?_, fun j hji hjk => ?_⟩
  · rw [← hy]
    exact limb_set_self (t := (o.set i v).set (after i) u) (by omega)
  · rw [← hu]
    exact (limb_set_ne hne).trans
      (limb_set_self (t := o.set i v) (by rw [List.length_set, hl]; exact hn))
  · exact (limb_set_ne hji.symm).trans ((limb_set_ne hjk.symm).trans (limb_set_ne hji.symm))

/-- Bounds on the carry into each limb, and out of the last: what the loop of `car25519`
needs to know of its array. -/
structure Carries (o : List Long) (c : Nat → Int) : Prop where
  length : o.length = 16
  first : c 0 = 0
  bound : ∀ i ≤ 16, 0 ≤ c i ∧ c i ≤ 2 ^ 40
  limbs : ∀ i < 16, -2 ^ 50 ≤ limb o i ∧ limb o i ≤ 2 ^ 50
  out : ∀ i < 16, -(65536 * c (i + 1)) ≤ limb o i - c i ∧ limb o i + c i < 65536 * (c (i + 1) + 1)

/-- What the loop has done before the turn `i`: a carry into the limb `i` is still on it. -/
structure Before (o : List Long) (c : Nat → Int) (i : Nat) (o' : List Long) : Prop where
  length : o'.length = 16
  carried : Carried o' i
  carry : ∃ q, -c i ≤ q ∧ q ≤ c i ∧ limb o' i = limb o i + q
  rest : ∀ j, i < j → limb o' j = limb o j
  part : part o' 16 = part o 16

theorem before_zero {o : List Long} {c : Nat → Int} (h : Carries o c) : Before o c 0 o where
  length := h.length
  carried := fun k hk => absurd hk (Nat.not_lt_zero k)
  carry := ⟨0, by rw [h.first]; omega, by rw [h.first], (add_zero _).symm⟩
  rest := fun _ _ => rfl
  part := rfl

theorem before_step {o : List Long} {c : Nat → Int} (h : Carries o c) {i : Nat} (hi : i < 15)
    {o' : List Long} (hb : Before o c i o') : Ok (carStep o' i) (Before o c (i + 1)) := by
  obtain ⟨q, hq1, hq2, hq⟩ := hb.carry
  have hbi := h.bound i (by omega)
  have hli := h.limbs i (by omega)
  have hlk := h.limbs (i + 1) (by omega)
  have hout := h.out i (by omega)
  have ha := after_of_lt hi
  have hr : limb o' (i + 1) = limb o (i + 1) := hb.rest _ (by omega)
  have hx : limb o' i = limb o i + q := hq
  refine (carStep_ok hb.length (by omega) (by omega) (by rw [ha, hr]; omega)).mono ?_
  rintro p ⟨hl, hp, hk, hf⟩
  rw [ha] at hk hf
  have hfac : factor i = 1 := by rw [factor, if_neg (by omega)]
  rw [hfac, one_mul, hr] at hk
  have hd := Int.emod_add_mul_ediv (limb o' i) 65536
  have hm : 0 ≤ limb o' i % 65536 ∧ limb o' i % 65536 < 65536 := by omega
  refine ⟨hl, fun k hk' => ?_, ⟨limb o' i / 65536, ?_, ?_, hk⟩, fun j hj => ?_, ?_⟩
  · rcases Nat.lt_or_eq_of_le (Nat.le_of_lt_succ hk') with hlt | rfl
    · rw [hf k (by omega) (by omega)]
      exact hb.carried k hlt
    · rw [hp]
      exact hm
  · omega
  · omega
  · rw [hf j (by omega) (by omega)]
    exact hb.rest j (by omega)
  · rw [part_changed₂ (i := i) (k := i + 1) (by omega) (by omega) (by omega)
      (fun j _ h1 h2 => hf j h1 h2), hb.part, hp, hk, ← hr, pow_succ]
    have he : limb o' i % 65536 = limb o' i - 65536 * (limb o' i / 65536) := by omega
    rw [he]
    ring

/-- The whole loop: every limb but the lowest is carried, and the carry out of the last has come
back to the lowest as a multiple of thirty-eight. -/
theorem car25519_ok {o : List Long} {c : Nat → Int} (h : Carries o c) :
    Ok (car25519 o) fun o' =>
      o'.length = 16 ∧ (∀ k, 1 ≤ k → k < 16 → 0 ≤ limb o' k ∧ limb o' k < 65536) ∧
      ∃ q r, -c 16 ≤ q ∧ q ≤ c 16 ∧ 0 ≤ r ∧ r < 65536 ∧ limb o' 0 = r + 38 * q ∧
        part o' 16 = part o 16 - q * (2 ^ 256 - 38) := by
  have hloop := ok_loop (n := 15) (Before o c) (fun i hi o' => before_step h hi) (before_zero h)
  unfold car25519
  rw [List.range_succ, List.foldlM_append]
  apply Ok.bind hloop
  intro o' hb
  rw [List.foldlM_cons]
  obtain ⟨q, hq1, hq2, hq⟩ := hb.carry
  have hbi := h.bound 15 (by omega)
  have hli := h.limbs 15 (by omega)
  have hout : -(65536 * c 16) ≤ limb o 15 - c 15 ∧ limb o 15 + c 15 < 65536 * (c 16 + 1) :=
    h.out 15 (by omega)
  have h0 := hb.carried 0 (by omega)
  have ha : after 15 = 0 := rfl
  apply Ok.bind (carStep_ok hb.length (by omega) (by omega) (by rw [ha]; omega))
  rintro p ⟨hl, hp, hk, hf⟩
  have hfac : factor 15 = 38 := rfl
  rw [ha] at hk hf
  rw [hfac] at hk
  apply ok_pure
  refine ⟨hl, fun k h1 h2 => ?_, limb o' 15 / 65536, limb o' 0, by omega, by omega, h0.1, h0.2, hk,
    ?_⟩
  · rcases Nat.lt_or_eq_of_le (Nat.le_of_lt_succ h2) with hlt | rfl
    · rw [hf k (by omega) (by omega)]
      exact hb.carried k hlt
    · rw [hp]
      omega
  · have he : limb o' 15 % 65536 = limb o' 15 - 65536 * (limb o' 15 / 65536) := by omega
    rw [part_changed₂ (i := 15) (k := 0) (by omega) (by omega) (by omega)
      (fun j _ h1 h2 => hf j h1 h2), hb.part, hp, hk, he]
    ring

end Ghajar.Curve25519
