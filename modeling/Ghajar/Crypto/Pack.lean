import Ghajar.Crypto.Field
import Mathlib.Algebra.BigOperators.Ring.Finset

/-!
# Elements as bytes

Reading takes any number below `2^255`. Writing carries three times, after which
every limb has its sixteen bits, and takes the prime away twice where that leaves no
borrow: the number is below `2^256`, so what is left is below the prime.
-/

namespace Ghajar.Curve25519

open Bytes Words Checked Limbs

/-! ## Selecting -/

theorem selStep_none (pq : List Long × List Long) (i : Nat) : selStep 0#64 pq i = pq := by
  have hs (l : List Long) : l.set i (l.getD i 0) = l := by
    rcases Nat.lt_or_ge i l.length with h | h
    · rw [List.getD_eq_getElem _ _ h, List.set_getElem_self]
    · rw [List.set_eq_of_length_le h]
  simp only [selStep, BitVec.zero_and, BitVec.xor_zero, hs]

theorem set_start {p q : List Long} {n : Nat} (hp : n < p.length) (hq : n < q.length) :
    (q.take n ++ p.drop n).set n (q.getD n 0) = q.take (n + 1) ++ p.drop (n + 1) := by
  have hl : (q.take n).length = n := by rw [List.length_take]; omega
  rw [List.set_append_right _ _ (by omega), hl, Nat.sub_self, List.drop_eq_getElem_cons hp,
    List.set_cons_zero, List.getD_eq_getElem _ _ hq, List.take_succ_eq_append_getElem hq,
    List.append_assoc]
  rfl

theorem getD_start {p q : List Long} {n : Nat} (hq : n ≤ q.length) :
    (q.take n ++ p.drop n).getD n 0 = p.getD n 0 := by
  have hl : (q.take n).length = n := by rw [List.length_take]; omega
  rw [List.getD_eq_getElem?_getD, List.getElem?_append_right (by omega), hl, Nat.sub_self,
    List.getElem?_drop, Nat.add_zero, List.getD_eq_getElem?_getD]

/-- Under a full mask the arrays change places, limb by limb. -/
theorem select_all {p q : List Long} (hp : p.length = 16) (hq : q.length = 16) {n : Nat}
    (hn : n ≤ 16) : (List.range n).foldl (selStep (BitVec.allOnes 64)) (p, q) =
      (q.take n ++ p.drop n, p.take n ++ q.drop n) := by
  induction n with
  | zero => rfl
  | succ n ih =>
    have h1 : p.getD n 0 ^^^ (p.getD n 0 ^^^ q.getD n 0) = q.getD n 0 := by
      rw [← BitVec.xor_assoc, BitVec.xor_self, BitVec.zero_xor]
    have h2 : q.getD n 0 ^^^ (p.getD n 0 ^^^ q.getD n 0) = p.getD n 0 := by
      rw [BitVec.xor_comm, BitVec.xor_assoc, BitVec.xor_self, BitVec.xor_zero]
    rw [List.range_succ, List.foldl_append, ih (by omega), List.foldl_cons, List.foldl_nil, selStep]
    simp only [getD_start (p := p) (q := q) (n := n) (by omega),
      getD_start (p := q) (q := p) (n := n) (by omega), BitVec.allOnes_and, h1, h2]
    rw [set_start (by omega) (by omega), set_start (by omega) (by omega)]

/-- A bit of an `Int`. -/
def bitInt (r : Bool) : BitVec 32 := if r then 1 else 0

theorem sel25519_ok {p q : List Long} (hp : p.length = 16) (hq : q.length = 16) (r : Bool) :
    Ok (sel25519 p q (bitInt r)) (· = if r then (q, p) else (p, q)) := by
  cases r with
  | false =>
    have hn (n : Nat) : (List.range n).foldl (selStep 0#64) (p, q) = (p, q) := by
      induction n with
      | zero => rfl
      | succ n ih =>
        rw [List.range_succ, List.foldl_append, ih, List.foldl_cons, List.foldl_nil, selStep_none]
    refine ⟨rfl, ?_⟩
    exact hn 16
  | true =>
    refine ⟨rfl, ?_⟩
    have h := select_all hp hq (Nat.le_refl 16)
    rw [List.take_of_length_le (by omega), List.take_of_length_le (by omega),
      List.drop_eq_nil_of_le (by omega), List.drop_eq_nil_of_le (by omega), List.append_nil,
      List.append_nil] at h
    exact h

/-! ## Reading -/

theorem byteLong (b : UInt8) : (toLong b &&& 0xff).toInt = b.toNat := by
  have hb := b.toNat_lt
  have h : toLong b &&& 0xff = b.toBitVec.setWidth 64 := toLong_and b
  have hn : (b.toBitVec.setWidth 64).toNat = b.toNat := by
    rw [BitVec.toNat_setWidth, UInt8.toNat_toBitVec]
    omega
  rw [h, BitVec.toInt_eq_toNat_of_lt (by omega), hn]

/-- The limbs of a read coordinate, before the highest loses its top bit. -/
structure Filled (n : List UInt8) (i : Nat) (o : List Long) : Prop where
  length : o.length = 16
  limbs : ∀ k < i, limb o k = (n.getD (2 * k) 0).toNat + 256 * (n.getD (2 * k + 1) 0).toNat

theorem fill_ok (n : List UInt8) {i : Nat} (hi : i < 16) {o : List Long} (h : Filled n i o) :
    Ok (do
      let v ← Checked.add (toLong (n.getD (2 * i) 0) &&& 0xff)
        (← Checked.shl (toLong (n.getD (2 * i + 1) 0) &&& 0xff) 8)
      return o.set i v) (Filled n (i + 1)) := by
  have h1 := (n.getD (2 * i) 0).toNat_lt
  have h2 := (n.getD (2 * i + 1) 0).toNat_lt
  have hl := h.length
  apply Ok.bind (ok_shl (by decide) (by rw [byteLong]; omega))
  intro w hw
  rw [byteLong] at hw
  apply Ok.bind (ok_add (by rw [byteLong, hw]; omega))
  intro v hv
  rw [byteLong, hw] at hv
  apply ok_pure
  refine ⟨by rw [List.length_set, hl], fun k hk => ?_⟩
  rcases Nat.lt_or_eq_of_le (Nat.le_of_lt_succ hk) with hlt | rfl
  · rw [limb_set_ne (by omega)]
    exact h.limbs k hlt
  · rw [limb_set_self (by omega), hv]
    omega

theorem limbs_of_bytes {n : List UInt8} (hn : n.length = 32) {o : List Long}
    (h : ∀ k < 16, limb o k = (n.getD (2 * k) 0).toNat + 256 * (n.getD (2 * k + 1) 0).toNat) :
    part o 16 = leNat n := by
  rw [eq_flatMap_pairs (n := 16) hn, leNat_pairs, part, Nat.cast_sum]
  apply Finset.sum_congr rfl
  intro k hk
  rw [h k (Finset.mem_range.1 hk)]
  push_cast
  rfl

theorem unpack25519_ok {n : List UInt8} (hn : n.length = 32) :
    Ok (unpack25519 n) fun o => Reduced o ∧ part o 16 = X25519.decodeUCoordinate n := by
  unfold unpack25519
  apply Ok.bind (ok_loop (n := 16) (Filled n) (fun i hi o ho => fill_ok n hi ho)
    ⟨List.length_replicate, fun k hk => absurd hk (Nat.not_lt_zero k)⟩)
  intro o ho
  apply ok_pure
  have hl := ho.length
  have hm : (o.getD 15 0 &&& 0x7fff).toInt = limb o 15 % 2 ^ 15 :=
    toInt_and (n := 15) (by decide) (by decide) _
  have h127 : (n.getD 31 0 &&& 127).toNat = (n.getD 31 0).toNat % 2 ^ 7 := by
    rw [UInt8.toNat_and]
    exact Nat.and_two_pow_sub_one_eq_mod _ 7
  have hlimbs : ∀ k < 16, limb (o.set 15 (o.getD 15 0 &&& 0x7fff)) k =
      ((n.set 31 (n.getD 31 0 &&& 127)).getD (2 * k) 0).toNat +
        256 * ((n.set 31 (n.getD 31 0 &&& 127)).getD (2 * k + 1) 0).toNat := by
    intro k hk
    have hg (j : Nat) (hj : j ≠ 31) : (n.set 31 (n.getD 31 0 &&& 127)).getD j 0 = n.getD j 0 :=
      getD_set_ne hj.symm
    rcases Nat.lt_or_eq_of_le (Nat.le_of_lt_succ hk) with hlt | rfl
    · rw [limb_set_ne (by omega), hg _ (by omega), hg _ (by omega)]
      exact ho.limbs k hk
    · have hs : (n.set 31 (n.getD 31 0 &&& 127)).getD 31 0 = n.getD 31 0 &&& 127 :=
        getD_set_self (by omega)
      have hx : limb o 15 = (n.getD 30 0).toNat + 256 * (n.getD 31 0).toNat := ho.limbs 15 hk
      have h30 := (n.getD 30 0).toNat_lt
      rw [limb_set_self (by omega), hm, hx]
      show _ = (((n.set 31 (n.getD 31 0 &&& 127)).getD 30 0).toNat : Int) +
        256 * ((n.set 31 (n.getD 31 0 &&& 127)).getD 31 0).toNat
      rw [hg 30 (by decide), hs, h127]
      push_cast
      omega
  refine ⟨⟨by rw [List.length_set, hl], ?_, fun k _ hk => ?_⟩, ?_⟩
  · have h1 := ((n.set 31 (n.getD 31 0 &&& 127)).getD (2 * 0) 0).toNat_lt
    have h2 := ((n.set 31 (n.getD 31 0 &&& 127)).getD (2 * 0 + 1) 0).toNat_lt
    rw [hlimbs 0 (by decide)]
    omega
  · have h1 := ((n.set 31 (n.getD 31 0 &&& 127)).getD (2 * k) 0).toNat_lt
    have h2 := ((n.set 31 (n.getD 31 0 &&& 127)).getD (2 * k + 1) 0).toNat_lt
    rw [hlimbs k hk]
    omega
  · rw [limbs_of_bytes (by rw [List.length_set, hn]) hlimbs, X25519.decodeUCoordinate]

/-! ## Writing -/

/-- The carries out of an element that is reduced. -/
def slight : Nat → Int
  | 0 => 0
  | _ + 1 => 1

theorem slight_carries {t : List Long} (h : Reduced t) : Carries t slight where
  length := h.length
  first := rfl
  bound
    | 0, _ => by decide
    | _ + 1, _ => by simp only [slight]; omega
  limbs := fun i hi => by have := h.limbs i hi; omega
  out
    | 0, _ => by have := h.lowest; simp only [slight]; omega
    | i + 1, hi => by have := h.rest (i + 1) (by omega) hi; simp only [slight]; omega

theorem part_lowest (t : List Long) : part t 16 = limb t 0 + 65536 * part (t.drop 1) 15 := by
  have h : part t (1 + 15) = part t 1 + 65536 ^ 1 * part (t.drop 1) 15 := part_drop t 1 15
  rw [h, part_succ, part_zero]
  ring

theorem upper_lt {t : List Long} (h : ∀ k, 1 ≤ k → k < 16 → 0 ≤ limb t k ∧ limb t k < 65536) :
    0 ≤ part (t.drop 1) 15 ∧ part (t.drop 1) 15 < 65536 ^ 15 :=
  Carried.part_lt fun k hk => by
    rw [limb_drop]
    exact h (1 + k) (by omega) (by omega)

/-- A carry out of the last limb means that the others are as good as empty, a borrow that they
are full, so one carry is enough for the lowest limb as well. -/
theorem settle_ok {t : List Long} (h : Reduced t) :
    Ok (car25519 t) fun o => o.length = 16 ∧ Carried o 16 ∧ value o = value t := by
  refine (car25519_ok (slight_carries h)).mono ?_
  rintro o ⟨hl, hr, q, r, hq1, hq2, hr1, hr2, h0, hp⟩
  have hs : slight 16 = 1 := rfl
  rw [hs] at hq1 hq2
  refine ⟨hl, fun k hk => ?_, value_eq hp⟩
  rcases Nat.eq_zero_or_pos k with rfl | hpos
  · have hold := upper_lt h.rest
    have hnew := upper_lt hr
    have hlow := h.lowest
    rw [part_lowest, part_lowest] at hp
    rcases (by omega : q = -1 ∨ q = 0 ∨ q = 1) with rfl | rfl | rfl <;> omega
  · exact hr k hpos hk

theorem Carried.reduced {t : List Long} (hl : t.length = 16) (h : Carried t 16) : Reduced t where
  length := hl
  lowest := by have := h 0 (by decide); omega
  rest := fun k _ hk => h k hk

theorem prime_eq : (X25519.prime : Int) = 32767 * 65536 ^ 15 + (65536 ^ 15 - 19) := by decide

/-- The difference up to the limb `j`, with a borrow still on that limb. -/
structure Borrowed (t : List Long) (j : Nat) (m : List Long) : Prop where
  length : m.length = 16
  carried : Carried m j
  top : -65536 ≤ limb m j ∧ limb m j < 65536
  part : part m (j + 1) = part t (j + 1) - (65536 ^ (j + 1) - 19)

/-- The borrow that a limb of the difference asks for. -/
theorem borrow_eq {v : Long} (h : -65536 ≤ v.toInt ∧ v.toInt < 65536) :
    (v.sshiftRight 16 &&& 1).toInt = -(v.toInt / 65536) := by
  have h1 : (v.sshiftRight 16 &&& 1).toInt = (v.toInt / 2 ^ 16) % 2 ^ 1 := by
    rw [toInt_and (n := 1) (by decide) (by decide), toInt_sshiftRight]
  rw [h1]
  omega

/-- Whether there is none, as the bit that `pack25519` selects with. -/
theorem borrow_bit {v : Long} (h : -65536 ≤ v.toInt ∧ v.toInt < 65536) :
    1 - (v.sshiftRight 16 &&& 1).setWidth 32 = bitInt (decide (0 ≤ v.toInt)) := by
  have hb := borrow_eq h
  rcases Int.lt_or_le v.toInt 0 with hv | hv
  · have h1 : v.sshiftRight 16 &&& 1 = 1#64 := by
      apply BitVec.eq_of_toInt_eq
      rw [hb]
      show _ = 1
      omega
    rw [h1, decide_eq_false (by omega)]
    rfl
  · have h0 : v.sshiftRight 16 &&& 1 = 0#64 := by
      apply BitVec.eq_of_toInt_eq
      rw [hb]
      show _ = 0
      omega
    rw [h0, decide_eq_true hv]
    rfl

theorem borrowStep_ok {t m : List Long} (ht : Carried t 16) {j : Nat} (hj : j < 14)
    (h : Borrowed t j m) : Ok (borrowStep t m (j + 1)) (Borrowed t (j + 1)) := by
  have htop := h.top
  have hti := ht (j + 1) (by omega)
  have hl := h.length
  have hb : ((m.getD j 0).sshiftRight 16 &&& 1).toInt = -(limb m j / 65536) := borrow_eq htop
  have hf : (0xffff : Long).toInt = 65535 := by decide
  unfold borrowStep
  simp only [Nat.add_sub_cancel]
  apply Ok.bind (ok_sub (by rw [hf]; show _ ≤ limb t (j + 1) - _ ∧ limb t (j + 1) - _ < _; omega))
  intro w hw
  have hw : w.toInt = limb t (j + 1) - 65535 := by rw [hw, hf]; rfl
  apply Ok.bind (ok_sub (by rw [hb, hw]; omega))
  intro v hv
  rw [hb, hw] at hv
  apply ok_pure
  have hm : ((m.set (j + 1) v).getD j 0 &&& 0xffff).toInt = limb m j % 65536 := by
    rw [toInt_and (n := 16) (by decide) (by decide)]
    exact congrArg (· % (2 : Int) ^ 16) (limb_set_ne (by omega))
  generalize (m.set (j + 1) v).getD j 0 &&& 0xffff = u at hm
  have hlow : limb ((m.set (j + 1) v).set j u) j = limb m j % 65536 := by
    rw [limb_set_self (by rw [List.length_set]; omega), hm]
  have hat : limb ((m.set (j + 1) v).set j u) (j + 1) = v.toInt := by
    rw [limb_set_ne (by omega), limb_set_self (by omega)]
  have hold (k : Nat) (hk : k ≠ j) (hk' : k ≠ j + 1) :
      limb ((m.set (j + 1) v).set j u) k = limb m k := by
    rw [limb_set_ne hk.symm, limb_set_ne hk'.symm]
  refine ⟨by rw [List.length_set, List.length_set, hl], fun k hk => ?_, ?_, ?_⟩
  · rcases eq_or_ne k j with rfl | hne
    · rw [hlow]
      omega
    · rw [hold k hne (by omega)]
      exact h.carried k (by omega)
  · rw [hat, hv]
    omega
  · have hr : limb m j % 65536 = limb m j - 65536 * (limb m j / 65536) := by omega
    rw [part_succ, hat, hv,
      part_changed (n := j + 1) (k := j) (t := m) (by omega) fun k hk hne => hold k hne (by omega),
      h.part, hlow, hr, part_succ t (j + 1), pow_succ]
    ring

/-- The prime is taken away where it can be. -/
theorem reduceOnce_ok {t : List Long} (hl : t.length = 16) (ht : Carried t 16) :
    Ok (reduceOnce t) fun o => o.length = 16 ∧ Carried o 16 ∧
      part o 16 = if (X25519.prime : Int) ≤ part t 16 then part t 16 - X25519.prime
        else part t 16 := by
  have hed : (0xffed : Long).toInt = 65517 := by decide
  have h7f : (0x7fff : Long).toInt = 32767 := by decide
  have ht0 := ht 0 (by decide)
  have ht15 := ht 15 (by decide)
  unfold reduceOnce
  apply Ok.bind (ok_sub (by rw [hed]; show _ ≤ limb t 0 - _ ∧ limb t 0 - _ < _; omega))
  intro v₀ hv₀
  have hv₀ : v₀.toInt = limb t 0 - 65517 := by rw [hv₀, hed]; rfl
  have hm₀ : limb ((List.replicate 16 0).set 0 v₀) 0 = limb t 0 - 65517 := by
    rw [limb_set_self (by decide), hv₀]
  apply Ok.bind (ok_loop (n := 14) (Borrowed t) (fun j hj m hm => borrowStep_ok ht hj hm)
    ⟨by rw [List.length_set]; rfl, fun k hk => absurd hk (Nat.not_lt_zero k), by rw [hm₀]; omega,
      by rw [part_succ, part_zero, part_succ, part_zero, hm₀]; omega⟩)
  intro m hm
  have htop := hm.top
  have hml := hm.length
  have hb : ((m.getD 14 0).sshiftRight 16 &&& 1).toInt = -(limb m 14 / 65536) := borrow_eq htop
  apply Ok.bind (ok_sub (by rw [h7f]; show _ ≤ limb t 15 - _ ∧ limb t 15 - _ < _; omega))
  intro w hw
  have hw : w.toInt = limb t 15 - 32767 := by rw [hw, h7f]; rfl
  apply Ok.bind (ok_sub (by rw [hb, hw]; omega))
  intro v hv
  rw [hb, hw] at hv
  have hg : (m.set 15 v).getD 15 0 = v := getD_set_self (by omega)
  simp only [hg]
  rw [borrow_bit (by omega)]
  have hu : ((m.set 15 v).getD 14 0 &&& 0xffff).toInt = limb m 14 % 65536 := by
    rw [toInt_and (n := 16) (by decide) (by decide)]
    exact congrArg (· % (2 : Int) ^ 16) (limb_set_ne (by decide))
  generalize (m.set 15 v).getD 14 0 &&& 0xffff = u at hu
  have hlen : ((m.set 15 v).set 14 u).length = 16 := by
    rw [List.length_set, List.length_set, hml]
  have hlow : limb ((m.set 15 v).set 14 u) 14 = limb m 14 % 65536 := by
    rw [limb_set_self (by rw [List.length_set]; omega), hu]
  have hat : limb ((m.set 15 v).set 14 u) 15 = v.toInt := by
    rw [limb_set_ne (by decide), limb_set_self (by omega)]
  have hold (k : Nat) (hk : k < 14) : limb ((m.set 15 v).set 14 u) k = limb m k := by
    rw [limb_set_ne (by omega), limb_set_ne (by omega)]
  have hlower : Carried ((m.set 15 v).set 14 u) 15 := fun k hk => by
    rcases Nat.lt_or_eq_of_le (Nat.le_of_lt_succ hk) with hlt | rfl
    · rw [hold k hlt]
      exact hm.carried k hlt
    · rw [hlow]
      omega
  have hpart : part ((m.set 15 v).set 14 u) 16 = part t 16 - X25519.prime := by
    have hr : limb m 14 % 65536 = limb m 14 - 65536 * (limb m 14 / 65536) := by omega
    have hp : part m 15 = part t 15 - (65536 ^ 15 - 19) := hm.part
    have hc : part ((m.set 15 v).set 14 u) 15 =
        part m 15 + (limb m 14 % 65536 - limb m 14) * 65536 ^ 14 := by
      rw [part_changed (n := 15) (k := 14) (t := m) (by decide)
        (fun k hk hne => hold k (by omega)), hlow]
    rw [part_succ, hat, hv, hc, hp, hr, part_succ t 15, prime_eq]
    ring
  have hbound := hlower.part_lt
  have hsucc : part ((m.set 15 v).set 14 u) 16 =
      part ((m.set 15 v).set 14 u) 15 + v.toInt * 65536 ^ 15 := by rw [part_succ, hat]
  apply Ok.bind (sel25519_ok hl hlen _)
  rintro _ rfl
  apply ok_pure
  rcases Int.lt_or_le v.toInt 0 with hneg | hpos
  · rw [decide_eq_false (by omega), if_neg Bool.false_ne_true, if_neg (by omega)]
    exact ⟨hl, ht, rfl⟩
  · rw [decide_eq_true hpos, if_pos rfl, if_pos (by omega)]
    refine ⟨hlen, fun k hk => ?_, hpart⟩
    rcases Nat.lt_or_eq_of_le (Nat.le_of_lt_succ hk) with hlt | rfl
    · exact hlower k hlt
    · rw [hat]
      omega

/-- Twice is enough, from below `2^256`. -/
theorem reduceTwice_ok {t : List Long} (hl : t.length = 16) (ht : Carried t 16) :
    Ok ((List.range 2).foldlM (fun t _ => reduceOnce t) t) fun o =>
      Carried o 16 ∧ part o 16 = part t 16 % X25519.prime := by
  have hb := ht.part_lt
  have hp : (X25519.prime : Int) = 2 ^ 255 - 19 := by decide
  have hr : List.range 2 = [0, 1] := rfl
  rw [hr, List.foldlM_cons]
  apply Ok.bind (reduceOnce_ok hl ht)
  rintro o ⟨ho, hoc, hop⟩
  rw [List.foldlM_cons]
  apply Ok.bind (reduceOnce_ok ho hoc)
  rintro u ⟨hu, huc, hup⟩
  refine ok_pure ⟨huc, ?_⟩
  rw [hp] at hop hup ⊢
  split_ifs at hop hup <;> omega

theorem limb_bytes {v : Long} (h : 0 ≤ v.toInt ∧ v.toInt < 65536) :
    (((toByte (v &&& 0xff)).toNat + 256 * (toByte (v.sshiftRight 8 &&& 0xff)).toNat : Nat) : Int) =
      v.toInt := by
  have hb (w : Long) : ((toByte (w &&& 0xff)).toNat : Int) = w.toInt % 2 ^ 8 := by
    have he := toInt_emod (n := 8) (by decide) (w &&& 0xff)
    have ha : (w &&& 0xff).toInt = w.toInt % 2 ^ 8 := toInt_and (by decide) (by decide) w
    rw [toByte_toNat]
    omega
  rw [Nat.cast_add, Nat.cast_mul, hb, hb, toInt_sshiftRight]
  omega

/-- The two bytes of each limb, as `pack25519` writes them. -/
theorem bytes_of_limbs {o : List Long} (h : Carried o 16) :
    (leNat ((List.range 16).flatMap fun i =>
      [toByte (o.getD i 0 &&& 0xff), toByte ((o.getD i 0).sshiftRight 8 &&& 0xff)]) : Int) =
      part o 16 := by
  rw [leNat_pairs, Nat.cast_sum, part]
  apply Finset.sum_congr rfl
  intro k hk
  rw [Nat.cast_mul, limb_bytes (h k (Finset.mem_range.1 hk)), Nat.cast_pow]
  rfl

/-- An element as bytes is its representative below the prime. -/
theorem pack25519_ok {n : List Long} (h : Reduced n) :
    Ok (pack25519 n) (· = leBytes 32 (value n).val) := by
  unfold pack25519
  apply Ok.bind (settle_ok h)
  rintro t₁ ⟨hl₁, hc₁, hv₁⟩
  apply Ok.bind (settle_ok (Carried.reduced hl₁ hc₁))
  rintro t₂ ⟨hl₂, hc₂, hv₂⟩
  apply Ok.bind (settle_ok (Carried.reduced hl₂ hc₂))
  rintro t₃ ⟨hl₃, hc₃, hv₃⟩
  apply Ok.bind (reduceTwice_ok hl₃ hc₃)
  rintro o ⟨hc, hp⟩
  apply ok_pure
  have hv : ((value n).val : Int) = part t₃ 16 % X25519.prime := by
    rw [← hv₁, ← hv₂, ← hv₃, value, ZMod.val_intCast]
  rw [← Int.ofNat_inj.1 ((bytes_of_limbs hc).trans (hp.trans hv.symm))]
  exact (leBytes_leNat _).symm

end Ghajar.Curve25519
