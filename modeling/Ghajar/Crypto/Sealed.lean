import Ghajar.Crypto.ChaCha20Poly1305

/-!
# The containers are sealed by RFC 8439

The code's words are the numbers below `2^32`: each operation of a quarter round is
the one on numbers, so the blocks are the same. The loops over an offset are
followed from the start of a block of 64 or 16 bytes to the end of the text.
-/

namespace Ghajar.ChaCha20Poly1305

open Bytes Words ChaChaPoly

/-! ## Words and bytes -/

theorem outBytes_eq (v : BitVec 32) : outBytes v = leBytes 4 v.toNat := by
  have h (k : Nat) : toByte (v >>> k) = UInt8.ofNat (v.toNat / 2 ^ k) := by
    apply UInt8.toNat_inj.1
    rw [toByte_toNat, BitVec.toNat_ushiftRight, Nat.shiftRight_eq_div_pow, UInt8.toNat_ofNat']
  have h0 : toByte v = UInt8.ofNat v.toNat := by
    apply UInt8.toNat_inj.1
    rw [toByte_toNat, UInt8.toNat_ofNat']
  simp only [outBytes, leBytes, h, h0, Nat.div_div_eq_div_mul, Nat.reducePow, Nat.reduceMul]

theorem or_toNat {x y : BitVec 32} {k : Nat} (hx : x.toNat < 2 ^ k) (hy : y.toNat < 256)
    (hk : k + 8 ≤ 32) : (x ||| y <<< k).toNat = x.toNat + 2 ^ k * y.toNat := by
  have hp : 2 ^ k * 256 ≤ 2 ^ 32 := by
    calc 2 ^ k * 256 = 2 ^ (k + 8) := by rw [Nat.pow_add]
    _ ≤ 2 ^ 32 := Nat.pow_le_pow_right (by decide) hk
  have hy' : 2 ^ k * y.toNat < 2 ^ 32 :=
    Nat.lt_of_lt_of_le (Nat.mul_lt_mul_of_pos_left hy (Nat.two_pow_pos k)) hp
  rw [BitVec.toNat_or, BitVec.toNat_shiftLeft, Nat.shiftLeft_eq, Nat.mul_comm y.toNat,
    Nat.mod_eq_of_lt hy', Nat.or_comm, ← Nat.two_pow_add_eq_or_of_lt hx, Nat.add_comm]

theorem le32_toNat {b : List UInt8} {o : Nat} (h : o + 4 ≤ b.length) :
    (le32 b o).toNat = leNat ((b.drop o).take 4) := by
  have ht : (b.drop o).take 4 =
      [b.getD o 0, b.getD (o + 1) 0, b.getD (o + 2) 0, b.getD (o + 3) 0] := by
    apply List.ext_getElem
    · simp; omega
    · intro i h1 h2
      have hi : i < 4 := by simpa using h2
      match i, hi with
      | 0, _ => simp; rw [List.getElem?_eq_getElem (by omega)]; rfl
      | 1, _ => simp; rw [List.getElem?_eq_getElem (by omega)]; rfl
      | 2, _ => simp; rw [List.getElem?_eq_getElem (by omega)]; rfl
      | 3, _ => simp; rw [List.getElem?_eq_getElem (by omega)]; rfl
  have hn (i : UInt8) : (i.toBitVec.setWidth 32).toNat = i.toNat := by
    have := i.toNat_lt
    simp only [BitVec.toNat_setWidth, UInt8.toNat_toBitVec]
    omega
  have hb (i : UInt8) : (i.toBitVec.setWidth 32).toNat < 256 := by rw [hn]; exact i.toNat_lt
  rw [ht]
  simp only [le32, toInt_and]
  generalize b.getD o 0 = w, b.getD (o + 1) 0 = x, b.getD (o + 2) 0 = y, b.getD (o + 3) 0 = z
  have h1 := or_toNat (k := 8) (hb w) (hb x) (by decide)
  have h2 := or_toNat (x := w.toBitVec.setWidth 32 ||| x.toBitVec.setWidth 32 <<< 8) (k := 16)
    (by have := hb w; have := hb x; rw [h1]; omega) (hb y) (by decide)
  have h3 := or_toNat (x := w.toBitVec.setWidth 32 ||| x.toBitVec.setWidth 32 <<< 8 |||
      y.toBitVec.setWidth 32 <<< 16) (k := 24)
    (by have := hb w; have := hb x; have := hb y; rw [h2, h1]; omega) (hb z) (by decide)
  rw [h3, h2, h1]
  simp only [leNat, hn]
  omega

/-! ## Blocks -/

theorem rotateLeft_toNat (x : BitVec 32) {n : Nat} (hn : 0 < n) (h : n < 32) :
    (x.rotateLeft n).toNat = rotl n x.toNat := by
  have hs : x.toNat / 2 ^ (32 - n) < 2 ^ n := by
    apply Nat.div_lt_of_lt_mul
    rw [← Nat.pow_add, Nat.sub_add_cancel (by omega)]
    exact x.isLt
  have hm : x.toNat * 2 ^ n % 2 ^ 32 = 2 ^ n * (x.toNat % 2 ^ (32 - n)) := by
    have hp : 2 ^ 32 = 2 ^ n * 2 ^ (32 - n) := by rw [← Nat.pow_add]; congr 1; omega
    rw [hp, Nat.mul_comm, Nat.mul_mod_mul_left]
  rw [BitVec.toNat_rotateLeft, Nat.mod_eq_of_lt h, Nat.shiftLeft_eq, Nat.shiftRight_eq_div_pow,
    rotl, hm, Nat.two_pow_add_eq_or_of_lt hs]

theorem getD_toNat (x : List (BitVec 32)) (i : Nat) :
    (x.map BitVec.toNat).getD i 0 = (x.getD i 0).toNat := by
  rw [← List.getD_map x (0 : BitVec 32) BitVec.toNat]
  rfl

section Quarter

variable {a b c d : Nat} {x : List (BitVec 32)}

/-- Of two rounds of writes to four different words the second stays. -/
theorem set_twice (hab : a ≠ b) (hac : a ≠ c) (had : a ≠ d) (hbc : b ≠ c) (hbd : b ≠ d)
    (hcd : c ≠ d) (p q r s p' q' r' s' : BitVec 32) :
    (((((((x.set a p).set d s).set c r).set b q).set a p').set d s').set c r').set b q' =
      (((x.set a p').set b q').set c r').set d s' := by
  rw [List.set_comm q p' hab.symm, List.set_comm r p' hac.symm, List.set_comm s p' had.symm,
    List.set_set]
  rw [List.set_comm q s' hbd, List.set_comm r s' hcd, List.set_set]
  rw [List.set_comm q r' hbc, List.set_set, List.set_set]
  rw [List.set_comm s' r' hcd.symm, List.set_comm s' q' hbd.symm, List.set_comm r' q' hbc.symm]

/-- The quarter round in place, on four different words, sets each of them once. -/
theorem qr_eq (ha : a < x.length) (hb : b < x.length) (hc : c < x.length) (hd : d < x.length)
    (h : [a, b, c, d].Nodup) :
    (qr a b c d x).map BitVec.toNat = quarterRound a b c d (x.map BitVec.toNat) := by
  simp only [List.nodup_cons, List.mem_cons, List.not_mem_nil, or_false, not_or] at h
  obtain ⟨⟨hab, hac, had⟩, ⟨hbc, hbd⟩, hcd, -⟩ := h
  have hba := Ne.symm hab
  have hca := Ne.symm hac
  have hda := Ne.symm had
  have hcb := Ne.symm hbc
  have hdb := Ne.symm hbd
  have hdc := Ne.symm hcd
  simp (disch := (first | assumption | simpa)) only [qr, getD_set_self, getD_set_ne]
  rw [set_twice hab hac had hbc hbd hcd]
  simp only [List.map_set, BitVec.toNat_add, BitVec.toNat_xor, quarterRound, quarter, getD_toNat,
    add32, rotateLeft_toNat _ (by decide : 0 < 16) (by decide : 16 < 32),
    rotateLeft_toNat _ (by decide : 0 < 12) (by decide : 12 < 32),
    rotateLeft_toNat _ (by decide : 0 < 8) (by decide : 8 < 32),
    rotateLeft_toNat _ (by decide : 0 < 7) (by decide : 7 < 32)]

@[simp] theorem qr_length : (qr a b c d x).length = x.length := by
  simp [qr]

end Quarter

@[simp] theorem rounds_length (x : List (BitVec 32)) : (rounds x).length = x.length := by
  simp [rounds]

theorem rounds_eq {x : List (BitVec 32)} (h : x.length = 16) :
    (rounds x).map BitVec.toNat = innerBlock (x.map BitVec.toNat) := by
  simp (disch := (first | decide | simp only [qr_length, h]; decide)) only
    [rounds, innerBlock, qr_eq]

theorem iterate_eq (n : Nat) {x : List (BitVec 32)} (h : x.length = 16) :
    (rounds^[n] x).map BitVec.toNat = innerBlock^[n] (x.map BitVec.toNat) := by
  induction n generalizing x with
  | zero => rfl
  | succ n ih =>
    rw [Function.iterate_succ_apply, Function.iterate_succ_apply, ih (by rwa [rounds_length]),
      rounds_eq h]

theorem iterate_length (n : Nat) (x : List (BitVec 32)) : (rounds^[n] x).length = x.length := by
  induction n generalizing x with
  | zero => rfl
  | succ n ih => rw [Function.iterate_succ_apply, ih, rounds_length]

theorem start_length (key nonce : List UInt8) (counter : BitVec 32) :
    (start key counter nonce).length = 16 := rfl

theorem outBytes_length (l : List (BitVec 32)) : (l.flatMap outBytes).length = 4 * l.length := by
  induction l with
  | nil => rfl
  | cons v l ih =>
    rw [List.flatMap_cons, List.length_append, ih, List.length_cons, outBytes_eq, leBytes_length]
    omega

@[simp] theorem block_length (key nonce : List UInt8) (counter : BitVec 32) :
    (block key counter nonce).length = 64 := by
  rw [block, outBytes_length, List.length_zipWith, iterate_length, start_length]
  rfl

theorem words_eq {b : List UInt8} {n : Nat} (h : b.length = 4 * n) :
    (List.range n).map (fun i => (le32 b (i * 4)).toNat) = words b := by
  have hn : (b.length + 4 - 1) / 4 = n := by omega
  rw [words, chunks, hn, List.map_map]
  apply List.map_congr_left
  intro i hi
  have hi : i < n := List.mem_range.1 hi
  rw [le32_toNat (by omega), Nat.mul_comm]
  rfl

section Block

variable {key nonce : List UInt8} (hk : key.length = 32) (hn : nonce.length = 12)
include hk hn

theorem start_eq (counter : BitVec 32) :
    (start key counter nonce).map BitVec.toNat = initial key counter.toNat nonce := by
  rw [initial, ← words_eq (n := 8) hk, ← words_eq (n := 3) hn, Nat.mod_eq_of_lt counter.isLt]
  rfl

theorem block_eq (counter : BitVec 32) :
    block key counter nonce = ChaChaPoly.block key counter.toNat nonce := by
  have hi := iterate_eq 10 (start_length key nonce counter)
  rw [start_eq hk hn] at hi
  have hz : List.zipWith add32 (innerBlock^[10] (initial key counter.toNat nonce))
      (initial key counter.toNat nonce) =
      (List.zipWith (· + ·) (rounds^[10] (start key counter nonce))
        (start key counter nonce)).map BitVec.toNat := by
    rw [← hi, ← start_eq hk hn, List.zipWith_map, List.map_zipWith]
    simp only [add32, BitVec.toNat_add]
  rw [ChaChaPoly.block, hz, List.flatMap_map, block]
  exact List.flatMap_congr fun v _ => outBytes_eq v

end Block

/-! ## The key stream -/

theorem block_mod (key nonce : List UInt8) (counter : Nat) :
    ChaChaPoly.block key (counter % 2 ^ 32) nonce = ChaChaPoly.block key counter nonce := by
  rw [ChaChaPoly.block, ChaChaPoly.block, initial, initial, Nat.mod_mod]

section Stream

variable {key nonce : List UInt8} (hk : key.length = 32) (hn : nonce.length = 12)
include hk hn

omit hk hn in
theorem xorLoop_done {input : List UInt8} {off : Nat} (h : input.length ≤ off)
    (counter : BitVec 32) (out : List UInt8) :
    xorLoop key nonce input counter off out = out := by
  rw [xorLoop, if_neg (by omega)]

/-- The bytes of one turn of the loop are those of the stream. -/
theorem turn_eq (input : List UInt8) (counter0 k n : Nat) (h : n ≤ 64)
    (hl : 64 * k + n ≤ input.length) :
    ((List.range n).map fun i =>
      toByte (toInt (input.getD (64 * k + i) 0) ^^^
        toInt ((block key (BitVec.ofNat 32 (counter0 + k)) nonce).getD i 0))) =
      ((chacha20 key counter0 nonce input).drop (64 * k)).take n := by
  apply List.ext_getElem
  · simp only [List.length_map, List.length_range, List.length_take, List.length_drop,
      chacha20_length]
    omega
  · intro i h1 h2
    have hi : i < n := by simpa using h1
    have hd : (64 * k + i) / 64 = k := by omega
    have hm : (64 * k + i) % 64 = i := by omega
    rw [List.getElem_map, List.getElem_range, toByte_xor, toByte_toInt, toByte_toInt,
      List.getElem_take, List.getElem_drop,
      List.getD_eq_getElem _ _ (by omega), block_eq hk hn, BitVec.toNat_ofNat, block_mod]
    simp only [chacha20, List.getElem_mapIdx, keystream, hd, hm]

/-- From block `k` on the loop writes what is left of the text. -/
theorem xorLoop_eq (input : List UInt8) (counter0 k : Nat) (out : List UInt8) :
    xorLoop key nonce input (BitVec.ofNat 32 (counter0 + k)) (64 * k) out =
      out ++ (chacha20 key counter0 nonce input).drop (64 * k) := by
  induction hr : input.length - 64 * k using Nat.strongRecOn generalizing k out with
  | ind r ih =>
    rcases Nat.lt_or_ge (64 * k) input.length with h | h
    · rw [xorLoop, if_pos h]
      simp only
      rw [turn_eq hk hn input counter0 k _ (by omega) (by omega)]
      rcases Nat.lt_or_ge (input.length - 64 * k) 64 with hs | hs
      · rw [xorLoop_done (by omega), List.take_of_length_le]
        rw [List.length_drop, chacha20_length]
        omega
      · have hc : BitVec.ofNat 32 (counter0 + k) + 1 = BitVec.ofNat 32 (counter0 + (k + 1)) := by
          rw [← Nat.add_assoc, BitVec.ofNat_add (counter0 + k) 1]
          rfl
        rw [Nat.min_eq_left hs, hc, ← Nat.mul_succ, ih _ (by omega) (k + 1) _ rfl,
          List.append_assoc, Nat.mul_succ, ← List.drop_drop, List.take_append_drop]
    · rw [xorLoop_done h, List.drop_eq_nil_of_le (by rwa [chacha20_length]), List.append_nil]

theorem xor_eq (input : List UInt8) (counter0 : BitVec 32) :
    xor key nonce input counter0 = chacha20 key counter0.toNat nonce input := by
  have h := xorLoop_eq hk hn input counter0.toNat 0 []
  rwa [Nat.add_zero, Nat.mul_zero, List.drop_zero, List.nil_append, BitVec.ofNat_toNat,
    BitVec.setWidth_eq] at h

end Stream

/-! ## The authenticator -/

theorem leInt_eq (b : List UInt8) : leInt b = leNat b := by
  rw [leInt, bigInteger, List.reverse_reverse]

theorem masked_eq (mask : BitVec 32) (i : Nat) (b : List UInt8) :
    masked mask i b = b.set i (b.getD i 0 &&& toByte mask) := by
  rw [masked, toByte_and, toByte_toInt]

theorem leNat_and {as bs : List UInt8} (h : as.length = bs.length) :
    leNat (List.zipWith (· &&& ·) as bs) = leNat as &&& leNat bs := by
  induction as generalizing bs with
  | nil => simp [leNat]
  | cons a as ih =>
    cases bs with
    | nil => cases h
    | cons b bs =>
      have ha := a.toNat_lt
      have hb := b.toNat_lt
      have hl : (a.toNat + 256 * leNat as &&& b.toNat + 256 * leNat bs) % 2 ^ 8 =
          a.toNat &&& b.toNat := by
        rw [Nat.and_mod_two_pow]
        congr 1 <;> omega
      have hh : (a.toNat + 256 * leNat as &&& b.toNat + 256 * leNat bs) / 2 ^ 8 =
          leNat as &&& leNat bs := by
        rw [Nat.and_div_two_pow]
        congr 1 <;> omega
      rw [List.zipWith_cons_cons, leNat, leNat, leNat, ih (by simpa using h), UInt8.toNat_and]
      omega

def clampBytes : List UInt8 :=
  [255, 255, 255, 15, 252, 255, 255, 15, 252, 255, 255, 15, 252, 255, 255, 15]

theorem rBytes_eq {key : List UInt8} (h : (key.take 16).length = 16) :
    rBytes key = List.zipWith (· &&& ·) (key.take 16) clampBytes := by
  have h255 (b : UInt8) : b &&& 255 = b := UInt8.and_neg_one
  have h15 : toByte (15 : BitVec 32) = 15 := rfl
  have h252 : toByte (252 : BitVec 32) = 252 := rfl
  simp only [rBytes, masked_eq, h15, h252]
  generalize key.take 16 = l at h
  match l, h with
  | [_, _, _, _, _, _, _, _, _, _, _, _, _, _, _, _], _ =>
    simp [clampBytes, h255]

theorem clamp_eq {key : List UInt8} (h : key.length = 32) :
    leInt (rBytes key) = clamp (leNat (key.take 16)) := by
  have hl : (key.take 16).length = 16 := by rw [List.length_take, h]; rfl
  rw [leInt_eq, rBytes_eq hl, leNat_and hl]
  rfl

theorem getD_leBytes (w n i : Nat) (h : i < w) :
    (leBytes w n).getD i 0 = UInt8.ofNat (n / 256 ^ i) := by
  induction w generalizing n i with
  | zero => omega
  | succ w ih =>
    cases i with
    | zero => simp [leBytes]
    | succ i =>
      rw [leBytes, List.getD_cons_succ, ih _ _ (by omega), Nat.div_div_eq_div_mul, pow_succ']

theorem lt_bitLength (n : Nat) : n < 2 ^ bitLength n := by
  unfold bitLength
  split
  · omega
  · exact Nat.lt_log2_self

/-- The bytes that `toByteArray` leaves out are zero. -/
theorem tag_eq (n : Nat) : ((List.range 16).map fun i =>
    if i < (toByteArray n).reverse.length then (toByteArray n).reverse.getD i 0 else 0) =
      leBytes 16 n := by
  have ht : (toByteArray n).reverse = leBytes (bitLength n / 8 + 1) n := List.reverse_reverse _
  apply List.ext_getElem (by simp)
  intro i h1 h2
  have hi : i < 16 := by simpa using h2
  rw [← List.getD_eq_getElem _ 0 h2, getD_leBytes _ _ _ hi, List.getElem_map, List.getElem_range,
    ht, leBytes_length]
  split
  · rename_i h
    exact getD_leBytes _ _ _ h
  · rename_i h
    have hlt : n < 256 ^ i := by
      calc n < 2 ^ bitLength n := lt_bitLength n
      _ ≤ 2 ^ (8 * i) := Nat.pow_le_pow_right (by decide) (by omega)
      _ = 256 ^ i := Nat.pow_mul 2 8 i
    rw [Nat.div_eq_of_lt hlt]
    rfl

theorem polyLoop_eq (r p : Nat) (msg : List UInt8) (acc i : Nat) :
    polyLoop r p msg acc i =
      ((chunks 16 (msg.drop i)).map coefficient).foldl (fun acc c => (acc + c) * r % p) acc := by
  fun_induction polyLoop r p msg acc i with
  | case1 acc i h n chunk ih =>
    have hne : msg.drop i ≠ [] := by
      intro he
      have := List.drop_eq_nil_iff.1 he
      omega
    have ht : (msg.drop i).take n = (msg.drop i).take 16 := by
      rw [List.take_eq_take_iff, List.length_drop]
      omega
    have hd : msg.drop (i + n) = (msg.drop i).drop 16 := by
      rw [List.drop_drop, List.drop_eq_drop_iff]
      omega
    rw [ih, chunks_cons (by decide) hne, List.map_cons, List.foldl_cons, hd]
    rw [leInt_eq, coefficient, ← ht]
  | case2 acc i h =>
    rw [List.drop_eq_nil_of_le (by omega), chunks_nil]
    rfl

theorem poly1305_eq {key : List UInt8} (h : key.length = 32) (msg : List UInt8) :
    poly1305 key msg = ChaChaPoly.poly1305 key msg := by
  have hm : (1 <<< 130 - 5 : Nat) = prime1305 := rfl
  have ha : polyLoop (leInt (rBytes key)) prime1305 msg 0 0 =
      polyEval (clamp (leNat (key.take 16))) ((chunks 16 msg).map coefficient) % prime1305 := by
    rw [polyLoop_eq, foldl_polyEval _ (by decide), Nat.zero_mul, Nat.zero_add, List.drop_zero,
      clamp_eq h]
  simp only [poly1305, hm, ha, tag_eq]
  rw [leInt_eq, ChaChaPoly.poly1305]

/-! ## Sealing and opening -/

theorem pad_eq (l : List UInt8) : pad l.length = pad16 l := by
  have hr := Nat.mod_lt l.length (by decide : 16 > 0)
  rw [pad, pad16]
  split
  · rename_i h
    rw [h]
    rfl
  · rename_i h
    rw [Nat.mod_eq_of_lt (by omega)]

theorem macData_eq (aad ct : List UInt8) : macData aad ct = ChaChaPoly.macData aad ct := by
  simp only [macData, ChaChaPoly.macData, pad_eq, List.append_assoc]

section Sealed

variable {key nonce : List UInt8} (hk : key.length = 32) (hn : nonce.length = 12)
include hk hn

theorem expected_eq (aad ct : List UInt8) :
    poly1305 ((block key 0 nonce).take 32) (macData aad ct) = ChaChaPoly.tag key nonce aad ct := by
  have hb : block key 0 nonce = ChaChaPoly.block key 0 nonce := block_eq hk hn 0
  have hl : ((block key 0 nonce).take 32).length = 32 := by
    rw [List.length_take, block_length]
    rfl
  rw [poly1305_eq hl, macData_eq, hb]
  rfl

theorem open_eq_some (ctTag aad p : List UInt8) :
    «open» key nonce ctTag aad = some p ↔
      16 ≤ ctTag.length ∧
      ctTag.drop (ctTag.length - 16) = tag key nonce aad (ctTag.take (ctTag.length - 16)) ∧
      p = chacha20 key 1 nonce (ctTag.take (ctTag.length - 16)) := by
  simp only [«open», hk, hn, expected_eq hk hn, xor_eq hk hn, ne_eq, not_true_eq_false, false_or]
  rcases Nat.lt_or_ge ctTag.length 16 with h | h
  · rw [if_pos h]
    exact ⟨fun hp => (nomatch hp), fun hp => absurd hp.1 (Nat.not_le.2 h)⟩
  · rw [if_neg (Nat.not_lt.2 h)]
    by_cases ht : tag key nonce aad (ctTag.take (ctTag.length - 16)) =
        ctTag.drop (ctTag.length - 16)
    · rw [if_neg (not_not.2 ht), Option.some_inj]
      exact ⟨fun hp => ⟨h, ht.symm, hp.symm⟩, fun hp => hp.2.2.symm⟩
    · rw [if_pos ht]
      exact ⟨fun hp => (nomatch hp), fun hp => absurd hp.2.1.symm ht⟩

theorem open_seal (p aad : List UInt8) :
    «open» key nonce («seal» key nonce p aad) aad = some p := by
  have hs : «seal» key nonce p aad =
      chacha20 key 1 nonce p ++ tag key nonce aad (chacha20 key 1 nonce p) := by
    rw [«seal», expected_eq hk hn, xor_eq hk hn]
    rfl
  have hl : («seal» key nonce p aad).length - 16 = (chacha20 key 1 nonce p).length := by
    rw [hs, List.length_append, tag_length, Nat.add_sub_cancel]
  rw [open_eq_some hk hn, hl, hs, List.take_left, List.drop_left, chacha20_chacha20]
  refine ⟨?_, rfl, rfl⟩
  rw [List.length_append, tag_length]
  omega

end Sealed

/-- The cipher and the authenticator are those of the numbers, so a container opens exactly where
its last sixteen bytes are the tag of the rest, and a sealed text opens to itself. -/
theorem container_opens {key nonce : List UInt8} (hk : key.length = 32) (hn : nonce.length = 12)
    (aad : List UInt8) :
    (∀ ctTag p, «open» key nonce ctTag aad = some p ↔
      16 ≤ ctTag.length ∧
      ctTag.drop (ctTag.length - 16) = tag key nonce aad (ctTag.take (ctTag.length - 16)) ∧
      p = chacha20 key 1 nonce (ctTag.take (ctTag.length - 16))) ∧
    (∀ p, «open» key nonce («seal» key nonce p aad) aad = some p) ∧
    (∀ counter, block key counter nonce = ChaChaPoly.block key counter.toNat nonce) ∧
    ∀ oneTime msg, oneTime.length = 32 →
      poly1305 oneTime msg = ChaChaPoly.poly1305 oneTime msg :=
  ⟨fun ctTag p => open_eq_some hk hn ctTag aad p, fun p => open_seal hk hn p aad,
    fun counter => block_eq hk hn counter, fun _ msg ho => poly1305_eq ho msg⟩

/-- Two texts under one key, the second of the length of a block. -/
theorem zeroKey_opens :
    «open» (List.replicate 32 0) (List.replicate 12 0)
        («seal» (List.replicate 32 0) (List.replicate 12 0) [] [1]) [1] = some [] ∧
      «open» (List.replicate 32 0) (List.replicate 12 0)
        («seal» (List.replicate 32 0) (List.replicate 12 0) (List.replicate 64 7) [])
          [] = some (List.replicate 64 7) :=
  ⟨(container_opens List.length_replicate List.length_replicate [1]).2.1 [],
    (container_opens List.length_replicate List.length_replicate []).2.1 (List.replicate 64 7)⟩

end Ghajar.ChaCha20Poly1305
