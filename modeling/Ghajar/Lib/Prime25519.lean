import Mathlib.Data.List.Prime
import Mathlib.NumberTheory.LucasPrimality
import Mathlib.Tactic.NormNum.Prime
import Mathlib.Tactic.ReduceModChar

/-!
# The prime of Curve25519

Lucas's test needs the prime factors of `p - 1`, and the large ones among them need
the test again.
-/

namespace Prime25519

theorem prime_of_factors {p : Nat} (a : ZMod p) (factors : List Nat)
    (prime : ∀ q ∈ factors, q.Prime) (prod : factors.prod = p - 1) (full : a ^ (p - 1) = 1)
    (part : ∀ q ∈ factors, a ^ ((p - 1) / q) ≠ 1) : p.Prime := by
  refine lucas_primality p a full fun q hq hdvd => ?_
  rw [← prod] at hdvd
  obtain ⟨r, hr, hqr⟩ := (Prime.dvd_prod_iff hq.prime).1 hdvd
  have he : q = r := (Nat.prime_dvd_prime_iff_eq hq (prime r hr)).1 hqr
  exact he ▸ part r hr

theorem prime_2773320623 :
    Nat.Prime 2773320623 := by
  apply prime_of_factors 5
    [2, 2437, 569003]
  · norm_num
  · norm_num
  · norm_num
    reduce_mod_char
  · simp only [List.forall_mem_cons]
    norm_num
    refine ⟨?_, ?_, ?_⟩ <;> reduce_mod_char <;> decide

theorem prime_72106336199 :
    Nat.Prime 72106336199 := by
  apply prime_of_factors 7
    [2, 13, 2773320623]
  · simp only [List.forall_mem_cons, prime_2773320623]
    norm_num
  · norm_num
  · norm_num
    reduce_mod_char
  · simp only [List.forall_mem_cons]
    norm_num
    refine ⟨?_, ?_, ?_⟩ <;> reduce_mod_char <;> decide

theorem prime_19195 :
    Nat.Prime 1919519569386763 := by
  apply prime_of_factors 2
    [2, 3, 7, 19, 47, 47, 127, 8574133]
  · norm_num
  · norm_num
  · norm_num
    reduce_mod_char
  · simp only [List.forall_mem_cons]
    norm_num
    refine ⟨?_, ?_, ?_, ?_, ?_, ?_, ?_⟩ <;> reduce_mod_char <;> decide

theorem prime_31757 :
    Nat.Prime 31757755568855353 := by
  apply prime_of_factors 10
    [2, 2, 2, 3, 31, 107, 223, 4153, 430751]
  · norm_num
  · norm_num
  · norm_num
    reduce_mod_char
  · simp only [List.forall_mem_cons]
    norm_num
    refine ⟨?_, ?_, ?_, ?_, ?_, ?_, ?_⟩ <;> reduce_mod_char <;> decide

theorem prime_75445 :
    Nat.Prime 75445702479781427272750846543864801 := by
  apply prime_of_factors 7
    [2, 2, 2, 2, 2, 3, 3, 5, 5, 75707, 72106336199, 1919519569386763]
  · simp only [List.forall_mem_cons, prime_72106336199, prime_19195]
    norm_num
  · norm_num
  · norm_num
    reduce_mod_char
  · simp only [List.forall_mem_cons]
    norm_num
    refine ⟨?_, ?_, ?_, ?_, ?_, ?_⟩ <;> reduce_mod_char <;> decide

theorem prime_74058 :
    Nat.Prime 74058212732561358302231226437062788676166966415465897661863160754340907 := by
  apply prime_of_factors 2
    [2, 3, 353, 57467, 132049, 1923133, 31757755568855353, 75445702479781427272750846543864801]
  · simp only [List.forall_mem_cons, prime_31757, prime_75445]
    norm_num
  · norm_num
  · norm_num
    reduce_mod_char
  · simp only [List.forall_mem_cons]
    norm_num
    refine ⟨?_, ?_, ?_, ?_, ?_, ?_, ?_, ?_⟩ <;> reduce_mod_char <;> decide

theorem prime_25519 :
    Nat.Prime 57896044618658097711785492504343953926634992332820282019728792003956564819949 := by
  apply prime_of_factors 2
    [2, 2, 3, 65147, 74058212732561358302231226437062788676166966415465897661863160754340907]
  · simp only [List.forall_mem_cons, prime_74058]
    norm_num
  · norm_num
  · norm_num
    reduce_mod_char
  · simp only [List.forall_mem_cons]
    norm_num
    refine ⟨?_, ?_, ?_, ?_⟩ <;> reduce_mod_char <;> decide

end Prime25519
