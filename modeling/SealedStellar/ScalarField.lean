import SealedStellar.Lib.LucasCertificate
import Mathlib.Algebra.Field.ZMod

/-! The BN254 scalar field, in which the circuit works and in which the verifier's host
reads every 256-bit public signal. -/
namespace SealedStellar
open LucasCertificate

abbrev fieldOrder : ℕ :=
  21888242871839275222246405745257275088548364400416034343698204186575808495617

abbrev Fr := ZMod fieldOrder

theorem prime_405928799 : Nat.Prime 405928799 := by
  refine prime_of_factors _ 22 [2, 11, 3691, 4999] (by norm_num) (by norm_num)
    (by norm_num only; reduce_mod_char) ?_
  simp only [List.forall_mem_cons]
  refine ⟨?_, ?_, ?_, ?_, by simp⟩ <;> norm_num only <;> reduce_mod_char <;> decide

theorem prime_12048837557 : Nat.Prime 12048837557 := by
  refine prime_of_factors _ 2 [2, 2, 7, 7, 661, 93001] (by norm_num) (by norm_num)
    (by norm_num only; reduce_mod_char) ?_
  simp only [List.forall_mem_cons]
  refine ⟨?_, ?_, ?_, ?_, ?_, ?_, by simp⟩ <;> norm_num only <;> reduce_mod_char <;> decide

theorem prime_5156902474397 : Nat.Prime 5156902474397 := by
  refine prime_of_factors _ 2 [2, 2, 107, 12048837557] ?_ (by norm_num)
    (by norm_num only; reduce_mod_char) ?_ <;> simp only [List.forall_mem_cons]
  · exact ⟨by norm_num, by norm_num, by norm_num, prime_12048837557, by simp⟩
  · refine ⟨?_, ?_, ?_, ?_, by simp⟩ <;> norm_num only <;> reduce_mod_char <;> decide

theorem prime_1670836401704629 : Nat.Prime 1670836401704629 := by
  refine prime_of_factors _ 2 [2, 2, 3, 3, 3, 3, 5156902474397] ?_ (by norm_num)
    (by norm_num only; reduce_mod_char) ?_ <;> simp only [List.forall_mem_cons]
  · exact ⟨by norm_num, by norm_num, by norm_num, by norm_num, by norm_num, by norm_num,
      prime_5156902474397, by simp⟩
  · refine ⟨?_, ?_, ?_, ?_, ?_, ?_, ?_, by simp⟩ <;> norm_num only <;> reduce_mod_char <;> decide

theorem prime_639533339 : Nat.Prime 639533339 := by
  refine prime_of_factors _ 2 [2, 229, 853, 1637] (by norm_num) (by norm_num)
    (by norm_num only; reduce_mod_char) ?_
  simp only [List.forall_mem_cons]
  refine ⟨?_, ?_, ?_, ?_, by simp⟩ <;> norm_num only <;> reduce_mod_char <;> decide

theorem prime_65865678001877903 : Nat.Prime 65865678001877903 := by
  refine prime_of_factors _ 5 [2, 83, 379, 1637, 639533339] ?_ (by norm_num)
    (by norm_num only; reduce_mod_char) ?_ <;> simp only [List.forall_mem_cons]
  · exact ⟨by norm_num, by norm_num, by norm_num, by norm_num, prime_639533339, by simp⟩
  · refine ⟨?_, ?_, ?_, ?_, ?_, by simp⟩ <;> norm_num only <;> reduce_mod_char <;> decide

theorem prime_13818364434197438864469338081 :
    Nat.Prime 13818364434197438864469338081 := by
  refine prime_of_factors _ 3 [2, 2, 2, 2, 2, 5, 823, 1593227, 65865678001877903] ?_
    (by norm_num) (by norm_num only; reduce_mod_char) ?_ <;> simp only [List.forall_mem_cons]
  · exact ⟨by norm_num, by norm_num, by norm_num, by norm_num, by norm_num, by norm_num,
      by norm_num, by norm_num, prime_65865678001877903, by simp⟩
  · refine ⟨?_, ?_, ?_, ?_, ?_, ?_, ?_, ?_, ?_, by simp⟩ <;> norm_num only <;>
      reduce_mod_char <;> decide

/-- r is prime: the powers of 5 generate its multiplicative group. -/
theorem fieldOrder_prime : Nat.Prime fieldOrder := by
  refine prime_of_factors _ 5 (List.replicate 28 2 ++ [3, 3, 13, 29, 983, 11003, 237073,
    405928799, 1670836401704629, 13818364434197438864469338081]) ?_ (by norm_num) ?_ ?_
  · simp only [List.mem_append, List.mem_replicate, List.mem_cons, List.not_mem_nil, or_false]
    rintro q (⟨-, rfl⟩ | rfl | rfl | rfl | rfl | rfl | rfl | rfl | rfl | rfl | rfl) <;>
      first | exact prime_405928799 | exact prime_1670836401704629 |
        exact prime_13818364434197438864469338081 | norm_num
  · norm_num only
    reduce_mod_char
  · simp only [List.mem_append, List.mem_replicate, List.mem_cons, List.not_mem_nil, or_false]
    rintro q (⟨-, rfl⟩ | rfl | rfl | rfl | rfl | rfl | rfl | rfl | rfl | rfl | rfl) <;>
      norm_num only <;> reduce_mod_char <;> decide

instance : Fact (Nat.Prime fieldOrder) := ⟨fieldOrder_prime⟩

end SealedStellar
