import Mathlib.Data.Nat.Log
import Mathlib.Tactic.NormNum

/-! The natural numbers among IEEE doubles: to nearest, ties to even. -/
namespace Double

def rounded (n : ℕ) : ℕ :=
  let unit := 2 ^ (n.log2 - 52)
  let quotient := n / unit
  let roundsUp := unit < 2 * (n % unit) ∨ unit = 2 * (n % unit) ∧ quotient % 2 = 1
  (if roundsUp then quotient + 1 else quotient) * unit

/-- The exponent of the largest finite double. -/
@[irreducible] def maxExponent : ℕ := 1023

def limit : ℕ := 2 ^ (maxExponent + 1)

/-- The double nearest to n; none is Infinity. -/
def ofNat (n : ℕ) : Option ℕ := if rounded n < limit then some (rounded n) else none

variable {n m k : ℕ}

theorem ofNat_eq_some : ofNat n = some m ↔ rounded n < limit ∧ rounded n = m := by
  rw [ofNat, Option.ite_none_right_eq_some, Option.some.injEq]

theorem rounded_exact (h : n < 2 ^ 53) : rounded n = n := by
  have hlog : n.log2 - 52 = 0 := by
    by_cases hzero : n = 0
    · simp [hzero]
    · have hlt := (Nat.log2_lt hzero).mpr h
      omega
  simp [rounded, hlog, Nat.mod_one]

theorem ofNat_exact (h : n < 2 ^ 53) : ofNat n = some n := by
  have hexponent : 53 < maxExponent + 1 := by
    unfold maxExponent
    norm_num
  have hlimit : 2 ^ 53 < limit := Nat.pow_lt_pow_right (by norm_num) hexponent
  exact ofNat_eq_some.mpr ⟨(rounded_exact h).trans_lt (h.trans hlimit), rounded_exact h⟩

theorem rounded_large (h : 2 ^ 53 ≤ n) : 2 ^ 53 ≤ rounded n := by
  have hzero : n ≠ 0 := by omega
  have hlog : 53 ≤ n.log2 := (Nat.le_log2 hzero).mpr h
  have hunit : 2 ^ n.log2 = 2 ^ 52 * 2 ^ (n.log2 - 52) := by
    rw [← pow_add]
    congr 1
    omega
  have hquotient : 2 ^ 52 ≤ n / 2 ^ (n.log2 - 52) := by
    rw [Nat.le_div_iff_mul_le (by positivity), ← hunit]
    exact Nat.log2_self_le hzero
  have hvalue : n / 2 ^ (n.log2 - 52) * 2 ^ (n.log2 - 52) ≤ rounded n := by
    refine Nat.mul_le_mul_right _ ?_
    split
    · exact Nat.le_succ _
    · exact le_refl _
  calc 2 ^ 53 ≤ 2 ^ n.log2 := Nat.pow_le_pow_right (by norm_num) hlog
    _ = 2 ^ 52 * 2 ^ (n.log2 - 52) := hunit
    _ ≤ n / 2 ^ (n.log2 - 52) * 2 ^ (n.log2 - 52) := Nat.mul_le_mul_right _ hquotient
    _ ≤ rounded n := hvalue

theorem lt_ofNat (hk : k < 2 ^ 53) (hkn : k < n) (he : ofNat n = some m) : k < m := by
  obtain ⟨-, rfl⟩ := ofNat_eq_some.mp he
  by_cases h : n < 2 ^ 53
  · rwa [rounded_exact h]
  · exact hk.trans_le (rounded_large (not_lt.mp h))

end Double
