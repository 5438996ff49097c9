import Mathlib.Algebra.Field.ZMod
import Mathlib.Algebra.BigOperators.Intervals
import Mathlib.Tactic.LinearCombination
import Mathlib.Tactic.Ring

/-! The circomlib comparators as relations between inputs and outputs over ZMod p: a
component's own signals are bound existentially, hints (`<--`) constrain nothing. -/
namespace Circom
variable {p : ℕ}

/-- `out <== -in*inv + 1; in*out === 0` -/
def IsZero (x out : ZMod p) : Prop := ∃ inv, out = -x * inv + 1 ∧ x * out = 0

def IsEqual (a b out : ZMod p) : Prop := IsZero (b - a) out

/-- `out[i]*(out[i]-1) === 0` for every bit, and the weighted sum of the bits is the input. -/
def Num2Bits (n : ℕ) (x : ZMod p) (out : ℕ → ZMod p) : Prop :=
  (∀ i < n, out i * (out i - 1) = 0) ∧ ∑ i ∈ Finset.range n, out i * 2 ^ i = x

/-- `n2b.in <== in[0] + (1<<n) - in[1]; out <== 1 - n2b.out[n]` with n + 1 bits. -/
def LessThan (n : ℕ) (a b out : ZMod p) : Prop :=
  ∃ bits, Num2Bits (n + 1) (a + 2 ^ n - b) bits ∧ out = 1 - bits n

def GreaterThan (n : ℕ) (a b out : ZMod p) : Prop := LessThan n b a out
def GreaterEqThan (n : ℕ) (a b out : ZMod p) : Prop := LessThan n b (a + 1) out

theorem natCast_inj {a b : ℕ} (ha : a < p) (hb : b < p) (h : (a : ZMod p) = b) : a = b := by
  have hv := congrArg ZMod.val h
  rwa [ZMod.val_cast_of_lt ha, ZMod.val_cast_of_lt hb] at hv

section Field
variable [Fact p.Prime]

theorem isZero_iff (x out : ZMod p) : IsZero x out ↔ out = if x = 0 then 1 else 0 := by
  constructor
  · rintro ⟨inv, hout, hzero⟩
    by_cases hx : x = 0
    · simp [hout, hx]
    · simpa [hx] using hzero
  · intro h
    by_cases hx : x = 0
    · exact ⟨0, by simp [h, hx], by simp [hx]⟩
    · exact ⟨x⁻¹, by simp [h, hx], by simp [h, hx]⟩

theorem isEqual_iff (a b out : ZMod p) : IsEqual a b out ↔ out = if a = b then 1 else 0 := by
  simp only [IsEqual, isZero_iff, sub_eq_zero, eq_comm]

theorem bit_iff (b : ZMod p) : b * (b - 1) = 0 ↔ b = 0 ∨ b = 1 := by
  rw [mul_eq_zero, sub_eq_zero]

/-- The top bit splits the input: below it stands a natural number of n bits. -/
theorem num2Bits_split {n : ℕ} {x : ZMod p} {out : ℕ → ZMod p} (h : Num2Bits (n + 1) x out) :
    ∃ m : ℕ, m < 2 ^ n ∧
      ((out n = 0 ∧ x = (m : ZMod p)) ∨ (out n = 1 ∧ x = ((m + 2 ^ n : ℕ) : ZMod p))) := by
  induction n generalizing x with
  | zero =>
    obtain ⟨hbit, hsum⟩ := h
    rw [Finset.sum_range_one, pow_zero, mul_one] at hsum
    rcases (bit_iff _).mp (hbit 0 (by omega)) with h0 | h1
    · exact ⟨0, by omega, Or.inl ⟨h0, by simp [← hsum, h0]⟩⟩
    · exact ⟨0, by omega, Or.inr ⟨h1, by simp [← hsum, h1]⟩⟩
  | succ n ih =>
    obtain ⟨hbit, hsum⟩ := h
    rw [Finset.sum_range_succ] at hsum
    obtain ⟨m, hm, hlow⟩ := ih (x := x - out (n + 1) * 2 ^ (n + 1))
      ⟨fun i hi => hbit i (by omega), by rw [← hsum, add_sub_cancel_right]⟩
    have hx : ∃ k : ℕ, k < 2 ^ (n + 1) ∧ x - out (n + 1) * 2 ^ (n + 1) = (k : ZMod p) := by
      rcases hlow with ⟨-, he⟩ | ⟨-, he⟩
      · exact ⟨m, by rw [pow_succ]; omega, he⟩
      · exact ⟨m + 2 ^ n, by rw [pow_succ]; omega, he⟩
    obtain ⟨k, hk, he⟩ := hx
    refine ⟨k, hk, ?_⟩
    rcases (bit_iff _).mp (hbit (n + 1) (by omega)) with h0 | h1
    · exact Or.inl ⟨h0, by rw [← he, h0]; ring⟩
    · refine Or.inr ⟨h1, ?_⟩
      push_cast
      rw [← he, h1]
      ring

/-- Without wrap-around (2^(n+1) ≤ p) the top bit is the comparison with 2^n. -/
theorem num2Bits_top {n k : ℕ} {out : ℕ → ZMod p} (hp : 2 ^ (n + 1) ≤ p)
    (hk : k < 2 ^ (n + 1)) (h : Num2Bits (n + 1) (k : ZMod p) out) :
    out n = if k < 2 ^ n then 0 else 1 := by
  have hpow : 2 ^ (n + 1) = 2 ^ n + 2 ^ n := by ring
  obtain ⟨m, hm, ⟨h0, he⟩ | ⟨h1, he⟩⟩ := num2Bits_split h
  · have hkm := natCast_inj (by omega) (by omega) he
    rw [if_pos (by omega), h0]
  · have hkm := natCast_inj (by omega) (by omega) he
    rw [if_neg (by omega), h1]

theorem sum_bits (m n : ℕ) :
    ∑ i ∈ Finset.range n, ((m / 2 ^ i % 2 : ℕ) : ZMod p) * 2 ^ i = ((m % 2 ^ n : ℕ) : ZMod p) := by
  induction n with
  | zero => simp [Nat.mod_one]
  | succ n ih =>
    rw [Finset.sum_range_succ, ih, Nat.mod_pow_succ]
    push_cast
    ring

theorem num2Bits_exists {n m : ℕ} (hm : m < 2 ^ n) :
    Num2Bits n (m : ZMod p) (fun i => ((m / 2 ^ i % 2 : ℕ) : ZMod p)) := by
  refine ⟨fun i _ => ?_, by rw [sum_bits, Nat.mod_eq_of_lt hm]⟩
  rcases Nat.mod_two_eq_zero_or_one (m / 2 ^ i) with h | h <;> simp [h]

theorem num2Bits_iff {n : ℕ} (x : ZMod p) (hp : 2 ^ n ≤ p) :
    (∃ out, Num2Bits n x out) ↔ x.val < 2 ^ n := by
  constructor
  · rintro ⟨out, h⟩
    cases n with
    | zero => simp [← h.2]
    | succ n =>
      have hpow : 2 ^ (n + 1) = 2 ^ n + 2 ^ n := by ring
      obtain ⟨m, hm, ⟨-, he⟩ | ⟨-, he⟩⟩ := num2Bits_split h <;>
        rw [he, ZMod.val_cast_of_lt (by omega)] <;> omega
  · intro h
    have hx : ((x.val : ℕ) : ZMod p) = x := ZMod.natCast_zmod_val x
    exact ⟨_, hx ▸ num2Bits_exists h⟩

/-- LessThan(n) compares soundly and completely as long as a < 2^n and b ≤ 2^n; the slack
at b = 2^n is what GreaterEqThan(n) uses. -/
theorem lessThan_iff {n a b : ℕ} (hp : 2 ^ (n + 1) ≤ p) (ha : a < 2 ^ n) (hb : b ≤ 2 ^ n)
    (out : ZMod p) : LessThan n (a : ZMod p) b out ↔ out = if a < b then 1 else 0 := by
  have hpow : 2 ^ (n + 1) = 2 ^ n + 2 ^ n := by ring
  have hin : (a : ZMod p) + 2 ^ n - b = ((a + 2 ^ n - b : ℕ) : ZMod p) := by
    rw [Nat.cast_sub (by omega)]
    push_cast
    rfl
  have hk : a + 2 ^ n - b < 2 ^ (n + 1) := by omega
  have htop : ∀ bits, Num2Bits (n + 1) ((a + 2 ^ n - b : ℕ) : ZMod p) bits →
      1 - bits n = if a < b then 1 else 0 := by
    intro bits hbits
    rw [num2Bits_top hp hk hbits]
    by_cases hab : a < b
    · rw [if_pos (by omega), if_pos hab, sub_zero]
    · rw [if_neg (by omega), if_neg hab, sub_self]
  rw [LessThan, hin]
  constructor
  · rintro ⟨bits, hbits, hout⟩
    rw [hout, htop bits hbits]
  · intro hout
    exact ⟨_, num2Bits_exists hk, by rw [hout, htop _ (num2Bits_exists hk)]⟩

theorem greaterThan_iff {n a b : ℕ} (hp : 2 ^ (n + 1) ≤ p) (ha : a ≤ 2 ^ n) (hb : b < 2 ^ n)
    (out : ZMod p) : GreaterThan n (a : ZMod p) b out ↔ out = if b < a then 1 else 0 :=
  lessThan_iff hp hb ha out

theorem greaterEqThan_iff {n a b : ℕ} (hp : 2 ^ (n + 1) ≤ p) (ha : a < 2 ^ n) (hb : b < 2 ^ n)
    (out : ZMod p) : GreaterEqThan n (a : ZMod p) b out ↔ out = if b ≤ a then 1 else 0 := by
  have h := lessThan_iff hp hb (Nat.succ_le_of_lt ha) out
  simpa only [GreaterEqThan, Nat.cast_succ, Nat.lt_succ_iff] using h

end Field
end Circom
