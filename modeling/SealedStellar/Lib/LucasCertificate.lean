import Mathlib.NumberTheory.LucasPrimality
import Mathlib.Tactic.NormNum.Prime
import Mathlib.Tactic.ReduceModChar

/-! Primality from a Lucas witness together with a full prime factorization of p - 1. -/
namespace LucasCertificate

/-- A prime divisor of p - 1 is one of the listed factors, so only they need testing. -/
theorem prime_of_factors (p : ℕ) (a : ZMod p) (factors : List ℕ)
    (hprime : ∀ q ∈ factors, q.Prime) (hprod : factors.prod = p - 1)
    (hone : a ^ (p - 1) = 1) (hne : ∀ q ∈ factors, a ^ ((p - 1) / q) ≠ 1) : p.Prime := by
  refine lucas_primality p a hone ?_
  intro q hq hdvd
  rw [← hprod] at hdvd
  obtain ⟨f, hf, hqf⟩ := (Prime.dvd_prod_iff hq.prime).mp hdvd
  have he : q = f := (Nat.prime_dvd_prime_iff_eq hq (hprime f hf)).mp hqf
  subst he
  exact hne q hf

end LucasCertificate
