import Mathlib.Algebra.Order.Field.Basic
import Mathlib.Tactic.Linarith
import Mathlib.Tactic.Ring

/-! A token bucket over an ordered field: it fills at a constant rate up to its capacity, and a
request that finds a whole token in it takes one. -/
namespace TokenBucket
variable {K : Type*} [Field K] [LinearOrder K] (capacity rate : K)

structure Bucket (K : Type*) where
  tokens : K
  last : K

def Bucket.level (b : Bucket K) (now : K) : K := min capacity (b.tokens + (now - b.last) * rate)

def take (b : Bucket K) (now : K) : Bool × Bucket K :=
  if b.level capacity rate now < 1 then (false, ⟨b.level capacity rate now, now⟩)
  else (true, ⟨b.level capacity rate now - 1, now⟩)

def grantedIn (s t : K) : Bucket K → List K → ℕ
  | _, [] => 0
  | b, now :: times =>
    (if (take capacity rate b now).1 ∧ s ≤ now ∧ now ≤ t then 1 else 0) +
      grantedIn s t (take capacity rate b now).2 times

def Bucket.Within (b : Bucket K) : Prop := 0 ≤ b.tokens ∧ b.tokens ≤ capacity

variable {capacity rate} {b : Bucket K} {now s t : K} {times : List K}

theorem level_le : b.level capacity rate now ≤ capacity := min_le_left _ _

theorem level_le_filled : b.level capacity rate now ≤ b.tokens + (now - b.last) * rate :=
  min_le_right _ _

@[simp] theorem take_last : (take capacity rate b now).2.last = now := by
  rw [take]
  split <;> rfl

theorem take_spent : (take capacity rate b now).2.tokens +
    (if (take capacity rate b now).1 then 1 else 0) = b.level capacity rate now := by
  rw [take]
  split <;> simp

theorem grantedIn_late (h : ∀ now ∈ times, t < now) : grantedIn capacity rate s t b times = 0 := by
  induction times generalizing b with
  | nil => rfl
  | cons now times ih =>
    rw [List.forall_mem_cons] at h
    simp [grantedIn, not_le.mpr h.1, ih h.2]

theorem grantedIn_after (hsorted : ∀ time ∈ times, now ≤ time) (hnow : t < now) :
    grantedIn capacity rate s t b (now :: times) = 0 :=
  grantedIn_late (List.forall_mem_cons.mpr ⟨hnow, fun time h => hnow.trans_le (hsorted time h)⟩)

variable [IsStrictOrderedRing K]

theorem Bucket.Within.level_nonneg (hb : b.Within capacity) (hrate : 0 ≤ rate)
    (hnow : b.last ≤ now) : 0 ≤ b.level capacity rate now := by
  have hgain : 0 ≤ (now - b.last) * rate := mul_nonneg (sub_nonneg.mpr hnow) hrate
  exact le_min (hb.1.trans hb.2) (add_nonneg hb.1 hgain)

theorem Bucket.Within.take (hb : b.Within capacity) (hrate : 0 ≤ rate) (hnow : b.last ≤ now) :
    (take capacity rate b now).2.Within capacity := by
  have hlevel := hb.level_nonneg hrate hnow
  have htop : b.level capacity rate now ≤ capacity := level_le
  rw [TokenBucket.take]
  split
  case isTrue => exact ⟨hlevel, htop⟩
  case isFalse h =>
    constructor
    · exact sub_nonneg.mpr (not_lt.mp h)
    · exact (sub_le_self _ zero_le_one).trans htop

theorem counted_le : ((if (take capacity rate b now).1 ∧ s ≤ now ∧ now ≤ t then 1 else 0 : ℕ) : K) +
    (take capacity rate b now).2.tokens ≤ b.level capacity rate now := by
  have hspent := @take_spent K _ _ capacity rate b now
  by_cases hgrant : (take capacity rate b now).1
  · rw [if_pos hgrant] at hspent
    split
    · rw [Nat.cast_one]
      linarith
    · rw [Nat.cast_zero]
      linarith
  · rw [if_neg hgrant] at hspent
    simp [hgrant]
    linarith

theorem Bucket.Within.grantedIn_le (hb : b.Within capacity) (hrate : 0 ≤ rate)
    (hsorted : times.Pairwise (· ≤ ·)) (hlast : ∀ now ∈ times, b.last ≤ now) (ht : b.last ≤ t) :
    (grantedIn capacity rate s t b times : K) ≤ b.tokens + (t - b.last) * rate := by
  induction times generalizing b with
  | nil =>
    have hgain : 0 ≤ (t - b.last) * rate := mul_nonneg (sub_nonneg.mpr ht) hrate
    simpa [grantedIn] using add_nonneg hb.1 hgain
  | cons now times ih =>
    rw [List.pairwise_cons] at hsorted
    rw [List.forall_mem_cons] at hlast
    by_cases hnow : now ≤ t
    · have hrest := ih (hb.take hrate hlast.1) hsorted.2 (by simpa using hsorted.1)
        (by simpa using hnow)
      have hcount := @counted_le K _ _ capacity rate b now s t _
      have hlevel : b.level capacity rate now ≤ b.tokens + (now - b.last) * rate := level_le_filled
      have hsplit : (t - b.last) * rate = (t - now) * rate + (now - b.last) * rate := by ring
      rw [take_last] at hrest
      rw [grantedIn, Nat.cast_add]
      linarith
    · have hgain : 0 ≤ (t - b.last) * rate := mul_nonneg (sub_nonneg.mpr ht) hrate
      rw [grantedIn_after hsorted.1 (not_le.mp hnow), Nat.cast_zero]
      exact add_nonneg hb.1 hgain

/-- Whatever came before, the grants between s and t are bounded by the capacity and the inflow. -/
theorem Bucket.Within.grantedIn_le_capacity (hb : b.Within capacity) (hrate : 0 ≤ rate)
    (hsorted : times.Pairwise (· ≤ ·)) (hlast : ∀ now ∈ times, b.last ≤ now) (hst : s ≤ t) :
    (grantedIn capacity rate s t b times : K) ≤ capacity + (t - s) * rate := by
  have hgain : 0 ≤ (t - s) * rate := mul_nonneg (sub_nonneg.mpr hst) hrate
  induction times generalizing b with
  | nil => simpa [grantedIn] using add_nonneg (hb.1.trans hb.2) hgain
  | cons now times ih =>
    rw [List.pairwise_cons] at hsorted
    rw [List.forall_mem_cons] at hlast
    have htake := hb.take hrate hlast.1
    have hlater : ∀ time ∈ times, (TokenBucket.take capacity rate b now).2.last ≤ time := by
      simpa using hsorted.1
    by_cases hs : s ≤ now
    · by_cases hnow : now ≤ t
      · have hrest := htake.grantedIn_le (s := s) hrate hsorted.2 hlater (by simpa using hnow)
        have hcount := @counted_le K _ _ capacity rate b now s t _
        have hlevel : b.level capacity rate now ≤ capacity := level_le
        have hflow : (t - now) * rate ≤ (t - s) * rate :=
          mul_le_mul_of_nonneg_right (sub_le_sub_left hs t) hrate
        rw [take_last] at hrest
        rw [grantedIn, Nat.cast_add]
        linarith
      · rw [grantedIn_after hsorted.1 (not_le.mp hnow), Nat.cast_zero]
        exact add_nonneg (hb.1.trans hb.2) hgain
    · have hrest := ih htake hsorted.2 hlater
      simpa [grantedIn, hs] using hrest

end TokenBucket
