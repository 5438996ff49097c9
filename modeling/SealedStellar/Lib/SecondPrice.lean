import Mathlib.Data.Fintype.Lattice
import Mathlib.Order.Interval.Finset.Fin

/-! Sealed-bid second-price selection over a finite linearly ordered index type: the winner
is the lowest index of a maximal price, the clearing price is the best of the others. -/
namespace SecondPrice
variable {ι α : Type*} [LinearOrder ι] [LinearOrder α]

structure IsWinner (price : ι → α) (w : ι) : Prop where
  maximal : ∀ i, price i ≤ price w
  lowest : ∀ i, i < w → price i < price w

theorem IsWinner.unique {price : ι → α} {v w : ι} (hv : IsWinner price v)
    (hw : IsWinner price w) : v = w := by
  rcases lt_trichotomy v w with h | h | h
  · exact absurd (hv.maximal w) (not_le_of_gt (hw.lowest v h))
  · exact h
  · exact absurd (hw.maximal v) (not_le_of_gt (hv.lowest w h))

variable [Fintype ι]

section Bot
variable [OrderBot α]

def clearingPrice (price : ι → α) (w : ι) : α := (Finset.univ.erase w).sup price

theorem le_clearingPrice {price : ι → α} {w i : ι} (h : i ≠ w) :
    price i ≤ clearingPrice price w :=
  Finset.le_sup (Finset.mem_erase.mpr ⟨h, Finset.mem_univ i⟩)

theorem clearingPrice_le {price : ι → α} {w : ι} (hw : IsWinner price w) :
    clearingPrice price w ≤ price w := Finset.sup_le fun i _ => hw.maximal i

theorem clearingPrice_attained {price : ι → α} {w : ι} (h : clearingPrice price w ≠ ⊥) :
    ∃ i, i ≠ w ∧ price i = clearingPrice price w := by
  have hne : (Finset.univ.erase w).Nonempty := by
    rw [Finset.nonempty_iff_ne_empty]
    intro he
    exact h (by rw [clearingPrice, he, Finset.sup_empty])
  obtain ⟨i, hi, he⟩ := Finset.exists_mem_eq_sup _ hne price
  exact ⟨i, Finset.ne_of_mem_erase hi, he.symm⟩

/-- Zeroing the winner and taking the maximum of everything leaves the clearing price. -/
theorem sup_masked (price : ι → α) (w : ι) :
    (Finset.univ.sup fun i => if i = w then ⊥ else price i) = clearingPrice price w := by
  apply le_antisymm
  · refine Finset.sup_le fun i _ => ?_
    by_cases h : i = w
    · simp [h]
    · simpa [h] using le_clearingPrice h
  · refine Finset.sup_le fun i hi => ?_
    have hne := Finset.ne_of_mem_erase hi
    have hle := Finset.le_sup (f := fun i => if i = w then ⊥ else price i) (Finset.mem_univ i)
    simpa [hne] using hle

def runningMax {n : ℕ} (f : Fin n → α) (i : Fin n) : α := (Finset.Iic i).sup f

theorem runningMax_zero {n : ℕ} (f : Fin n → α) (h : 0 < n) : runningMax f ⟨0, h⟩ = f ⟨0, h⟩ := by
  have he : Finset.Iic (⟨0, h⟩ : Fin n) = {⟨0, h⟩} := by
    ext i
    simp [Fin.ext_iff, Fin.le_def]
  rw [runningMax, he, Finset.sup_singleton]

theorem runningMax_succ {n : ℕ} (f : Fin n → α) {i : ℕ} (h : i + 1 < n) :
    runningMax f ⟨i + 1, h⟩ = max (f ⟨i + 1, h⟩) (runningMax f ⟨i, by omega⟩) := by
  have he : Finset.Iic (⟨i + 1, h⟩ : Fin n) = insert ⟨i + 1, h⟩ (Finset.Iic ⟨i, by omega⟩) := by
    ext j
    simp only [Finset.mem_Iic, Finset.mem_insert, Fin.ext_iff, Fin.le_def]
    omega
  rw [runningMax, he, Finset.sup_insert, runningMax]

theorem runningMax_last {n : ℕ} (f : Fin n → α) (h : 0 < n) :
    runningMax f ⟨n - 1, by omega⟩ = Finset.univ.sup f := by
  have he : Finset.Iic (⟨n - 1, by omega⟩ : Fin n) = Finset.univ := by
    ext j
    simp only [Finset.mem_Iic, Fin.le_def, Finset.mem_univ, iff_true]
    omega
  rw [runningMax, he]

theorem runningMax_lt {n : ℕ} {f : Fin n → α} {b : α} (hf : ∀ i, f i < b) (i : Fin n) :
    runningMax f i < b :=
  (Finset.sup_lt_iff (lt_of_le_of_lt bot_le (hf i))).mpr fun j _ => hf j

end Bot

section Truthful
variable {bids truth : ι → ℕ} {v w me : ι}

def surplus (bids : ι → ℕ) (w me : ι) (value : ℤ) : ℤ :=
  if w = me then value - clearingPrice bids w else 0

theorem clearingPrice_congr (hsame : ∀ i, i ≠ me → bids i = truth i) :
    clearingPrice bids me = clearingPrice truth me :=
  Finset.sup_congr rfl fun i hi => hsame i (Finset.ne_of_mem_erase hi)

theorem surplus_nonneg {value : ℤ} (hw : IsWinner bids w) (hv : (bids me : ℤ) ≤ value) :
    0 ≤ surplus bids w me value := by
  rw [surplus]
  split
  · rename_i h
    have hle := clearingPrice_le hw
    rw [h] at hle ⊢
    omega
  · exact le_refl 0

/-- Bidding what the lot is worth does at least as well as any other bid, whatever the others
bid. -/
theorem surplus_le_truthful (hsame : ∀ i, i ≠ me → bids i = truth i)
    (hv : IsWinner truth v) : surplus bids w me (truth me) ≤ surplus truth v me (truth me) := by
  have htruth : 0 ≤ surplus truth v me (truth me) := surplus_nonneg hv (le_refl _)
  by_cases hwin : w = me
  · by_cases htwin : v = me
    · rw [surplus, surplus, if_pos hwin, if_pos htwin, hwin, htwin, clearingPrice_congr hsame]
    · -- the deviation wins against a price that is at least the value
      have hmax : truth me ≤ clearingPrice bids me := by
        rw [clearingPrice_congr hsame]
        exact (hv.maximal me).trans (le_clearingPrice htwin)
      refine le_trans ?_ htruth
      rw [surplus, if_pos hwin, hwin]
      omega
  · rwa [surplus, if_neg hwin]

end Truthful
end SecondPrice
