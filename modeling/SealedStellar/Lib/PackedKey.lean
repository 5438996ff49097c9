import Mathlib.Data.Prod.Lex
import Mathlib.Data.Set.Basic

/-! Two numbers packed into one, the first times a fixed multiplier: on which pairs that keeps the
lexicographic order. -/
namespace PackedKey
variable (m : ℕ)

def pack (x : ℕ × ℕ) : ℕ := x.1 * m + x.2

/-- Where the high part grows, the low part falls back by less than what the high part gains. -/
def Fits (x y : ℕ × ℕ) : Prop := x.1 < y.1 → x.2 < y.2 + (y.1 - x.1) * m

variable {m} {x y : ℕ × ℕ}

theorem pack_lt_iff (hxy : x.1 < y.1) : pack m x < pack m y ↔ x.2 < y.2 + (y.1 - x.1) * m := by
  have hsplit : y.1 * m = x.1 * m + (y.1 - x.1) * m := by
    rw [← Nat.add_mul, Nat.add_sub_cancel' hxy.le]
  rw [pack, pack, hsplit]
  omega

theorem pack_le_iff (hxy : Fits m x y) (hyx : Fits m y x) :
    pack m x ≤ pack m y ↔ toLex x ≤ toLex y := by
  rw [Prod.Lex.toLex_le_toLex]
  obtain hlt | heq | hgt := lt_trichotomy x.1 y.1
  · exact iff_of_true ((pack_lt_iff hlt).mpr (hxy hlt)).le (.inl hlt)
  · have hpack : pack m x ≤ pack m y ↔ x.2 ≤ y.2 := by
      rw [pack, pack, heq]
      omega
    simp [hpack, heq]
  · refine iff_of_false (not_le.mpr ((pack_lt_iff hgt).mpr (hyx hgt))) fun h => ?_
    cases h with
    | inl h => omega
    | inr h => omega

/-- On a set of pairs the packed order is the lexicographic one exactly when all of them fit. -/
theorem pack_order_iff (s : Set (ℕ × ℕ)) :
    (∀ x ∈ s, ∀ y ∈ s, pack m x ≤ pack m y ↔ toLex x ≤ toLex y) ↔
      ∀ x ∈ s, ∀ y ∈ s, Fits m x y := by
  constructor
  · intro horder x hx y hy hxy
    have hnot : ¬ toLex y ≤ toLex x := not_le.mpr (Prod.Lex.toLex_lt_toLex.mpr (.inl hxy))
    rw [← pack_lt_iff hxy]
    exact not_le.mp (mt (horder y hy x hx).mp hnot)
  · exact fun hfits x hx y hy => pack_le_iff (hfits x hx y hy) (hfits y hy x hx)

end PackedKey
