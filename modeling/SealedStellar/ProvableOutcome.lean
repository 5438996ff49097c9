import SealedStellar.SettleCli
import SealedStellar.CircuitStatement

/-! The outcome that the page and the test helpers select, against the blocks of AuctionWinner
that constrain it. -/
namespace SealedStellar
open Circom SecondPrice

def slotPrice (prices : List ℤ) (i : Fin prices.length) : ℕ := (prices.get i).toNat

def Carries (prices : List ℤ) {merkleDepth : ℕ}
    (priv : PrivateSignals prices.length merkleDepth) : Prop :=
  ∀ i, priv.bidPrices i = ((prices.get i : ℤ) : Fr)

def Selects (winnerIndex : ℤ) {bidCount merkleDepth : ℕ}
    (priv : PrivateSignals bidCount merkleDepth) : Prop :=
  ∀ i : Fin bidCount, priv.indicators i = if ((i : ℕ) : ℤ) = winnerIndex then 1 else 0

def Provable (prices : List ℤ) (merkleDepth : ℕ) (winnerIndex winningPrice : Fr) : Prop :=
  ∃ (pub : PublicSignals prices.length) (priv : PrivateSignals prices.length merkleDepth),
    pub.winnerIndex = winnerIndex ∧ pub.winningPrice = winningPrice ∧ Carries prices priv ∧
      WinnerSelector pub priv ∧ SecondPriceFold pub priv ∧ MaximalityChecks pub priv

section Selection
variable {prices : List ℤ}

theorem slotPrice_cast (hnonneg : ∀ p ∈ prices, 0 ≤ p) (i : Fin prices.length) :
    (slotPrice prices i : ℤ) = prices.get i :=
  Int.toNat_of_nonneg (hnonneg _ (List.get_mem prices i))

theorem isWinner_get (hnonneg : ∀ p ∈ prices, 0 ≤ p) {w : Fin prices.length}
    (h : IsWinner (slotPrice prices) w) : IsWinner prices.get w := by
  constructor
  · intro i
    rw [← slotPrice_cast hnonneg i, ← slotPrice_cast hnonneg w]
    exact Int.ofNat_le.mpr (h.maximal i)
  · intro i hi
    rw [← slotPrice_cast hnonneg i, ← slotPrice_cast hnonneg w]
    exact Int.ofNat_lt.mpr (h.lowest i hi)

theorem outcome_of_slots (hne : prices ≠ []) (hnonneg : ∀ p ∈ prices, 0 ≤ p) :
    ∃ w : Fin prices.length, IsWinner (slotPrice prices) w ∧
      selectVickreyOutcome prices =
        ⟨((w : ℕ) : ℤ), prices.get w, (clearingPrice (slotPrice prices) w : ℕ)⟩ := by
  have hprice : ∀ i : Fin prices.length, prices.getD i 0 = (slotPrice prices i : ℤ) := by
    intro i
    rw [slotPrice_cast hnonneg i, List.getD_eq_getElem?_getD, List.getElem?_eq_getElem i.isLt]
    rfl
  obtain ⟨w, hw, hout⟩ := selectVickreyOutcome_eq (List.length_pos_iff.mpr hne) rfl hprice
  exact ⟨w, hw, by rw [hout, slotPrice_cast hnonneg w]⟩

theorem carries_iff (hnonneg : ∀ p ∈ prices, 0 ≤ p) {merkleDepth : ℕ}
    {priv : PrivateSignals prices.length merkleDepth} :
    Carries prices priv ↔ ∀ i, priv.bidPrices i = (slotPrice prices i : Fr) := by
  refine forall_congr' fun i => ?_
  rw [← slotPrice_cast hnonneg i, Int.cast_natCast]

theorem selects_iff {bidCount merkleDepth : ℕ} {priv : PrivateSignals bidCount merkleDepth}
    {w : Fin bidCount} :
    Selects ((w : ℕ) : ℤ) priv ↔ ∀ i, priv.indicators i = if i = w then 1 else 0 := by
  simp only [Selects, Int.natCast_inj, Fin.ext_iff]

theorem slotPrice_lt (hrange : ∀ p ∈ prices, p < 2 ^ 64) (i : Fin prices.length) :
    slotPrice prices i < 2 ^ 64 := by
  have h := hrange _ (List.get_mem prices i)
  simp only [slotPrice]
  omega

/-- Only the true winner and clearing price pass the three blocks. -/
theorem provable_iff (hne : prices ≠ []) (hnonneg : ∀ p ∈ prices, 0 ≤ p)
    (hrange : ∀ p ∈ prices, p < 2 ^ 64) (hcount : prices.length ≤ 16) (merkleDepth : ℕ)
    {w : Fin prices.length} (hw : IsWinner (slotPrice prices) w) (winnerIndex winningPrice : Fr) :
    Provable prices merkleDepth winnerIndex winningPrice ↔
      clearingPrice (slotPrice prices) w ≠ 0 ∧ winnerIndex = ((w : ℕ) : Fr) ∧
        winningPrice = ((clearingPrice (slotPrice prices) w : ℕ) : Fr) := by
  have hn := List.length_pos_iff.mpr hne
  have hlt := slotPrice_lt hrange
  constructor
  · rintro ⟨pub, priv, rfl, rfl, hcarries, hselector, hfold, hmaximality⟩
    have hbid := (carries_iff hnonneg).mp hcarries
    obtain ⟨v, hindex, hone, -, hsel⟩ := (winnerSelector_iff hcount).mp hselector
    have hv := (maximalityChecks_iff hcount hlt hbid hindex hsel).mp hmaximality
    have hvw : v = w := hv.unique hw
    subst hvw
    obtain ⟨-, -, hclear, hpos⟩ := (secondPriceFold_iff hn hlt hbid hone).mp hfold
    exact ⟨hpos, hindex, hclear⟩
  · rintro ⟨hpos, rfl, rfl⟩
    let pub : PublicSignals prices.length := ⟨0, fun _ => 0, ((w : ℕ) : Fr),
      ((clearingPrice (slotPrice prices) w : ℕ) : Fr), 0, 0⟩
    let priv : PrivateSignals prices.length merkleDepth :=
      honestSignals w (slotPrice prices) (fun _ => 0) (fun _ => 0) (fun _ => 0)
    refine ⟨pub, priv, rfl, rfl, (carries_iff hnonneg).mpr fun _ => rfl, ?_, ?_, ?_⟩
    · exact (winnerSelector_iff hcount).mpr ⟨w, rfl, fun _ => rfl, fun _ => rfl, rfl⟩
    · exact (secondPriceFold_iff hn hlt (fun _ => rfl) fun _ => rfl).mpr
        ⟨fun _ => rfl, fun _ => rfl, rfl, hpos⟩
    · exact (maximalityChecks_iff hcount hlt (fun _ => rfl) rfl rfl).mpr hw

theorem runningFold_last (hne : prices ≠ []) (hnonneg : ∀ p ∈ prices, 0 ≤ p)
    (hrange : ∀ p ∈ prices, p < 2 ^ 64) {merkleDepth : ℕ}
    {priv : PrivateSignals prices.length merkleDepth} {w : Fin prices.length}
    (hcarries : Carries prices priv) (hselects : Selects ((w : ℕ) : ℤ) priv)
    (hfold : RunningFold priv) :
    (priv.runningSecondMax ⟨prices.length - 1, Nat.sub_one_lt_of_lt (List.length_pos_iff.mpr hne)⟩).val
      = clearingPrice (slotPrice prices) w := by
  have hn := List.length_pos_iff.mpr hne
  have hlt := slotPrice_lt hrange
  have hp : 2 ^ 64 < fieldOrder := by norm_num
  have hbid := (carries_iff hnonneg).mp hcarries
  obtain ⟨-, hrun⟩ := (runningFold_iff hlt hbid (selects_iff.mp hselects)).mp hfold
  rw [hrun, runningMax_masked hn, ZMod.val_cast_of_lt ((clearingPrice_lt hn hlt w).trans hp)]

end Selection

/-- The selection is the second-price outcome, its clearing price is what the circuit folds to,
and up to sixteen slots no other pair can be proved. -/
theorem outcome_provable (prices : List ℤ) (hne : prices ≠ []) (hnonneg : ∀ p ∈ prices, 0 ≤ p) :
    Helpers.selectVickreyOutcome prices = selectVickreyOutcome prices ∧
    let outcome := selectVickreyOutcome prices
    (∃ w : Fin prices.length, IsWinner prices.get w ∧ outcome.winnerIndex = ((w : ℕ) : ℤ) ∧
      outcome.winnerPrice = prices.get w ∧
      outcome.clearingPrice = (clearingPrice (slotPrice prices) w : ℕ)) ∧
    ((∀ p ∈ prices, p < 2 ^ 64) → ∀ merkleDepth : ℕ,
      (∃ priv : PrivateSignals prices.length merkleDepth,
        Carries prices priv ∧ Selects outcome.winnerIndex priv ∧ RunningFold priv) ∧
      (∀ priv : PrivateSignals prices.length merkleDepth,
        Carries prices priv → Selects outcome.winnerIndex priv → RunningFold priv →
        ∀ last : Fin prices.length, (last : ℕ) = prices.length - 1 →
          ((priv.runningSecondMax last).val : ℤ) = outcome.clearingPrice) ∧
      (prices.length ≤ 16 → ∀ winnerIndex winningPrice : Fr,
        Provable prices merkleDepth winnerIndex winningPrice ↔
          0 < outcome.clearingPrice ∧ winnerIndex = (outcome.winnerIndex : Fr) ∧
            winningPrice = (outcome.clearingPrice : Fr))) := by
  obtain ⟨w, hw, hout⟩ := outcome_of_slots hne hnonneg
  refine ⟨rfl, ?_⟩
  rw [hout]
  refine ⟨⟨w, isWinner_get hnonneg hw, rfl, rfl, rfl⟩, fun hrange merkleDepth => ?_⟩
  refine ⟨?_, fun priv hcarries hselects hfold last hlast => ?_, fun hcount winnerIndex price => ?_⟩
  · let priv : PrivateSignals prices.length merkleDepth :=
      honestSignals w (slotPrice prices) (fun _ => 0) (fun _ => 0) (fun _ => 0)
    have hone : ∀ i, priv.indicators i = if i = w then 1 else 0 := fun _ => rfl
    exact ⟨priv, (carries_iff hnonneg).mpr fun _ => rfl, selects_iff.mpr hone,
      (runningFold_iff (slotPrice_lt hrange) (fun _ => rfl) hone).mpr ⟨fun _ => rfl, fun _ => rfl⟩⟩
  · have hlast' := runningFold_last hne hnonneg hrange hcarries hselects hfold
    have he : last = ⟨prices.length - 1, Nat.sub_one_lt_of_lt (List.length_pos_iff.mpr hne)⟩ :=
      Fin.ext hlast
    rw [he, hlast']
  · rw [provable_iff hne hnonneg hrange hcount merkleDepth hw, Int.cast_natCast, Int.cast_natCast,
      Int.natCast_pos, Nat.pos_iff_ne_zero]

/-- Three bids at the maximum, one of zero: the lowest of the three wins and pays the same price. -/
theorem outcome_provable_witness :
    (selectVickreyOutcome [0, 5, 5, 5]).clearingPrice = 5 ∧
      ∀ winnerIndex winningPrice : Fr,
        Provable [0, 5, 5, 5] 10 winnerIndex winningPrice ↔ winnerIndex = 1 ∧ winningPrice = 5 := by
  have hclear : (selectVickreyOutcome [0, 5, 5, 5]).clearingPrice = 5 := by decide
  have hindex : (selectVickreyOutcome [0, 5, 5, 5]).winnerIndex = 1 := by decide
  have hall := outcome_provable [0, 5, 5, 5] (by decide) (by decide)
  obtain ⟨-, -, hcircuit⟩ := hall
  obtain ⟨-, -, hiff⟩ := hcircuit (by decide) 10
  refine ⟨hclear, fun winnerIndex winningPrice => ?_⟩
  rw [hiff (by decide), hclear, hindex]
  simp

end SealedStellar
