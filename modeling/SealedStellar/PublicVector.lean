import SealedStellar.CircuitStatement
import SealedStellar.Lifecycle

/-! The vector the contract rebuilds from storage, read modulo r as the verifier's host reads
it, is the public input of the circuit for the stored auction. -/
namespace SealedStellar
open SecondPrice MerklePath Circom
variable {W : Type} (h : Host W)

def settlePublic (auction : Auction) (auctionId winnerIndex : ℕ) (winningPrice : ℤ)
    (winnerAddress : Address) : PublicSignals 8 where
  auctionId := (auctionId : Fr)
  commitments := fun slot => toFr (slotCommitment auction.bids slot)
  winnerIndex := (winnerIndex : Fr)
  winningPrice := (winningPrice.toNat : Fr)
  whitelistRoot := toFr auction.whitelistRoot
  winnerAddrHash := toFr (addressLeaf h winnerAddress)

theorem toFr_ofNat {n : ℕ} (hn : n < 2 ^ 256) : toFr (BitVec.ofNat 256 n) = (n : Fr) := by
  rw [toFr, BitVec.toNat_ofNat, Nat.mod_eq_of_lt hn]

theorem buildPublicSignals_toFr {auction : Auction} {auctionId winnerIndex : ℕ}
    {winningPrice : ℤ} {winnerAddress : Address} (hid : auctionId < 2 ^ 256)
    (hindex : winnerIndex < 2 ^ 256) (hlow : 0 ≤ winningPrice) (hhigh : winningPrice < 2 ^ 128) :
    (buildPublicSignals h auction auctionId winnerIndex winningPrice winnerAddress).map toFr =
      (settlePublic h auction auctionId winnerIndex winningPrice winnerAddress).toList := by
  have hslots : ((List.range maxBidSlots).map (slotCommitment auction.bids)).map toFr =
      List.ofFn (settlePublic h auction auctionId winnerIndex winningPrice winnerAddress).commitments :=
    rfl
  have hprice : toFr (BitVec.ofNat 256 (winningPrice % 2 ^ 128).toNat) = (winningPrice.toNat : Fr) := by
    rw [Int.emod_eq_of_lt hlow hhigh, toFr_ofNat]
    omega
  simp only [buildPublicSignals, PublicSignals.toList, List.map_cons, List.map_append, List.map_nil,
    hslots, hprice, toFr_ofNat hid, toFr_ofNat hindex]
  rfl

/-- What a settlement at (winnerIndex, winningPrice) says about the bids of the auction. -/
structure TrueOutcome (auction : Auction) (auctionId winnerIndex : ℕ) (winningPrice : ℤ)
    (price : Fin 8 → ℕ) (salt : Fin 8 → Fr) : Prop where
  range : ∀ slot, price slot < 2 ^ 64
  opens : ∀ slot : Fin 8, toFr (slotCommitment auction.bids slot) ≠ 0 →
    h.poseidon [(price slot : Fr), salt slot, (auctionId : Fr)] =
      toFr (slotCommitment auction.bids slot)
  empty : ∀ slot : Fin 8, toFr (slotCommitment auction.bids slot) = 0 → price slot = 0
  outcome : ∃ w : Fin 8, (w : ℕ) = winnerIndex ∧ (∀ slot, price slot ≤ price w) ∧
    (∀ slot, slot < w → price slot < price w) ∧
    winningPrice = ((Finset.univ.erase w).sup price : ℕ)
  positive : 0 < winningPrice
  capped : winningPrice ≤ auction.maxPrice
  member : ∃ bid, auction.bids[winnerIndex]? = some bid ∧ ∃ path : List (Fr × Bool),
    path.length = 10 ∧ climb (fun a b => h.poseidon [a, b]) (toFr (addressLeaf h bid.bidder)) path =
      toFr auction.whitelistRoot

variable {h}

theorem WinnerStatement.trueOutcome {auction : Auction} {auctionId i : ℕ} {price : ℤ} {bid : Bid}
    (hv : auction.Valid) (slot : auction.bids[i]? = some bid) (positive : 0 < price)
    (capped : price ≤ auction.maxPrice) {w : Fin 8} {prices : Fin 8 → ℕ} {salts : Fin 8 → Fr}
    (hw : WinnerStatement h.poseidon 10 (settlePublic h auction auctionId i price bid.bidder) w prices
      salts) : TrueOutcome h auction auctionId i price prices salts := by
  have hi : i < 8 := lt_of_lt_of_le (List.getElem?_eq_some_iff.mp slot).1 hv.slots
  have hmax := hv.fits
  have hfield : 2 ^ 64 < fieldOrder := by norm_num
  simp only [u64Max] at hmax
  have hindex : i = (w : ℕ) := natCast_inj (p := fieldOrder) (by omega) (by omega) hw.index
  have hclear : price.toNat = clearingPrice prices w := by
    have hlt : clearingPrice prices w < 2 ^ 64 :=
      lt_of_le_of_lt (clearingPrice_le hw.winner) (hw.range w)
    exact natCast_inj (p := fieldOrder) (by omega) (by omega) hw.clearing
  have hprice : price = (clearingPrice prices w : ℕ) := by omega
  exact ⟨hw.range, hw.opens, hw.empty, ⟨w, hindex.symm, hw.winner.maximal, hw.winner.lowest, hprice⟩,
    positive, capped, bid, slot, hw.member⟩

/-- Satisfying the circuit on the stored vector is having the true outcome. -/
theorem satisfiable_settlePublic {auction : Auction} {auctionId i : ℕ} {price : ℤ} {bid : Bid}
    (hv : auction.Valid) (slot : auction.bids[i]? = some bid) (positive : 0 < price)
    (capped : price ≤ auction.maxPrice) :
    Satisfiable h.poseidon (settlePublic h auction auctionId i price bid.bidder) ↔
      ∃ prices salts, TrueOutcome h auction auctionId i price prices salts := by
  rw [Satisfiable, auctionWinner_iff (by omega) (by omega)]
  constructor
  · rintro ⟨w, prices, salts, hw⟩
    exact ⟨prices, salts, hw.trueOutcome hv slot positive capped⟩
  · rintro ⟨prices, salts, ht⟩
    obtain ⟨w, hindex, hmax, hlow, hprice⟩ := ht.outcome
    have hclear : price.toNat = clearingPrice prices w := by
      rw [hprice]
      rfl
    obtain ⟨b, hb, hmember⟩ := ht.member
    rw [slot] at hb
    cases hb
    exact ⟨w, prices, salts, ⟨by rw [hindex]; rfl, ht.range, ht.empty, ht.opens, ⟨hmax, hlow⟩,
      by rw [← hclear]; rfl, by omega, hmember⟩⟩

end SealedStellar
