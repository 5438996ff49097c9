import SealedStellar.ClosedAuctions

/-! The incentives of the auction, measured on the token balances of whole runs: a bid of one's
own value never loses, and no other bid in its place does better. -/
namespace SealedStellar
open SecondPrice TokenFlow
variable {W : Type} (h : Host W) (Known : List Fr → Prop)

/-- What z made of a closed auction: the lot, if it came to z, at its worth, and the payment. -/
def payoff (g : Genesis W) (actions : List (Action W)) (k : ℕ) (auction : Auction) (worth : ℤ)
    (z : Address) : ℤ :=
  (if 0 < netEffect h g actions k auction.rwaToken z then worth else 0) +
    netEffect h g actions k auction.paymentToken z

/-- Neither the seller nor the contract, in an auction that trades two different tokens. -/
structure Outsider (auction : Auction) (z : Address) : Prop where
  seller : auction.seller ≠ z
  contract : h.self ≠ z
  tokens : auction.rwaToken ≠ auction.paymentToken

def HoldsOnly (auction : Auction) (slot : ℕ) (z : Address) : Prop :=
  ∀ i bid, auction.bids[i]? = some bid → (bid.bidder = z ↔ i = slot)

/-- The commitment in this slot is to the price p: that is how it is known to open. -/
structure SealedAt (auction : Auction) (k slot p : ℕ) : Prop where
  marker : toFr (slotCommitment auction.bids slot) ≠ 0
  opens : ∃ salt, KnownOpening h Known k (slotCommitment auction.bids slot) p salt

variable {h Known}

section Trade
variable {auction : Auction} {z : Address}

theorem Outsider.lot_of_trade (out : Outsider h auction z) (winner : Address) (price : ℤ) :
    net (trade auction winner price) auction.rwaToken z =
      if winner = z then auction.lotAmount else 0 := by
  have hne := out.tokens.symm
  simp [trade, Move.effect, out.seller, hne]

theorem Outsider.payment_of_trade (out : Outsider h auction z) (winner : Address) (price : ℤ) :
    net (trade auction winner price) auction.paymentToken z =
      if winner = z then -price else 0 := by
  have hne := out.tokens
  by_cases hw : winner = z <;> simp [trade, Move.effect, out.seller, hne, hw]

theorem Outsider.lotIn_effect (out : Outsider h auction z) (t : Address) :
    (lotIn h auction).effect t z = 0 := by
  simp [lotIn, Move.effect, out.seller, out.contract]

end Trade

section Slots
variable {auction auction' : Auction} {k i j : ℕ} {price price' : ℤ}
  {prices prices' : Fin 8 → ℕ} {salts salts' : Fin 8 → Fr}

theorem KnownOutcome.price_congr (hfree : CollisionFree h Known)
    (ht : KnownOutcome h Known auction k i price prices salts)
    (ht' : KnownOutcome h Known auction' k j price' prices' salts') {slot : Fin 8}
    (hsame : slotCommitment auction'.bids slot = slotCommitment auction.bids slot) :
    prices' slot = prices slot := by
  by_cases hzero : toFr (slotCommitment auction.bids slot) = 0
  · rw [ht.empty slot hzero, ht'.empty slot (by rw [hsame, hzero])]
  · have hmarker' : toFr (slotCommitment auction'.bids slot) ≠ 0 := by rwa [hsame]
    have hopens' := ht'.slot_opens hmarker'
    rw [hsame] at hopens'
    exact (hopens'.unique hfree (ht.slot_opens hzero)).1

theorem KnownOutcome.sealed_price (hfree : CollisionFree h Known)
    (ht : KnownOutcome h Known auction k i price prices salts) {slot : Fin 8} {p : ℕ}
    (hp : SealedAt h Known auction k slot p) : prices slot = p := by
  obtain ⟨salt, hopens⟩ := hp.opens
  exact ((ht.slot_opens hp.marker).unique hfree hopens).1

end Slots

section Payoff
variable {g : Genesis W} {k : ℕ} {actions : List (Action W)} {auction : Auction} {z : Address}

theorem payoff_settled (hx : ExactTokens h) (hsound : KnowledgeSound h Known g.verifier)
    (ha : (runFrom h g actions).auctions k = some auction) (settled : auction.status = .Settled)
    (out : Outsider h auction z) :
    ∃ (w : Fin 8) (price : ℤ) (bid : Bid) (prices : Fin 8 → ℕ) (salts : Fin 8 → Fr),
      auction.bids[(w : ℕ)]? = some bid ∧ KnownOutcome h Known auction k w price prices salts ∧
      IsWinner prices w ∧ price = (clearingPrice prices w : ℕ) ∧
      netEffect h g actions k auction.rwaToken z =
        (if bid.bidder = z then auction.lotAmount else 0) ∧
      netEffect h g actions k auction.paymentToken z = if bid.bidder = z then -price else 0 := by
  obtain ⟨i, price, bid, hbid, ⟨prices, salts, ht⟩, hnet⟩ := settled_account hx hsound ha settled
  obtain ⟨w, rfl, hmax, hlow, hprice⟩ := ht.outcome
  refine ⟨w, price, bid, prices, salts, hbid, ht, ⟨hmax, hlow⟩, hprice, ?_, ?_⟩
  · rw [hnet, out.lot_of_trade]
  · rw [hnet, out.payment_of_trade]

theorem payoff_refunded (hx : ExactTokens h)
    (ha : (runFrom h g actions).auctions k = some auction) (refunded : auction.status = .Refunded)
    (out : Outsider h auction z) (t : Address) : netEffect h g actions k t z = 0 := by
  rw [refunded_account hx ha refunded t z, out.lotIn_effect, ite_self]

theorem payoff_eq (hx : ExactTokens h) (hsound : KnowledgeSound h Known g.verifier)
    (ha : (runFrom h g actions).auctions k = some auction) (settled : auction.status = .Settled)
    (out : Outsider h auction z) {slot : Fin 8} (mine : HoldsOnly auction slot z) (worth : ℤ) :
    ∃ (w : Fin 8) (price : ℤ) (prices : Fin 8 → ℕ) (salts : Fin 8 → Fr),
      KnownOutcome h Known auction k w price prices salts ∧ IsWinner prices w ∧
      payoff h g actions k auction worth z = surplus prices w slot worth := by
  obtain ⟨w, price, bid, prices, salts, hbid, ht, hw, hprice, hlot, hpay⟩ :=
    payoff_settled hx hsound ha settled out
  have hpos := ((runFrom_valid (h := h) g actions).stored k auction ha).2.2.lot
  refine ⟨w, price, prices, salts, ht, hw, ?_⟩
  rw [payoff, hlot, hpay, surplus]
  by_cases hz : bid.bidder = z
  · have hslot : w = slot := Fin.ext ((mine w bid hbid).mp hz)
    rw [if_pos hz, if_pos hz, if_pos hpos, if_pos hslot, hprice]
    rfl
  · have hslot : w ≠ slot := fun he => hz ((mine w bid hbid).mpr (congrArg Fin.val he))
    rw [if_neg hz, if_neg hz, if_neg (lt_irrefl 0), if_neg hslot, add_zero]

end Payoff

def fixtureRun (bidIndex winnerIndex : ℕ) (price : ℤ) (winner : Address) : List (Action SacState) :=
  [.call [.account (keyOf 2)] (.createAuction ⟨.account (keyOf 2), .contract (keyOf 10), 100,
      .contract (keyOf 11), 5000, 10, 3, fixtureRoot, keyOf 9⟩),
    .call [.account (keyOf 0x42)]
      (.placeBid 1 (.account (keyOf 0x42)) (fixtureSeal 1 bidIndex) []),
    .call [.account (keyOf 0x20)] (.placeBid 1 (.account (keyOf 0x20)) (fixtureSeal 1 4) []),
    .closeLedger 10 2,
    .call [] (.settle 1 winnerIndex price winner
      ⟨Vector.replicate 64 0, Vector.replicate 128 0, Vector.replicate 64 0⟩)]

def fixtureAuction (bidIndex : ℕ) : Auction :=
  ⟨.account (keyOf 2), .contract (keyOf 10), 100, .contract (keyOf 11), 5000, 10, 3, fixtureRoot,
    keyOf 9, .Settled, [⟨.account (keyOf 0x42), fixtureSeal 1 bidIndex⟩,
      ⟨.account (keyOf 0x20), fixtureSeal 1 4⟩], false⟩

def fixtureGenesis : Genesis SacState := ⟨.contract (keyOf 1), evenTokens 20000, 0, 1⟩

theorem fixture_outsider (bidIndex : ℕ) :
    Outsider fixtureHost (fixtureAuction bidIndex) (.account (keyOf 0x42)) where
  seller := (by decide : Address.account (keyOf 2) ≠ .account (keyOf 0x42))
  contract := by decide
  tokens := (by decide : Address.contract (keyOf 10) ≠ .contract (keyOf 11))

theorem fixture_mine (bidIndex : ℕ) :
    HoldsOnly (fixtureAuction bidIndex) 0 (.account (keyOf 0x42)) := by
  intro i bid hbid
  rcases i with _ | _ | i
  · cases hbid
    exact ⟨fun _ => rfl, fun _ => rfl⟩
  · cases hbid
    exact (by decide : Address.account (keyOf 0x20) = .account (keyOf 0x42) ↔ 0 + 1 = 0)
  · cases hbid

theorem fixture_sealed : SealedAt fixtureHost FixtureKnown (fixtureAuction 1) 1 0 3500 :=
  ⟨by decide +kernel, (fixtureSalt 1 : Fr), ⟨by norm_num, by decide +kernel, by decide +kernel⟩⟩

/-- Nobody pays more than it sealed, or pays without getting the lot, in any closed auction. -/
theorem bidder_never_overpays (h : Host W) (hx : ExactTokens h) (Known : List Fr → Prop)
    (hfree : CollisionFree h Known) (g : Genesis W) (hsound : KnowledgeSound h Known g.verifier)
    (k p : ℕ) (z : Address) (actions : List (Action W))
    (auction : Auction) (ha : (runFrom h g actions).auctions k = some auction)
    (hclosed : auction.status ≠ .Open) (out : Outsider h auction z)
    (hbids : ∀ i bid, auction.bids[i]? = some bid → bid.bidder = z →
      ∃ q, q ≤ p ∧ SealedAt h Known auction k i q) :
    -(p : ℤ) ≤ netEffect h g actions k auction.paymentToken z ∧
      netEffect h g actions k auction.paymentToken z ≤ 0 ∧
      (netEffect h g actions k auction.paymentToken z ≠ 0 →
        netEffect h g actions k auction.rwaToken z = auction.lotAmount) ∧
      0 ≤ payoff h g actions k auction p z := by
  cases hstatus : auction.status with
  | Open => exact absurd hstatus hclosed
  | Refunded =>
    have hnone := payoff_refunded hx ha hstatus out
    simp [payoff, hnone]
  | Settled =>
    obtain ⟨w, price, bid, prices, salts, hbid, ht, hw, hprice, hlot, hpay⟩ :=
      payoff_settled hx hsound ha hstatus out
    have hpos := ((runFrom_valid (h := h) g actions).stored k auction ha).2.2.lot
    rw [payoff, hlot, hpay]
    by_cases hz : bid.bidder = z
    · obtain ⟨q, hq, hsealed⟩ := hbids w bid hbid hz
      have hown : prices w = q := ht.sealed_price hfree hsealed
      have hclear := clearingPrice_le hw
      have hpositive := ht.positive
      rw [if_pos hz, if_pos hz, if_pos hpos]
      refine ⟨?_, ?_, fun _ => rfl, ?_⟩ <;> omega
    · simp [hz]

/-- A bid of 3500 that wins at 3100. -/
theorem bidder_never_overpays_at : -3500 ≤ netEffect fixtureHost fixtureGenesis
    (fixtureRun 1 0 3100 (.account (keyOf 0x42))) 1 (.contract (keyOf 11)) (.account (keyOf 0x42)) := by
  have hbids : ∀ i bid, (fixtureAuction 1).bids[i]? = some bid → bid.bidder = .account (keyOf 0x42) →
      ∃ q, q ≤ 3500 ∧ SealedAt fixtureHost FixtureKnown (fixtureAuction 1) 1 i q := by
    intro i bid hbid hz
    obtain rfl := (fixture_mine 1 i bid hbid).mp hz
    exact ⟨3500, le_refl 3500, fixture_sealed⟩
  exact (bidder_never_overpays fixtureHost sac_exactTokens FixtureKnown fixture_collisionFree
    fixtureGenesis (fixture_sound _) 1 3500 (.account (keyOf 0x42))
    (fixtureRun 1 0 3100 (.account (keyOf 0x42))) (fixtureAuction 1) (by decide +kernel) (by decide)
    (fixture_outsider 1) hbids).1

/-- Sealing what the lot is worth to one does at least as well, wherever it settles, as any
other bid in its slot does in any closed run with the same commitments in the other slots. -/
theorem truthful_bidding_dominates (h : Host W) (hx : ExactTokens h) (Known : List Fr → Prop)
    (hfree : CollisionFree h Known) (g g' : Genesis W) (hsound : KnowledgeSound h Known g.verifier)
    (hsound' : KnowledgeSound h Known g'.verifier) (k worth : ℕ) (slot : Fin 8) (z : Address)
    (actions actions' : List (Action W))
    (auction auction' : Auction) (ha : (runFrom h g actions).auctions k = some auction)
    (settled : auction.status = .Settled)
    (ha' : (runFrom h g' actions').auctions k = some auction') (hclosed : auction'.status ≠ .Open)
    (out : Outsider h auction z) (out' : Outsider h auction' z) (mine : HoldsOnly auction slot z)
    (mine' : HoldsOnly auction' slot z) (truthful : SealedAt h Known auction k slot worth)
    (others : ∀ i : Fin 8, i ≠ slot →
      slotCommitment auction'.bids i = slotCommitment auction.bids i) :
    payoff h g' actions' k auction' worth z ≤ payoff h g actions k auction worth z := by
  obtain ⟨v, price, prices, salts, ht, hv, hpayoff⟩ :=
    payoff_eq hx hsound ha settled out mine (worth : ℤ)
  have hworth : prices slot = worth := ht.sealed_price hfree truthful
  rw [hpayoff]
  cases hstatus : auction'.status with
  | Open => exact absurd hstatus hclosed
  | Refunded =>
    have hnone := payoff_refunded hx ha' hstatus out'
    rw [payoff, hnone, hnone, if_neg (lt_irrefl 0), add_zero]
    exact surplus_nonneg hv (by rw [hworth])
  | Settled =>
    obtain ⟨w, price', prices', salts', ht', -, hpayoff'⟩ :=
      payoff_eq hx hsound' ha' hstatus out' mine' (worth : ℤ)
    rw [hpayoff', ← hworth]
    exact surplus_le_truthful (fun i hi => ht.price_congr hfree ht' (others i hi)) hv

/-- Worth 3500 and sealed so, the lot comes at 3100; sealed as 1200 it goes to the other bidder. -/
theorem truthful_bidding_dominates_at :
    payoff fixtureHost fixtureGenesis (fixtureRun 0 1 1200 (.account (keyOf 0x20))) 1 (fixtureAuction 0)
        3500 (.account (keyOf 0x42)) ≤
      payoff fixtureHost fixtureGenesis (fixtureRun 1 0 3100 (.account (keyOf 0x42))) 1
        (fixtureAuction 1) 3500 (.account (keyOf 0x42)) :=
  truthful_bidding_dominates fixtureHost sac_exactTokens FixtureKnown fixture_collisionFree
    fixtureGenesis fixtureGenesis (fixture_sound _) (fixture_sound _) 1 3500 0 (.account (keyOf 0x42))
    _ _ (fixtureAuction 1) (fixtureAuction 0) (by decide +kernel) rfl (by decide +kernel) (by decide)
    (fixture_outsider 1) (fixture_outsider 0) (fixture_mine 1) (fixture_mine 0) fixture_sealed
    (by decide +kernel)

end SealedStellar
