import SealedStellar.KnownOpenings
import SealedStellar.Payout

/-! Where a closed record comes from: the one accepted call that closed it, the outcome that
call established, and what the whole run moved for the auction. -/
namespace SealedStellar
open TokenFlow
variable {W : Type} {h : Host W} {g : Genesis W} {k : ℕ} {actions : List (Action W)}
  {auction : Auction}

def HasStatus (k : ℕ) (status : AuctionStatus) (s : State W) : Prop :=
  ∃ auction, s.auctions k = some auction ∧ auction.status = status

/-- A record turns from open to closed by `settle` or by `refund_all`, and by nothing else. -/
theorem closed_step {s : State W} (hs : s.Valid) {a : Action W} {status : AuctionStatus}
    (hclosed : status ≠ .Open) (hbefore : ¬ HasStatus k status s)
    (hafter : HasStatus k status (step h s a)) :
    (∃ signers i price winner proof, status = .Settled ∧
      a = .call signers (.settle k i price winner proof) ∧
      exec h signers (.settle k i price winner proof) s = .ok (step h s a)) ∨
    ∃ signers, status = .Refunded ∧ a = .call signers (.refundAll k) ∧
      exec h signers (.refundAll k) s = .ok (step h s a) := by
  obtain ⟨hsame, -⟩ | ⟨signers, c, moves, new, rfl, rfl, he, -⟩ := step_cases (h := h) k a hs
  · exact absurd (by rwa [HasStatus, ← hsame]) hbefore
  obtain ⟨auction, ha, hstatus⟩ := hafter
  cases c with
  | createAuction args =>
    rw [(createAuction_progress hs he).auction_at] at ha
    cases ha
    exact absurd hstatus.symm hclosed
  | placeBid auctionId bidder commitment encryptedBid =>
    obtain ⟨old, hold, hp⟩ := placeBid_progress he
    rw [hp.auction_at] at ha
    cases ha
    exact absurd ⟨old, hold, hstatus⟩ hbefore
  | settle auctionId i price winner proof =>
    obtain ⟨old, bid, hold, -, -, -, -, hp⟩ := settle_progress he
    rw [hp.auction_at] at ha
    cases ha
    exact .inl ⟨signers, i, price, winner, proof, hstatus.symm, rfl, he⟩
  | refundAll auctionId =>
    obtain ⟨old, -, -, hp | hp⟩ := refundAll_progress he
    · rw [hp.auction_at] at ha
      cases ha
      exact .inr ⟨signers, hstatus.symm, rfl, he⟩
    · rw [hp.auction_at] at ha
      cases ha
      exact .inr ⟨signers, hstatus.symm, rfl, he⟩
  | reclaimLot auctionId =>
    obtain ⟨old, hold, refunded, -, hp⟩ := reclaimLot_progress he
    rw [hp.auction_at] at ha
    cases ha
    exact absurd ⟨old, hold, hstatus⟩ hbefore

theorem no_status_at_genesis (g : Genesis W) (k : ℕ) (status : AuctionStatus) :
    ¬ HasStatus k status (g.state h) := by
  rintro ⟨auction, ha, -⟩
  cases ha

theorem settled_by (ha : (runFrom h g actions).auctions k = some auction)
    (settled : auction.status = .Settled) :
    ∃ before signers i price winner proof after s',
      actions = before ++ .call signers (.settle k i price winner proof) :: after ∧
      exec h signers (.settle k i price winner proof) (runFrom h g before) = .ok s' ∧
      s'.auctions k = some auction := by
  obtain ⟨before, a, after, rfl, hbefore, hafter⟩ := Runs.run_crosses (P := HasStatus k .Settled)
    (no_status_at_genesis g k .Settled) ⟨auction, ha, settled⟩
  have hvalid : (runFrom h g before).Valid := runFrom_valid g before
  obtain ⟨signers, i, price, winner, proof, -, rfl, he⟩ | ⟨signers, hstatus, -⟩ :=
    closed_step hvalid (by simp) hbefore hafter
  · refine ⟨before, signers, i, price, winner, proof, after, _, rfl, he, ?_⟩
    obtain ⟨a, hsome, hset⟩ : HasStatus k .Settled (step h (runFrom h g before) _) := hafter
    have hkept := @Runs.run_invariant' _ _ (step h) (fun s => s.Valid ∧ s.auctions k = some a)
      (fun s b hP => ⟨step_valid s b hP.1,
        (settled_step (h := h) (t := h.self) (z := h.self) b hP.1 ⟨a, hP.2, hset⟩).1.trans hP.2⟩)
      _ ⟨step_valid _ _ hvalid, hsome⟩ after
    rw [runFrom, Runs.run_append, Runs.run_cons, ← runFrom, hkept.2] at ha
    exact hsome.trans ha
  · cases hstatus

theorem refunded_by (ha : (runFrom h g actions).auctions k = some auction)
    (refunded : auction.status = .Refunded) :
    ∃ before signers after s', actions = before ++ .call signers (.refundAll k) :: after ∧
      exec h signers (.refundAll k) (runFrom h g before) = .ok s' := by
  obtain ⟨before, a, after, rfl, hbefore, hafter⟩ := Runs.run_crosses (P := HasStatus k .Refunded)
    (no_status_at_genesis g k .Refunded) ⟨auction, ha, refunded⟩
  obtain ⟨signers, i, price, winner, proof, hstatus, -⟩ | ⟨signers, -, rfl, he⟩ :=
    closed_step (runFrom_valid g before) (by simp) hbefore hafter
  · cases hstatus
  · exact ⟨before, signers, after, _, rfl, he⟩

/-- A settled record holds the bids whose outcome the settling call proved from known openings. -/
theorem settled_outcome {Known : List Fr → Prop} (hsound : KnowledgeSound h Known g.verifier)
    (ha : (runFrom h g actions).auctions k = some auction) (settled : auction.status = .Settled) :
    ∃ before signers i price proof after old bid s',
      actions = before ++ .call signers (.settle k i price bid.bidder proof) :: after ∧
      exec h signers (.settle k i price bid.bidder proof) (runFrom h g before) = .ok s' ∧
      (runFrom h g before).auctions k = some old ∧ auction = closed old .Settled ∧
      old.bids[i]? = some bid ∧ ∃ prices salts, KnownOutcome h Known old k i price prices salts := by
  obtain ⟨before, signers, i, price, winner, proof, after, s', rfl, he, hs'⟩ := settled_by ha settled
  obtain ⟨old, hold, ⟨bid, hbid, rfl⟩, prices, salts, ht⟩ := settle_knownOutcome hsound he
  obtain ⟨old', bid', hold', -, -, -, -, hp⟩ := settle_progress he
  rw [hold] at hold'
  cases hold'
  have hfinal : s'.auctions k = some (closed old .Settled) := hp.auction_at
  rw [hs', Option.some.injEq] at hfinal
  exact ⟨before, signers, i, price, proof, after, old, bid, s', rfl, he, hold, hfinal, hbid, prices,
    salts, ht⟩

theorem KnownOutcome.closed {Known : List Fr → Prop} {i : ℕ} {price : ℤ} {prices : Fin 8 → ℕ}
    {salts : Fin 8 → Fr} (ht : KnownOutcome h Known auction k i price prices salts)
    (status : AuctionStatus) :
    KnownOutcome h Known (closed auction status) k i price prices salts :=
  ⟨⟨ht.range, ht.opens, ht.empty, ht.outcome, ht.positive, ht.capped, ht.member⟩, ht.known⟩

/-- A settled record states the outcome of its own bids, and its run amounts to the trade. -/
theorem settled_account (hx : ExactTokens h) {Known : List Fr → Prop}
    (hsound : KnowledgeSound h Known g.verifier)
    (ha : (runFrom h g actions).auctions k = some auction) (settled : auction.status = .Settled) :
    ∃ i price bid, auction.bids[i]? = some bid ∧
      (∃ prices salts, KnownOutcome h Known auction k i price prices salts) ∧
      ∀ t z, netEffect h g actions k t z = net (trade auction bid.bidder price) t z := by
  obtain ⟨before, signers, i, price, proof, after, old, bid, s', rfl, he, hold, rfl, hbid, prices, salts,
    ht⟩ := settled_outcome hsound ha settled
  obtain ⟨old', bid', hold', -, -, hnet⟩ := netEffect_settled hx he after
  rw [hold] at hold'
  cases hold'
  exact ⟨i, price, bid, hbid, ⟨prices, salts, ht.closed .Settled⟩, fun t z => (hnet t z).trans rfl⟩

theorem refunded_account (hx : ExactTokens h)
    (ha : (runFrom h g actions).auctions k = some auction) (refunded : auction.status = .Refunded)
    (t z : Address) : netEffect h g actions k t z =
      if auction.lotReclaimed then 0 else (lotIn h auction).effect t z := by
  obtain ⟨before, signers, after, s', rfl, he⟩ := refunded_by ha refunded
  obtain ⟨a, hsome, -, hnet⟩ := netEffect_refunded hx he after
  rw [ha] at hsome
  cases hsome
  exact hnet t z

end SealedStellar
