import SealedStellar.TruthfulBidding
import SealedStellar.LifecycleInvariant

/-! Bids whose commitment nobody can open for their auction: any bidder can place one, and from
then on the auction has no settlement, only the refund. -/
namespace SealedStellar
open TokenFlow
variable {W : Type} (h : Host W)

structure Unopenable (Known : List Fr → Prop) (k : ℕ) (c : U256) : Prop where
  marker : toFr c ≠ 0
  unopened : ∀ p r, ¬ KnownOpening h Known k c p r

variable {h} {Known : List Fr → Prop} {k : ℕ}

theorem KnownOutcome.all_openable {auction : Auction} {i : ℕ} {price : ℤ} {prices : Fin 8 → ℕ}
    {salts : Fin 8 → Fr} (hslots : auction.bids.length ≤ maxBidSlots)
    (ht : KnownOutcome h Known auction k i price prices salts) {bid : Bid} (hbid : bid ∈ auction.bids) :
    ¬ Unopenable h Known k bid.commitment := by
  intro hbad
  obtain ⟨p, r, hopens⟩ := ht.bid_opens hslots hbid hbad.marker
  exact hbad.unopened p r hopens

section Blocked
variable {g : Genesis W} {before : List (Action W)} {auction : Auction} {bid : Bid}

theorem bid_kept (ha : (runFrom h g before).auctions k = some auction) (hbid : bid ∈ auction.bids)
    (after : List (Action W)) {auction' : Auction}
    (ha' : (runFrom h g (before ++ after)).auctions k = some auction') : bid ∈ auction'.bids := by
  obtain ⟨current, hsome, hlead⟩ := (followed_run g before after ha).record
  rw [ha'] at hsome
  cases hsome
  exact hlead.bids.subset hbid

theorem unopenable_never_settles (hsound : KnowledgeSound h Known g.verifier)
    (ha : (runFrom h g before).auctions k = some auction) (hbid : bid ∈ auction.bids)
    (hbad : Unopenable h Known k bid.commitment) (after : List (Action W)) (signers : List Address)
    (i : ℕ) (price : ℤ) (winner : Address) (proof : VerifierProof) (s' : State W) :
    exec h signers (.settle k i price winner proof) (runFrom h g (before ++ after)) ≠ .ok s' := by
  intro he
  obtain ⟨auction', ha', -, prices, salts, ht⟩ := settle_knownOutcome hsound he
  have hslots := ((runFrom_valid (h := h) g (before ++ after)).stored k auction' ha').2.2.slots
  exact ht.all_openable hslots (bid_kept ha hbid after ha') hbad

theorem settled_bid_opens (hsound : KnowledgeSound h Known g.verifier)
    (ha : (runFrom h g before).auctions k = some auction) (settled : auction.status = .Settled)
    (hbid : bid ∈ auction.bids) (hmarker : toFr bid.commitment ≠ 0) :
    ∃ p r, KnownOpening h Known k bid.commitment p r := by
  obtain ⟨-, -, i, price, -, -, old, -, -, -, -, -, rfl, -, prices, salts, ht⟩ :=
    settled_outcome hsound ha settled
  have hslots := ((runFrom_valid (h := h) g before).stored k _ ha).2.2.slots
  exact (ht.closed .Settled).bid_opens hslots hbid hmarker

theorem unopenable_never_settled (hsound : KnowledgeSound h Known g.verifier)
    (ha : (runFrom h g before).auctions k = some auction) (hbid : bid ∈ auction.bids)
    (hbad : Unopenable h Known k bid.commitment) (after : List (Action W)) {auction' : Auction}
    (ha' : (runFrom h g (before ++ after)).auctions k = some auction') :
    auction'.status ≠ .Settled := by
  intro settled
  obtain ⟨p, r, hopens⟩ := settled_bid_opens hsound ha' settled (bid_kept ha hbid after ha') hbad.marker
  exact hbad.unopened p r hopens

end Blocked

/-- Anyone who can pay the deposit can end the sale: the bid is accepted without an opening, no
later call settles the auction, and once it is closed it is refunded: nobody but its seller and the
contract is left with more or less of exact tokens. -/
theorem unopenable_bid_ends_sale (h : Host W) (Known : List Fr → Prop) (g : Genesis W)
    (hsound : KnowledgeSound h Known g.verifier) (k : ℕ) (before : List (Action W)) (auction : Auction)
    (ha : (runFrom h g before).auctions k = some auction) (isOpen : auction.status = .Open)
    (early : (runFrom h g before).timestamp < auction.commitDeadline)
    (room : auction.bids.length < maxBidSlots) (c : U256) (hbad : Unopenable h Known k c)
    (fresh : ∀ b ∈ auction.bids, b.commitment ≠ c) (encryptedBid : List UInt8)
    (hsize : encryptedBid.length ≤ maxEncryptedBidBytes) (signers : List Address)
    (bidder : Address) (signed : bidder ∈ signers)
    (hpays : ∃ w, h.transfer (runFrom h g before).tokens
      ⟨auction.paymentToken, bidder, h.self, auction.maxPrice⟩ = .returned w) :
    (∃ s', exec h signers (.placeBid k bidder c encryptedBid) (runFrom h g before) = .ok s') ∧
    ∀ after, (∀ signers' i price winner proof s', exec h signers' (.settle k i price winner proof)
        (runFrom h g (before ++ .call signers (.placeBid k bidder c encryptedBid) :: after)) ≠
          .ok s') ∧
      ∀ auction', (runFrom h g
          (before ++ .call signers (.placeBid k bidder c encryptedBid) :: after)).auctions k =
            some auction' →
        auction'.status ≠ .Open → auction'.status = .Refunded ∧ (ExactTokens h →
          ∀ t z, auction'.seller ≠ z → h.self ≠ z → netEffect h g
            (before ++ .call signers (.placeBid k bidder c encryptedBid) :: after) k t z = 0) := by
  obtain ⟨w, hw⟩ := hpays
  have hnonzero : c ≠ 0 := by
    intro hc
    exact hbad.marker (by rw [hc]; rfl)
  have hplaced : placeBid h signers k bidder c encryptedBid (runFrom h g before) = .ok _ :=
    (placeBid_eq_ok h signers k bidder c encryptedBid _ _).mpr ⟨signed, auction, ha, isOpen, early,
      room, hnonzero, fresh, hsize, _, (transfer_eq_ok h).mpr ⟨w, hw, rfl⟩, rfl⟩
  obtain ⟨s', he⟩ : ∃ s', exec h signers (.placeBid k bidder c encryptedBid) (runFrom h g before) =
    .ok s' := ⟨_, hplaced⟩
  refine ⟨⟨s', he⟩, fun after => ?_⟩
  have hrecord : (runFrom h g (before ++ [.call signers (.placeBid k bidder c encryptedBid)])).auctions
      k = some (addBid auction ⟨bidder, c⟩) := by
    obtain ⟨old, hold, hp⟩ := placeBid_progress he
    rw [ha] at hold
    cases hold
    rw [runFrom_append, Runs.run_cons, Runs.run_nil, step_call_ok he]
    exact hp.auction_at
  have hmem : (⟨bidder, c⟩ : Bid) ∈ (addBid auction ⟨bidder, c⟩).bids := by
    simp [addBid]
  have hsplit : before ++ .call signers (.placeBid k bidder c encryptedBid) :: after =
      (before ++ [.call signers (.placeBid k bidder c encryptedBid)]) ++ after := by
    simp
  rw [hsplit]
  refine ⟨fun signers' i price winner proof s'' =>
    unopenable_never_settles hsound hrecord hmem hbad after signers' i price winner proof s'', ?_⟩
  intro auction' ha' hclosed
  have hnever := unopenable_never_settled hsound hrecord hmem hbad after ha'
  cases hstatus : auction'.status with
  | Open => exact absurd hstatus hclosed
  | Settled => exact absurd hstatus hnever
  | Refunded =>
    refine ⟨rfl, fun hx t z hseller hself => ?_⟩
    rw [refunded_account hx ha' hstatus t z]
    simp [lotIn, Move.effect, hseller, hself]

/-- A second bidder commits to the number 2 ^ 64, whatever that is the hash of. -/
theorem unopenable_bid_ends_sale_at :
    let before := (fixtureRun 1 0 3100 (.account (keyOf 0x42))).take 2
    ∃ s', exec fixtureHost [.account (keyOf 0x20)]
      (.placeBid 1 (.account (keyOf 0x20)) 0x10000000000000000 [])
      (runFrom fixtureHost fixtureGenesis before) = .ok s' := by
  intro before
  have hbad : Unopenable fixtureHost FixtureKnown 1 0x10000000000000000 := by
    have hother : ∀ inputs ∈ fixtureOpenings.map Prod.fst,
        fixtureHash inputs ≠ toFr 0x10000000000000000 := by decide +kernel
    exact ⟨by decide +kernel, fun p r hopens => hother _ hopens.known hopens.hash⟩
  exact (unopenable_bid_ends_sale fixtureHost FixtureKnown fixtureGenesis (fixture_sound _) 1 before
    { fixtureAuction 1 with status := .Open, bids := [⟨.account (keyOf 0x42), fixtureSeal 1 1⟩] }
    (by decide +kernel) rfl (by decide) (by decide) 0x10000000000000000 hbad (by decide +kernel) []
    (by decide) [.account (keyOf 0x20)] (.account (keyOf 0x20)) (by decide) ⟨_, rfl⟩).1

/-- No commitment is honoured twice: the id of the auction is part of what is hashed, so a bid copied
from one settled auction to another would be a known collision. -/
theorem settled_bids_differ (h : Host W) (Known : List Fr → Prop) (hfree : CollisionFree h Known)
    (g : Genesis W) (hsound : KnowledgeSound h Known g.verifier) (actions : List (Action W)) (j k : ℕ)
    (hne : j ≠ k) (auction auction' : Auction) (ha : (runFrom h g actions).auctions j = some auction)
    (ha' : (runFrom h g actions).auctions k = some auction') (settled : auction.status = .Settled)
    (settled' : auction'.status = .Settled) (bid bid' : Bid) (hbid : bid ∈ auction.bids)
    (hbid' : bid' ∈ auction'.bids) (hmarker : toFr bid.commitment ≠ 0) :
    toFr bid.commitment ≠ toFr bid'.commitment := by
  intro hsame
  obtain ⟨p, r, hopens⟩ := settled_bid_opens hsound ha settled hbid hmarker
  obtain ⟨q, s, hopens'⟩ := settled_bid_opens hsound ha' settled' hbid' (by rwa [← hsame])
  have hinputs := hfree _ _ hopens.known hopens'.known
    (hopens.hash.trans (hsame.trans hopens'.hash.symm))
  have hid : (j : Fr) = (k : Fr) := by
    simp only [List.cons.injEq, and_true] at hinputs
    exact hinputs.2.2
  have hvalid := runFrom_valid (h := h) g actions
  obtain ⟨next, hnext, -, hroom⟩ := hvalid.counter
  obtain ⟨-, hj, -⟩ := hvalid.stored j auction ha
  obtain ⟨-, hk, -⟩ := hvalid.stored k auction' ha'
  have hfield : 2 ^ 64 < fieldOrder := by norm_num
  rw [hnext, Option.getD_some] at hj hk
  simp only [u64Max] at hroom
  exact hne (Circom.natCast_inj (p := fieldOrder) (by omega) (by omega) hid)

/-- One bidder seals 3500 with the same salt for two auctions, and both are settled. -/
theorem settled_bids_differ_at : toFr (fixtureSeal 1 1) ≠ toFr (fixtureSeal 2 1) := by
  let first := fixtureRun 1 0 3100 (.account (keyOf 0x42))
  let actions : List (Action SacState) := first ++ [.call [.account (keyOf 2)] (.createAuction
      ⟨.account (keyOf 2), .contract (keyOf 10), 100, .contract (keyOf 11), 5000, 20, 3, fixtureRoot,
        keyOf 9⟩),
    .call [.account (keyOf 0x42)] (.placeBid 2 (.account (keyOf 0x42)) (fixtureSeal 2 1) []),
    .call [.account (keyOf 0x20)] (.placeBid 2 (.account (keyOf 0x20)) (fixtureSeal 2 4) []),
    .closeLedger 20 4,
    .call [] (.settle 2 0 3100 (.account (keyOf 0x42))
      ⟨Vector.replicate 64 0, Vector.replicate 128 0, Vector.replicate 64 0⟩)]
  exact settled_bids_differ fixtureHost FixtureKnown fixture_collisionFree fixtureGenesis
    (fixture_sound _) actions 1 2 (by decide) (fixtureAuction 1)
    { fixtureAuction 1 with
      commitDeadline := 20,
      bids := [⟨.account (keyOf 0x42), fixtureSeal 2 1⟩, ⟨.account (keyOf 0x20), fixtureSeal 2 4⟩] }
    (by decide +kernel) (by decide +kernel) rfl rfl ⟨.account (keyOf 0x42), fixtureSeal 1 1⟩
    ⟨.account (keyOf 0x42), fixtureSeal 2 1⟩ (by decide +kernel) (by decide +kernel) (by decide +kernel)

end SealedStellar
