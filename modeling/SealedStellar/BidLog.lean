import SealedStellar.Lifecycle

/-! The BidPlaced events of one auction, and that they repeat what its record stores. -/
namespace SealedStellar
open Checked
variable {W : Type} {h : Host W}

structure BidRecord where
  ledger : ℕ
  slotIndex : ℕ
  bidder : Address
  commitment : U256
  encryptedBid : List UInt8
  deriving DecidableEq

def bidRecord (k : ℕ) : ℕ × Event → Option BidRecord
  | (ledger, .BidPlaced auctionId slotIndex bidder commitment encryptedBid) =>
    if auctionId = k then some ⟨ledger, slotIndex, bidder, commitment, encryptedBid⟩ else none
  | _ => none

def bidLog (s : State W) (k : ℕ) : List BidRecord := s.events.filterMap (bidRecord k)

def BidRecord.stored (r : BidRecord) : Bid × ℕ := (⟨r.bidder, r.commitment⟩, r.slotIndex)

theorem bidLog_publish (s : State W) (e : Event) (k : ℕ) :
    bidLog (s.publish e) k = bidLog s k ++ (bidRecord k (s.sequence, e)).toList := by
  rw [bidLog, State.publish, List.filterMap_append, bidLog]
  cases hr : bidRecord k (s.sequence, e) <;> simp [hr]

theorem bidLog_publish_other {s : State W} {e : Event} {k : ℕ}
    (he : ∀ ledger, bidRecord k (ledger, e) = none) : bidLog (s.publish e) k = bidLog s k := by
  rw [bidLog_publish, he, Option.toList_none, List.append_nil]

theorem transfer_bidLog {m : TokenMove} {s s' : State W} (ht : transfer h m s = .ok s') (k : ℕ) :
    bidLog s' k = bidLog s k := by
  obtain ⟨w, -, rfl⟩ := (transfer_eq_ok h).mp ht
  rfl

theorem payAll_bidLog {moves : List TokenMove} {s s' : State W} (hp : payAll h moves s = .ok s')
    (k : ℕ) : bidLog s' k = bidLog s k := by
  obtain ⟨w, acts, -, rfl⟩ := payAll_paid hp
  rfl

theorem lotLeg_bidLog (auction : Auction) (auctionId : ℕ) (s : State W) (k : ℕ) :
    bidLog (lotLeg h auction auctionId s) k = bidLog s k := by
  rw [lotLeg]
  cases h.transfer s.tokens (lotTo h auction auction.seller) with
  | returned w => rfl
  | undecodable w => exact bidLog_publish_other fun _ => rfl
  | trapped => exact bidLog_publish_other fun _ => rfl

theorem placeBid_bidLog {signers : List Address} {auctionId : ℕ} {bidder : Address}
    {commitment : U256} {encryptedBid : List UInt8} {s s' : State W} {auction : Auction}
    (ha : s.auctions auctionId = some auction)
    (he : exec h signers (.placeBid auctionId bidder commitment encryptedBid) s = .ok s') (k : ℕ) :
    bidLog s' k = bidLog s k ++ if auctionId = k then
      [⟨s.sequence, auction.bids.length, bidder, commitment, encryptedBid⟩] else [] := by
  obtain ⟨-, auction', ha', -, -, -, -, -, -, s₁, ht, rfl⟩ :=
    (placeBid_eq_ok h signers auctionId bidder commitment encryptedBid s s').mp he
  rw [ha] at ha'
  cases ha'
  have hseq : s₁.sequence = s.sequence := by
    obtain ⟨w, -, rfl⟩ := (transfer_eq_ok h).mp ht
    rfl
  have hlog : bidLog (s₁.setAuction h auctionId (addBid auction ⟨bidder, commitment⟩)) k =
      bidLog s k := transfer_bidLog ht k
  rw [bidLog_publish, hlog]
  by_cases hk : auctionId = k
  · simp [bidRecord, hk, State.setAuction, hseq]
  · simp [bidRecord, hk]

theorem exec_bidLog {signers : List Address} {c : Call} {s s' : State W}
    (he : exec h signers c s = .ok s')
    (hc : ∀ auctionId bidder commitment encryptedBid,
      c ≠ .placeBid auctionId bidder commitment encryptedBid) (k : ℕ) :
    bidLog s' k = bidLog s k := by
  cases c with
  | createAuction args =>
    obtain ⟨-, -, -, -, -, -, -, s₁, ht, rfl, -⟩ :=
      (createAuction_eq_ok h signers args s s' _).mp (exec_createAuction.mp he)
    have hlog := transfer_bidLog ht k
    rw [bidLog_publish_other fun _ => rfl]
    exact hlog
  | placeBid auctionId bidder commitment encryptedBid => exact absurd rfl (hc _ _ _ _)
  | settle auctionId i price winner proof =>
    obtain ⟨auction, -, -, -, -, -, -, bid, -, -, verifier, -, -, s₁, hp, rfl⟩ :=
      (settle_eq_ok h auctionId i price winner proof s s').mp he
    have hlog := payAll_bidLog hp k
    rw [bidLog_publish_other fun _ => rfl]
    exact hlog
  | refundAll auctionId =>
    obtain ⟨auction, -, -, -, s₁, hp, rfl⟩ := (refundAll_eq_ok h auctionId s s').mp he
    have hlog := payAll_bidLog hp k
    rw [bidLog_publish_other fun _ => rfl, lotLeg_bidLog]
    exact hlog
  | reclaimLot auctionId =>
    obtain ⟨auction, -, -, -, s₁, ht, rfl⟩ := (reclaimLot_eq_ok h auctionId s s').mp he
    have hlog := transfer_bidLog ht k
    rw [bidLog_publish_other fun _ => rfl]
    exact hlog

/-- One step either leaves the bid log of auction k alone or appends the bid it accepted. -/
theorem step_bidLog (k : ℕ) {s : State W} (a : Action W) :
    bidLog (step h s a) k = bidLog s k ∨
      ∃ signers bidder commitment encryptedBid auction,
        a = .call signers (.placeBid k bidder commitment encryptedBid) ∧
        exec h signers (.placeBid k bidder commitment encryptedBid) s = .ok (step h s a) ∧
        s.auctions k = some auction ∧ bidLog (step h s a) k = bidLog s k ++
          [⟨s.sequence, auction.bids.length, bidder, commitment, encryptedBid⟩] := by
  cases a with
  | call signers c =>
    cases he : exec h signers c s with
    | error e =>
      left
      rw [step_call_error he]
    | ok s' =>
      rw [step_call_ok he]
      by_cases hc : ∃ auctionId bidder commitment encryptedBid,
          c = .placeBid auctionId bidder commitment encryptedBid
      · obtain ⟨auctionId, bidder, commitment, encryptedBid, rfl⟩ := hc
        obtain ⟨auction, ha, -⟩ := placeBid_progress he
        have hlog := placeBid_bidLog ha he k
        by_cases hk : auctionId = k
        · subst hk
          rw [if_pos rfl] at hlog
          exact .inr ⟨signers, bidder, commitment, encryptedBid, auction, rfl, he, ha, hlog⟩
        · rw [if_neg hk, List.append_nil] at hlog
          exact .inl hlog
      · left
        exact exec_bidLog he (fun i b c e hce => hc ⟨i, b, c, e, hce⟩) k
  | closeLedger timestamp sequence =>
    left
    rw [step]
    split <;> rfl
  | outside tokens => exact .inl rfl

def Logged (s : State W) : Prop :=
  ∀ k, (bidLog s k).map BidRecord.stored = (storedBids s k).zipIdx

theorem Logged.auction {s : State W} (hl : Logged s) {k : ℕ} {r : BidRecord}
    (hr : r ∈ bidLog s k) : ∃ auction, s.auctions k = some auction := by
  have hk := hl k
  cases ha : s.auctions k with
  | some auction => exact ⟨auction, rfl⟩
  | none =>
    rw [storedBids, ha] at hk
    have hempty : bidLog s k = [] := List.map_eq_nil_iff.mp hk
    rw [hempty] at hr
    exact absurd hr List.not_mem_nil

theorem logged_step (s : State W) (a : Action W) (hP : s.Valid ∧ Logged s) :
    (step h s a).Valid ∧ Logged (step h s a) := by
  refine ⟨step_valid s a hP.1, fun k => ?_⟩
  have hk := hP.2 k
  cases step_bidLog (h := h) k a with
  | inl hlog =>
    cases step_bids (h := h) k a hP.1 with
    | inl hbids => rw [hlog, hbids, hk]
    | inr hbids =>
      obtain ⟨signers, bidder, commitment, encryptedBid, auction, rfl, he, ha, -⟩ := hbids
      have hgrown := placeBid_bidLog ha he k
      rw [hlog, if_pos rfl] at hgrown
      exact absurd hgrown (by simp)
  | inr hlog =>
    obtain ⟨signers, bidder, commitment, encryptedBid, auction, rfl, he, ha, hlog⟩ := hlog
    obtain ⟨auction', ha', hp⟩ := placeBid_progress he
    rw [ha] at ha'
    cases ha'
    have hstored : storedBids (step h s (.call signers (.placeBid k bidder commitment
        encryptedBid))) k = auction.bids ++ [⟨bidder, commitment⟩] :=
      storedBids_some hp.auction_at
    rw [hlog, List.map_append, hk, hstored, storedBids_some ha, List.zipIdx_append]
    simp [BidRecord.stored]

theorem genesis_logged (g : Genesis W) : Logged (g.state h) := fun _ => rfl

theorem bidLog_stored (g : Genesis W) (actions : List (Action W)) (k : ℕ) :
    (bidLog (runFrom h g actions) k).map BidRecord.stored =
      (storedBids (runFrom h g actions) k).zipIdx :=
  (Runs.run_invariant' logged_step ⟨genesis_valid g, genesis_logged g⟩ actions).2 k

end SealedStellar
