import SealedStellar.Ingest
import SealedStellar.AuctionLog

/-! The contract as the indexer meets it: its records and events as values, and what applying each
event does. -/
namespace SealedStellar.Indexer
open Checked
variable (strKey : StrKey)

section Values

def rawBids (bids : List Bid) : List String := bids.map fun bid => strKey.encode bid.bidder

def rawAuctionRecord (auction : Auction) : RawAuctionRecord where
  seller := some (strKey.encode auction.seller)
  rwaToken := some (strKey.encode auction.rwaToken)
  lotAmount := some auction.lotAmount
  paymentToken := some (strKey.encode auction.paymentToken)
  maxPrice := some auction.maxPrice
  commitDeadline := some auction.commitDeadline
  gracePeriod := auction.gracePeriod
  status := .array [statusName auction.status]
  bids := some (rawBids strKey auction.bids)
  lotReclaimed := auction.lotReclaimed

def Event.data : Event → String × List (String × Native)
  | .AuctionCreated _ seller maxPrice commitDeadline =>
    ("auction_created", [("commit_deadline", .bigint commitDeadline),
      ("max_price", .bigint maxPrice), ("seller", .text (strKey.encode seller))])
  | .BidPlaced _ slotIndex bidder commitment _ =>
    ("bid_placed", [("bidder", .text (strKey.encode bidder)),
      ("commitment", .bigint commitment.toNat), ("encrypted_bid", .other),
      ("slot_index", .number slotIndex)])
  | .AuctionSettled _ winner winningPrice =>
    ("auction_settled", [("winner", .text (strKey.encode winner)),
      ("winning_price", .bigint winningPrice)])
  | .AuctionRefunded _ refundedBids =>
    ("auction_refunded", [("refunded_bids", .number refundedBids)])
  | .LotReturnFailed _ seller lotAmount =>
    ("lot_return_failed", [("lot_amount", .bigint lotAmount),
      ("seller", .text (strKey.encode seller))])
  | .LotReclaimed _ seller lotAmount =>
    ("lot_reclaimed", [("lot_amount", .bigint lotAmount), ("seller", .text (strKey.encode seller))])

variable (txHash : ℕ × Event → Option String)

def rawEvent (e : ℕ × Event) : RawEvent where
  topic := [.text (Event.data strKey e.2).1, .bigint e.2.auctionId]
  value := some (Event.data strKey e.2).2
  txHash := txHash e

def indexedEvent (e : ℕ × Event) : IndexedEvent where
  name := (Event.data strKey e.2).1
  auctionId := e.2.auctionId
  payload := (Event.data strKey e.2).2
  txHash := txHash e

variable {strKey txHash}

theorem toIndexedEvent_rawEvent {e : ℕ × Event} (hid : 1 ≤ e.2.auctionId) :
    toIndexedEvent (rawEvent strKey txHash e) = some (indexedEvent strKey txHash e) := by
  have hpos : (0 : ℤ) < e.2.auctionId := by omega
  simp only [toIndexedEvent, rawEvent, Native.toInteger, Option.bind_some, if_pos hpos,
    Int.toNat_natCast, indexedEvent]

theorem decode_events {page : List (ℕ × Event)} (hid : ∀ e ∈ page, 1 ≤ e.2.auctionId) :
    (page.map (rawEvent strKey txHash)).filterMap toIndexedEvent =
      page.map (indexedEvent strKey txHash) := by
  rw [List.filterMap_map, ← List.filterMap_eq_map]
  exact List.filterMap_congr fun e he => toIndexedEvent_rawEvent (hid e he)

end Values

section Effects
variable {strKey} {txHash : ℕ × Event → Option String} (view : ChainView) (ix : IndexerState)

theorem decodeStatus_array (status : AuctionStatus) :
    decodeStatus (.array [statusName status]) = some status := by cases status <;> decide

def decodedAuction (strKey : StrKey) (auction : Auction) : DecodedAuction where
  seller := strKey.encode auction.seller
  rwaToken := strKey.encode auction.rwaToken
  lotAmount := toString auction.lotAmount
  paymentToken := strKey.encode auction.paymentToken
  maxPrice := toString auction.maxPrice
  commitDeadlineSeconds := auction.commitDeadline
  gracePeriodSeconds := auction.gracePeriod
  status := auction.status
  bids := (rawBids strKey auction.bids).zipIdx.map fun slot => ⟨slot.2, slot.1⟩
  lotReclaimed := auction.lotReclaimed

theorem decodeAuction_raw (auction : Auction) :
    decodeAuction (rawAuctionRecord strKey auction) = .ok (decodedAuction strKey auction) := by
  simp only [decodeAuction, rawAuctionRecord, okOr, decodeStatus_array]
  rfl

theorem applyEvent_indexed (e : ℕ × Event) :
    applyEvent view ix (indexedEvent strKey txHash e) =
      match e.2 with
      | .AuctionCreated k _ _ _ =>
        if ix.store.hasAuction k then ix else (enrichAndUpsert view k ix).2
      | .BidPlaced k slotIndex bidder _ _ =>
        { ix with store := ix.store.recordBid k slotIndex (strKey.encode bidder) }
      | .AuctionSettled k winner winningPrice =>
        let clearingPrice := toString winningPrice
        { ix with store :=
            ix.store.markSettled k clearingPrice (strKey.encode winner) (txHash e) }
      | .AuctionRefunded k _ => { ix with store := ix.store.markRefunded k }
      | .LotReturnFailed k _ _ => { ix with store := ix.store.setLotReclaimed k false }
      | .LotReclaimed k _ _ => { ix with store := ix.store.setLotReclaimed k true } := by
  obtain ⟨ledger, e⟩ := e
  cases e <;> rfl

end Effects

end SealedStellar.Indexer
