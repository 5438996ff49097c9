import SealedStellar.IndexerChain

/-! indexer/src/ingest.ts: the backfill over the ids and the loop that follows the events. -/
namespace SealedStellar.Indexer

def auctionNotFoundCode : ℕ := 1
def eventLookbackLedgers : ℕ := 100000

structure IndexerState where
  store : AuctionStore
  tokenSymbolCache : String → Option String

inductive Outcome where
  | indexed | not_found | skipped
  deriving DecidableEq

def auctionCore (auctionId : ℕ) (auction : DecodedAuction) (lotSymbol paymentSymbol : String) :
    AuctionCore where
  id := auctionId
  seller := auction.seller
  rwaToken := auction.rwaToken
  lotSymbol := lotSymbol
  lotAmount := auction.lotAmount
  paymentToken := auction.paymentToken
  paymentSymbol := paymentSymbol
  maxPrice := auction.maxPrice
  commitDeadlineSeconds := auction.commitDeadlineSeconds
  gracePeriodSeconds := auction.gracePeriodSeconds
  status := auction.status
  lotReclaimed := auction.lotReclaimed

def recordBids (bids : List DecodedBid) (auctionId : ℕ) (store : AuctionStore) : AuctionStore :=
  bids.foldl (fun store bid => store.recordBid auctionId bid.slotIndex bid.bidder) store

def indexAuction (auctionId : ℕ) (auction : DecodedAuction) (lotSymbol paymentSymbol : String)
    (store : AuctionStore) : AuctionStore :=
  recordBids auction.bids auctionId
    (store.upsertCore (auctionCore auctionId auction lotSymbol paymentSymbol))

def enrichAndUpsert (view : ChainView) (auctionId : ℕ) (ix : IndexerState) :
    Outcome × IndexerState :=
  match getAuction view auctionId with
  | .error e => (if e = .contract_error auctionNotFoundCode then .not_found else .skipped, ix)
  | .ok auction =>
    let lotSymbolResult := getTokenSymbol view ix.tokenSymbolCache auction.rwaToken
    let paymentSymbolResult := getTokenSymbol view lotSymbolResult.2 auction.paymentToken
    match lotSymbolResult.1, paymentSymbolResult.1 with
    | .ok lotSymbol, .ok paymentSymbol =>
      (.indexed,
        { store := indexAuction auctionId auction lotSymbol paymentSymbol ix.store
          tokenSymbolCache := paymentSymbolResult.2 })
    | _, _ => (.skipped, { ix with tokenSymbolCache := paymentSymbolResult.2 })

def backfillFrom (views : ℕ → ChainView) : ℕ → ℕ → IndexerState → IndexerState
  | 0, _, ix => ix
  | n + 1, auctionId, ix =>
    match enrichAndUpsert (views auctionId) auctionId ix with
    | (.not_found, ix) => ix
    | (_, ix) => backfillFrom views n (auctionId + 1) ix

def backfill (backfillMaxId : ℕ) (views : ℕ → ChainView) (ix : IndexerState) : IndexerState :=
  backfillFrom views backfillMaxId 1 ix

def applyEvent (view : ChainView) (ix : IndexerState) (event : IndexedEvent) : IndexerState :=
  match event.name with
  | "auction_created" =>
    if ix.store.hasAuction event.auctionId then ix
    else (enrichAndUpsert view event.auctionId ix).2
  | "bid_placed" =>
    match event.payload.lookup "bidder", event.payload.lookup "slot_index" with
    | some (.text bidder), some (.bigint slotIndex)
    | some (.text bidder), some (.number slotIndex) =>
      { ix with store := ix.store.recordBid event.auctionId slotIndex bidder }
    | _, _ => ix
  | "auction_settled" =>
    match event.payload.lookup "winner", event.payload.lookup "winning_price" with
    | some (.text winner), some (.bigint winningPrice) =>
      let clearingPrice := toString winningPrice
      { ix with store := ix.store.markSettled event.auctionId clearingPrice winner event.txHash }
    | _, _ => ix
  | "auction_refunded" => { ix with store := ix.store.markRefunded event.auctionId }
  | "lot_return_failed" => { ix with store := ix.store.setLotReclaimed event.auctionId false }
  | "lot_reclaimed" => { ix with store := ix.store.setLotReclaimed event.auctionId true }
  | _ => ix

structure Applied where
  view : ChainView
  event : IndexedEvent

def applyEvents (ix : IndexerState) (applied : List Applied) : IndexerState :=
  applied.foldl (fun ix a => applyEvent a.view ix a.event) ix

/-- The answers that one call of syncEvents meets: to getLatestLedger, to getEvents by page, and
to the views while the i-th event is applied. -/
structure Tick where
  latest : Except ChainError ℕ
  server : EventsServer
  views : ℕ → ChainView

def startLedger (ix : IndexerState) (latest : ℕ) : ℕ :=
  ix.store.getCursor.lastLedger.getD (max 1 (latest - eventLookbackLedgers))

def Tick.fetched (tick : Tick) (ix : IndexerState) : Except ChainError Fetched := do
  let latest ← tick.latest
  fetchContractEvents tick.server (startLedger ix latest)

def Tick.applied (tick : Tick) (fetched : Fetched) : List Applied :=
  fetched.events.zipIdx.map fun e => ⟨tick.views e.2, e.1⟩

def syncEvents (ix : IndexerState) (tick : Tick) : IndexerState :=
  match tick.fetched ix with
  | .error _ => ix
  | .ok fetched =>
    let ix := applyEvents ix (tick.applied fetched)
    { ix with store := ix.store.setCursor (some fetched.latestLedger) none }

def startIngestion (backfillMaxId : ℕ) (views : ℕ → ChainView) (ticks : List Tick)
    (ix : IndexerState) : IndexerState :=
  ticks.foldl syncEvents (backfill backfillMaxId views ix)

end SealedStellar.Indexer
