import SealedStellar.IndexerReads

/-! web/src/lib/chain.ts: the page's reads of auctions over the RPC server, and the list that the
page falls back to. -/
namespace SealedStellar.Web
open Checked Indexer

structure BidView where
  bidder : String
  commitment : ℕ
  deriving DecidableEq

structure AuctionView where
  id : ℕ
  seller : String
  rwaToken : String
  lotAmount : ℤ
  paymentToken : String
  maxPrice : ℤ
  commitDeadlineSeconds : ℕ
  gracePeriodSeconds : ℕ
  status : AuctionStatus
  bids : List BidView
  lotReclaimed : Bool
  operatorEncPubkey : List UInt8
  whitelistRoot : ℕ
  lotSymbol : String
  paymentSymbol : String
  deriving DecidableEq

inductive AuctionTone where
  | open | awaiting | settled | refunded
  deriving DecidableEq

def deriveAuctionTone (view : AuctionView) (nowSeconds : ℕ) : AuctionTone :=
  match view.status with
  | .Settled => .settled
  | .Refunded => .refunded
  | .Open => if nowSeconds < view.commitDeadlineSeconds then .open else .awaiting

def countFilledSlots (view : AuctionView) : ℕ := min view.bids.length maxBidSlots

section Reads

def simulateContractView {α : Type} : Simulation α → Except ChainError α := simulateView

/-- An unknown value; none where isRawAuctionRecord finds another type. -/
structure Candidate where
  seller : Option String
  rwaToken : Option String
  lotAmount : Option ℤ
  paymentToken : Option String
  maxPrice : Option ℤ
  commitDeadline : Option ℕ
  gracePeriod : ℕ
  status : RawStatus
  bids : Option (List BidView)
  lotReclaimed : Bool
  operatorEncPubkey : List UInt8
  whitelistRoot : ℕ

structure RawAuctionRecord where
  seller : String
  rwaToken : String
  lotAmount : ℤ
  paymentToken : String
  maxPrice : ℤ
  commitDeadline : ℕ
  gracePeriod : ℕ
  status : RawStatus
  bids : List BidView
  lotReclaimed : Bool
  operatorEncPubkey : List UInt8
  whitelistRoot : ℕ

def isRawAuctionRecord (candidate : Candidate) : Option RawAuctionRecord := do
  let seller ← candidate.seller
  let rwaToken ← candidate.rwaToken
  let lotAmount ← candidate.lotAmount
  let paymentToken ← candidate.paymentToken
  let maxPrice ← candidate.maxPrice
  let commitDeadline ← candidate.commitDeadline
  let bids ← candidate.bids
  return ⟨seller, rwaToken, lotAmount, paymentToken, maxPrice, commitDeadline, candidate.gracePeriod,
    candidate.status, bids, candidate.lotReclaimed, candidate.operatorEncPubkey,
    candidate.whitelistRoot⟩

/-- String(statusText). -/
def statusText : RawStatus → String
  | .array names => names.head?.getD "undefined"
  | .text name => name

def decodeStatus (rawStatus : RawStatus) : Except ChainError AuctionStatus :=
  okOr (Indexer.decodeStatus rawStatus)
    (.decode_failed ("unknown auction status: " ++ statusText rawStatus))

/-- What the server answers to the views at one moment; a symbol that is not a string is none. -/
structure ChainView where
  auction : ℕ → Simulation Candidate
  symbol : String → Simulation (Option String)

def ChainView.tokens (view : ChainView) : Indexer.ChainView := ⟨fun _ => .noResult, view.symbol⟩

variable (view : ChainView)

def getTokenSymbol (cache : String → Option String) (tokenContractId : String) :
    Except ChainError String × (String → Option String) :=
  Indexer.getTokenSymbol view.tokens cache tokenContractId

def readRecord (auctionId : ℕ) : Except ChainError (RawAuctionRecord × AuctionStatus) := do
  let candidate ← simulateContractView (view.auction auctionId)
  let rawRecord ← okOr (isRawAuctionRecord candidate)
    (.decode_failed "auction record shape mismatch")
  let status ← decodeStatus rawRecord.status
  return (rawRecord, status)

def viewOf (auctionId : ℕ) (rawRecord : RawAuctionRecord) (status : AuctionStatus)
    (lotSymbol paymentSymbol : String) : AuctionView where
  id := auctionId
  seller := rawRecord.seller
  rwaToken := rawRecord.rwaToken
  lotAmount := rawRecord.lotAmount
  paymentToken := rawRecord.paymentToken
  maxPrice := rawRecord.maxPrice
  commitDeadlineSeconds := rawRecord.commitDeadline
  gracePeriodSeconds := rawRecord.gracePeriod
  status := status
  bids := rawRecord.bids
  lotReclaimed := rawRecord.lotReclaimed
  operatorEncPubkey := rawRecord.operatorEncPubkey
  whitelistRoot := rawRecord.whitelistRoot
  lotSymbol := lotSymbol
  paymentSymbol := paymentSymbol

def getAuction (cache : String → Option String) (auctionId : ℕ) :
    Except ChainError AuctionView × (String → Option String) :=
  match readRecord view auctionId with
  | .error e => (.error e, cache)
  | .ok (rawRecord, status) =>
    match getTokenSymbol view cache rawRecord.rwaToken with
    | (.error e, cache) => (.error e, cache)
    | (.ok lotSymbol, cache) =>
      match getTokenSymbol view cache rawRecord.paymentToken with
      | (.error e, cache) => (.error e, cache)
      | (.ok paymentSymbol, cache) =>
        (.ok (viewOf auctionId rawRecord status lotSymbol paymentSymbol), cache)

def maxAuctionProbes : ℕ := 50

def probe : List ℕ → List AuctionView → (String → Option String) →
    Except ChainError (List AuctionView)
  | [], collected, _ => .ok collected
  | auctionId :: rest, collected, cache =>
    match getAuction view cache auctionId with
    | (.ok fetched, cache) => probe rest (collected ++ [fetched]) cache
    | (.error (.contract_error _), _) => .ok collected
    | (.error e, _) => .error e

def listAuctions (cache : String → Option String) : Except ChainError (List AuctionView) :=
  probe view (List.range' 1 maxAuctionProbes) [] cache

end Reads

end SealedStellar.Web
