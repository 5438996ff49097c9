import SealedStellar.AuctionApi
import SealedStellar.WebChain
import Mathlib.Data.List.Sort

/-! web/src/lib/auctions-list-view.ts and indexer.ts: one list view, read as a filter and a sort of
the auctions on chain, and as a query of the indexer. -/
namespace SealedStellar.Web
open Indexer

inductive AuctionSegment where
  | all | live | closing | awaiting | settled | yours
  deriving DecidableEq

inductive AuctionSort where
  | closing | newest | bids
  deriving DecidableEq

structure AuctionsListView where
  segment : AuctionSegment
  search : String
  assetSymbol : Option String
  sort : AuctionSort

/-- A clearing price that is not known is none. -/
structure AuctionListItem where
  view : AuctionView
  clearingPrice : Option ℤ
  deriving DecidableEq

section Selection
variable (toLowerCase : String → String)

def closingSoonThresholdSeconds : ℕ := 3600

def toneOrder : AuctionTone → ℤ
  | .open => 0
  | .awaiting => 1
  | .settled => 2
  | .refunded => 3

def isClosingSoon (view : AuctionView) (nowSeconds : ℕ) : Bool :=
  deriveAuctionTone view nowSeconds = .open ∧
    (view.commitDeadlineSeconds : ℤ) - nowSeconds ≤ closingSoonThresholdSeconds

def matchesSegment (view : AuctionView) (segment : AuctionSegment) (nowSeconds : ℕ)
    (connectedAddress : Option String) : Bool :=
  let tone := deriveAuctionTone view nowSeconds
  match segment with
  | .all => true
  | .live => tone = .open
  | .closing => isClosingSoon view nowSeconds
  | .awaiting => tone = .awaiting
  | .settled => tone = .settled ∨ tone = .refunded
  | .yours =>
    match connectedAddress with
    | none => false
    | some address => view.bids.any fun bid => bid.bidder = address

def includes (text part : String) : Bool := decide (part.toList <:+: text.toList)

def matchesSearch (view : AuctionView) (query : String) : Bool :=
  let trimmedQuery := toLowerCase (trim query)
  trimmedQuery = "" ∨ toString view.id = trimmedQuery ∨
    includes (toLowerCase view.lotSymbol) trimmedQuery ∨
    includes (toLowerCase view.paymentSymbol) trimmedQuery

def matchesAssetChip (view : AuctionView) (assetSymbol : Option String) : Bool :=
  match assetSymbol with
  | none => true
  | some symbol =>
    let target := toLowerCase symbol
    toLowerCase view.lotSymbol = target ∨ toLowerCase view.paymentSymbol = target

def compareForSort (sort : AuctionSort) (nowSeconds : ℕ) (firstAuction secondAuction : AuctionView) :
    ℤ :=
  match sort with
  | .newest => (secondAuction.id : ℤ) - firstAuction.id
  | .bids =>
    let slotDelta := (countFilledSlots secondAuction : ℤ) - countFilledSlots firstAuction
    if slotDelta ≠ 0 then slotDelta else (secondAuction.id : ℤ) - firstAuction.id
  | .closing =>
    let firstTone := deriveAuctionTone firstAuction nowSeconds
    let secondTone := deriveAuctionTone secondAuction nowSeconds
    if firstTone ≠ secondTone then toneOrder firstTone - toneOrder secondTone
    else if firstTone = .open then
      (firstAuction.commitDeadlineSeconds : ℤ) - secondAuction.commitDeadlineSeconds
    else (secondAuction.id : ℤ) - firstAuction.id

def selectVisibleAuctions (auctions : List AuctionView) (view : AuctionsListView) (nowSeconds : ℕ)
    (connectedAddress : Option String) : List AuctionView :=
  let filtered := auctions.filter fun auction =>
    matchesSegment auction view.segment nowSeconds connectedAddress &&
      matchesSearch toLowerCase auction view.search &&
        matchesAssetChip toLowerCase auction view.assetSymbol
  filtered.insertionSort fun a b => compareForSort view.sort nowSeconds a b ≤ 0

end Selection

section Query

def segmentStatus : AuctionSegment → List AuctionStatus
  | .all => []
  | .live => [.Open]
  | .closing => [.Open]
  | .awaiting => [.Open]
  | .settled => [.Settled, .Refunded]
  | .yours => []

def mapSort : AuctionSort → String
  | .newest => "newest"
  | .bids => "mostBids"
  | .closing => "closingSoonest"

def buildAuctionQuery (view : AuctionsListView) (connectedAddress cursor : Option String)
    (limit : ℕ) : QueryString :=
  (segmentStatus view.segment).map (fun status => ("status", statusName status)) ++
  (if trim view.search ≠ "" then [("search", trim view.search)] else []) ++
  (view.assetSymbol.map fun symbol => ("assetSymbol", symbol)).toList ++
  (if view.segment = .yours then (connectedAddress.map fun address => ("bidder", address)).toList
    else []) ++
  [("sort", mapSort view.sort), ("limit", toString limit)] ++
  (cursor.map fun rawCursor => ("cursor", rawCursor)).toList

def parseBigIntOrZero (text : String) : ℤ := (BigIntText.parse text).getD 0

def parseClearingPrice (rawValue : Option String) : Option ℤ := rawValue.bind BigIntText.parse

def placeholderBids (filledSlots : ℕ) : List BidView := List.replicate filledSlots ⟨"", 0⟩

def rowToView (row : AuctionListRow) : AuctionView where
  id := row.id
  seller := row.seller
  rwaToken := row.rwaToken
  lotAmount := parseBigIntOrZero row.lotAmount
  paymentToken := row.paymentToken
  maxPrice := parseBigIntOrZero row.maxPrice
  commitDeadlineSeconds := row.commitDeadlineSeconds
  gracePeriodSeconds := row.gracePeriodSeconds
  status := row.status
  bids := placeholderBids row.filledSlots
  lotReclaimed := row.lotReclaimed
  operatorEncPubkey := []
  whitelistRoot := 0
  lotSymbol := row.lotSymbol
  paymentSymbol := row.paymentSymbol

structure IndexerPage where
  items : List AuctionListItem
  nextCursor : Option String
  totalCount : ℕ

def toIndexerPage (page : AuctionPage) : IndexerPage where
  items := page.rows.map fun row => ⟨rowToView row, parseClearingPrice row.clearingPrice⟩
  nextCursor := page.nextCursor
  totalCount := page.totalCount

variable (strKey : StrKey) (toLowerCase : String → String) (store : AuctionStore)

def fetchAuctionPage (query : QueryString) : Except String IndexerPage :=
  (getAuctions strKey toLowerCase store query).map toIndexerPage

inductive Pages (view : AuctionsListView) (connectedAddress : Option String) (limit : ℕ) :
    Option String → List IndexerPage → Prop
  | last {cursor : Option String} {page : IndexerPage}
      (fetched : fetchAuctionPage strKey toLowerCase store
        (buildAuctionQuery view connectedAddress cursor limit) = .ok page)
      (final : page.nextCursor = none) : Pages view connectedAddress limit cursor [page]
  | more {cursor : Option String} {page : IndexerPage} {rawCursor : String}
      {pages : List IndexerPage}
      (fetched : fetchAuctionPage strKey toLowerCase store
        (buildAuctionQuery view connectedAddress cursor limit) = .ok page)
      (continued : page.nextCursor = some rawCursor)
      (rest : Pages view connectedAddress limit (some rawCursor) pages) :
      Pages view connectedAddress limit cursor (page :: pages)

end Query

end SealedStellar.Web
