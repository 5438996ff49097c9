import SealedStellar.Auction
import SealedStellar.Lib.Base64Url
import SealedStellar.Lib.NumberText
import SealedStellar.Lib.Table
import Mathlib.Data.List.Sort
import Mathlib.Data.List.TakeWhile

/-! indexer/src/store.ts: the tables of the indexer, its writes, and the paged query. Numbers are
exact integers, and toLowerCase is JavaScript's. -/
namespace SealedStellar

structure AuctionCore where
  id : ℕ
  seller : String
  rwaToken : String
  lotSymbol : String
  lotAmount : String
  paymentToken : String
  paymentSymbol : String
  maxPrice : String
  commitDeadlineSeconds : ℕ
  gracePeriodSeconds : ℕ
  status : AuctionStatus
  lotReclaimed : Bool

structure AuctionDbRow where
  id : ℕ
  seller : String
  rwaToken : String
  lotSymbol : String
  lotAmount : String
  paymentToken : String
  paymentSymbol : String
  maxPrice : String
  commitDeadline : ℕ
  gracePeriod : ℕ
  status : String
  filledSlots : ℕ
  lotReclaimed : ℕ
  clearingPrice : Option String
  winner : Option String
  settleTx : Option String
  deriving DecidableEq

structure BidRow where
  auctionId : ℕ
  slotIndex : ℤ
  bidder : String
  deriving DecidableEq

/-- PRIMARY KEY (auction_id, slot_index). -/
def BidRow.key (r : BidRow) : ℕ × ℤ := (r.auctionId, r.slotIndex)

structure IngestCursor where
  lastLedger : Option ℕ
  lastCursor : Option String

structure AuctionStore where
  auctions : Table AuctionDbRow.id
  bids : Table BidRow.key
  ingestCursor : Option IngestCursor

structure AuctionListRow where
  id : ℕ
  seller : String
  rwaToken : String
  lotSymbol : String
  lotAmount : String
  paymentToken : String
  paymentSymbol : String
  maxPrice : String
  commitDeadlineSeconds : ℕ
  gracePeriodSeconds : ℕ
  status : AuctionStatus
  filledSlots : ℕ
  lotReclaimed : Bool
  clearingPrice : Option String
  winner : Option String
  settleTxHash : Option String
  deriving DecidableEq

def parseStatus (rawStatus : String) : AuctionStatus :=
  if rawStatus = "Settled" then .Settled
  else if rawStatus = "Refunded" then .Refunded
  else .Open

def toListRow (row : AuctionDbRow) : AuctionListRow where
  id := row.id
  seller := row.seller
  rwaToken := row.rwaToken
  lotSymbol := row.lotSymbol
  lotAmount := row.lotAmount
  paymentToken := row.paymentToken
  paymentSymbol := row.paymentSymbol
  maxPrice := row.maxPrice
  commitDeadlineSeconds := row.commitDeadline
  gracePeriodSeconds := row.gracePeriod
  status := parseStatus row.status
  filledSlots := row.filledSlots
  lotReclaimed := row.lotReclaimed == 1
  clearingPrice := row.clearingPrice
  winner := row.winner
  settleTxHash := row.settleTx

theorem parseStatus_statusName (status : AuctionStatus) :
    parseStatus (statusName status) = status := by cases status <;> decide

section Writes

def AuctionStore.empty : AuctionStore := ⟨.empty, .empty, none⟩

def AuctionCore.inserted (core : AuctionCore) : AuctionDbRow where
  id := core.id
  seller := core.seller
  rwaToken := core.rwaToken
  lotSymbol := core.lotSymbol
  lotAmount := core.lotAmount
  paymentToken := core.paymentToken
  paymentSymbol := core.paymentSymbol
  maxPrice := core.maxPrice
  commitDeadline := core.commitDeadlineSeconds
  gracePeriod := core.gracePeriodSeconds
  status := statusName core.status
  filledSlots := 0
  lotReclaimed := if core.lotReclaimed then 1 else 0
  clearingPrice := none
  winner := none
  settleTx := none

/-- ON CONFLICT(id) DO UPDATE: the count and the outcome of the row stay. -/
def AuctionCore.updated (core : AuctionCore) (row : AuctionDbRow) : AuctionDbRow where
  id := row.id
  seller := core.seller
  rwaToken := core.rwaToken
  lotSymbol := core.lotSymbol
  lotAmount := core.lotAmount
  paymentToken := core.paymentToken
  paymentSymbol := core.paymentSymbol
  maxPrice := core.maxPrice
  commitDeadline := core.commitDeadlineSeconds
  gracePeriod := core.gracePeriodSeconds
  status := statusName core.status
  filledSlots := row.filledSlots
  lotReclaimed := if core.lotReclaimed then 1 else 0
  clearingPrice := row.clearingPrice
  winner := row.winner
  settleTx := row.settleTx

def AuctionDbRow.counted (filledSlots : ℕ) (row : AuctionDbRow) : AuctionDbRow :=
  { row with filledSlots := filledSlots }

def AuctionDbRow.settled (clearingPrice winner : String) (settleTxHash : Option String)
    (row : AuctionDbRow) : AuctionDbRow :=
  { row with
    status := "Settled"
    clearingPrice := some clearingPrice
    winner := some winner
    settleTx := settleTxHash }

def AuctionDbRow.refunded (row : AuctionDbRow) : AuctionDbRow := { row with status := "Refunded" }

def AuctionDbRow.reclaimed (reclaimed : Bool) (row : AuctionDbRow) : AuctionDbRow :=
  { row with lotReclaimed := if reclaimed then 1 else 0 }

variable (store : AuctionStore)

def AuctionStore.upsertCore (core : AuctionCore) : AuctionStore :=
  { store with auctions := store.auctions.upsert core.inserted core.updated fun _ => rfl }

def AuctionStore.hasAuction (id : ℕ) : Bool := (store.auctions.find id).isSome

def AuctionStore.updateAuction (auctionId : ℕ) (f : AuctionDbRow → AuctionDbRow)
    (hf : ∀ row, (f row).id = row.id) : AuctionStore :=
  { store with auctions := store.auctions.update auctionId f hf }

def AuctionStore.bidCount (auctionId : ℕ) : ℕ :=
  (store.bids.rows.filter fun bid => bid.auctionId = auctionId).length

def AuctionStore.refreshCount (auctionId : ℕ) : AuctionStore :=
  store.updateAuction auctionId (.counted (store.bidCount auctionId)) fun _ => rfl

def AuctionStore.insertBid (auctionId : ℕ) (slotIndex : ℤ) (bidder : String) : AuctionStore :=
  { store with bids := store.bids.insertOrIgnore ⟨auctionId, slotIndex, bidder⟩ }

def AuctionStore.recordBid (auctionId : ℕ) (slotIndex : ℤ) (bidder : String) : AuctionStore :=
  (store.insertBid auctionId slotIndex bidder).refreshCount auctionId

def AuctionStore.markSettled (auctionId : ℕ) (clearingPrice winner : String)
    (settleTxHash : Option String) : AuctionStore :=
  store.updateAuction auctionId (.settled clearingPrice winner settleTxHash) fun _ => rfl

def AuctionStore.markRefunded (auctionId : ℕ) : AuctionStore :=
  store.updateAuction auctionId .refunded fun _ => rfl

def AuctionStore.setLotReclaimed (auctionId : ℕ) (reclaimed : Bool) : AuctionStore :=
  store.updateAuction auctionId (.reclaimed reclaimed) fun _ => rfl

def AuctionStore.getCursor : IngestCursor := store.ingestCursor.getD ⟨none, none⟩

def AuctionStore.setCursor (lastLedger : Option ℕ) (lastCursor : Option String) : AuctionStore :=
  { store with ingestCursor := some ⟨lastLedger, lastCursor⟩ }

def AuctionStore.getById (id : ℕ) : Option AuctionListRow := (store.auctions.find id).map toListRow

end Writes

section Query

inductive AuctionSort where
  | closingSoonest | newest | mostBids
  deriving DecidableEq

structure AuctionCursor where
  sortValue : ℚ
  id : ℕ
  deriving DecidableEq

structure AuctionQuery where
  statuses : List AuctionStatus
  assetSymbol : Option String
  search : Option String
  bidder : Option String
  sort : AuctionSort
  limit : ℕ
  cursor : Option AuctionCursor

structure AuctionPage where
  rows : List AuctionListRow
  nextCursor : Option String
  totalCount : ℕ

def openRankMultiplier : ℕ := 10000000000000

def closingSortExpr (row : AuctionDbRow) : ℕ :=
  (if row.status = "Open" then 0 else 1) * openRankMultiplier + row.commitDeadline

def sortValueOf (row : AuctionDbRow) : AuctionSort → ℕ
  | .mostBids => row.filledSlots
  | .closingSoonest =>
    (if row.status = "Open" then 0 else 1) * openRankMultiplier + row.commitDeadline
  | .newest => row.id

structure OrderTerm where
  expression : AuctionDbRow → ℕ
  descending : Bool

def inOrder : List OrderTerm → AuctionDbRow → AuctionDbRow → Bool
  | [], _, _ => true
  | term :: terms, a, b =>
    if term.expression a = term.expression b then inOrder terms a b
    else if term.descending then term.expression b < term.expression a
    else term.expression a < term.expression b

structure OrderPlan where
  orderBy : List OrderTerm
  cursorClause : Option (AuctionDbRow → Bool)

def planOrder (sort : AuctionSort) (cursor : Option AuctionCursor) : OrderPlan :=
  match sort with
  | .mostBids =>
    { orderBy := [⟨AuctionDbRow.filledSlots, true⟩, ⟨AuctionDbRow.id, true⟩]
      cursorClause := cursor.map fun c row => decide ((row.filledSlots : ℚ) < c.sortValue ∨
        ((row.filledSlots : ℚ) = c.sortValue ∧ row.id < c.id)) }
  | .closingSoonest =>
    { orderBy := [⟨closingSortExpr, false⟩, ⟨AuctionDbRow.id, false⟩]
      cursorClause := cursor.map fun c row => decide (c.sortValue < (closingSortExpr row : ℚ) ∨
        ((closingSortExpr row : ℚ) = c.sortValue ∧ c.id < row.id)) }
  | .newest =>
    { orderBy := [⟨AuctionDbRow.id, true⟩]
      cursorClause := cursor.map fun c row => decide (row.id < c.id) }

/-- SQLite's lower() and LIKE fold the ASCII letters only. -/
def lower (text : String) : String := text.map Char.toLower

/-- A pattern and a text end at their first NUL. -/
def cString (text : List Char) : List Char := text.takeWhile fun c => c ≠ '\x00'

def patternCompare : List Char → List Char → Bool
  | [], text => text.isEmpty
  | '%' :: pattern, text => text.tails.any (patternCompare pattern)
  | '_' :: pattern, text => !text.isEmpty && patternCompare pattern text.tail
  | c :: pattern, text =>
    (text.head?.map Char.toLower == some c.toLower) && patternCompare pattern text.tail

def like (pattern text : List Char) : Bool := patternCompare (cString pattern) (cString text)

variable (toLowerCase : String → String) (store : AuctionStore) (q : AuctionQuery)

def statusCondition (row : AuctionDbRow) : Bool := row.status ∈ q.statuses.map statusName

def assetCondition (assetSymbol : String) (row : AuctionDbRow) : Bool :=
  lower row.lotSymbol == toLowerCase assetSymbol || lower row.paymentSymbol == toLowerCase assetSymbol

def searchCondition (search : String) (row : AuctionDbRow) : Bool :=
  let searchLike := '%' :: (toLowerCase search).toList ++ ['%']
  toString row.id == search || like searchLike (lower row.lotSymbol).toList ||
    like searchLike (lower row.paymentSymbol).toList

def AuctionStore.bidderCondition (bidder : String) (row : AuctionDbRow) : Bool :=
  store.bids.rows.any fun bid => bid.auctionId == row.id && bid.bidder == bidder

def AuctionStore.conditions : List (AuctionDbRow → Bool) :=
  (if 0 < q.statuses.length ∧ q.statuses.length < 3 then [statusCondition q] else []) ++
  (q.assetSymbol.map (assetCondition toLowerCase)).toList ++
  (q.search.map (searchCondition toLowerCase)).toList ++
  (q.bidder.map store.bidderCondition).toList

def AuctionStore.select (conditions : List (AuctionDbRow → Bool)) : List AuctionDbRow :=
  store.auctions.rows.filter fun row => conditions.all fun condition => condition row

def encodeCursor (sortValue id : ℕ) : String :=
  .ofList (Base64Url.encode (toString sortValue ++ ":" ++ toString id).toUTF8.data.toList)

/-- Bytes that are not UTF-8 become a character that is in no number. -/
def decodeCursor (rawCursor : String) : Option AuctionCursor :=
  (String.fromUTF8? ⟨(Base64Url.decode rawCursor.toList).toArray⟩).bind fun decoded =>
    match decoded.toList.splitOn ':' with
    | [first, second] =>
      (NumberText.parse first).bind fun sortValue =>
        (NumberText.parse second).bind fun id =>
          if id.isInt ∧ 0 ≤ id then some ⟨sortValue, id.num.toNat⟩ else none
    | _ => none

def AuctionStore.query : AuctionPage :=
  let conditions := store.conditions toLowerCase q
  let plan := planOrder q.sort q.cursor
  let rows := ((store.select (conditions ++ plan.cursorClause.toList)).insertionSort
    fun a b => inOrder plan.orderBy a b).take (q.limit + 1)
  let hasMore : Bool := q.limit < rows.length
  let pageRows := if hasMore then rows.take q.limit else rows
  { rows := pageRows.map toListRow
    nextCursor := if hasMore then
      pageRows.getLast?.map fun lastRow => encodeCursor (sortValueOf lastRow q.sort) lastRow.id
    else none
    totalCount := (store.select conditions).length }

end Query

end SealedStellar
