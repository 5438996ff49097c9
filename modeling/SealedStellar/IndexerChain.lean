import SealedStellar.Store
import SealedStellar.StrKey
import SealedStellar.Lib.Checked

/-! indexer/src/chain.ts and result.ts: the chain reads of the indexer, over what the RPC server
answers. Values are as scValToNative yields them. -/
namespace SealedStellar.Indexer
open Checked

inductive ChainError where
  | rpc_unreachable (detail : String)
  | simulation_failed (detail : String)
  | contract_error (code : ℕ)
  | decode_failed (detail : String)
  deriving DecidableEq

inductive Simulation (α : Type) where
  | unreachable (detail : String)
  | error (text : String)
  | noResult
  | result (value : α)

section Views

def contractErrorAt (text : List Char) : Option ℕ :=
  let opening := "Error(Contract, #".toList
  let rest := text.drop opening.length
  let digits := rest.takeWhile Char.isDigit
  if opening.isPrefixOf text ∧ digits ≠ [] ∧ (rest.dropWhile Char.isDigit).head? = some ')' then
    some (Nat.ofDigitChars 10 digits 0)
  else none

def parseContractErrorCode (text : String) : Option ℕ := text.toList.tails.findSome? contractErrorAt

def simulateView {α : Type} : Simulation α → Except ChainError α
  | .unreachable detail => .error (.rpc_unreachable detail)
  | .error text =>
    match parseContractErrorCode text with
    | some code => .error (.contract_error code)
    | none => .error (.simulation_failed text)
  | .noResult => .error (.simulation_failed "simulation returned no result")
  | .result value => .ok value

inductive RawStatus where
  | array (names : List String)
  | text (name : String)

def RawStatus.string : RawStatus → String
  | .array names => String.intercalate "," names
  | .text name => name

/-- None where isRawAuctionRecord finds another type; it does not look at the other fields. -/
structure RawAuctionRecord where
  seller : Option String
  rwaToken : Option String
  lotAmount : Option ℤ
  paymentToken : Option String
  maxPrice : Option ℤ
  commitDeadline : Option ℕ
  gracePeriod : ℕ
  status : RawStatus
  bids : Option (List String)
  lotReclaimed : Bool

structure DecodedBid where
  slotIndex : ℕ
  bidder : String

structure DecodedAuction where
  seller : String
  rwaToken : String
  lotAmount : String
  paymentToken : String
  maxPrice : String
  commitDeadlineSeconds : ℕ
  gracePeriodSeconds : ℕ
  status : AuctionStatus
  bids : List DecodedBid
  lotReclaimed : Bool

def decodeStatus (rawStatus : RawStatus) : Option AuctionStatus :=
  let statusText := match rawStatus with
    | .array names => names.head?
    | .text name => some name
  [AuctionStatus.Open, .Settled, .Refunded].find? fun status => statusText = some (statusName status)

def shapeMismatch : ChainError := .decode_failed "auction record shape mismatch"

def decodeAuction (record : RawAuctionRecord) : Except ChainError DecodedAuction := do
  let seller ← okOr record.seller shapeMismatch
  let rwaToken ← okOr record.rwaToken shapeMismatch
  let lotAmount ← okOr record.lotAmount shapeMismatch
  let paymentToken ← okOr record.paymentToken shapeMismatch
  let maxPrice ← okOr record.maxPrice shapeMismatch
  let commitDeadline ← okOr record.commitDeadline shapeMismatch
  let bids ← okOr record.bids shapeMismatch
  let status ← okOr (decodeStatus record.status)
    (.decode_failed ("unknown status: " ++ record.status.string))
  return {
    seller := seller
    rwaToken := rwaToken
    lotAmount := toString lotAmount
    paymentToken := paymentToken
    maxPrice := toString maxPrice
    commitDeadlineSeconds := commitDeadline
    gracePeriodSeconds := record.gracePeriod
    status := status
    bids := bids.zipIdx.map fun slot => ⟨slot.2, slot.1⟩
    lotReclaimed := record.lotReclaimed }

/-- What the server answers to the views at one moment; a symbol that is not a string is none. -/
structure ChainView where
  auction : ℕ → Simulation RawAuctionRecord
  symbol : String → Simulation (Option String)

variable (view : ChainView)

def getAuction (auctionId : ℕ) : Except ChainError DecodedAuction := do
  let record ← simulateView (view.auction auctionId)
  decodeAuction record

def getTokenSymbol (cache : String → Option String) (tokenContractId : String) :
    Except ChainError String × (String → Option String) :=
  match cache tokenContractId with
  | some cached => (.ok cached, cache)
  | none =>
    match simulateView (view.symbol tokenContractId) with
    | .error e => (.error e, cache)
    | .ok none => (.error (.decode_failed "token symbol is not a string"), cache)
    | .ok (some symbol) => (.ok symbol, Function.update cache tokenContractId (some symbol))

end Views

section Events

inductive Native where
  | text (s : String)
  | number (n : ℤ)
  | bigint (n : ℤ)
  | other
  deriving DecidableEq

/-- A value that is no object is none. -/
structure RawEvent where
  topic : List Native
  value : Option (List (String × Native))
  txHash : Option String

structure IndexedEvent where
  name : String
  auctionId : ℕ
  payload : List (String × Native)
  txHash : Option String

/-- `Number(value)`, where it is an integer. -/
def Native.toInteger : Native → Option ℤ
  | .text s => (NumberText.parse s.toList).bind fun q => if q.isInt then some q.num else none
  | .number n => some n
  | .bigint n => some n
  | .other => none

def toIndexedEvent (raw : RawEvent) : Option IndexedEvent :=
  match raw.topic, raw.value with
  | .text name :: auctionId :: _, some payload =>
    auctionId.toInteger.bind fun auctionIdNumber =>
      if 0 < auctionIdNumber then some ⟨name, auctionIdNumber.toNat, payload, raw.txHash⟩ else none
  | _, _ => none

inductive EventsRequest where
  | startLedger (ledger : ℕ)
  | cursor (pageCursor : String)

structure EventsResponse where
  events : List RawEvent
  cursor : Option String
  latestLedger : Option ℕ

structure Fetched where
  events : List IndexedEvent
  latestLedger : ℕ

def maxEventPages : ℕ := 60

abbrev EventsServer := ℕ → EventsRequest → Except String EventsResponse

/-- The empty cursor is falsy. -/
def EventsResponse.next (response : EventsResponse) : Option String :=
  response.cursor.filter fun pageCursor => pageCursor ≠ ""

def fetchPages (server : EventsServer) : ℕ → ℕ → EventsRequest → Fetched → Except ChainError Fetched
  | 0, _, _, fetched => .ok fetched
  | n + 1, pageIndex, request, fetched =>
    match server pageIndex request with
    | .error detail => .error (.rpc_unreachable detail)
    | .ok response =>
      let fetched : Fetched :=
        { events := fetched.events ++ response.events.filterMap toIndexedEvent
          latestLedger := response.latestLedger.getD fetched.latestLedger }
      match response.next with
      | none => .ok fetched
      | some pageCursor => fetchPages server n (pageIndex + 1) (.cursor pageCursor) fetched

def fetchContractEvents (server : EventsServer) (startLedger : ℕ) : Except ChainError Fetched :=
  fetchPages server maxEventPages 0 (.startLedger startLedger) ⟨[], startLedger⟩

end Events

end SealedStellar.Indexer
