import SealedStellar.Operator
import SealedStellar.BidLog
import SealedStellar.SealedBid

/-! web/api/reveal.ts: the reveal endpoint, over what the RPC server answers. -/
namespace SealedStellar
open Checked BigIntText

inductive RevealErrorKind where
  | bad_request | server_misconfigured | not_closed | not_settleable | chain_unreachable
  | reveal_failed
  deriving DecidableEq

structure RevealError where
  kind : RevealErrorKind
  message : String
  deriving DecidableEq

def statusForError : RevealErrorKind → ℕ
  | .bad_request => 400
  | .not_closed => 409
  | .not_settleable => 409
  | .chain_unreachable => 502
  | .reveal_failed => 502
  | .server_misconfigured => 503

inductive RevealBody where
  | error (e : RevealError)
  | alreadySettled (auctionId : ℕ)
  | revealed (auctionId : ℕ) (whitelistRoot : String) (members : List String)
      (bids : List RevealedBid)
  deriving DecidableEq

structure RevealResponse where
  status : ℕ
  body : RevealBody
  deriving DecidableEq

structure RevealRequest where
  method : String
  auctionId : Option ℕ

structure Environment where
  settleRpcUrl : Option String
  operatorBoxSecret : Option String

inductive Simulation (α : Type) where
  | unreachable (detail : String)
  | simulationError
  | noResult
  | result (value : α)

/-- The fields of get_auction's result the endpoint decodes; none does not decode. -/
structure AuctionRecord where
  status : Option String
  commitDeadline : Option ℕ
  whitelistRoot : Option ℕ

structure AuctionState where
  status : String
  commitDeadlineSeconds : ℕ
  whitelistRoot : ℕ

inductive EventsRequest where
  | startLedger (ledger : ℕ)
  | cursor (pageCursor : String)

inductive EventValue where
  | bidPlaced (r : BidRecord)
  | other

structure EventsPage where
  events : List EventValue
  cursor : Option String

structure Rpc where
  getAuction : ℕ → Simulation AuctionRecord
  getMembers : ℕ → Simulation (Option (List String))
  getLatestLedger : Except String ℕ
  getEvents : ℕ → EventsRequest → Except String EventsPage

structure BidEvent where
  slotIndex : ℕ
  bidder : String
  commitment : ℕ
  encryptedBid : List UInt8
  deriving DecidableEq

def eventLookbackLedgers : ℕ := 100000
def maxEventPages : ℕ := 30

section Secret

def Environment.rpcUrl (env : Environment) : String :=
  env.settleRpcUrl.getD "https://soroban-testnet.stellar.org"

def secretHex (text : String) : Option (List Char) :=
  let hexText := trim text.toList
  if hexText.length = 64 ∧ hexText.all fun c => (digitValue 16 c).isSome then some hexText else none

def hexToBytes : List Char → List UInt8
  | high :: low :: rest =>
    UInt8.ofNat ((digitsFrom 16 0 [high, low]).getD 0) :: hexToBytes rest
  | _ => []

def loadBoxSecret (env : Environment) : Except RevealError (List UInt8) := do
  ensure ("testnet".toList <:+: env.rpcUrl.toList)
    ⟨.server_misconfigured, "reveal RPC must target testnet"⟩
  let hexText ← okOr (env.operatorBoxSecret.bind secretHex)
    ⟨.server_misconfigured, "OPERATOR_BOX_SECRET must be a 32-byte hex string"⟩
  return hexToBytes hexText

end Secret

section Chain
variable (strKey : StrKey) (rpc : Rpc)

def getAuctionState (auctionId : ℕ) : Except RevealError AuctionState :=
  match rpc.getAuction auctionId with
  | .unreachable detail =>
    .error ⟨.chain_unreachable, s!"get_auction simulate failed: {detail}"⟩
  | .simulationError => .error ⟨.not_settleable, "auction not found on chain"⟩
  | .noResult => .error ⟨.chain_unreachable, "get_auction returned no result"⟩
  | .result record => do
    let status ← okOr record.status ⟨.chain_unreachable, "get_auction status decode failed"⟩
    let commitDeadline ← okOr record.commitDeadline
      ⟨.chain_unreachable, "get_auction record shape mismatch"⟩
    let whitelistRoot ← okOr record.whitelistRoot
      ⟨.chain_unreachable, "get_auction record shape mismatch"⟩
    return ⟨status, commitDeadline, whitelistRoot⟩

def getRegistryMembers (root : ℕ) : List String :=
  match rpc.getMembers root with
  | .result (some members) => members
  | _ => []

/-- The empty cursor is falsy. -/
def EventsPage.next (eventsResponse : EventsPage) : Option String :=
  eventsResponse.cursor.filter fun pageCursor => pageCursor ≠ ""

def fetchPages (auctionId : ℕ) : ℕ → EventsRequest → Except String (List EventValue)
  | 0, _ => .ok []
  | n + 1, request => do
    let eventsResponse ← rpc.getEvents auctionId request
    match eventsResponse.next with
    | none => return eventsResponse.events
    | some pageCursor =>
      let rest ← fetchPages auctionId n (.cursor pageCursor)
      return eventsResponse.events ++ rest

def decodeEvent : EventValue → Option BidEvent
  | .bidPlaced r => some ⟨r.slotIndex, strKey.encode r.bidder, r.commitment.toNat, r.encryptedBid⟩
  | .other => none

def chainAnswer {α : Type} (call : String) (answer : Except String α) : Except RevealError α :=
  match answer with
  | .ok value => .ok value
  | .error detail => .error ⟨.chain_unreachable, s!"{call} failed: {detail}"⟩

def startLedger (latestLedgerSequence : ℕ) : ℕ := max 1 (latestLedgerSequence - eventLookbackLedgers)

def fetchBidEvents (auctionId : ℕ) : Except RevealError (List BidEvent) := do
  let latestLedgerSequence ← chainAnswer "getLatestLedger" rpc.getLatestLedger
  let found ← chainAnswer "getEvents"
    (fetchPages rpc auctionId maxEventPages (.startLedger (startLedger latestLedgerSequence)))
  let bidEvents := found.filterMap (decodeEvent strKey)
  return bidEvents.insertionSort fun first second => first.slotIndex ≤ second.slotIndex

end Chain

section Handler
variable (strKey : StrKey) (nacl : Nacl)

def revealBid (boxSecret : List UInt8) (bidEvent : BidEvent) : Except RevealError RevealedBid :=
  match decryptBid nacl bidEvent.encryptedBid boxSecret with
  | none =>
    let slotIndex := bidEvent.slotIndex
    .error ⟨.reveal_failed, s!"slot {slotIndex}: could not decrypt (wrong operator key?)"⟩
  | some (price, salt) => .ok
    { slotIndex := (bidEvent.slotIndex : ℤ)
      bidder := bidEvent.bidder
      commitment := toString bidEvent.commitment
      price := toString price
      salt := toString salt }

def reveal (env : Environment) (rpc : Rpc) (nowSeconds : ℕ) (auctionId : Option ℕ) :
    Except RevealError RevealBody := do
  let boxSecret ← loadBoxSecret env
  let auctionId ← okOr auctionId ⟨.bad_request, "auctionId must be a positive integer"⟩
  let auctionState ← getAuctionState rpc auctionId
  let status := auctionState.status
  if status = "Settled" then
    .ok (.alreadySettled auctionId)
  else do
    ensure (status = "Open")
      ⟨.not_settleable, s!"auction status is {status}; there is nothing to reveal"⟩
    ensure (¬nowSeconds < auctionState.commitDeadlineSeconds)
      ⟨.not_closed, "the bid window has not closed yet"⟩
    let bidEvents ← fetchBidEvents strKey rpc auctionId
    ensure (bidEvents.length ≠ 0)
      ⟨.not_settleable, "no sealed bids found on chain for this auction"⟩
    let bids ← bidEvents.mapM (revealBid nacl boxSecret)
    let members := getRegistryMembers rpc auctionState.whitelistRoot
    return .revealed auctionId (toString auctionState.whitelistRoot) members bids

def handler (env : Environment) (rpc : Rpc) (nowSeconds : ℕ) (req : RevealRequest) :
    RevealResponse :=
  if req.method ≠ "POST" then ⟨405, .error ⟨.bad_request, "POST only"⟩⟩
  else
    match reveal strKey nacl env rpc nowSeconds req.auctionId with
    | .ok body => ⟨200, body⟩
    | .error e => ⟨statusForError e.kind, .error e⟩

end Handler

section Spec
variable {strKey : StrKey} {nacl : Nacl} {env : Environment} {rpc : Rpc} {now : ℕ}

theorem chainAnswer_eq_ok {α : Type} {call : String} {answer : Except String α} {a : α} :
    chainAnswer call answer = .ok a ↔ answer = .ok a := by
  cases answer <;> simp [chainAnswer]

theorem revealBid_eq_ok {boxSecret : List UInt8} {e : BidEvent} {b : RevealedBid} :
    revealBid nacl boxSecret e = .ok b ↔
      ∃ price salt, decryptBid nacl e.encryptedBid boxSecret = some (price, salt) ∧
        b = ⟨(e.slotIndex : ℤ), e.bidder, toString e.commitment, toString price, toString salt⟩ := by
  rw [revealBid]
  cases decryptBid nacl e.encryptedBid boxSecret with
  | none => simp
  | some opened =>
    obtain ⟨price, salt⟩ := opened
    simp [eq_comm]

theorem hexToBytes_length (hexText : List Char) : (hexToBytes hexText).length = hexText.length / 2 := by
  fun_induction hexToBytes hexText with
  | case1 high low rest ih =>
    simp only [List.length_cons, ih]
    omega
  | case2 hexText hshort =>
    match hexText with
    | [] => rfl
    | [_] => simp
    | high :: low :: rest => exact (hshort high low rest rfl).elim

theorem loadBoxSecret_length {env : Environment} {boxSecret : List UInt8}
    (hload : loadBoxSecret env = .ok boxSecret) : boxSecret.length = 32 := by
  simp only [loadBoxSecret, bind_eq_ok, ensure_eq_ok, okOr_eq_ok, pure_eq_ok,
    Option.bind_eq_some_iff, secretHex] at hload
  obtain ⟨_, -, hexText, ⟨text, -, htext⟩, rfl⟩ := hload
  split at htext
  · rename_i hdigits
    cases htext
    rw [hexToBytes_length, hdigits.1]
  · cases htext

theorem getAuctionState_eq_ok {k : ℕ} {state : AuctionState} :
    getAuctionState rpc k = .ok state ↔ ∃ record, rpc.getAuction k = .result record ∧
      record.status = some state.status ∧
      record.commitDeadline = some state.commitDeadlineSeconds ∧
      record.whitelistRoot = some state.whitelistRoot := by
  rw [getAuctionState]
  cases rpc.getAuction k with
  | unreachable detail => simp
  | simulationError => simp
  | noResult => simp
  | result record =>
    simp only [bind_eq_ok, okOr_eq_ok, pure_eq_ok, Simulation.result.injEq, exists_eq_left']
    constructor
    · rintro ⟨status, hstatus, deadline, hdeadline, root, hroot, he⟩
      subst he
      exact ⟨hstatus, hdeadline, hroot⟩
    · rintro ⟨hstatus, hdeadline, hroot⟩
      exact ⟨_, hstatus, _, hdeadline, _, hroot, rfl⟩

theorem fetchBidEvents_eq_ok {k : ℕ} {events : List BidEvent} :
    fetchBidEvents strKey rpc k = .ok events ↔ ∃ latest found, rpc.getLatestLedger = .ok latest ∧
      fetchPages rpc k maxEventPages (.startLedger (startLedger latest)) = .ok found ∧
      (found.filterMap (decodeEvent strKey)).insertionSort
        (fun first second => first.slotIndex ≤ second.slotIndex) = events := by
  simp only [fetchBidEvents, bind_eq_ok, chainAnswer_eq_ok, pure_eq_ok]
  constructor
  · rintro ⟨latest, hlatest, found, hfound, he⟩
    exact ⟨latest, found, hlatest, hfound, he⟩
  · rintro ⟨latest, found, hlatest, hfound, he⟩
    exact ⟨latest, hlatest, found, hfound, he⟩

/-- When the endpoint answers with bids, and with which. -/
theorem handler_revealed_iff {req : RevealRequest} {k : ℕ} {root : String}
    {members : List String} {bids : List RevealedBid} :
    handler strKey nacl env rpc now req = ⟨200, .revealed k root members bids⟩ ↔
      req.method = "POST" ∧ req.auctionId = some k ∧ ∃ boxSecret state events,
        loadBoxSecret env = .ok boxSecret ∧ getAuctionState rpc k = .ok state ∧
        state.status = "Open" ∧ state.commitDeadlineSeconds ≤ now ∧
        fetchBidEvents strKey rpc k = .ok events ∧ events ≠ [] ∧
        List.Forall₂ (fun e b => revealBid nacl boxSecret e = .ok b) events bids ∧
        root = toString state.whitelistRoot ∧
        members = getRegistryMembers rpc state.whitelistRoot := by
  have hbody : reveal strKey nacl env rpc now req.auctionId = .ok (.revealed k root members bids) ↔
      req.auctionId = some k ∧ ∃ boxSecret state events,
        loadBoxSecret env = .ok boxSecret ∧ getAuctionState rpc k = .ok state ∧
        state.status = "Open" ∧ state.commitDeadlineSeconds ≤ now ∧
        fetchBidEvents strKey rpc k = .ok events ∧ events ≠ [] ∧
        List.Forall₂ (fun e b => revealBid nacl boxSecret e = .ok b) events bids ∧
        root = toString state.whitelistRoot ∧
        members = getRegistryMembers rpc state.whitelistRoot := by
    simp only [reveal, bind_eq_ok, okOr_eq_ok]
    constructor
    · rintro ⟨boxSecret, hsecret, auctionId, hid, state, hstate, hrest⟩
      split at hrest
      · cases hrest
      · simp only [bind_eq_ok, ensure_eq_ok, mapM_eq_ok, pure_eq_ok, RevealBody.revealed.injEq,
          not_lt] at hrest
        obtain ⟨_, isOpen, _, due, events, hevents, _, hne, found, hbids, rfl, rfl, rfl, rfl⟩ := hrest
        exact ⟨hid, boxSecret, state, events, hsecret, hstate, isOpen, due, hevents,
          fun he => hne (by rw [he]; rfl), hbids, rfl, rfl⟩
    · rintro ⟨hid, boxSecret, state, events, hsecret, hstate, isOpen, due, hevents, hne, hbids, hroot,
        hmembers⟩
      refine ⟨boxSecret, hsecret, k, hid, state, hstate, ?_⟩
      have hsettled : ¬state.status = "Settled" := by
        rw [isOpen]
        decide
      rw [if_neg hsettled]
      simp only [bind_eq_ok, ensure_eq_ok, mapM_eq_ok, pure_eq_ok, not_lt]
      exact ⟨(), isOpen, (), due, events, hevents, (), fun hl => hne (List.length_eq_zero_iff.mp hl),
        bids, hbids, by rw [hroot, hmembers]⟩
  rw [← hbody, handler]
  by_cases hmethod : req.method = "POST"
  · rw [if_neg (fun hne => hne hmethod)]
    cases reveal strKey nacl env rpc now req.auctionId with
    | ok body => simp [hmethod]
    | error e => simp
  · rw [if_pos hmethod]
    simp [hmethod]

end Spec
end SealedStellar
