import SealedStellar.Host

/-! contracts/auction/src/lib.rs. Every function takes the state before the call and returns
the state after it or a failure; storage entries are assumed not archived. -/
namespace SealedStellar
open Checked

def maxBidSlots : ℕ := 8
def maxEncryptedBidBytes : ℕ := 256
def secondsPerLedger : ℕ := 5
def ledgersPerDay : ℕ := 17280
def maxTtlExtensionLedgers : ℕ := 3000000

inductive AuctionError where
  | AuctionNotFound | LotAmountNotPositive | MaxPriceNotPositive | MaxPriceExceeds64Bits
  | DeadlineNotInFuture | GracePeriodZero | AlreadySettled | AlreadyRefunded
  | BidAfterDeadline | BidsFull | DuplicateCommitment | CommitmentIsEmptyMarker
  | EncryptedBidTooLarge | SettleBeforeDeadline | WinnerIndexOutOfRange
  | WinningPriceNotPositive | WinningPriceExceedsMax | WinnerAddressMismatch | ProofInvalid
  | VerifierCallFailed | RefundTooEarly | ReclaimRequiresRefundedAuction
  | LotAlreadyReclaimed | LotTransferFailed
  deriving DecidableEq

/-- A call returns one of the contract's errors or traps in the host. -/
inductive Failure where
  | error (e : AuctionError)
  | trap
  deriving DecidableEq

inductive AuctionStatus where
  | Open | Settled | Refunded
  deriving DecidableEq

def statusName : AuctionStatus → String
  | .Open => "Open"
  | .Settled => "Settled"
  | .Refunded => "Refunded"

structure Bid where
  bidder : Address
  commitment : U256
  deriving DecidableEq

structure Auction where
  seller : Address
  rwaToken : Address
  lotAmount : ℤ
  paymentToken : Address
  maxPrice : ℤ
  commitDeadline : ℕ
  gracePeriod : ℕ
  whitelistRoot : U256
  operatorEncPubkey : Key
  status : AuctionStatus
  bids : List Bid
  lotReclaimed : Bool
  deriving DecidableEq

inductive Event where
  | AuctionCreated (auctionId : ℕ) (seller : Address) (maxPrice : ℤ) (commitDeadline : ℕ)
  | BidPlaced (auctionId slotIndex : ℕ) (bidder : Address) (commitment : U256)
      (encryptedBid : List UInt8)
  | AuctionSettled (auctionId : ℕ) (winner : Address) (winningPrice : ℤ)
  | AuctionRefunded (auctionId refundedBids : ℕ)
  | LotReturnFailed (auctionId : ℕ) (seller : Address) (lotAmount : ℤ)
  | LotReclaimed (auctionId : ℕ) (seller : Address) (lotAmount : ℤ)

/-- Instance storage, the `Auction(id)` entries, the published events with the ledger that
carries them, the ledger clock, and the tokens. -/
structure State (W : Type) where
  verifier : Option Address
  nextAuctionId : Option ℕ
  auctions : ℕ → Option Auction
  instanceLiveUntil : ℕ
  auctionLiveUntil : ℕ → ℕ
  events : List (ℕ × Event)
  timestamp : ℕ
  sequence : ℕ
  tokens : W
  activity : List (Activity W)

structure CreateArgs where
  seller : Address
  rwaToken : Address
  lotAmount : ℤ
  paymentToken : Address
  maxPrice : ℤ
  commitDeadline : ℕ
  gracePeriod : ℕ
  whitelistRoot : U256
  operatorEncPubkey : Key

section Effects
variable {W : Type} (h : Host W)

def requireAuth (signers : List Address) (address : Address) : Except Failure Unit :=
  ensure (address ∈ signers) .trap

def check (c : Prop) [Decidable c] (e : AuctionError) : Except Failure Unit := ensure c (.error e)

def State.record (s : State W) (a : Activity W) : State W :=
  { s with tokens := a.after, activity := s.activity ++ [a] }

/-- `token::Client::transfer` panics unless the token returns (). -/
def transfer (m : TokenMove) (s : State W) : Except Failure (State W) :=
  match h.transfer s.tokens m with
  | .returned w => .ok (s.record (.transfer m s.tokens w))
  | .undecodable _ => .error .trap
  | .trapped => .error .trap

/-- `token::Client::try_transfer`, and whether it was `Ok(Ok(()))`. -/
def tryTransfer (m : TokenMove) (s : State W) : Bool × State W :=
  match h.transfer s.tokens m with
  | .returned w => (true, s.record (.transfer m s.tokens w))
  | .undecodable w => (false, s.record (.undecodable m s.tokens w))
  | .trapped => (false, s)

/-- Writing an entry for the first time starts its rent at the network minimum. -/
def State.setAuction (s : State W) (auctionId : ℕ) (auction : Auction) : State W :=
  { s with
    auctions := Function.update s.auctions auctionId (some auction)
    auctionLiveUntil := if (s.auctions auctionId).isSome then s.auctionLiveUntil else
      Function.update s.auctionLiveUntil auctionId (s.sequence + h.minPersistentTtl - 1) }

def State.extendAuctionTtl (s : State W) (auctionId threshold extendTo : ℕ) : State W :=
  let liveUntil := h.extendTtl s.sequence (s.auctionLiveUntil auctionId) threshold extendTo
  { s with auctionLiveUntil := Function.update s.auctionLiveUntil auctionId liveUntil }

def State.extendInstanceTtl (s : State W) (threshold extendTo : ℕ) : State W :=
  { s with instanceLiveUntil := h.extendTtl s.sequence s.instanceLiveUntil threshold extendTo }

def State.publish (s : State W) (e : Event) : State W :=
  { s with events := s.events ++ [(s.sequence, e)] }

def loadAuction (s : State W) (auctionId : ℕ) : Except Failure Auction :=
  okOr (s.auctions auctionId) (.error .AuctionNotFound)

def ensureOpen (auction : Auction) : Except Failure Unit :=
  match auction.status with
  | .Open => .ok ()
  | .Settled => .error (.error .AlreadySettled)
  | .Refunded => .error (.error .AlreadyRefunded)

end Effects

section Signals
variable {W : Type} (h : Host W)

/-- Poseidon over the two big-endian halves of the 32-byte tail of the address XDR. -/
def addressLeaf (address : Address) : U256 :=
  let addressXdr := address.toXdr
  let keyBytes := addressXdr.drop (addressXdr.length - 32)
  h.poseidonHash [BitVec.ofNat 256 (fromBeBytes (keyBytes.take 16)),
    BitVec.ofNat 256 (fromBeBytes (keyBytes.drop 16))]

def slotCommitment (bids : List Bid) (slotIndex : ℕ) : U256 :=
  match bids[slotIndex]? with
  | some slotBid => slotBid.commitment
  | none => 0

def buildPublicSignals (auction : Auction) (auctionId winnerIndex : ℕ) (winningPrice : ℤ)
    (winnerAddress : Address) : List U256 :=
  BitVec.ofNat 256 auctionId ::
    ((List.range maxBidSlots).map (slotCommitment auction.bids) ++
      [BitVec.ofNat 256 winnerIndex, BitVec.ofNat 256 (winningPrice % 2 ^ 128).toNat,
        auction.whitelistRoot, addressLeaf h winnerAddress])

end Signals

/-- The rent extension asked for at creation; the final cast is `as u32`. -/
def lifetimeLedgers (now commitDeadline gracePeriod : ℕ) : ℕ :=
  let lifetimeSeconds := saturatingAdd (commitDeadline - now) gracePeriod
  let lifetimeLedgersU64 := saturatingAdd (lifetimeSeconds / secondsPerLedger) ledgersPerDay
  if lifetimeLedgersU64 > maxTtlExtensionLedgers then maxTtlExtensionLedgers
  else lifetimeLedgersU64 % 2 ^ 32

section Entrypoints
variable {W : Type} (h : Host W)

/-- `__constructor`, run once at deployment over whatever the ledger holds. -/
def deploy (verifier : Address) (tokens : W) (timestamp sequence : ℕ) : State W where
  verifier := some verifier
  nextAuctionId := some 1
  auctions := fun _ => none
  instanceLiveUntil := sequence + h.minPersistentTtl - 1
  auctionLiveUntil := fun _ => 0
  events := []
  timestamp := timestamp
  sequence := sequence
  tokens := tokens
  activity := []

def createAuction (signers : List Address) (args : CreateArgs) (s : State W) :
    Except Failure (State W × ℕ) := do
  requireAuth signers args.seller
  check (0 < args.lotAmount) .LotAmountNotPositive
  check (0 < args.maxPrice) .MaxPriceNotPositive
  check (args.maxPrice ≤ u64Max) .MaxPriceExceeds64Bits
  check (s.timestamp < args.commitDeadline) .DeadlineNotInFuture
  check (args.gracePeriod ≠ 0) .GracePeriodZero
  let auctionId := s.nextAuctionId.getD 1
  -- overflow-checks are on in the release profile
  ensure (auctionId + 1 ≤ u64Max) .trap
  let s := { s with nextAuctionId := some (auctionId + 1) }
  let s ← transfer h ⟨args.rwaToken, args.seller, h.self, args.lotAmount⟩ s
  let auction : Auction :=
    { seller := args.seller, rwaToken := args.rwaToken, lotAmount := args.lotAmount,
      paymentToken := args.paymentToken, maxPrice := args.maxPrice,
      commitDeadline := args.commitDeadline, gracePeriod := args.gracePeriod,
      whitelistRoot := args.whitelistRoot, operatorEncPubkey := args.operatorEncPubkey,
      status := .Open, bids := [], lotReclaimed := false }
  let s := s.setAuction h auctionId auction
  let ledgers := lifetimeLedgers s.timestamp args.commitDeadline args.gracePeriod
  let s := s.extendAuctionTtl h auctionId ledgers ledgers
  let s := s.extendInstanceTtl h ledgers ledgers
  let s := s.publish (.AuctionCreated auctionId args.seller args.maxPrice args.commitDeadline)
  return (s, auctionId)

def placeBid (signers : List Address) (auctionId : ℕ) (bidder : Address) (commitment : U256)
    (encryptedBid : List UInt8) (s : State W) : Except Failure (State W) := do
  requireAuth signers bidder
  let auction ← loadAuction s auctionId
  ensureOpen auction
  check (s.timestamp < auction.commitDeadline) .BidAfterDeadline
  check (auction.bids.length < maxBidSlots) .BidsFull
  check (commitment ≠ 0) .CommitmentIsEmptyMarker
  check (∀ existingBid ∈ auction.bids, existingBid.commitment ≠ commitment) .DuplicateCommitment
  check (encryptedBid.length ≤ maxEncryptedBidBytes) .EncryptedBidTooLarge
  let s ← transfer h ⟨auction.paymentToken, bidder, h.self, auction.maxPrice⟩ s
  let slotIndex := auction.bids.length
  let auction := { auction with bids := auction.bids ++ [⟨bidder, commitment⟩] }
  let s := s.setAuction h auctionId auction
  return s.publish (.BidPlaced auctionId slotIndex bidder commitment encryptedBid)

/-- The match on `try_verify`. -/
def acceptProof (verified : Option Bool) : Except Failure Unit :=
  match verified with
  | some true => .ok ()
  | some false => .error (.error .ProofInvalid)
  | none => .error (.error .VerifierCallFailed)

def settle (auctionId winnerIndex : ℕ) (winningPrice : ℤ) (winnerAddress : Address)
    (proof : VerifierProof) (s : State W) : Except Failure (State W) := do
  let auction ← loadAuction s auctionId
  ensureOpen auction
  check (auction.commitDeadline ≤ s.timestamp) .SettleBeforeDeadline
  check (winnerIndex < auction.bids.length) .WinnerIndexOutOfRange
  check (0 < winningPrice) .WinningPriceNotPositive
  check (winningPrice ≤ auction.maxPrice) .WinningPriceExceedsMax
  let winnerBid ← okOr auction.bids[winnerIndex]? (.error .WinnerIndexOutOfRange)
  check (winnerBid.bidder = winnerAddress) .WinnerAddressMismatch
  let pubSignals := buildPublicSignals h auction auctionId winnerIndex winningPrice winnerAddress
  let verifier ← okOr s.verifier (.error .VerifierCallFailed)
  acceptProof (h.verify verifier proof pubSignals)
  let auction := { auction with status := .Settled }
  let s := s.setAuction h auctionId auction
  let s ← transfer h ⟨auction.paymentToken, h.self, auction.seller, winningPrice⟩ s
  let winnerDepositRefund := auction.maxPrice - winningPrice
  let s ← (if 0 < winnerDepositRefund then
      transfer h ⟨auction.paymentToken, h.self, winnerAddress, winnerDepositRefund⟩ s
    else pure s)
  let s ← auction.bids.zipIdx.foldlM (fun s slot =>
    if slot.2 ≠ winnerIndex then
      transfer h ⟨auction.paymentToken, h.self, slot.1.bidder, auction.maxPrice⟩ s
    else pure s) s
  let s ← transfer h ⟨auction.rwaToken, h.self, winnerAddress, auction.lotAmount⟩ s
  return s.publish (.AuctionSettled auctionId winnerAddress winningPrice)

def refundAll (auctionId : ℕ) (s : State W) : Except Failure (State W) := do
  let auction ← loadAuction s auctionId
  ensureOpen auction
  let refundUnlockTime := saturatingAdd auction.commitDeadline auction.gracePeriod
  check (refundUnlockTime ≤ s.timestamp) .RefundTooEarly
  let auction := { auction with status := .Refunded }
  let s := s.setAuction h auctionId auction
  let s ← auction.bids.foldlM (fun s refundedBid =>
    transfer h ⟨auction.paymentToken, h.self, refundedBid.bidder, auction.maxPrice⟩ s) s
  let (lotReturned, s) := tryTransfer h ⟨auction.rwaToken, h.self, auction.seller, auction.lotAmount⟩ s
  let s := if lotReturned then s.setAuction h auctionId { auction with lotReclaimed := true }
    else s.publish (.LotReturnFailed auctionId auction.seller auction.lotAmount)
  return s.publish (.AuctionRefunded auctionId auction.bids.length)

def reclaimLot (auctionId : ℕ) (s : State W) : Except Failure (State W) := do
  let auction ← loadAuction s auctionId
  check (auction.status = .Refunded) .ReclaimRequiresRefundedAuction
  check (auction.lotReclaimed = false) .LotAlreadyReclaimed
  let (lotReturned, s) := tryTransfer h ⟨auction.rwaToken, h.self, auction.seller, auction.lotAmount⟩ s
  check (lotReturned = true) .LotTransferFailed
  let s := s.setAuction h auctionId { auction with lotReclaimed := true }
  return s.publish (.LotReclaimed auctionId auction.seller auction.lotAmount)

def getAuction (auctionId : ℕ) (s : State W) : Except Failure Auction := loadAuction s auctionId

end Entrypoints
end SealedStellar
