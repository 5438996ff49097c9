import SealedStellar.IndexerChain
import SealedStellar.System

/-! web/src/lib/transactions.ts and errors.ts: how the page submits a bid or a new auction, and what
it makes of a failure. -/
namespace SealedStellar.Web
open Indexer

section Failures

inductive InvocationFailure where
  | account_missing (detail : String)
  | rpc_unreachable
  | prepare_failed (detail : String) (contractCode : Option ℕ)
  | wallet_declined
  | submission_failed (detail : String)
  deriving DecidableEq

inductive BidFailure where
  | wallet_declined
  | deadline_passed
  | slots_full
  | duplicate_commitment
  | deposit_uncovered
  | rpc_unreachable
  | sealing_failed (detail : String)
  | submission_failed (detail : String)
  deriving DecidableEq

inductive CreateAuctionFailure where
  | wallet_declined
  | rpc_unreachable
  | lot_uncovered
  | lot_not_positive
  | price_not_positive
  | price_too_large
  | deadline_not_future
  | grace_zero
  | submission_failed (detail : String)
  deriving DecidableEq

def auctionErrorCodes : AuctionError → ℕ
  | .AuctionNotFound => 1
  | .LotAmountNotPositive => 2
  | .MaxPriceNotPositive => 3
  | .MaxPriceExceeds64Bits => 4
  | .DeadlineNotInFuture => 5
  | .GracePeriodZero => 6
  | .AlreadySettled => 7
  | .AlreadyRefunded => 8
  | .BidAfterDeadline => 9
  | .BidsFull => 10
  | .DuplicateCommitment => 11
  | .CommitmentIsEmptyMarker => 12
  | .EncryptedBidTooLarge => 13
  | .SettleBeforeDeadline => 14
  | .WinnerIndexOutOfRange => 15
  | .WinningPriceNotPositive => 16
  | .WinningPriceExceedsMax => 17
  | .WinnerAddressMismatch => 18
  | .ProofInvalid => 19
  | .VerifierCallFailed => 20
  | .RefundTooEarly => 21
  | .ReclaimRequiresRefundedAuction => 22
  | .LotAlreadyReclaimed => 23
  | .LotTransferFailed => 24

/-- `detail.toLowerCase().includes(marker)`; none of the markers has a letter that is the lowercase
of a letter outside ASCII. -/
def includesLowercase (detail marker : String) : Bool :=
  decide (marker.toList <:+: detail.toLower.toList)

def depositFailureMarkers : List String :=
  ["trustline entry is missing", "balance is not sufficient",
    "resulting balance is not within the allowed range"]

def classifyPlaceBidChainError : ChainError → BidFailure
  | .rpc_unreachable _ => .rpc_unreachable
  | .contract_error code =>
    if code = auctionErrorCodes .BidAfterDeadline then .deadline_passed
    else if code = auctionErrorCodes .BidsFull then .slots_full
    else if code = auctionErrorCodes .DuplicateCommitment then .duplicate_commitment
    else .submission_failed s!"contract error {code}"
  | .simulation_failed detail =>
    if depositFailureMarkers.any (includesLowercase detail) then .deposit_uncovered
    else .submission_failed detail
  | .decode_failed detail => .submission_failed detail

def isLotTransferFailure (detail : String) : Bool :=
  depositFailureMarkers.any (includesLowercase detail)

def classifyCreateAuctionContractError (code : ℕ) : Option CreateAuctionFailure :=
  if code = auctionErrorCodes .LotAmountNotPositive then some .lot_not_positive
  else if code = auctionErrorCodes .MaxPriceNotPositive then some .price_not_positive
  else if code = auctionErrorCodes .MaxPriceExceeds64Bits then some .price_too_large
  else if code = auctionErrorCodes .DeadlineNotInFuture then some .deadline_not_future
  else if code = auctionErrorCodes .GracePeriodZero then some .grace_zero
  else none

def mapInvocationToBidFailure : InvocationFailure → BidFailure
  | .account_missing _ => .submission_failed "bidder account does not exist on testnet"
  | .rpc_unreachable => .rpc_unreachable
  | .wallet_declined => .wallet_declined
  | .prepare_failed detail contractCode =>
    let textClassified := classifyPlaceBidChainError (.simulation_failed detail)
    if textClassified = .deposit_uncovered then textClassified
    else
      match contractCode with
      | some code => classifyPlaceBidChainError (.contract_error code)
      | none => textClassified
  | .submission_failed detail => .submission_failed detail

def mapInvocationToCreateFailure : InvocationFailure → CreateAuctionFailure
  | .account_missing _ => .submission_failed "the seller account does not exist on testnet"
  | .rpc_unreachable => .rpc_unreachable
  | .wallet_declined => .wallet_declined
  | .prepare_failed detail contractCode =>
    if isLotTransferFailure detail then .lot_uncovered
    else (contractCode.bind classifyCreateAuctionContractError).getD (.submission_failed detail)
  | .submission_failed detail => .submission_failed detail

def describeBidFailure (depositText : String) : BidFailure → String
  | .wallet_declined => "You declined the signature in your wallet. Nothing was sent."
  | .deadline_passed => "Bidding closed while you were sealing. Your deposit was not taken."
  | .slots_full => "All 8 slots filled before your bid landed."
  | .duplicate_commitment =>
    "This exact commitment already exists. Re-open the dialog to reseal with a fresh salt."
  | .deposit_uncovered => "Your balance can’t cover the " ++ depositText ++ " deposit."
  | .rpc_unreachable => "Testnet RPC isn’t answering. Your bid is safe to retry."
  | .sealing_failed detail => "Sealing failed before anything left this tab: " ++ detail
  | .submission_failed detail => "The network rejected the transaction: " ++ detail

def describeCreateAuctionFailure : CreateAuctionFailure → String
  | .wallet_declined => "You declined the signature in your wallet. The auction was not created."
  | .rpc_unreachable => "Testnet RPC is not answering. Creating the auction is safe to retry."
  | .lot_uncovered => "Your wallet cannot cover the lot. It must hold the lot asset and a " ++
      "trustline for it before you can escrow it."
  | .lot_not_positive => "The lot amount must be above zero."
  | .price_not_positive => "The max price must be above zero."
  | .price_too_large => "The max price is too large; it must fit in 64 bits (at most " ++
      "18446744073709551615)."
  | .deadline_not_future => "The bid window must end in the future. Increase the window length."
  | .grace_zero => "The grace period must be above zero."
  | .submission_failed detail => "The network rejected the auction: " ++ detail

end Failures

section Invocation

inductive Submission where
  | placeBid (auctionId : ℕ) (bidderAddress : Address) (commitment : U256)
      (encryptedBid : List UInt8)
  | createAuction (params : CreateArgs)

def Submission.sourceAddress : Submission → Address
  | .placeBid _ bidderAddress _ _ => bidderAddress
  | .createAuction params => params.seller

def Submission.operation : Submission → Call
  | .placeBid auctionId bidderAddress commitment encryptedBid =>
    .placeBid auctionId bidderAddress commitment encryptedBid
  | .createAuction params => .createAuction params

structure Transaction where
  source : Address
  seqNum : ℕ
  maxTime : ℕ
  operation : Call

def txTimeoutSeconds : ℕ := 60
def confirmPollLimit : ℕ := 30

/-- TransactionBuilder takes the sequence number after the account's. -/
def Submission.builtTransaction (submission : Submission) (accountSequence nowSeconds : ℕ) :
    Transaction where
  source := submission.sourceAddress
  seqNum := accountSequence + 1
  maxTime := nowSeconds + txTimeoutSeconds
  operation := submission.operation

structure SendResponse where
  status : String
  hash : String

inductive Stage where
  | lookup
  | preparing (builtTransaction : Transaction)
  | signing (preparedTransaction : Transaction)
  | sending
  | confirming (txHash : String) (pollIndex consecutivePollFailures : ℕ)
  | returned (outcome : Except InvocationFailure String)

/-- What it waited for. The wallet signs the transaction it is shown or declines; sent is none when
sendTransaction throws. -/
inductive Answer where
  | account (sourceAccount : Except String ℕ) (nowSeconds : ℕ)
  | prepared (prepareResult : Except String Unit)
  | signed (isOk : Bool)
  | sent (sendResponse : Option SendResponse)
  | polled (statusResult : Except String String)

def nextPoll (txHash : String) (pollIndex consecutivePollFailures : ℕ) : Stage :=
  if pollIndex < confirmPollLimit then .confirming txHash pollIndex consecutivePollFailures
  else .returned (.error (.submission_failed "confirmation timed out; check the explorer"))

def polled (txHash : String) (pollIndex consecutivePollFailures : ℕ) :
    Except String String → Stage
  | .error error =>
    if 5 ≤ consecutivePollFailures + 1 then
      .returned (.error (.submission_failed ("confirmation polling failed: " ++ error)))
    else nextPoll txHash (pollIndex + 1) (consecutivePollFailures + 1)
  | .ok status =>
    if status = "SUCCESS" then .returned (.ok txHash)
    else if status = "FAILED" then
      .returned (.error (.submission_failed "transaction failed on chain; retry for the reason"))
    else nextPoll txHash (pollIndex + 1) 0

def Submission.resume (submission : Submission) : Stage → Answer → Stage
  | .lookup, .account (.error detail) _ =>
    .returned (.error
      (if includesLowercase detail "not found" then .account_missing detail else .rpc_unreachable))
  | .lookup, .account (.ok accountSequence) nowSeconds =>
    .preparing (submission.builtTransaction accountSequence nowSeconds)
  | .preparing _, .prepared (.error detail) =>
    .returned (.error (.prepare_failed detail (parseContractErrorCode detail)))
  | .preparing builtTransaction, .prepared (.ok _) => .signing builtTransaction
  | .signing _, .signed false => .returned (.error .wallet_declined)
  | .signing _, .signed true => .sending
  | .sending, .sent none => .returned (.error .rpc_unreachable)
  | .sending, .sent (some sendResponse) =>
    if sendResponse.status = "ERROR" then
      .returned (.error (.submission_failed ("send status " ++ sendResponse.status)))
    else nextPoll sendResponse.hash 0 0
  | .confirming txHash pollIndex consecutivePollFailures, .polled statusResult =>
    polled txHash pollIndex consecutivePollFailures statusResult
  | stage, _ => stage

end Invocation

section Returns
variable {submission : Submission} {f : InvocationFailure}

theorem classifyContractError_reachable (code : ℕ) :
    classifyPlaceBidChainError (.contract_error code) ≠ .rpc_unreachable := by
  rw [classifyPlaceBidChainError]
  split_ifs <;> simp

theorem classifySimulation_reachable (detail : String) :
    classifyPlaceBidChainError (.simulation_failed detail) ≠ .rpc_unreachable := by
  rw [classifyPlaceBidChainError]
  split_ifs <;> simp

theorem mapInvocationToBidFailure_unreachable :
    mapInvocationToBidFailure f = .rpc_unreachable ↔ f = .rpc_unreachable := by
  cases f with
  | prepare_failed detail contractCode =>
    simp only [mapInvocationToBidFailure, reduceCtorEq, iff_false]
    split
    · exact classifySimulation_reachable detail
    · cases contractCode with
      | none => exact classifySimulation_reachable detail
      | some code => exact classifyContractError_reachable code
  | _ => simp [mapInvocationToBidFailure]

theorem classifyCreateAuction_reachable (code : ℕ) :
    classifyCreateAuctionContractError code ≠ some .rpc_unreachable := by
  rw [classifyCreateAuctionContractError]
  split_ifs <;> simp

theorem mapInvocationToCreateFailure_unreachable :
    mapInvocationToCreateFailure f = .rpc_unreachable ↔ f = .rpc_unreachable := by
  cases f with
  | prepare_failed detail contractCode =>
    simp only [mapInvocationToCreateFailure, reduceCtorEq, iff_false]
    split
    · simp
    · cases contractCode with
      | none => simp
      | some code =>
        have hcode := classifyCreateAuction_reachable code
        cases hmapped : classifyCreateAuctionContractError code with
        | none => simp [hmapped]
        | some mapped => simpa [hmapped] using hcode
  | _ => simp [mapInvocationToCreateFailure]

theorem unreachable_told (depositText : String) :
    "safe to retry".toList <:+: (describeBidFailure depositText .rpc_unreachable).toList ∧
      "safe to retry".toList <:+: (describeCreateAuctionFailure .rpc_unreachable).toList := by
  have hbid : "safe to retry".toList <:+:
      "Testnet RPC isn’t answering. Your bid is safe to retry.".toList := by decide +kernel
  have hcreate : "safe to retry".toList <:+:
      "Testnet RPC is not answering. Creating the auction is safe to retry.".toList := by
    decide +kernel
  exact ⟨hbid, hcreate⟩

inductive Stage.Advance (submission : Submission) : Stage → Answer → Stage → Prop
  | ignored (stage : Stage) (answer : Answer) : Advance submission stage answer stage
  | built (accountSequence nowSeconds : ℕ) :
      Advance submission .lookup (.account (.ok accountSequence) nowSeconds)
        (.preparing (submission.builtTransaction accountSequence nowSeconds))
  | prepared (tx : Transaction) :
      Advance submission (.preparing tx) (.prepared (.ok ())) (.signing tx)
  | signed (tx : Transaction) : Advance submission (.signing tx) (.signed true) .sending
  | waits (stage : Stage) (answer : Answer) (txHash : String) (pollIndex fails : ℕ)
      (hsent : stage = .sending ∨ ∃ i n, stage = .confirming txHash i n) :
      Advance submission stage answer (.confirming txHash pollIndex fails)
  | confirmed (txHash : String) (pollIndex fails : ℕ) :
      Advance submission (.confirming txHash pollIndex fails) (.polled (.ok "SUCCESS"))
        (.returned (.ok txHash))
  | unread (detail : String) (nowSeconds : ℕ) :
      Advance submission .lookup (.account (.error detail) nowSeconds)
        (.returned (.error .rpc_unreachable))
  | threw : Advance submission .sending (.sent none) (.returned (.error .rpc_unreachable))
  | failed (stage : Stage) (answer : Answer) (failure : InvocationFailure)
      (hwaits : ∀ outcome, stage ≠ .returned outcome) (hfailure : failure ≠ .rpc_unreachable) :
      Advance submission stage answer (.returned (.error failure))

theorem nextPoll_cases (txHash : String) (pollIndex fails : ℕ) :
    nextPoll txHash pollIndex fails = .confirming txHash pollIndex fails ∨
      ∃ detail, nextPoll txHash pollIndex fails =
        .returned (.error (.submission_failed detail)) := by
  rw [nextPoll]
  split
  · exact .inl rfl
  · exact .inr ⟨_, rfl⟩

theorem nextPoll_advance {stage : Stage} {answer : Answer} {txHash : String} (pollIndex fails : ℕ)
    (hsent : stage = .sending ∨ ∃ i n, stage = .confirming txHash i n) :
    Stage.Advance submission stage answer (nextPoll txHash pollIndex fails) := by
  have hwaits : ∀ outcome, stage ≠ .returned outcome := by
    intro outcome
    obtain rfl | ⟨i, n, rfl⟩ := hsent <;> simp
  cases nextPoll_cases txHash pollIndex fails with
  | inl hwaiting =>
    rw [hwaiting]
    exact .waits stage answer txHash pollIndex fails hsent
  | inr htimeout =>
    obtain ⟨detail, htimeout⟩ := htimeout
    rw [htimeout]
    exact .failed stage answer _ hwaits (by simp)

theorem polled_advance (txHash : String) (pollIndex fails : ℕ)
    (statusResult : Except String String) :
    Stage.Advance submission (.confirming txHash pollIndex fails) (.polled statusResult)
      (polled txHash pollIndex fails statusResult) := by
  cases statusResult with
  | error error =>
    rw [polled]
    split
    · exact .failed _ _ _ (by simp) (by simp)
    · exact nextPoll_advance _ _ (.inr ⟨_, _, rfl⟩)
  | ok status =>
    rw [polled]
    split_ifs with hsuccess hfailed
    · rw [hsuccess]
      exact .confirmed txHash pollIndex fails
    · exact .failed _ _ _ (by simp) (by simp)
    · exact nextPoll_advance _ _ (.inr ⟨_, _, rfl⟩)

/-- So rpc_unreachable comes of an account that cannot be read, and of a sendTransaction that
throws. -/
theorem resume_advance (submission : Submission) (stage : Stage) (answer : Answer) :
    Stage.Advance submission stage answer (submission.resume stage answer) := by
  rw [Submission.resume.eq_def]
  split
  case h_1 detail nowSeconds =>
    split
    · exact .failed _ _ _ (by simp) (by simp)
    · exact .unread detail nowSeconds
  case h_2 accountSequence nowSeconds => exact .built accountSequence nowSeconds
  case h_3 => exact .failed _ _ _ (by simp) (by simp)
  case h_4 tx _ => exact .prepared tx
  case h_5 => exact .failed _ _ _ (by simp) (by simp)
  case h_6 tx => exact .signed tx
  case h_7 => exact .threw
  case h_8 =>
    split
    · exact .failed _ _ _ (by simp) (by simp)
    · exact nextPoll_advance _ _ (.inl rfl)
  case h_9 => exact polled_advance ..
  case h_10 => exact .ignored _ _

end Returns
end SealedStellar.Web
