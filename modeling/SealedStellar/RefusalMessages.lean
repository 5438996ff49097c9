import SealedStellar.Refusals
import SealedStellar.Submission

/-! What the page says of a call that the contract refused when it was simulated: errors.ts and the
mappings of transactions.ts, against the state the call was refused in. -/
namespace SealedStellar.Web
open Indexer

section Settle

inductive SettleFailure where
  | wallet_declined
  | deadline_not_reached
  | already_finalized
  | winner_index_invalid
  | price_not_positive
  | price_exceeds_max
  | winner_mismatch
  | proof_invalid
  | verifier_failed
  | rpc_unreachable
  | submission_failed (detail : String)
  deriving DecidableEq

def describeSettleFailure : SettleFailure → String
  | .wallet_declined => "You declined the signature in your wallet. The auction was not settled."
  | .deadline_not_reached => "Bidding has not closed yet. Settlement opens after the deadline."
  | .already_finalized => "This auction is already settled or refunded."
  | .winner_index_invalid => "The winner slot in the proof bundle is out of range for this auction."
  | .price_not_positive => "The clearing price must be above zero. An auction with fewer than two " ++
      "bids has no second price and can only be refunded."
  | .price_exceeds_max => "The clearing price exceeds the auction max price; this bundle does not " ++
      "match this auction."
  | .winner_mismatch => "The winner address does not match the bid in that slot. Re-check the proof " ++
      "bundle."
  | .proof_invalid => "The proof did not verify on chain for this auction. Re-generate it against " ++
      "this exact auction."
  | .verifier_failed => "The on-chain verifier rejected the proof bytes. Re-export the bundle from " ++
      "the CLI."
  | .rpc_unreachable => "Testnet RPC is not answering. Settlement is safe to retry."
  | .submission_failed detail => "The network rejected the settlement: " ++ detail

def classifySettleContractError (code : ℕ) : Option SettleFailure :=
  if code = auctionErrorCodes .SettleBeforeDeadline then some .deadline_not_reached
  else if code = auctionErrorCodes .AlreadySettled then some .already_finalized
  else if code = auctionErrorCodes .AlreadyRefunded then some .already_finalized
  else if code = auctionErrorCodes .WinnerIndexOutOfRange then some .winner_index_invalid
  else if code = auctionErrorCodes .WinningPriceNotPositive then some .price_not_positive
  else if code = auctionErrorCodes .WinningPriceExceedsMax then some .price_exceeds_max
  else if code = auctionErrorCodes .WinnerAddressMismatch then some .winner_mismatch
  else if code = auctionErrorCodes .ProofInvalid then some .proof_invalid
  else if code = auctionErrorCodes .VerifierCallFailed then some .verifier_failed
  else none

def mapInvocationToSettleFailure : InvocationFailure → SettleFailure
  | .account_missing _ => .submission_failed "the settling account does not exist on testnet"
  | .rpc_unreachable => .rpc_unreachable
  | .wallet_declined => .wallet_declined
  | .prepare_failed detail contractCode =>
    (contractCode.bind classifySettleContractError).getD (.submission_failed detail)
  | .submission_failed detail => .submission_failed detail

end Settle

section Told
variable {W : Type} (h : Host W) (s : State W)

/-- What the operator is told. Only an auction that does not exist has no sentence of its own: the
text of the simulation is passed on, and its code says so. -/
def SettleFailure.Holds (k i : ℕ) (price : ℤ) (winner : Address) (proof : VerifierProof) :
    SettleFailure → Prop
  | .deadline_not_reached => ∃ auction, s.auctions k = some auction ∧
      s.timestamp < auction.commitDeadline
  | .already_finalized => ∃ auction, s.auctions k = some auction ∧ auction.status ≠ .Open
  | .winner_index_invalid => ∃ auction, s.auctions k = some auction ∧ auction.bids.length ≤ i
  | .price_not_positive => price ≤ 0
  | .price_exceeds_max => ∃ auction, s.auctions k = some auction ∧ auction.maxPrice < price
  | .winner_mismatch => ∃ auction bid, s.auctions k = some auction ∧ auction.bids[i]? = some bid ∧
      bid.bidder ≠ winner
  | .proof_invalid => ∃ auction verifier, s.auctions k = some auction ∧ s.verifier = some verifier ∧
      h.verify verifier proof (buildPublicSignals h auction k i price winner) = some false
  | .verifier_failed => ∃ auction, s.auctions k = some auction ∧
      ∀ verifier, s.verifier = some verifier →
        h.verify verifier proof (buildPublicSignals h auction k i price winner) = none
  | .submission_failed detail =>
    parseContractErrorCode detail = some (auctionErrorCodes .AuctionNotFound) ∧ s.auctions k = none
  | .wallet_declined | .rpc_unreachable => False

/-- What an error of place_bid says that has no sentence of its own. -/
def BidCheckFails (k : ℕ) (commitment : U256) (encryptedBid : List UInt8) : AuctionError → Prop
  | .AuctionNotFound => s.auctions k = none
  | .AlreadySettled => ∃ auction, s.auctions k = some auction ∧ auction.status = .Settled
  | .AlreadyRefunded => ∃ auction, s.auctions k = some auction ∧ auction.status = .Refunded
  | .CommitmentIsEmptyMarker => commitment = 0
  | .EncryptedBidTooLarge => maxEncryptedBidBytes < encryptedBid.length
  | _ => False

/-- What the bidder is told. Reasons without a sentence of their own are given by their code. -/
def BidFailure.Holds (k : ℕ) (commitment : U256) (encryptedBid : List UInt8) : BidFailure → Prop
  | .deadline_passed => ∃ auction, s.auctions k = some auction ∧
      auction.commitDeadline ≤ s.timestamp
  | .slots_full => ∃ auction, s.auctions k = some auction ∧ maxBidSlots ≤ auction.bids.length
  | .duplicate_commitment => ∃ auction bid, s.auctions k = some auction ∧ bid ∈ auction.bids ∧
      bid.commitment = commitment
  | .submission_failed detail => ∃ e : AuctionError,
      detail = s!"contract error {auctionErrorCodes e}" ∧ BidCheckFails s k commitment encryptedBid e
  | .wallet_declined | .deposit_uncovered | .rpc_unreachable | .sealing_failed _ => False

def CreateAuctionFailure.Holds (args : CreateArgs) : CreateAuctionFailure → Prop
  | .lot_not_positive => args.lotAmount ≤ 0
  | .price_not_positive => args.maxPrice ≤ 0
  | .price_too_large => u64Max < args.maxPrice
  | .deadline_not_future => args.commitDeadline ≤ s.timestamp
  | .grace_zero => args.gracePeriod = 0
  | .wallet_declined | .rpc_unreachable | .lot_uncovered | .submission_failed _ => False

end Told

section Refusals
variable {W : Type} {h : Host W} {s : State W} {e : AuctionError} {detail : String}

structure Reports (detail : String) (e : AuctionError) : Prop where
  code : parseContractErrorCode detail = some (auctionErrorCodes e)
  noToken : depositFailureMarkers.any (includesLowercase detail) = false

/-- What submitInvocation makes of it. -/
def simulated (detail : String) : InvocationFailure :=
  .prepare_failed detail (parseContractErrorCode detail)

theorem settle_told {k i : ℕ} {price : ℤ} {winner : Address} {proof : VerifierProof}
    (hr : Refused h s (.settle k i price winner proof) e) (hd : Reports detail e) :
    (mapInvocationToSettleFailure (simulated detail)).Holds h s k i price winner proof := by
  rw [simulated, mapInvocationToSettleFailure, hd.code, Option.bind_some]
  cases hr with
  | unknown _ _ htarget hnone =>
    cases htarget
    exact ⟨hd.code, hnone⟩
  | settled _ _ auction htarget _ ha hstatus | refunded _ _ auction htarget _ ha hstatus =>
    cases htarget
    exact ⟨auction, ha, by simp [hstatus]⟩
  | early _ _ _ _ _ auction ha hopen hearly => exact ⟨auction, ha, hearly⟩
  | index _ _ _ _ _ auction ha hdue hindex => exact ⟨auction, ha, hindex⟩
  | price _ _ _ _ _ hprice => exact not_lt.mp hprice
  | priceCap _ _ _ _ _ auction ha hprice => exact ⟨auction, ha, not_le.mp hprice⟩
  | winner _ _ _ _ _ auction bid ha hbid hwinner => exact ⟨auction, bid, ha, hbid, hwinner⟩
  | proof _ _ _ _ _ auction verifier ha hdue hverifier hproof =>
    exact ⟨auction, verifier, ha, hverifier, hproof⟩
  | verifier _ _ _ _ _ auction ha hdue hproof => exact ⟨auction, ha, hproof⟩

theorem bid_told {k : ℕ} {bidder : Address} {commitment : U256} {encryptedBid : List UInt8}
    (hr : Refused h s (.placeBid k bidder commitment encryptedBid) e) (hd : Reports detail e) :
    (mapInvocationToBidFailure (simulated detail)).Holds s k commitment encryptedBid := by
  have hplain : classifyPlaceBidChainError (.simulation_failed detail) = .submission_failed detail := by
    rw [classifyPlaceBidChainError, hd.noToken]
    rfl
  simp only [simulated, mapInvocationToBidFailure, hplain, reduceCtorEq, if_false, hd.code]
  cases hr with
  | unknown _ _ htarget hnone =>
    cases htarget
    exact ⟨.AuctionNotFound, rfl, hnone⟩
  | settled _ _ auction htarget _ ha hstatus =>
    cases htarget
    exact ⟨.AlreadySettled, rfl, auction, ha, hstatus⟩
  | refunded _ _ auction htarget _ ha hstatus =>
    cases htarget
    exact ⟨.AlreadyRefunded, rfl, auction, ha, hstatus⟩
  | bidLate _ _ _ _ auction ha hlate => exact ⟨auction, ha, hlate⟩
  | full _ _ _ _ auction ha hfull => exact ⟨auction, ha, hfull⟩
  | marker => exact ⟨.CommitmentIsEmptyMarker, rfl, rfl⟩
  | duplicate _ _ _ auction bid ha hbid => exact ⟨auction, bid, ha, hbid, rfl⟩
  | tooLarge _ _ _ _ hlarge => exact ⟨.EncryptedBidTooLarge, rfl, not_le.mp hlarge⟩

theorem create_told {args : CreateArgs} (hr : Refused h s (.createAuction args) e)
    (hd : Reports detail e) :
    (mapInvocationToCreateFailure (simulated detail)).Holds s args := by
  have hplain : isLotTransferFailure detail = false := hd.noToken
  simp only [simulated, mapInvocationToCreateFailure, hplain, Bool.false_eq_true, if_false, hd.code,
    Option.bind_some]
  cases hr with
  | unknown _ _ htarget hnone => cases htarget
  | settled _ _ auction htarget | refunded _ _ auction htarget => cases htarget
  | lotAmount _ hlot => exact not_lt.mp hlot
  | maxPrice _ hprice => exact not_lt.mp hprice
  | priceBits _ hprice => exact not_le.mp hprice
  | pastDeadline _ hlate => exact hlate
  | noGrace _ hgrace => exact hgrace

end Refusals

section Retries
variable {W : Type} (h : Host W)

/-- What the page says of a failed call is so in s. It makes no refund and no reclaim. -/
def TellsTruth (s : State W) (failure : InvocationFailure) : Call → Prop
  | .createAuction args => (mapInvocationToCreateFailure failure).Holds s args
  | .placeBid k _ commitment encryptedBid =>
    (mapInvocationToBidFailure failure).Holds s k commitment encryptedBid
  | .settle k i price winner proof =>
    (mapInvocationToSettleFailure failure).Holds h s k i price winner proof
  | .refundAll _ | .reclaimLot _ => True

def SuggestsRetry (failure : InvocationFailure) : Call → Prop
  | .createAuction _ => False
  | .placeBid .. => mapInvocationToBidFailure failure = .submission_failed "contract error 1"
  | .settle .. => mapInvocationToSettleFailure failure = .deadline_not_reached ∨
      ∃ detail, mapInvocationToSettleFailure failure = .submission_failed detail
  | .refundAll _ | .reclaimLot _ => True

variable {h} {s : State W} {c : Call} {e : AuctionError} {detail : String}

theorem refusal_told (hr : Refused h s c e) (hd : Reports detail e) :
    TellsTruth h s (simulated detail) c := by
  cases c with
  | createAuction args => exact create_told hr hd
  | placeBid k bidder commitment encryptedBid => exact bid_told hr hd
  | settle k i price winner proof => exact settle_told hr hd
  | refundAll k | reclaimLot k => trivial

theorem suggestsRetry_of_passing (hr : Refused h s c e) (hd : Reports detail e) (he : e.Passing) :
    SuggestsRetry (simulated detail) c := by
  cases c with
  | createAuction args => cases hr <;> simp_all [AuctionError.Passing, Call.target]
  | placeBid k bidder commitment encryptedBid =>
    have hunknown : e = .AuctionNotFound := by cases hr <;> simp_all [AuctionError.Passing]
    have hplain : classifyPlaceBidChainError (.simulation_failed detail) =
        .submission_failed detail := by
      rw [classifyPlaceBidChainError, hd.noToken]
      rfl
    simp only [SuggestsRetry, simulated, mapInvocationToBidFailure, hplain, reduceCtorEq, if_false,
      hd.code, hunknown]
    rfl
  | settle k i price winner proof =>
    have hcases : e = .AuctionNotFound ∨ e = .SettleBeforeDeadline := by
      cases hr <;> simp_all [AuctionError.Passing]
    rw [SuggestsRetry, simulated, mapInvocationToSettleFailure, hd.code, Option.bind_some]
    obtain rfl | rfl := hcases
    · exact .inr ⟨detail, rfl⟩
    · exact .inl rfl
  | refundAll k | reclaimLot k => trivial

end Retries

/-- A call that the contract refuses in the simulation of a state: what the page says of it is so in
that state, and where the page does not leave a retry open, the same call succeeds in no later state,
whoever signs it. -/
theorem told_reasons_true {W : Type} (h : Host W) (g : Genesis W) (before : List (Action W))
    (signers : List Address) (c : Call) (e : AuctionError) (detail : String)
    (hrefused : exec h signers c (runFrom h g before) = .error (.error e)) (hd : Reports detail e) :
    TellsTruth h (runFrom h g before) (simulated detail) c ∧
    (¬SuggestsRetry (simulated detail) c → ∀ (after : List (Action W)) (signers' : List Address)
      (s' : State W), exec h signers' c (runFrom h g (before ++ after)) ≠ .ok s') := by
  have hr := exec_refused hrefused
  refine ⟨refusal_told hr hd, fun hretry after signers' s' => refused_stays hr fun he => ?_⟩
  exact hretry (suggestsRetry_of_passing hr hd he)

theorem settled_reports : Reports "HostError: Error(Contract, #7)" .AlreadySettled := by
  have hlower : "HostError: Error(Contract, #7)".toLower.toList =
      "hosterror: error(contract, #7)".toList := by
    change ("HostError: Error(Contract, #7)".map Char.toLower).toList = _
    rw [String.toList_map]
    decide
  refine ⟨by decide, ?_⟩
  simp only [depositFailureMarkers, List.any_cons, List.any_nil, includesLowercase, hlower]
  decide

/-- A second settlement: the page says the auction is final, and it is. -/
theorem told_reasons_true_at :
    let s := runFrom markHost markGenesis
      (markActions (.account (keyOf 3)) ++ [.call [] (.settle 1 0 2 (.account (keyOf 3)) noProof)])
    let failure := simulated "HostError: Error(Contract, #7)"
    (mapInvocationToSettleFailure failure = .already_finalized ∧
      ∃ auction, s.auctions 1 = some auction ∧ auction.status ≠ .Open) ∧
    ∀ (after : List (Action SacState)) (signers : List Address) (s' : State SacState),
      exec markHost signers (.settle 1 0 2 (.account (keyOf 3)) noProof) (runFrom markHost markGenesis
        ((markActions (.account (keyOf 3)) ++
          [.call [] (.settle 1 0 2 (.account (keyOf 3)) noProof)]) ++ after)) ≠ .ok s' := by
  have htold : mapInvocationToSettleFailure (simulated "HostError: Error(Contract, #7)") =
      .already_finalized := by decide
  obtain ⟨hso, hnever⟩ := told_reasons_true markHost markGenesis
    (markActions (.account (keyOf 3)) ++ [.call [] (.settle 1 0 2 (.account (keyOf 3)) noProof)]) []
    (.settle 1 0 2 (.account (keyOf 3)) noProof) .AlreadySettled "HostError: Error(Contract, #7)"
    (failureOf_eq_some (by decide)) settled_reports
  rw [TellsTruth, htold] at hso
  refine ⟨⟨htold, hso⟩, hnever ?_⟩
  rw [SuggestsRetry, htold]
  simp

end SealedStellar.Web
