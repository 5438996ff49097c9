import SealedStellar.LifecycleInvariant
import SealedStellar.AddressLeaf

/-! Which of the contract's errors a call can get past by being made again. -/
namespace SealedStellar
open Checked
variable {W : Type} {h : Host W} {s : State W} {c : Call} {e : AuctionError}

section Reasons

def Call.target : Call → Option ℕ
  | .createAuction _ => none
  | .placeBid auctionId _ _ _ => some auctionId
  | .settle auctionId _ _ _ _ => some auctionId
  | .refundAll auctionId => some auctionId
  | .reclaimLot auctionId => some auctionId

def Call.NeedsOpen : Call → Prop
  | .createAuction _ | .reclaimLot _ => False
  | _ => True

/-- What holds in s when c ends with an error of the contract: one case for each check. -/
inductive Refused (h : Host W) (s : State W) : Call → AuctionError → Prop
  | lotAmount (args : CreateArgs) (hlot : ¬0 < args.lotAmount) :
      Refused h s (.createAuction args) .LotAmountNotPositive
  | maxPrice (args : CreateArgs) (hprice : ¬0 < args.maxPrice) :
      Refused h s (.createAuction args) .MaxPriceNotPositive
  | priceBits (args : CreateArgs) (hprice : ¬args.maxPrice ≤ u64Max) :
      Refused h s (.createAuction args) .MaxPriceExceeds64Bits
  | pastDeadline (args : CreateArgs) (hlate : args.commitDeadline ≤ s.timestamp) :
      Refused h s (.createAuction args) .DeadlineNotInFuture
  | noGrace (args : CreateArgs) (hgrace : args.gracePeriod = 0) :
      Refused h s (.createAuction args) .GracePeriodZero
  | unknown (c : Call) (k : ℕ) (htarget : c.target = some k) (hnone : s.auctions k = none) :
      Refused h s c .AuctionNotFound
  | settled (c : Call) (k : ℕ) (auction : Auction) (htarget : c.target = some k) (hopen : c.NeedsOpen)
      (ha : s.auctions k = some auction) (hstatus : auction.status = .Settled) :
      Refused h s c .AlreadySettled
  | refunded (c : Call) (k : ℕ) (auction : Auction) (htarget : c.target = some k)
      (hopen : c.NeedsOpen) (ha : s.auctions k = some auction)
      (hstatus : auction.status = .Refunded) : Refused h s c .AlreadyRefunded
  | bidLate (k : ℕ) (bidder : Address) (commitment : U256) (encryptedBid : List UInt8)
      (auction : Auction) (ha : s.auctions k = some auction)
      (hlate : auction.commitDeadline ≤ s.timestamp) :
      Refused h s (.placeBid k bidder commitment encryptedBid) .BidAfterDeadline
  | full (k : ℕ) (bidder : Address) (commitment : U256) (encryptedBid : List UInt8)
      (auction : Auction) (ha : s.auctions k = some auction)
      (hfull : maxBidSlots ≤ auction.bids.length) :
      Refused h s (.placeBid k bidder commitment encryptedBid) .BidsFull
  | marker (k : ℕ) (bidder : Address) (encryptedBid : List UInt8) :
      Refused h s (.placeBid k bidder 0 encryptedBid) .CommitmentIsEmptyMarker
  | duplicate (k : ℕ) (bidder : Address) (encryptedBid : List UInt8) (auction : Auction) (bid : Bid)
      (ha : s.auctions k = some auction) (hbid : bid ∈ auction.bids) :
      Refused h s (.placeBid k bidder bid.commitment encryptedBid) .DuplicateCommitment
  | tooLarge (k : ℕ) (bidder : Address) (commitment : U256) (encryptedBid : List UInt8)
      (hlarge : ¬encryptedBid.length ≤ maxEncryptedBidBytes) :
      Refused h s (.placeBid k bidder commitment encryptedBid) .EncryptedBidTooLarge
  | early (k i : ℕ) (price : ℤ) (winner : Address) (proof : VerifierProof) (auction : Auction)
      (ha : s.auctions k = some auction) (hopen : auction.status = .Open)
      (hearly : s.timestamp < auction.commitDeadline) :
      Refused h s (.settle k i price winner proof) .SettleBeforeDeadline
  | index (k i : ℕ) (price : ℤ) (winner : Address) (proof : VerifierProof) (auction : Auction)
      (ha : s.auctions k = some auction) (hdue : auction.commitDeadline ≤ s.timestamp)
      (hindex : auction.bids.length ≤ i) :
      Refused h s (.settle k i price winner proof) .WinnerIndexOutOfRange
  | price (k i : ℕ) (price : ℤ) (winner : Address) (proof : VerifierProof) (hprice : ¬0 < price) :
      Refused h s (.settle k i price winner proof) .WinningPriceNotPositive
  | priceCap (k i : ℕ) (price : ℤ) (winner : Address) (proof : VerifierProof) (auction : Auction)
      (ha : s.auctions k = some auction) (hprice : ¬price ≤ auction.maxPrice) :
      Refused h s (.settle k i price winner proof) .WinningPriceExceedsMax
  | winner (k i : ℕ) (price : ℤ) (winner : Address) (proof : VerifierProof) (auction : Auction)
      (bid : Bid) (ha : s.auctions k = some auction) (hbid : auction.bids[i]? = some bid)
      (hwinner : bid.bidder ≠ winner) :
      Refused h s (.settle k i price winner proof) .WinnerAddressMismatch
  | proof (k i : ℕ) (price : ℤ) (winner : Address) (proof : VerifierProof) (auction : Auction)
      (verifier : Address) (ha : s.auctions k = some auction)
      (hdue : auction.commitDeadline ≤ s.timestamp) (hverifier : s.verifier = some verifier)
      (hproof : h.verify verifier proof (buildPublicSignals h auction k i price winner) = some false) :
      Refused h s (.settle k i price winner proof) .ProofInvalid
  | verifier (k i : ℕ) (price : ℤ) (winner : Address) (proof : VerifierProof) (auction : Auction)
      (ha : s.auctions k = some auction) (hdue : auction.commitDeadline ≤ s.timestamp)
      (hproof : ∀ verifier, s.verifier = some verifier →
        h.verify verifier proof (buildPublicSignals h auction k i price winner) = none) :
      Refused h s (.settle k i price winner proof) .VerifierCallFailed
  | refundEarly (k : ℕ) : Refused h s (.refundAll k) .RefundTooEarly
  | unrefunded (k : ℕ) : Refused h s (.reclaimLot k) .ReclaimRequiresRefundedAuction
  | reclaimed (k : ℕ) (auction : Auction) (ha : s.auctions k = some auction)
      (hreclaimed : auction.lotReclaimed = true) : Refused h s (.reclaimLot k) .LotAlreadyReclaimed
  | untransferred (k : ℕ) : Refused h s (.reclaimLot k) .LotTransferFailed

end Reasons

section Inversion
variable {signers : List Address}

theorem check_eq_error {p : Prop} [Decidable p] {e e' : AuctionError} :
    check p e = .error (.error e') ↔ ¬p ∧ e = e' := by
  rw [check, ensure_eq_error, Failure.error.injEq]

theorem requireAuth_traps {address : Address} : requireAuth signers address ≠ .error (.error e) := by
  rw [requireAuth, ne_eq, ensure_eq_error]
  simp

theorem transfer_traps (m : TokenMove) (s : State W) : transfer h m s ≠ .error (.error e) := by
  rw [transfer]
  split <;> simp

theorem pure_traps {α : Type} (a : α) : (pure a : Except Failure α) ≠ .error (.error e) := nofun

theorem loadAuction_eq_error {k : ℕ} :
    loadAuction s k = .error (.error e) ↔ s.auctions k = none ∧ e = .AuctionNotFound := by
  rw [loadAuction]
  cases s.auctions k <;> simp [okOr, eq_comm]

theorem ensureOpen_eq_error {auction : Auction} : ensureOpen auction = .error (.error e) ↔
    (auction.status = .Settled ∧ e = .AlreadySettled) ∨
      (auction.status = .Refunded ∧ e = .AlreadyRefunded) := by
  cases hs : auction.status <;> simp [ensureOpen, hs, eq_comm]

theorem foldlM_traps {α : Type} {f : State W → α → Except Failure (State W)}
    (hf : ∀ s a, f s a ≠ .error (.error e)) (l : List α) (s : State W) :
    l.foldlM f s ≠ .error (.error e) := by
  induction l generalizing s with
  | nil => exact pure_traps s
  | cons a l ih =>
    rw [List.foldlM_cons, ne_eq, bind_eq_error]
    intro he
    obtain he | ⟨s', -, he⟩ := he
    · exact hf s a he
    · exact ih s' he

theorem opened_refused {k : ℕ} {α : Type} {rest : Auction → Except Failure α}
    (htarget : c.target = some k) (hopen : c.NeedsOpen)
    (hrest : ∀ auction, s.auctions k = some auction → auction.status = .Open →
      rest auction = .error (.error e) → Refused h s c e)
    (he : (do
      let auction ← loadAuction s k
      ensureOpen auction
      rest auction) = .error (.error e)) : Refused h s c e := by
  simp only [bind_eq_error, loadAuction_eq_error, loadAuction_eq_ok, ensureOpen_eq_error,
    ensureOpen_eq_ok, exists_const] at he
  obtain ⟨hnone, rfl⟩ | ⟨auction, ha, (⟨hs, rfl⟩ | ⟨hs, rfl⟩) | ⟨hs, he⟩⟩ := he
  · exact .unknown c k htarget hnone
  · exact .settled c k auction htarget hopen ha hs
  · exact .refunded c k auction htarget hopen ha hs
  · exact hrest auction ha hs he

theorem createAuction_refused {args : CreateArgs}
    (he : createAuction h signers args s = .error (.error e)) :
    Refused h s (.createAuction args) e := by
  simp only [createAuction, bind_eq_error, requireAuth_traps, check_eq_error, ensure_eq_error,
    transfer_traps, pure_traps, reduceCtorEq, and_false, exists_false, or_false, false_or,
    exists_and_right, ne_eq, not_not] at he
  obtain ⟨_, ⟨hlot, rfl⟩ | ⟨_, ⟨hprice, rfl⟩ | ⟨_, ⟨hbits, rfl⟩ |
    ⟨_, ⟨hlate, rfl⟩ | ⟨_, hgrace, rfl⟩⟩⟩⟩⟩ := he
  · exact .lotAmount args hlot
  · exact .maxPrice args hprice
  · exact .priceBits args hbits
  · exact .pastDeadline args (not_lt.mp hlate)
  · exact .noGrace args hgrace

theorem placeBid_refused {k : ℕ} {bidder : Address} {commitment : U256} {encryptedBid : List UInt8}
    (he : placeBid h signers k bidder commitment encryptedBid s = .error (.error e)) :
    Refused h s (.placeBid k bidder commitment encryptedBid) e := by
  rw [placeBid, bind_eq_error] at he
  obtain he | ⟨_, -, he⟩ := he
  · exact absurd he requireAuth_traps
  refine opened_refused rfl trivial (fun auction ha hopen he => ?_) he
  simp only [bind_eq_error, check_eq_error, transfer_traps, pure_traps, and_false, exists_false,
    or_false] at he
  obtain ⟨hlate, rfl⟩ | ⟨_, -, ⟨hfull, rfl⟩ | ⟨_, -, ⟨hmarker, rfl⟩ | ⟨_, -, ⟨hduplicate, rfl⟩ |
    ⟨_, -, hlarge, rfl⟩⟩⟩⟩ := he
  · exact .bidLate k bidder commitment encryptedBid auction ha (not_lt.mp hlate)
  · exact .full k bidder commitment encryptedBid auction ha (not_lt.mp hfull)
  · rw [not_not] at hmarker
    rw [hmarker]
    exact .marker k bidder encryptedBid
  · push Not at hduplicate
    obtain ⟨bid, hbid, rfl⟩ := hduplicate
    exact .duplicate k bidder encryptedBid auction bid ha hbid
  · exact .tooLarge k bidder commitment encryptedBid hlarge

theorem settle_refused {k i : ℕ} {price : ℤ} {winner : Address} {proof : VerifierProof}
    (he : settle h k i price winner proof s = .error (.error e)) :
    Refused h s (.settle k i price winner proof) e := by
  refine opened_refused rfl trivial (fun auction ha hopen he => ?_) he
  have hpaid : ∀ (m : TokenMove) (p : Prop) [Decidable p] (s : State W),
      (if p then transfer h m s else pure s) ≠ .error (.error e) := by
    intro m p _ s
    split
    · exact transfer_traps m s
    · exact pure_traps s
  have hlosers : ∀ (l : List (Bid × ℕ)) (s : State W), l.foldlM (fun s slot =>
      if slot.2 ≠ i then
        transfer h ⟨auction.paymentToken, h.self, slot.1.bidder, auction.maxPrice⟩ s
      else pure s) s ≠ .error (.error e) := fun l s => foldlM_traps (fun s slot => hpaid _ _ s) l s
  simp only [bind_eq_error, check_eq_error, check_eq_ok, okOr_eq_error, okOr_eq_ok, transfer_traps,
    hpaid, hlosers, pure_traps, and_false, exists_false, or_false, exists_const,
    Failure.error.injEq] at he
  obtain ⟨hearly, rfl⟩ | ⟨hdue, ⟨hindex, rfl⟩ | ⟨-, ⟨hprice, rfl⟩ | ⟨-, ⟨hcap, rfl⟩ | ⟨-, he⟩⟩⟩⟩ := he
  · exact .early k i price winner proof auction ha hopen (not_le.mp hearly)
  · exact .index k i price winner proof auction ha hdue (not_lt.mp hindex)
  · exact .price k i price winner proof hprice
  · exact .priceCap k i price winner proof auction ha hcap
  · obtain ⟨hnone, rfl⟩ | ⟨bid, hbid, ⟨hwinner, rfl⟩ | ⟨-, he⟩⟩ := he
    · exact .index k i price winner proof auction ha hdue (List.getElem?_eq_none_iff.mp hnone)
    · exact .winner k i price winner proof auction bid ha hbid hwinner
    · obtain ⟨hnone, rfl⟩ | ⟨verifier, hverifier, hproof⟩ := he
      · refine .verifier k i price winner proof auction ha hdue fun verifier hverifier => ?_
        rw [hnone] at hverifier
        cases hverifier
      · cases hverified : h.verify verifier proof (buildPublicSignals h auction k i price winner) with
        | none =>
          rw [hverified] at hproof
          cases hproof
          refine .verifier k i price winner proof auction ha hdue fun found hfound => ?_
          rw [hverifier] at hfound
          cases hfound
          exact hverified
        | some verdict =>
          rw [hverified] at hproof
          cases verdict with
          | false =>
            cases hproof
            exact .proof k i price winner proof auction verifier ha hdue hverifier hverified
          | true => cases hproof

theorem refundAll_refused {k : ℕ} (he : refundAll h k s = .error (.error e)) :
    Refused h s (.refundAll k) e := by
  refine opened_refused rfl trivial (fun auction ha hopen he => ?_) he
  have hdeposits : ∀ (l : List Bid) (s : State W), l.foldlM (fun s refundedBid =>
      transfer h ⟨auction.paymentToken, h.self, refundedBid.bidder, auction.maxPrice⟩ s) s ≠
        .error (.error e) := fun l s => foldlM_traps (fun s _ => transfer_traps _ s) l s
  simp only [bind_eq_error, check_eq_error, hdeposits, pure_traps, and_false, exists_false,
    or_false] at he
  obtain ⟨-, rfl⟩ := he
  exact .refundEarly k

theorem reclaimLot_refused {k : ℕ} (he : reclaimLot h k s = .error (.error e)) :
    Refused h s (.reclaimLot k) e := by
  simp only [reclaimLot, bind_eq_error, loadAuction_eq_error, loadAuction_eq_ok, check_eq_error,
    pure_traps, and_false, exists_false, or_false] at he
  obtain ⟨hnone, rfl⟩ | ⟨auction, ha, ⟨-, rfl⟩ | ⟨_, -, ⟨hreclaimed, rfl⟩ | ⟨_, -, -, rfl⟩⟩⟩ := he
  · exact .unknown _ k rfl hnone
  · exact .unrefunded k
  · exact .reclaimed k auction ha (Bool.eq_true_of_not_eq_false hreclaimed)
  · exact .untransferred k

theorem exec_refused (he : exec h signers c s = .error (.error e)) : Refused h s c e := by
  cases c with
  | createAuction args => exact createAuction_refused (map_eq_error.mp he)
  | placeBid k bidder commitment encryptedBid => exact placeBid_refused he
  | settle k i price winner proof => exact settle_refused he
  | refundAll k => exact refundAll_refused he
  | reclaimLot k => exact reclaimLot_refused he

end Inversion

section Final
variable {g : Genesis W} {before after : List (Action W)} {signers : List Address} {s' : State W}
  {k : ℕ}

def AuctionError.Passing (e : AuctionError) : Prop :=
  e ∈ [.AuctionNotFound, .SettleBeforeDeadline, .RefundTooEarly, .ReclaimRequiresRefundedAuction,
    .LotTransferFailed]

theorem needsOpen_open (htarget : c.target = some k) (hopen : c.NeedsOpen)
    (he : exec h signers c s = .ok s') : ∃ auction, s.auctions k = some auction ∧
      auction.status = .Open := by
  cases c with
  | createAuction args => exact hopen.elim
  | placeBid k bidder commitment encryptedBid =>
    cases htarget
    obtain ⟨-, auction, ha, hs, -⟩ :=
      (placeBid_eq_ok h signers k bidder commitment encryptedBid s s').mp he
    exact ⟨auction, ha, hs⟩
  | settle k i price winner proof =>
    cases htarget
    obtain ⟨auction, ha, hs, -⟩ := (settle_eq_ok h k i price winner proof s s').mp he
    exact ⟨auction, ha, hs⟩
  | refundAll k =>
    cases htarget
    obtain ⟨auction, ha, hs, -⟩ := (refundAll_eq_ok h k s s').mp he
    exact ⟨auction, ha, hs⟩
  | reclaimLot k => exact hopen.elim

theorem leads_later {auction later : Auction}
    (ha : (runFrom h g before).auctions k = some auction)
    (hlater : (runFrom h g (before ++ after)).auctions k = some later) :
    Leads (runFrom h g before).timestamp auction later := by
  obtain ⟨current, hsome, hlead⟩ := (followed_run g before after ha).record
  rw [hlater] at hsome
  cases hsome
  exact hlead

theorem Leads.frozen {now : ℕ} {auction later : Auction} (hlead : Leads now auction later)
    (hdue : auction.commitDeadline ≤ now) : later.bids = auction.bids := by
  by_contra hne
  exact absurd (hlead.growth hne).2 (not_lt.mpr hdue)

theorem timestamp_later (g : Genesis W) (before after : List (Action W)) :
    (runFrom h g before).timestamp ≤ (runFrom h g (before ++ after)).timestamp := by
  rw [runFrom_append]
  have hstep : ∀ s a, s.Valid ∧ (runFrom h g before).timestamp ≤ s.timestamp →
      (step h s a).Valid ∧ (runFrom h g before).timestamp ≤ (step h s a).timestamp :=
    fun s a hs => ⟨step_valid s a hs.1, hs.2.trans (step_timestamp_le a hs.1)⟩
  exact (Runs.run_invariant' hstep ⟨runFrom_valid g before, le_refl _⟩ after).2

/-- A reason that is not passing holds in every later state. -/
theorem refused_stays (hr : Refused h (runFrom h g before) c e) (hfinal : ¬e.Passing) :
    exec h signers c (runFrom h g (before ++ after)) ≠ .ok s' := by
  have hlater := timestamp_later (h := h) g before after
  intro he
  cases hr with
  | unknown | early | refundEarly | unrefunded | untransferred =>
    exact hfinal (by simp [AuctionError.Passing])
  | lotAmount args hlot =>
    obtain ⟨-, hpositive, -⟩ :=
      (createAuction_eq_ok h signers args _ s' _).mp (exec_createAuction.mp he)
    exact hlot hpositive
  | maxPrice args hprice =>
    obtain ⟨-, -, hpositive, -⟩ :=
      (createAuction_eq_ok h signers args _ s' _).mp (exec_createAuction.mp he)
    exact hprice hpositive
  | priceBits args hprice =>
    obtain ⟨-, -, -, hfits, -⟩ :=
      (createAuction_eq_ok h signers args _ s' _).mp (exec_createAuction.mp he)
    exact hprice hfits
  | pastDeadline args hlate =>
    obtain ⟨-, -, -, -, hfuture, -⟩ :=
      (createAuction_eq_ok h signers args _ s' _).mp (exec_createAuction.mp he)
    omega
  | noGrace args hgrace =>
    obtain ⟨-, -, -, -, -, hsome, -⟩ :=
      (createAuction_eq_ok h signers args _ s' _).mp (exec_createAuction.mp he)
    exact hsome hgrace
  | settled _ k auction htarget hopen ha hstatus | refunded _ k auction htarget hopen ha hstatus =>
    obtain ⟨later, hl, hs⟩ := needsOpen_open htarget hopen he
    have hopened := (leads_later ha hl).open_of_open hs
    rw [hstatus] at hopened
    cases hopened
  | bidLate k bidder commitment encryptedBid auction ha hlate =>
    obtain ⟨-, later, hl, -, hearly, -⟩ :=
      (placeBid_eq_ok h signers k bidder commitment encryptedBid _ s').mp he
    rw [(leads_later ha hl).deadline] at hearly
    omega
  | full k bidder commitment encryptedBid auction ha hfull =>
    obtain ⟨-, later, hl, -, -, hroom, -⟩ :=
      (placeBid_eq_ok h signers k bidder commitment encryptedBid _ s').mp he
    have hgrown := (leads_later ha hl).bids.length_le
    omega
  | marker k bidder encryptedBid =>
    obtain ⟨-, -, -, -, -, -, hmarker, -⟩ :=
      (placeBid_eq_ok h signers k bidder 0 encryptedBid _ s').mp he
    exact hmarker rfl
  | duplicate k bidder encryptedBid auction bid ha hbid =>
    obtain ⟨-, later, hl, -, -, -, -, hfresh, -⟩ :=
      (placeBid_eq_ok h signers k bidder bid.commitment encryptedBid _ s').mp he
    exact hfresh bid ((leads_later ha hl).bids.subset hbid) rfl
  | tooLarge k bidder commitment encryptedBid hlarge =>
    obtain ⟨-, -, -, -, -, -, -, -, hsize, -⟩ :=
      (placeBid_eq_ok h signers k bidder commitment encryptedBid _ s').mp he
    exact hlarge hsize
  | index k i price winner proof auction ha hdue hindex =>
    obtain ⟨later, hl, -, -, hrange, -⟩ := (settle_eq_ok h k i price winner proof _ s').mp he
    rw [(leads_later ha hl).frozen hdue] at hrange
    omega
  | price k i price winner proof hprice =>
    obtain ⟨later, hl, -, -, -, hpositive, -⟩ := (settle_eq_ok h k i price winner proof _ s').mp he
    exact hprice hpositive
  | priceCap k i price winner proof auction ha hprice =>
    obtain ⟨later, hl, -, -, -, -, hcap, -⟩ := (settle_eq_ok h k i price winner proof _ s').mp he
    rw [(leads_later ha hl).terms] at hcap
    exact hprice hcap
  | winner k i price winner proof auction bid ha hbid hwinner =>
    obtain ⟨later, hl, -, -, -, -, -, found, hfound, hnamed, -⟩ :=
      (settle_eq_ok h k i price winner proof _ s').mp he
    obtain ⟨rest, hrest⟩ := (leads_later ha hl).bids
    rw [← hrest, List.getElem?_append_left (List.getElem?_eq_some_iff.mp hbid).1, hbid] at hfound
    cases hfound
    exact hwinner hnamed
  | proof k i price winner proof auction verifier ha hdue hverifier hproof =>
    obtain ⟨later, hl, -, -, -, -, -, bid, -, -, current, hcurrent, hverified, -⟩ :=
      (settle_eq_ok h k i price winner proof _ s').mp he
    rw [(leads_later ha hl).signals hdue] at hverified
    rw [runFrom_verifier] at hverifier hcurrent
    cases hverifier
    cases hcurrent
    rw [hproof] at hverified
    cases hverified
  | verifier k i price winner proof auction ha hdue hproof =>
    obtain ⟨later, hl, -, -, -, -, -, bid, -, -, current, hcurrent, hverified, -⟩ :=
      (settle_eq_ok h k i price winner proof _ s').mp he
    rw [(leads_later ha hl).signals hdue] at hverified
    rw [runFrom_verifier, ← runFrom_verifier g before] at hcurrent
    rw [hproof current hcurrent] at hverified
    cases hverified
  | reclaimed k auction ha hreclaimed =>
    obtain ⟨later, hl, -, hkept, -⟩ := (reclaimLot_eq_ok h k _ s').mp he
    have hheld := (leads_later ha hl).reclaimed hreclaimed
    rw [hkept] at hheld
    cases hheld

end Final

section Passing

def failureOf {α : Type} : Except Failure α → Option Failure
  | .ok _ => none
  | .error failure => some failure

theorem failureOf_eq_some {α : Type} {x : Except Failure α} {failure : Failure}
    (hx : failureOf x = some failure) : x = .error failure := by
  cases x with
  | error found =>
    cases hx
    rfl
  | ok a => cases hx

def Passes (before after : List (Action SacState)) (c : Call) (e : AuctionError) : Prop :=
  failureOf (exec markHost [] c (runFrom markHost markGenesis before)) = some (.error e) ∧
    (exec markHost [] c (runFrom markHost markGenesis (before ++ after))).isOk = true

def keptLot : List (Action SacState) :=
  [.closeLedger 13 3, .outside ⟨fun _ _ => 100, fun token account =>
    decide (token = .contract (keyOf 10) ∧ account = .account (keyOf 2))⟩]

theorem passing_passes (he : e.Passing) : ∃ before after c, Passes before after c e := by
  let winner : Address := .account (keyOf 3)
  simp only [AuctionError.Passing, List.mem_cons, List.not_mem_nil, or_false] at he
  obtain rfl | rfl | rfl | rfl | rfl := he
  · exact ⟨[], markActions winner ++ [.closeLedger 13 3], .refundAll 1, by decide, by decide⟩
  · exact ⟨(markActions winner).take 3, [.closeLedger 10 2], .settle 1 0 2 winner noProof,
      by decide, by decide⟩
  · exact ⟨markActions winner, [.closeLedger 13 3], .refundAll 1, by decide, by decide⟩
  · exact ⟨markActions winner ++ keptLot, [.call [] (.refundAll 1), .outside (evenTokens 100)],
      .reclaimLot 1, by decide, by decide⟩
  · exact ⟨markActions winner ++ keptLot ++ [.call [] (.refundAll 1)], [.outside (evenTokens 100)],
      .reclaimLot 1, by decide, by decide⟩

end Passing

/-- Of the errors of the contract, all but five are final: the call that got one never succeeds in any
later state, whoever signs it. For each of the five there is a call that does. -/
theorem refusal_is_final (e : AuctionError) :
    (∀ (W : Type) (h : Host W) (g : Genesis W) (before after : List (Action W))
      (signers signers' : List Address) (c : Call) (s' : State W),
        exec h signers c (runFrom h g before) = .error (.error e) →
          exec h signers' c (runFrom h g (before ++ after)) ≠ .ok s') ↔ ¬e.Passing := by
  constructor
  · intro hall he
    obtain ⟨before, after, c, hrefused, hpasses⟩ := passing_passes he
    exact hall SacState markHost markGenesis before after [] [] c _
      (failureOf_eq_some hrefused) (exec_of_isOk hpasses)
  · intro hfinal W h g before after signers signers' c s' hrefused
    exact refused_stays (exec_refused hrefused) hfinal

end SealedStellar
