import SealedStellar.Auction
import SealedStellar.TokenLog

/-! What a successful call did: one equivalence for each entrypoint. Payment loops become
lists of moves made in order. -/
namespace SealedStellar
open Checked TokenFlow
variable {W : Type} (h : Host W)

/-- Makes the moves in order; the first one refused undoes the call. -/
def payAll (moves : List TokenMove) (s : State W) : Except Failure (State W) :=
  moves.foldlM (fun s m => transfer h m s) s

def lotIn (auction : Auction) : TokenMove :=
  ⟨auction.rwaToken, auction.seller, h.self, auction.lotAmount⟩

def lotTo (auction : Auction) (dst : Address) : TokenMove :=
  ⟨auction.rwaToken, h.self, dst, auction.lotAmount⟩

def depositIn (auction : Auction) (bid : Bid) : TokenMove :=
  ⟨auction.paymentToken, bid.bidder, h.self, auction.maxPrice⟩

def depositBack (auction : Auction) (bid : Bid) : TokenMove :=
  ⟨auction.paymentToken, h.self, bid.bidder, auction.maxPrice⟩

def losingBids (auction : Auction) (winnerIndex : ℕ) : List Bid :=
  (auction.bids.zipIdx.filter fun slot => decide (slot.2 ≠ winnerIndex)).map Prod.fst

def overpayment (auction : Auction) (winningPrice : ℤ) (winner : Address) : List TokenMove :=
  if 0 < auction.maxPrice - winningPrice then
    [⟨auction.paymentToken, h.self, winner, auction.maxPrice - winningPrice⟩] else []

def settlePayments (auction : Auction) (winnerIndex : ℕ) (winningPrice : ℤ) (winner : Address) :
    List TokenMove :=
  ⟨auction.paymentToken, h.self, auction.seller, winningPrice⟩ ::
    (overpayment h auction winningPrice winner ++
      (losingBids auction winnerIndex).map (depositBack h auction) ++ [lotTo h auction winner])

def refundPayments (auction : Auction) : List TokenMove :=
  auction.bids.map (depositBack h auction)

/-- The record `create_auction` stores. -/
def newAuction (args : CreateArgs) : Auction :=
  { seller := args.seller, rwaToken := args.rwaToken, lotAmount := args.lotAmount,
    paymentToken := args.paymentToken, maxPrice := args.maxPrice,
    commitDeadline := args.commitDeadline, gracePeriod := args.gracePeriod,
    whitelistRoot := args.whitelistRoot, operatorEncPubkey := args.operatorEncPubkey,
    status := .Open, bids := [], lotReclaimed := false }

def addBid (auction : Auction) (bid : Bid) : Auction :=
  { auction with bids := auction.bids ++ [bid] }

def closed (auction : Auction) (status : AuctionStatus) : Auction := { auction with status := status }

theorem check_eq_ok {c : Prop} [Decidable c] {e : AuctionError} {u : Unit} :
    check c e = .ok u ↔ c := ensure_eq_ok

theorem requireAuth_eq_ok {signers : List Address} {address : Address} {u : Unit} :
    requireAuth signers address = .ok u ↔ address ∈ signers := ensure_eq_ok

theorem loadAuction_eq_ok {s : State W} {auctionId : ℕ} {auction : Auction} :
    loadAuction s auctionId = .ok auction ↔ s.auctions auctionId = some auction := okOr_eq_ok

theorem ensureOpen_eq_ok {auction : Auction} {u : Unit} :
    ensureOpen auction = .ok u ↔ auction.status = .Open := by
  cases hs : auction.status <;> simp [ensureOpen, hs]

theorem acceptProof_eq_ok {verified : Option Bool} {u : Unit} :
    acceptProof verified = .ok u ↔ verified = some true := by
  cases verified with
  | none => simp [acceptProof]
  | some b => cases b <;> simp [acceptProof]

theorem transfer_eq_ok {m : TokenMove} {s s' : State W} : transfer h m s = .ok s' ↔
    ∃ w, h.transfer s.tokens m = .returned w ∧ s' = s.record (.transfer m s.tokens w) := by
  cases ht : h.transfer s.tokens m <;> simp [transfer, ht, eq_comm]

@[simp] theorem payAll_nil (s : State W) : payAll h [] s = .ok s := rfl

@[simp] theorem payAll_cons (m : TokenMove) (moves : List TokenMove) (s : State W) :
    payAll h (m :: moves) s = transfer h m s >>= payAll h moves := by
  simp [payAll]
  rfl

theorem payAll_append (u v : List TokenMove) (s : State W) :
    payAll h (u ++ v) s = payAll h u s >>= payAll h v := by
  simp [payAll, List.foldlM_append]
  rfl

theorem payAll_one (m : TokenMove) (s : State W) : payAll h [m] s = transfer h m s := by
  simp [payAll]

theorem payAll_losers (auction : Auction) (winnerIndex : ℕ) (s : State W) :
    auction.bids.zipIdx.foldlM (fun s slot =>
      if slot.2 ≠ winnerIndex then
        transfer h ⟨auction.paymentToken, h.self, slot.1.bidder, auction.maxPrice⟩ s
      else pure s) s =
    payAll h ((losingBids auction winnerIndex).map (depositBack h auction)) s := by
  have hskip := foldlM_skip (fun (s : State W) (slot : Bid × ℕ) =>
    transfer h (depositBack h auction slot.1) s) (fun slot => decide (slot.2 ≠ winnerIndex))
    auction.bids.zipIdx s
  simp only [decide_eq_true_eq] at hskip
  simpa only [payAll, losingBids, List.foldlM_map, depositBack] using hskip

theorem payAll_overpayment (auction : Auction) (winningPrice : ℤ) (winner : Address)
    (s : State W) :
    (if 0 < auction.maxPrice - winningPrice then
      transfer h ⟨auction.paymentToken, h.self, winner, auction.maxPrice - winningPrice⟩ s
    else pure s) = payAll h (overpayment h auction winningPrice winner) s := by
  by_cases hp : 0 < auction.maxPrice - winningPrice
  · rw [overpayment, if_pos hp, if_pos hp, payAll_one]
  · rw [overpayment, if_neg hp, if_neg hp]
    rfl

def extendLifetime (args : CreateArgs) (auctionId : ℕ) (s : State W) : State W :=
  let ledgers := lifetimeLedgers s.timestamp args.commitDeadline args.gracePeriod
  (s.extendAuctionTtl h auctionId ledgers ledgers).extendInstanceTtl h ledgers ledgers

theorem createAuction_eq_ok (signers : List Address) (args : CreateArgs) (s s' : State W)
    (auctionId : ℕ) : createAuction h signers args s = .ok (s', auctionId) ↔
      args.seller ∈ signers ∧ 0 < args.lotAmount ∧ 0 < args.maxPrice ∧ args.maxPrice ≤ u64Max ∧
      s.timestamp < args.commitDeadline ∧ args.gracePeriod ≠ 0 ∧
      s.nextAuctionId.getD 1 + 1 ≤ u64Max ∧
      ∃ s1, transfer h (lotIn h (newAuction args))
          { s with nextAuctionId := some (s.nextAuctionId.getD 1 + 1) } = .ok s1 ∧
        (extendLifetime h args (s.nextAuctionId.getD 1)
          (s1.setAuction h (s.nextAuctionId.getD 1) (newAuction args))).publish
            (.AuctionCreated (s.nextAuctionId.getD 1) args.seller args.maxPrice
              args.commitDeadline) = s' ∧
        s.nextAuctionId.getD 1 = auctionId := by
  simp only [createAuction, bind_eq_ok, check_eq_ok, requireAuth_eq_ok, ensure_eq_ok, pure_eq_ok,
    exists_const, Prod.mk.injEq]
  rfl

theorem placeBid_eq_ok (signers : List Address) (auctionId : ℕ) (bidder : Address)
    (commitment : U256) (encryptedBid : List UInt8) (s s' : State W) :
    placeBid h signers auctionId bidder commitment encryptedBid s = .ok s' ↔
      bidder ∈ signers ∧ ∃ auction, s.auctions auctionId = some auction ∧
        auction.status = .Open ∧ s.timestamp < auction.commitDeadline ∧
        auction.bids.length < maxBidSlots ∧ commitment ≠ 0 ∧
        (∀ existingBid ∈ auction.bids, existingBid.commitment ≠ commitment) ∧
        encryptedBid.length ≤ maxEncryptedBidBytes ∧
        ∃ s1, transfer h (depositIn h auction ⟨bidder, commitment⟩) s = .ok s1 ∧
          (s1.setAuction h auctionId (addBid auction ⟨bidder, commitment⟩)).publish
            (.BidPlaced auctionId auction.bids.length bidder commitment encryptedBid) = s' := by
  simp only [placeBid, bind_eq_ok, check_eq_ok, requireAuth_eq_ok, loadAuction_eq_ok,
    ensureOpen_eq_ok, pure_eq_ok, exists_const]
  rfl

/-- The three payment legs of a settlement, in the order of the source. -/
theorem payAll_settlePayments (auction : Auction) (winnerIndex : ℕ) (winningPrice : ℤ)
    (winner : Address) (s s' : State W) :
    payAll h (settlePayments h auction winnerIndex winningPrice winner) s = .ok s' ↔
      ∃ s1, transfer h ⟨auction.paymentToken, h.self, auction.seller, winningPrice⟩ s = .ok s1 ∧
      ∃ s2, payAll h (overpayment h auction winningPrice winner) s1 = .ok s2 ∧
      ∃ s3, payAll h ((losingBids auction winnerIndex).map (depositBack h auction)) s2 = .ok s3 ∧
        transfer h (lotTo h auction winner) s3 = .ok s' := by
  simp only [settlePayments, payAll_cons, payAll_append, payAll_nil, bind_eq_ok]
  constructor
  · rintro ⟨s1, h1, s3, ⟨s2, h2, h3⟩, s4, h4, he⟩
    injection he with he
    exact ⟨s1, h1, s2, h2, s3, h3, he ▸ h4⟩
  · rintro ⟨s1, h1, s2, h2, s3, h3, h4⟩
    exact ⟨s1, h1, s3, ⟨s2, h2, h3⟩, s', h4, rfl⟩

theorem settle_eq_ok (auctionId winnerIndex : ℕ) (winningPrice : ℤ) (winnerAddress : Address)
    (proof : VerifierProof) (s s' : State W) :
    settle h auctionId winnerIndex winningPrice winnerAddress proof s = .ok s' ↔
      ∃ auction, s.auctions auctionId = some auction ∧ auction.status = .Open ∧
        auction.commitDeadline ≤ s.timestamp ∧ winnerIndex < auction.bids.length ∧
        0 < winningPrice ∧ winningPrice ≤ auction.maxPrice ∧
        ∃ bid, auction.bids[winnerIndex]? = some bid ∧ bid.bidder = winnerAddress ∧
        ∃ verifier, s.verifier = some verifier ∧ h.verify verifier proof
          (buildPublicSignals h auction auctionId winnerIndex winningPrice winnerAddress) =
            some true ∧
        ∃ s1, payAll h (settlePayments h auction winnerIndex winningPrice winnerAddress)
            (s.setAuction h auctionId (closed auction .Settled)) = .ok s1 ∧
          s1.publish (.AuctionSettled auctionId winnerAddress winningPrice) = s' := by
  have hpay := fun auction => payAll_losers h (closed auction .Settled) winnerIndex
  simp only [closed] at hpay
  simp only [settle, bind_eq_ok, check_eq_ok, loadAuction_eq_ok, okOr_eq_ok, acceptProof_eq_ok,
    ensureOpen_eq_ok, pure_eq_ok, exists_const, hpay, payAll_overpayment, payAll_settlePayments]
  constructor
  · rintro ⟨a, ha, ho, hd, hi, h0, hm, b, hb, hw, v, hv, hp, s1, h1, s2, h2, s3, h3, s4, h4, he⟩
    exact ⟨a, ha, ho, hd, hi, h0, hm, b, hb, hw, v, hv, hp, s4, ⟨s1, h1, s2, h2, s3, h3, h4⟩, he⟩
  · rintro ⟨a, ha, ho, hd, hi, h0, hm, b, hb, hw, v, hv, hp, s4, ⟨s1, h1, s2, h2, s3, h3, h4⟩, he⟩
    exact ⟨a, ha, ho, hd, hi, h0, hm, b, hb, hw, v, hv, hp, s1, h1, s2, h2, s3, h3, s4, h4, he⟩

/-- How the lot leg of `refund_all` ends: the final record and what is published for it. -/
def lotLeg (auction : Auction) (auctionId : ℕ) (s : State W) : State W :=
  match h.transfer s.tokens (lotTo h auction auction.seller) with
  | .returned w => (s.record (.transfer (lotTo h auction auction.seller) s.tokens w)).setAuction h
      auctionId { auction with lotReclaimed := true }
  | .undecodable w =>
    (s.record (.undecodable (lotTo h auction auction.seller) s.tokens w)).publish
      (.LotReturnFailed auctionId auction.seller auction.lotAmount)
  | .trapped => s.publish (.LotReturnFailed auctionId auction.seller auction.lotAmount)

theorem lotLeg_eq (auction : Auction) (auctionId : ℕ) (s : State W) :
    (if (tryTransfer h ⟨auction.rwaToken, h.self, auction.seller, auction.lotAmount⟩ s).1 = true then
      (tryTransfer h ⟨auction.rwaToken, h.self, auction.seller, auction.lotAmount⟩ s).2.setAuction h
        auctionId { auction with lotReclaimed := true }
    else (tryTransfer h ⟨auction.rwaToken, h.self, auction.seller, auction.lotAmount⟩ s).2.publish
      (.LotReturnFailed auctionId auction.seller auction.lotAmount)) =
    lotLeg h auction auctionId s := by
  have htry : tryTransfer h ⟨auction.rwaToken, h.self, auction.seller, auction.lotAmount⟩ s =
    tryTransfer h (lotTo h auction auction.seller) s := rfl
  rw [htry]
  cases ht : h.transfer s.tokens (lotTo h auction auction.seller) <;> simp [tryTransfer, lotLeg, ht]

theorem tryTransfer_returned (m : TokenMove) (s s' : State W) :
    transfer h m s = .ok s' ↔ (tryTransfer h m s).1 = true ∧ (tryTransfer h m s).2 = s' := by
  cases ht : h.transfer s.tokens m <;> simp [tryTransfer, transfer, ht]

theorem payAll_deposits (auction : Auction) (s : State W) :
    auction.bids.foldlM (fun s refundedBid =>
      transfer h ⟨auction.paymentToken, h.self, refundedBid.bidder, auction.maxPrice⟩ s) s =
    payAll h (refundPayments h auction) s := by
  simp only [payAll, refundPayments, List.foldlM_map, depositBack]

theorem refundAll_eq_ok (auctionId : ℕ) (s s' : State W) :
    refundAll h auctionId s = .ok s' ↔
      ∃ auction, s.auctions auctionId = some auction ∧ auction.status = .Open ∧
        saturatingAdd auction.commitDeadline auction.gracePeriod ≤ s.timestamp ∧
        ∃ s1, payAll h (refundPayments h auction)
            (s.setAuction h auctionId (closed auction .Refunded)) = .ok s1 ∧
          (lotLeg h (closed auction .Refunded) auctionId s1).publish
            (.AuctionRefunded auctionId auction.bids.length) = s' := by
  have hpay := fun auction => payAll_deposits h (closed auction .Refunded)
  simp only [closed] at hpay
  simp only [refundAll, bind_eq_ok, check_eq_ok, loadAuction_eq_ok, ensureOpen_eq_ok, pure_eq_ok,
    exists_const, hpay, ← lotLeg_eq]
  rfl

theorem reclaimLot_eq_ok (auctionId : ℕ) (s s' : State W) :
    reclaimLot h auctionId s = .ok s' ↔
      ∃ auction, s.auctions auctionId = some auction ∧ auction.status = .Refunded ∧
        auction.lotReclaimed = false ∧
        ∃ s1, transfer h (lotTo h auction auction.seller) s = .ok s1 ∧
          (s1.setAuction h auctionId { auction with lotReclaimed := true }).publish
            (.LotReclaimed auctionId auction.seller auction.lotAmount) = s' := by
  simp only [reclaimLot, bind_eq_ok, check_eq_ok, loadAuction_eq_ok, pure_eq_ok, exists_const,
    tryTransfer_returned, lotTo]
  constructor
  · rintro ⟨a, ha, hs, hr, ht, he⟩
    exact ⟨a, ha, hs, hr, _, ⟨ht, rfl⟩, he⟩
  · rintro ⟨a, ha, hs, hr, s1, ⟨ht, h1⟩, he⟩
    exact ⟨a, ha, hs, hr, ht, h1 ▸ he⟩

def Paid (moves : List TokenMove) (s s' : State W) : Prop :=
  ∃ w acts, CallLog h s.tokens acts w moves ∧
    s' = { s with tokens := w, activity := s.activity ++ acts }

variable {h}

theorem Paid.refl (s : State W) : Paid h [] s s :=
  ⟨s.tokens, [], .nil s.tokens, by rw [List.append_nil]⟩

theorem Paid.trans {u v : List TokenMove} {s₁ s₂ s₃ : State W} (hu : Paid h u s₁ s₂)
    (hv : Paid h v s₂ s₃) : Paid h (u ++ v) s₁ s₃ := by
  obtain ⟨w, acts, hlog, rfl⟩ := hu
  obtain ⟨w', acts', hlog', rfl⟩ := hv
  exact ⟨w', acts ++ acts', hlog.append hlog', by simp only [List.append_assoc]⟩

theorem transfer_paid {m : TokenMove} {s s' : State W} (ht : transfer h m s = .ok s') :
    Paid h [m] s s' := by
  obtain ⟨w, hw, rfl⟩ := (transfer_eq_ok h).mp ht
  have hlog := CallLog.single (h := h) (a := .transfer m s.tokens w) hw trivial
  exact ⟨w, [.transfer m s.tokens w], hlog, rfl⟩

theorem payAll_paid {moves : List TokenMove} {s s' : State W} (hp : payAll h moves s = .ok s') :
    Paid h moves s s' := by
  induction moves generalizing s with
  | nil =>
    cases hp
    exact Paid.refl s'
  | cons m moves ih =>
    rw [payAll_cons, bind_eq_ok] at hp
    obtain ⟨s₁, h₁, h₂⟩ := hp
    exact (transfer_paid h₁).trans (ih h₂)

end SealedStellar
