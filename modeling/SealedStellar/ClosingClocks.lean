import SealedStellar.LifecycleInvariant
import SealedStellar.RevealCompleteness

/-! The two clocks that close an auction: the reveal endpoint reads its own, the contract reads the
ledger. A reveal request changes nothing on chain. -/
namespace SealedStellar
open Checked
variable {W : Type} {h : Host W} {k : ℕ}

/-- No bid on the auction is possible any more: the ledger has reached the deadline, or the slots
are taken, or the payment token takes no deposit whatever happens to it. -/
def BiddingOver (h : Host W) (auction : Auction) (now : ℕ) : Prop :=
  auction.commitDeadline ≤ now ∨ maxBidSlots ≤ auction.bids.length ∨
    ∀ tokens bid w, h.transfer tokens (depositIn h auction bid) ≠ .returned w

def NoLaterBid (h : Host W) (g : Genesis W) (before : List (Action W)) (k : ℕ) : Prop :=
  ∀ after signers bidder commitment encryptedBid,
    ∃ e, exec h signers (.placeBid k bidder commitment encryptedBid)
      (runFrom h g (before ++ after)) = .error e

theorem Leads.depositIn_eq {now : ℕ} {a b : Auction} (hab : Leads now a b) (bid : Bid) :
    depositIn h b bid = depositIn h a bid := by
  rw [hab.terms]
  rfl

theorem BiddingOver.refuses {g : Genesis W} {before : List (Action W)} {auction : Auction}
    (ha : (runFrom h g before).auctions k = some auction)
    (hover : BiddingOver h auction (runFrom h g before).timestamp) : NoLaterBid h g before k := by
  intro after signers bidder commitment encryptedBid
  have hfollowed := followed_run g before after ha
  obtain ⟨later, hl, hlead⟩ := hfollowed.record
  cases he : exec h signers (.placeBid k bidder commitment encryptedBid)
      (runFrom h g (before ++ after)) with
  | error e => exact ⟨e, rfl⟩
  | ok s' =>
    obtain ⟨-, current, hc, -, early, slots, -, -, -, s₁, ht, -⟩ :=
      (placeBid_eq_ok h signers k bidder commitment encryptedBid _ s').mp he
    rw [hl] at hc
    cases hc
    obtain ⟨w, hw, -⟩ := (transfer_eq_ok h).mp ht
    obtain due | full | refused := hover
    · rw [hlead.deadline] at early
      exact absurd (lt_of_lt_of_le early due) (not_lt_of_ge hfollowed.clock)
    · exact absurd (lt_of_le_of_lt hlead.bids.length_le slots) (not_lt_of_ge full)
    · rw [hlead.depositIn_eq] at hw
      exact absurd hw (refused _ _ _)

theorem fresh_commitment {bids : List Bid} (hroom : bids.length < maxBidSlots) :
    ∃ c : U256, c ≠ 0 ∧ ∀ b ∈ bids, b.commitment ≠ c := by
  by_contra hnone
  push Not at hnone
  have hnodup : ((List.range maxBidSlots).map fun n => BitVec.ofNat 256 (n + 1)).Nodup := by decide
  have hnonzero : ∀ n < maxBidSlots, BitVec.ofNat 256 (n + 1) ≠ 0 := by decide
  have hsub : (List.range maxBidSlots).map (fun n => BitVec.ofNat 256 (n + 1)) ⊆
      bids.map Bid.commitment := by
    intro c hc
    obtain ⟨n, hn, rfl⟩ := List.mem_map.mp hc
    obtain ⟨b, hb, heq⟩ := hnone _ (hnonzero n (List.mem_range.mp hn))
    exact List.mem_map.mpr ⟨b, hb, heq⟩
  have hlen := (hnodup.subperm hsub).length_le
  simp only [List.length_map, List.length_range] at hlen
  omega

/-- Where bidding is not over, the next step may make the token take a deposit. -/
theorem bid_possible {g : Genesis W} {before : List (Action W)} {auction : Auction}
    (ha : (runFrom h g before).auctions k = some auction) (isOpen : auction.status = .Open)
    (hover : ¬BiddingOver h auction (runFrom h g before).timestamp) : ¬NoLaterBid h g before k := by
  intro hno
  simp only [BiddingOver, not_or, not_le, not_forall, not_not] at hover
  obtain ⟨early, room, tokens, bid, w, hw⟩ := hover
  obtain ⟨c, marker, fresh⟩ := fresh_commitment room
  obtain ⟨e, he⟩ := hno [.outside tokens] [bid.bidder] bid.bidder c []
  have hok : ∃ s', placeBid h [bid.bidder] k bid.bidder c []
      (runFrom h g (before ++ [.outside tokens])) = .ok s' := by
    rw [runFrom_append]
    refine ⟨_, (placeBid_eq_ok h _ k bid.bidder c [] _ _).mpr
      ⟨List.mem_singleton_self _, auction, ha, isOpen, early, room, marker, fresh, Nat.zero_le _, _,
        (transfer_eq_ok h).mpr ⟨w, ?_, rfl⟩, rfl⟩⟩
    exact hw
  obtain ⟨s', hs'⟩ := hok
  have hboth : (Except.error e : Except Failure (State W)) = .ok s' := he.symm.trans hs'
  cases hboth

/-- Once a response with decrypted bids of an auction has been returned, no later bid on it is
accepted, exactly when bidding was over by the clock of the ledger. -/
theorem no_bid_after_reveal_iff (h : Host W) (strKey : StrKey) (nacl : Nacl) (g : Genesis W)
    (before : List (Action W)) (env : Environment) (rpc : Rpc)
    (hrpc : rpc.Shows (runFrom h g before)) (now : ℕ) (req : RevealRequest) (k : ℕ)
    (root : String) (members : List String) (bids : List RevealedBid)
    (hresponse : handler strKey nacl env rpc now req = ⟨200, .revealed k root members bids⟩) :
    ∃ auction, (runFrom h g before).auctions k = some auction ∧ auction.commitDeadline ≤ now ∧
      (NoLaterBid h g before k ↔
        BiddingOver h auction (runFrom h g before).timestamp) := by
  obtain ⟨-, -, boxSecret, state, events, -, hstate, hopen, due, -⟩ :=
    handler_revealed_iff.mp hresponse
  obtain ⟨record, hrecord, hstatus, hdeadline, -⟩ := getAuctionState_eq_ok.mp hstate
  obtain ⟨auction, ha, hauction⟩ := hrpc.auction k record hrecord
  rw [hauction, auctionRecord, Option.some.injEq] at hstatus hdeadline
  have isOpen : auction.status = .Open := by
    rw [hopen] at hstatus
    cases hs : auction.status with
    | Open => rfl
    | Settled =>
      rw [hs] at hstatus
      exact absurd hstatus (by decide)
    | Refunded =>
      rw [hs] at hstatus
      exact absurd hstatus (by decide)
  refine ⟨auction, ha, hdeadline ▸ due, ?_⟩
  constructor
  · intro hno
    by_contra hover
    exact bid_possible ha isOpen hover hno
  · intro hover
    exact hover.refuses ha

/-- The ledger has reached the deadline when the endpoint opens the bid. -/
theorem no_bid_after_reveal_iff_witness :
    let h := sacHost (.contract (keyOf 0)) (fun _ _ _ => none) firstInput
    let g : Genesis SacState := ⟨.contract (keyOf 1), evenTokens 100, 0, 1⟩
    let bidder : Address := .account (keyOf 3)
    let args : CreateArgs := ⟨.account (keyOf 2), .contract (keyOf 10), 7, .contract (keyOf 11), 5,
      10, 3, 0, keyOf 10⟩
    let before : List (Action SacState) := [.call [.account (keyOf 2)] (.createAuction args),
      .call [bidder] (.placeBid 1 bidder 4 (sampleCiphertext 1 4 1)), .closeLedger 10 2]
    NoLaterBid h g before 1 := by
  intro h g bidder args before
  have ha : (runFrom h g before).auctions 1 =
      some { newAuction args with bids := [⟨bidder, 4⟩] } := by decide +kernel
  have hserved : inWindow (runFrom h g before) 1 =
      [⟨1, 0, bidder, 4, sampleCiphertext 1 4 1⟩] := by decide +kernel
  have hbid := revealBid_sample 0 4 1 (sep23.encode bidder) 1 (by norm_num : 4 < 2 ^ 64)
  obtain ⟨auction, hauction, -, hiff⟩ := no_bid_after_reveal_iff h sep23 tagBox g before
    ⟨none, some operatorSecretHex⟩ (snapshotRpc (runFrom h g before)) (snapshotRpc_shows _) 10
    ⟨"POST", some 1⟩ 1 _ _ _ (handler_snapshot ha rfl (le_refl 10) hserved (List.cons_ne_nil _ _)
      loadBoxSecret_sample (.cons hbid .nil) rfl)
  rw [ha, Option.some.injEq] at hauction
  subst hauction
  exact hiff.mpr (.inl (by decide +kernel))

/-- The server clock is at the deadline, the ledger still at time 0: the bid is revealed, and a
second bidder who has read it is accepted. -/
theorem bid_after_reveal :
    let h := sacHost (.contract (keyOf 0)) (fun _ _ _ => none) firstInput
    let g : Genesis SacState := ⟨.contract (keyOf 1), evenTokens 100, 0, 1⟩
    let bidder : Address := .account (keyOf 3)
    let reader : Address := .account (keyOf 4)
    let args : CreateArgs := ⟨.account (keyOf 2), .contract (keyOf 10), 7, .contract (keyOf 11), 5,
      10, 3, 0, keyOf 10⟩
    let before : List (Action SacState) := [.call [.account (keyOf 2)] (.createAuction args),
      .call [bidder] (.placeBid 1 bidder 4 (sampleCiphertext 1 4 1))]
    Rpc.Shows (snapshotRpc (runFrom h g before)) (runFrom h g before) ∧
      handler sep23 tagBox ⟨none, some operatorSecretHex⟩ (snapshotRpc (runFrom h g before)) 10
        ⟨"POST", some 1⟩ =
          ⟨200, .revealed 1 "0" [] [⟨0, sep23.encode bidder, "4", "4", sampleSalt 1⟩]⟩ ∧
      (exec h [reader] (.placeBid 1 reader 6 []) (runFrom h g before)).isOk = true ∧
      ¬NoLaterBid h g before 1 := by
  intro h g bidder reader args before
  have ha : (runFrom h g before).auctions 1 =
      some { newAuction args with bids := [⟨bidder, 4⟩] } := by decide +kernel
  have hserved : inWindow (runFrom h g before) 1 =
      [⟨1, 0, bidder, 4, sampleCiphertext 1 4 1⟩] := by decide +kernel
  have hroot : "0" = toString (newAuction args).whitelistRoot.toNat := by decide
  have hbid := revealBid_sample 0 4 1 (sep23.encode bidder) 1 (by norm_num : 4 < 2 ^ 64)
  have hlater : (exec h [reader] (.placeBid 1 reader 6 []) (runFrom h g before)).isOk = true := by
    decide +kernel
  refine ⟨snapshotRpc_shows _, handler_snapshot ha rfl (le_refl 10) hserved (List.cons_ne_nil _ _)
    loadBoxSecret_sample (.cons hbid .nil) hroot, hlater, fun hno => ?_⟩
  obtain ⟨e, he⟩ := hno [] [reader] reader 6 []
  rw [List.append_nil, exec_of_isOk hlater] at he
  cases he

end SealedStellar
