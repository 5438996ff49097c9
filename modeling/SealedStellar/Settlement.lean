import SealedStellar.PublicVector
import SealedStellar.Sac

/-! What an accepted settlement proves about the sealed bids, for a sound verifier. -/
namespace SealedStellar
open SecondPrice MerklePath
variable {W : Type} (h : Host W)

/-- True only for vectors, read modulo r, that satisfy the circuit. -/
def VerifierSound (verifier : Address) : Prop :=
  ∀ proof signals, h.verify verifier proof signals = some true →
    ∃ pub : PublicSignals 8, signals.map toFr = pub.toList ∧ Satisfiable h.poseidon pub

/-- Behind every accepted proof stands a private assignment of the circuit, and its openings of the
nonempty slots are known. -/
def KnowledgeSound (Known : List Fr → Prop) (verifier : Address) : Prop :=
  ∀ proof signals, h.verify verifier proof signals = some true →
    ∃ (pub : PublicSignals 8) (priv : PrivateSignals 8 10), signals.map toFr = pub.toList ∧
      AuctionWinner h.poseidon pub priv ∧ ∀ slot, pub.commitments slot ≠ 0 →
        Known [priv.bidPrices slot, priv.bidSalts slot, pub.auctionId]

/-- The true outcome, with openings that are known. -/
structure KnownOutcome (Known : List Fr → Prop) (auction : Auction) (auctionId winnerIndex : ℕ)
    (winningPrice : ℤ) (price : Fin 8 → ℕ) (salt : Fin 8 → Fr) : Prop extends
    TrueOutcome h auction auctionId winnerIndex winningPrice price salt where
  known : ∀ slot : Fin 8, toFr (slotCommitment auction.bids slot) ≠ 0 →
    Known [(price slot : Fr), salt slot, (auctionId : Fr)]

/-- Every stored commitment has at most one opening. -/
def OpensOnce (auction : Auction) (auctionId : ℕ) : Prop :=
  ∀ bid ∈ auction.bids, ∀ (p q : ℕ) (r s : Fr), p < 2 ^ 64 → q < 2 ^ 64 →
    h.poseidon [(p : Fr), r, (auctionId : Fr)] = toFr bid.commitment →
    h.poseidon [(q : Fr), s, (auctionId : Fr)] = toFr bid.commitment → p = q ∧ r = s

variable {h}

theorem VerifierSound.knowledge {verifier : Address} (hsound : VerifierSound h verifier) :
    KnowledgeSound h (fun _ => True) verifier := by
  intro proof signals hv
  obtain ⟨pub, hpub, priv, hpriv⟩ := hsound proof signals hv
  exact ⟨pub, priv, hpub, hpriv, fun _ _ => trivial⟩

theorem slotCommitment_cases (bids : List Bid) (slot : ℕ) :
    (∃ bid ∈ bids, slotCommitment bids slot = bid.commitment) ∨ slotCommitment bids slot = 0 := by
  cases hb : bids[slot]? with
  | none => exact .inr (by simp [slotCommitment, hb])
  | some bid => exact .inl ⟨bid, List.mem_of_getElem? hb, by simp [slotCommitment, hb]⟩

section Outcome
variable {auction : Auction} {k i j : ℕ} {price price' : ℤ} {prices prices' : Fin 8 → ℕ}
  {salts salts' : Fin 8 → Fr}

theorem TrueOutcome.prices_eq (ho : OpensOnce h auction k)
    (ht : TrueOutcome h auction k i price prices salts)
    (ht' : TrueOutcome h auction k j price' prices' salts') : prices = prices' := by
  funext slot
  by_cases hzero : toFr (slotCommitment auction.bids slot) = 0
  · rw [ht.empty slot hzero, ht'.empty slot hzero]
  · obtain ⟨bid, hbid, hc⟩ | hc := slotCommitment_cases auction.bids slot
    · have hopen := ht.opens slot hzero
      have hopen' := ht'.opens slot hzero
      rw [hc] at hopen hopen'
      exact (ho bid hbid _ _ _ _ (ht.range slot) (ht'.range slot) hopen hopen').1
    · exact absurd (by rw [hc]; rfl) hzero

theorem TrueOutcome.unique (ho : OpensOnce h auction k)
    (ht : TrueOutcome h auction k i price prices salts)
    (ht' : TrueOutcome h auction k j price' prices' salts') : i = j ∧ price = price' := by
  have hprices := ht.prices_eq ho ht'
  obtain ⟨w, hw, hmax, hlow, hprice⟩ := ht.outcome
  obtain ⟨w', hw', hmax', hlow', hprice'⟩ := ht'.outcome
  subst hprices
  have hsame : w = w' := IsWinner.unique ⟨hmax, hlow⟩ ⟨hmax', hlow'⟩
  subst hsame
  exact ⟨hw.symm.trans hw', hprice.trans hprice'.symm⟩

theorem TrueOutcome.sameTerms {auction' : Auction} (hterms : SameTerms auction auction')
    (ht : TrueOutcome h auction' k i price prices salts) :
    TrueOutcome h auction k i price prices salts := by
  rw [SameTerms] at hterms
  rw [hterms] at ht
  exact ⟨ht.range, ht.opens, ht.empty, ht.outcome, ht.positive, ht.capped, ht.member⟩

end Outcome

theorem settle_vector {s : State W} (hs : s.Valid) {k i : ℕ} {price : ℤ} {auction : Auction}
    {bid : Bid} (ha : s.auctions k = some auction) (slot : auction.bids[i]? = some bid)
    (positive : 0 < price) (capped : price ≤ auction.maxPrice) :
    (buildPublicSignals h auction k i price bid.bidder).map toFr =
      (settlePublic h auction k i price bid.bidder).toList := by
  obtain ⟨next, hnext, -, hroom⟩ := hs.counter
  obtain ⟨-, hbound, hv⟩ := hs.stored k auction ha
  have hslots := hv.slots
  have hfits := hv.fits
  have hlt := (List.getElem?_eq_some_iff.mp slot).1
  rw [hnext, Option.getD_some] at hbound
  simp only [u64Max, maxBidSlots] at hroom hfits hslots
  exact buildPublicSignals_toFr h (by omega) (by omega) positive.le (by omega)

/-- An accepted settlement states the true outcome of the stored bids, whose openings are known. -/
theorem settle_knownOutcome {g : Genesis W} {Known : List Fr → Prop}
    (hsound : KnowledgeSound h Known g.verifier) {actions : List (Action W)} {signers : List Address}
    {k i : ℕ} {price : ℤ} {winner : Address} {proof : VerifierProof} {s' : State W}
    (he : exec h signers (.settle k i price winner proof) (runFrom h g actions) = .ok s') :
    ∃ auction, (runFrom h g actions).auctions k = some auction ∧
      (∃ bid, auction.bids[i]? = some bid ∧ bid.bidder = winner) ∧
      ∃ prices salts, KnownOutcome h Known auction k i price prices salts := by
  have hs := runFrom_valid (h := h) g actions
  obtain ⟨auction, ha, isOpen, due, hlt, positive, capped, bid, slot, rfl, verifier, hverifier,
    haccepted, -⟩ := (settle_eq_ok h k i price winner proof _ s').mp he
  rw [runFrom_verifier, Option.some.injEq] at hverifier
  subst hverifier
  obtain ⟨pub, priv, hpub, hpriv, hknown⟩ := hsound proof _ haccepted
  rw [settle_vector hs ha slot positive capped] at hpub
  obtain rfl := PublicSignals.toList_injective hpub
  obtain ⟨w, hw⟩ := auctionWinner_sound (by omega) (by omega) hpriv
  have hv := (hs.stored k auction ha).2.2
  refine ⟨auction, ha, ⟨bid, slot, rfl⟩, _, _, hw.trueOutcome hv slot positive capped,
    fun slot hmarker => ?_⟩
  rw [ZMod.natCast_zmod_val]
  exact hknown slot hmarker

theorem settle_trueOutcome {g : Genesis W} (hsound : VerifierSound h g.verifier)
    {actions : List (Action W)} {signers : List Address} {k i : ℕ} {price : ℤ} {winner : Address}
    {proof : VerifierProof} {s' : State W}
    (he : exec h signers (.settle k i price winner proof) (runFrom h g actions) = .ok s') :
    ∃ auction, (runFrom h g actions).auctions k = some auction ∧
      (∃ bid, auction.bids[i]? = some bid ∧ bid.bidder = winner) ∧
      ∃ prices salts, TrueOutcome h auction k i price prices salts := by
  obtain ⟨auction, ha, hbid, prices, salts, ht⟩ := settle_knownOutcome hsound.knowledge he
  exact ⟨auction, ha, hbid, prices, salts, ht.toTrueOutcome⟩

/-- Settlement soundness, and at most one outcome from the deadline on. -/
theorem settle_sound (h : Host W) (g : Genesis W) (hsound : VerifierSound h g.verifier) (k : ℕ) :
    (∀ actions signers i price winner proof s',
      exec h signers (.settle k i price winner proof) (runFrom h g actions) = .ok s' →
      ∃ auction, (runFrom h g actions).auctions k = some auction ∧
        (∃ bid, auction.bids[i]? = some bid ∧ bid.bidder = winner) ∧
        ∃ prices salts, TrueOutcome h auction k i price prices salts) ∧
    ∀ before auction, (runFrom h g before).auctions k = some auction →
      auction.commitDeadline ≤ (runFrom h g before).timestamp → OpensOnce h auction k →
      ∀ after signers i price winner proof s' after' signers' i' price' winner' proof' s'',
        exec h signers (.settle k i price winner proof) (runFrom h g (before ++ after)) = .ok s' →
        exec h signers' (.settle k i' price' winner' proof') (runFrom h g (before ++ after')) =
          .ok s'' →
        i = i' ∧ price = price' := by
  refine ⟨fun actions signers i price winner proof s' he => settle_trueOutcome hsound he, ?_⟩
  intro before auction ha due hopen after signers i price winner proof s' after' signers' i' price'
    winner' proof' s'' he he'
  have hterms : ∀ after a, (runFrom h g (before ++ after)).auctions k = some a →
      SameTerms auction a := by
    intro after a hsome
    obtain ⟨b, hb, hterms⟩ := (frozen_run ha due after).terms
    rw [hsome] at hb
    cases hb
    exact hterms
  obtain ⟨a, hsome, -, prices, salts, ht⟩ := settle_trueOutcome hsound he
  obtain ⟨a', hsome', -, prices', salts', ht'⟩ := settle_trueOutcome hsound he'
  exact (ht.sameTerms (hterms after a hsome)).unique hopen (ht'.sameTerms (hterms after' a' hsome'))

/-- Two bids that open to 4 and 2 under the stand-in hash, settled for the first at 2. -/
theorem settle_sound_witness :
    let leaf : U256 := 0x03030303030303030303030303030303
    let h := sacHost (.contract (keyOf 0)) (fun _ _ signals =>
      some (decide (signals = [1, 4, 2, 0, 0, 0, 0, 0, 0, 0, 2, leaf, leaf]))) firstInput
    let g : Genesis SacState := ⟨.contract (keyOf 1), evenTokens 100, 0, 1⟩
    let seller : Address := .account (keyOf 2)
    let bidder : Address := .account (keyOf 3)
    let args : CreateArgs := ⟨seller, .contract (keyOf 10), 7, .contract (keyOf 11), 5, 10, 3, leaf,
      keyOf 9⟩
    let actions : List (Action SacState) := [.call [seller] (.createAuction args),
      .call [bidder] (.placeBid 1 bidder 4 []), .call [seller] (.placeBid 1 seller 2 []),
      .closeLedger 10 2]
    ∃ auction, (runFrom h g actions).auctions 1 = some auction ∧
      ∃ prices salts, TrueOutcome h auction 1 0 2 prices salts := by
  intro leaf h g seller bidder args actions
  have hsound : VerifierSound h g.verifier := by
    intro proof signals hv
    have hs : signals = [1, 4, 2, 0, 0, 0, 0, 0, 0, 0, 2, leaf, leaf] := by
      simpa [h, sacHost] using hv
    subst hs
    refine ⟨⟨1, ![4, 2, 0, 0, 0, 0, 0, 0], 0, 2, toFr leaf, toFr leaf⟩, by decide,
      (auctionWinner_iff (by omega) (by omega)).mpr
        ⟨0, ![4, 2, 0, 0, 0, 0, 0, 0], fun _ => 0, ?_⟩⟩
    exact ⟨by decide, by decide, by decide, by decide, ⟨by decide, by decide⟩, by decide,
      by decide, List.replicate 10 (0, false), rfl, by decide⟩
  have he : (exec h [] (.settle 1 0 2 bidder ⟨Vector.replicate 64 0, Vector.replicate 128 0,
    Vector.replicate 64 0⟩) (runFrom h g actions)).isOk = true := by decide
  obtain ⟨auction, ha, -, hout⟩ :=
    (settle_sound h g hsound 1).1 actions [] 0 2 bidder _ _ (exec_of_isOk he)
  exact ⟨auction, ha, hout⟩

end SealedStellar
