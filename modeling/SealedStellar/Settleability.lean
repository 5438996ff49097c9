import SealedStellar.Settlement
import SealedStellar.Funds

/-! When an auction past its deadline can be settled. -/
namespace SealedStellar
open SecondPrice MerklePath Checked TokenFlow
variable {W : Type} {h : Host W} {refused : W → Address → Address → Bool}

def VerifierComplete (h : Host W) (verifier : Address) : Prop :=
  ∀ pub : PublicSignals 8, Satisfiable h.poseidon pub → ∀ signals, signals.map toFr = pub.toList →
    ∃ proof, h.verify verifier proof signals = some true

/-- The stored bids open to these prices and salts, and w is the lowest index of the highest
of them, held by a member of the whitelist. -/
structure HonestBids (h : Host W) (auction : Auction) (k w : ℕ) (price salt : ℕ → ℕ) : Prop where
  range : ∀ i, i < auction.bids.length → price i < 2 ^ 64 ∧ salt i < 2 ^ 248
  opens : ∀ i bid, auction.bids[i]? = some bid →
    bid.commitment = ofFr (h.poseidon [(price i : Fr), (salt i : Fr), (k : Fr)])
  winner : w < auction.bids.length ∧ (∀ i, i < auction.bids.length → price i ≤ price w) ∧
    ∀ i, i < w → price i < price w
  twoPositive : ∃ i j, i ≠ j ∧ i < auction.bids.length ∧ j < auction.bids.length ∧
    0 < price i ∧ 0 < price j
  member : ∃ bid, auction.bids[w]? = some bid ∧ ∃ path : List (Fr × Bool), path.length = 10 ∧
    climb (fun a b => h.poseidon [a, b]) (toFr (addressLeaf h bid.bidder)) path =
      toFr auction.whitelistRoot

def slotPrices (auction : Auction) (price : ℕ → ℕ) (slot : Fin 8) : ℕ :=
  if (slot : ℕ) < auction.bids.length then price slot else 0

theorem ofFr_zero : ofFr 0 = 0 := by decide

section Honest
variable {auction : Auction} {k w : ℕ} {price salt : ℕ → ℕ}

theorem HonestBids.slot_opens (hb : HonestBids h auction k w price salt) (hv : auction.Valid)
    {slot : Fin 8} (hlt : (slot : ℕ) < auction.bids.length) :
    toFr (slotCommitment auction.bids slot) =
      h.poseidon [(price slot : Fr), (salt slot : Fr), (k : Fr)] ∧
    toFr (slotCommitment auction.bids slot) ≠ 0 := by
  have hsome : auction.bids[(slot : ℕ)]? = some auction.bids[(slot : ℕ)] := List.getElem?_eq_getElem hlt
  have hc := hb.opens slot _ hsome
  have hslot : slotCommitment auction.bids slot = auction.bids[(slot : ℕ)].commitment := by
    simp [slotCommitment, hsome]
  have hmarker := hv.marker _ (List.getElem_mem hlt)
  rw [hslot]
  have hfr : toFr auction.bids[(slot : ℕ)].commitment =
      h.poseidon [(price slot : Fr), (salt slot : Fr), (k : Fr)] := by rw [hc, toFr_ofFr]
  refine ⟨hfr, fun hzero => hmarker ?_⟩
  rw [hc, ← hfr, hzero, ofFr_zero]

theorem slot_empty {slot : Fin 8} (hge : ¬(slot : ℕ) < auction.bids.length) :
    toFr (slotCommitment auction.bids slot) = 0 := by
  have hnone : auction.bids[(slot : ℕ)]? = none := List.getElem?_eq_none (by omega)
  simp [slotCommitment, hnone, toFr]

theorem HonestBids.positive_other (hb : HonestBids h auction k w price salt) :
    ∃ i, i ≠ w ∧ i < auction.bids.length ∧ 0 < price i := by
  obtain ⟨i, j, hij, hi, hj, hpi, hpj⟩ := hb.twoPositive
  by_cases hiw : i = w
  · exact ⟨j, fun hjw => hij (hiw.trans hjw.symm), hj, hpj⟩
  · exact ⟨i, hiw, hi, hpi⟩

theorem slotPrices_bid {slot : Fin 8} (hlt : (slot : ℕ) < auction.bids.length) :
    slotPrices auction price slot = price slot := if_pos hlt

theorem slotPrices_empty {slot : Fin 8} (hge : ¬(slot : ℕ) < auction.bids.length) :
    slotPrices auction price slot = 0 := if_neg hge

theorem HonestBids.isWinner (hb : HonestBids h auction k w price salt) (hw8 : w < 8) :
    IsWinner (slotPrices auction price) ⟨w, hw8⟩ := by
  obtain ⟨hw, hmax, hlow⟩ := hb.winner
  have hwin : slotPrices auction price ⟨w, hw8⟩ = price w := slotPrices_bid hw
  constructor
  · intro slot
    rw [hwin]
    by_cases hlt : (slot : ℕ) < auction.bids.length
    · rw [slotPrices_bid hlt]
      exact hmax slot hlt
    · rw [slotPrices_empty hlt]
      exact Nat.zero_le _
  · intro slot hlt
    have hlt' : (slot : ℕ) < w := hlt
    rw [hwin, slotPrices_bid (by omega)]
    exact hlow slot hlt'

theorem HonestBids.clearing_positive (hb : HonestBids h auction k w price salt)
    (hv : auction.Valid) (hw8 : w < 8) :
    0 < clearingPrice (slotPrices auction price) ⟨w, hw8⟩ := by
  obtain ⟨i, hne, hi, hpos⟩ := hb.positive_other
  have hi8 : i < 8 := lt_of_lt_of_le hi hv.slots
  have hslot : slotPrices auction price ⟨i, hi8⟩ = price i := slotPrices_bid hi
  have hle : slotPrices auction price ⟨i, hi8⟩ ≤ clearingPrice (slotPrices auction price) ⟨w, hw8⟩ :=
    le_clearingPrice (by simpa [Fin.ext_iff] using hne)
  omega

theorem clearing_capped (hv : auction.Valid) (hw8 : w < 8)
    (hcap : ∀ i, i < auction.bids.length → i ≠ w → (price i : ℤ) ≤ auction.maxPrice) :
    ((clearingPrice (slotPrices auction price) ⟨w, hw8⟩ : ℕ) : ℤ) ≤ auction.maxPrice := by
  have hprice := hv.price
  have hle : clearingPrice (slotPrices auction price) ⟨w, hw8⟩ ≤ auction.maxPrice.toNat := by
    refine Finset.sup_le fun slot hslot => ?_
    have hne : (slot : ℕ) ≠ w := fun he => Finset.ne_of_mem_erase hslot (Fin.ext he)
    by_cases hlt : (slot : ℕ) < auction.bids.length
    · have hcapped := hcap slot hlt hne
      rw [slotPrices_bid hlt]
      omega
    · rw [slotPrices_empty hlt]
      exact Nat.zero_le _
  omega

theorem HonestBids.trueOutcome (hb : HonestBids h auction k w price salt) (hv : auction.Valid)
    (hcap : ∀ i, i < auction.bids.length → i ≠ w → (price i : ℤ) ≤ auction.maxPrice) :
    ∃ p : ℤ, TrueOutcome h auction k w p (slotPrices auction price) fun slot => (salt slot : Fr) := by
  have hw8 : w < 8 := lt_of_lt_of_le hb.winner.1 hv.slots
  have hwinner := hb.isWinner hw8
  have hpositive := hb.clearing_positive hv hw8
  refine ⟨(clearingPrice (slotPrices auction price) ⟨w, hw8⟩ : ℕ), fun slot => ?_,
    fun slot hne => ?_, fun slot hzero => ?_,
    ⟨⟨w, hw8⟩, rfl, hwinner.maximal, hwinner.lowest, rfl⟩, by omega,
    clearing_capped hv hw8 hcap, hb.member⟩
  · by_cases hlt : (slot : ℕ) < auction.bids.length
    · rw [slotPrices_bid hlt]
      exact (hb.range slot hlt).1
    · rw [slotPrices_empty hlt]
      norm_num
  · by_cases hlt : (slot : ℕ) < auction.bids.length
    · rw [slotPrices_bid hlt]
      exact (hb.slot_opens hv hlt).1.symm
    · exact absurd (slot_empty hlt) hne
  · by_cases hlt : (slot : ℕ) < auction.bids.length
    · exact absurd hzero (hb.slot_opens hv hlt).2
    · exact slotPrices_empty hlt

end Honest

section Payments
variable {auction : Auction} {i : ℕ} {price : ℤ} {winner : Address}

theorem mem_settlePayments {m : TokenMove} (hm : m ∈ settlePayments h auction i price winner) :
    m = ⟨auction.paymentToken, h.self, auction.seller, price⟩ ∨
    (m = ⟨auction.paymentToken, h.self, winner, auction.maxPrice - price⟩ ∧
      0 < auction.maxPrice - price) ∨
    (∃ bid ∈ auction.bids, m = depositBack h auction bid) ∨ m = lotTo h auction winner := by
  rw [settlePayments, List.mem_cons, List.mem_append, List.mem_append] at hm
  obtain hm | (hm | hm) | hm := hm
  · exact .inl hm
  · right
    left
    rw [overpayment] at hm
    split at hm
    · rename_i hpos
      exact ⟨List.mem_singleton.mp hm, hpos⟩
    · exact absurd hm List.not_mem_nil
  · right
    right
    left
    obtain ⟨bid, hbid, rfl⟩ := List.mem_map.mp hm
    rw [losingBids_eq] at hbid
    exact ⟨bid, List.mem_of_mem_eraseIdx hbid, rfl⟩
  · exact .inr (.inr (.inr (List.mem_singleton.mp hm)))

theorem settlePayments_outgoing (hv : auction.Valid) (hx : auction.External h) {bid : Bid}
    (hb : auction.bids[i]? = some bid) (positive : 0 < price) :
    ∀ m ∈ settlePayments h auction i price bid.bidder, Outgoing h m := by
  intro m hm
  have hwinner := hx.bidders bid (List.mem_of_getElem? hb)
  obtain rfl | ⟨rfl, hpos⟩ | ⟨b, hb', rfl⟩ | rfl := mem_settlePayments hm
  · exact ⟨rfl, hx.seller, positive.le⟩
  · exact ⟨rfl, hwinner, hpos.le⟩
  · exact ⟨rfl, hx.bidders b hb', hv.price.le⟩
  · exact ⟨rfl, hwinner, hv.lot.le⟩

theorem settlePayments_token {m : TokenMove} (hm : m ∈ settlePayments h auction i price winner) :
    m.token = auction.paymentToken ∨ m.token = auction.rwaToken := by
  obtain rfl | ⟨rfl, -⟩ | ⟨b, -, rfl⟩ | rfl := mem_settlePayments hm
  · exact .inl rfl
  · exact .inl rfl
  · exact .inl rfl
  · exact .inr rfl

end Payments

/-- Every open auction past its deadline with honest bids, a second price within the cap and
tokens that pay, can be settled. -/
theorem settle_available (h : Host W) (refused : W → Address → Address → Bool) (g : Genesis W)
    (hcomplete : VerifierComplete h g.verifier) (actions : List (Action W))
    (hcallers : ∀ a ∈ actions, a.External h) (k w : ℕ) (auction : Auction)
    (ha : (runFrom h g actions).auctions k = some auction) (isOpen : auction.status = .Open)
    (due : auction.commitDeadline ≤ (runFrom h g actions).timestamp) (price salt : ℕ → ℕ)
    (hb : HonestBids h auction k w price salt)
    (hcap : ∀ i, i < auction.bids.length → i ≠ w → (price i : ℤ) ≤ auction.maxPrice)
    (htokens : ∀ t, t = auction.paymentToken ∨ t = auction.rwaToken →
      FundedRun h refused g actions t ∧ ∀ a, refused (runFrom h g actions).tokens t a = false) :
    ∃ p winner proof, ∀ signers, ∃ s',
      exec h signers (.settle k w p winner proof) (runFrom h g actions) = .ok s' := by
  have hs := runFrom_solvent g hcallers
  have hv := (hs.valid.stored k auction ha).2.2
  have hx := hs.external k auction ha
  obtain ⟨p, ht⟩ := hb.trueOutcome hv hcap
  obtain ⟨bid, hbid, -⟩ := hb.member
  have hsat : Satisfiable h.poseidon (settlePublic h auction k w p bid.bidder) :=
    (satisfiable_settlePublic hv hbid ht.positive ht.capped).mpr ⟨_, _, ht⟩
  have hvector := settle_vector (h := h) hs.valid ha hbid ht.positive ht.capped
  obtain ⟨proof, hproof⟩ := hcomplete _ hsat _ hvector
  have hpay : ∃ s₁, payAll h (settlePayments h auction w p bid.bidder)
      ((runFrom h g actions).setAuction h k (closed auction .Settled)) = .ok s₁ := by
    refine payAll_accepted (fun m hm => (htokens _ (settlePayments_token hm)).1.token)
      (settlePayments_outgoing hv hx hbid ht.positive)
      (fun m hm => (htokens _ (settlePayments_token hm)).2 m.dst) fun m hm => ?_
    have hfunds := (htokens _ (settlePayments_token hm)).1.owes_le_balance hcallers ha
    have hwinner := hx.bidders bid (List.mem_of_getElem? hbid)
    rw [net_settlePayments h m.token h.self isOpen hbid ht.capped,
      net_trade_self p hx.seller hwinner, net_held_self h hx]
    change _ ≤ h.balance (runFrom h g actions).tokens m.token h.self
    omega
  obtain ⟨s₁, hs₁⟩ := hpay
  refine ⟨p, bid.bidder, proof, fun signers => ⟨_, (settle_eq_ok h k w p bid.bidder proof _ _).mpr
    ⟨auction, ha, isOpen, due, hb.winner.1, ht.positive, ht.capped, bid, hbid, rfl, g.verifier,
      runFrom_verifier g actions, hproof, s₁, hs₁, rfl⟩⟩⟩

/-- The verifier that accepts exactly the vectors satisfying the circuit. -/
def exactVerifier (poseidon : Poseidon) (signals : List U256) : Prop :=
  ∃ pub : PublicSignals 8, signals.map toFr = pub.toList ∧ Satisfiable poseidon pub

open Classical in
theorem exactVerifier_complete (self verifier : Address) (poseidon : Poseidon) :
    VerifierComplete (sacHost self (fun _ _ signals =>
      some (decide (exactVerifier poseidon signals))) poseidon) verifier := by
  intro pub hsat signals hs
  exact ⟨⟨Vector.replicate 64 0, Vector.replicate 128 0, Vector.replicate 64 0⟩,
    congrArg some (decide_eq_true ⟨pub, hs, hsat⟩)⟩

open Classical in
/-- Bids of 10 and 11 with a cap of 5: no arguments and no proof settle the auction. -/
theorem settle_above_cap :
    let leaf : U256 := 0x04040404040404040404040404040404
    let h := sacHost (.contract (keyOf 0)) (fun _ _ signals =>
      some (decide (exactVerifier firstInput signals))) firstInput
    let g : Genesis SacState := ⟨.contract (keyOf 1), evenTokens 100, 0, 1⟩
    let first : Address := .account (keyOf 3)
    let second : Address := .account (keyOf 4)
    let args : CreateArgs := ⟨.account (keyOf 2), .contract (keyOf 10), 7, .contract (keyOf 11), 5,
      10, 3, leaf, keyOf 9⟩
    let actions : List (Action SacState) := [.call [.account (keyOf 2)] (.createAuction args),
      .call [first] (.placeBid 1 first 10 []), .call [second] (.placeBid 1 second 11 []),
      .closeLedger 10 2]
    VerifierComplete h g.verifier ∧ (∀ a ∈ actions, a.External h) ∧
      (∃ auction, (runFrom h g actions).auctions 1 = some auction ∧ auction.status = .Open ∧
        auction.commitDeadline ≤ (runFrom h g actions).timestamp ∧
        HonestBids h auction 1 1 (fun i => 10 + i) (fun _ => 0)) ∧
      ∀ signers i p winner proof s',
        exec h signers (.settle 1 i p winner proof) (runFrom h g actions) ≠ .ok s' := by
  intro leaf h g first second args actions
  have hcomplete : VerifierComplete h g.verifier := exactVerifier_complete _ _ _
  have hsound : VerifierSound h g.verifier := fun proof signals hv =>
    of_decide_eq_true (Option.some.inj hv)
  refine ⟨hcomplete, by decide, ⟨_, rfl, rfl, by decide, ?_⟩, ?_⟩
  · refine ⟨fun i hi => ?_, fun i bid hbid => ?_, ⟨by decide, fun i hi => ?_, fun i hi => ?_⟩,
      ⟨0, 1, by decide, by decide, by decide, by decide, by decide⟩,
      ⟨_, rfl, List.replicate 10 (0, false), rfl, by decide⟩⟩
    · have hi2 : i < 2 := hi
      exact ⟨by omega, by norm_num⟩
    · match i, hbid with
      | 0, hbid =>
        cases hbid
        decide
      | 1, hbid =>
        cases hbid
        decide
    · have hi2 : i < 2 := hi
      omega
    · omega
  · intro signers i p winner proof s' he
    obtain ⟨auction, ha, -, prices, salts, ht⟩ := settle_trueOutcome hsound he
    cases ha
    have hfield : 2 ^ 64 < fieldOrder := by norm_num
    have h0 : ((prices 0 : ℕ) : Fr) = ((10 : ℕ) : Fr) := ht.opens 0 (by decide)
    have h1 : ((prices 1 : ℕ) : Fr) = ((11 : ℕ) : Fr) := ht.opens 1 (by decide)
    have hp0 : prices 0 = 10 :=
      Circom.natCast_inj (p := fieldOrder) (lt_trans (ht.range 0) hfield) (by omega) h0
    have hp1 : prices 1 = 11 :=
      Circom.natCast_inj (p := fieldOrder) (lt_trans (ht.range 1) hfield) (by omega) h1
    obtain ⟨w, -, hmax, -, hprice⟩ := ht.outcome
    have hw : w ≠ 0 := by
      intro hw
      subst hw
      have hle := hmax 1
      omega
    have hsecond : prices 0 ≤ (Finset.univ.erase w).sup prices := le_clearingPrice hw.symm
    have hcap : p ≤ 5 := ht.capped
    omega

open Classical in
/-- The same auction with bids of 4 and 2 settles. -/
theorem settle_available_witness :
    let leaf : U256 := 0x03030303030303030303030303030303
    let h := sacHost (.contract (keyOf 0)) (fun _ _ signals =>
      some (decide (exactVerifier firstInput signals))) firstInput
    let g : Genesis SacState := ⟨.contract (keyOf 1), evenTokens 100, 0, 1⟩
    let first : Address := .account (keyOf 3)
    let second : Address := .account (keyOf 4)
    let args : CreateArgs := ⟨.account (keyOf 2), .contract (keyOf 10), 7, .contract (keyOf 11), 5,
      10, 3, leaf, keyOf 9⟩
    let actions : List (Action SacState) := [.call [.account (keyOf 2)] (.createAuction args),
      .call [first] (.placeBid 1 first 4 []), .call [second] (.placeBid 1 second 2 []),
      .closeLedger 10 2]
    ∃ p winner proof, ∀ signers, ∃ s',
      exec h signers (.settle 1 0 p winner proof) (runFrom h g actions) = .ok s' := by
  intro leaf h g first second args actions
  have hcomplete : VerifierComplete h g.verifier := exactVerifier_complete _ _ _
  have hcallers : ∀ a ∈ actions, a.External h := by decide
  have hfunded : ∀ t, t = .contract (keyOf 11) ∨ t = .contract (keyOf 10) →
      FundedRun h SacState.refused g actions t ∧
        ∀ a, (runFrom h g actions).tokens.refused t a = false := by
    intro t _
    have hstart : (0 : ℤ) ≤ 100 := by norm_num
    have hdebit := sac_noOtherDebit (runFrom_solvent g hcallers).log (by decide) t
    exact ⟨⟨sac_paying t, hstart, hdebit⟩, fun a => rfl⟩
  refine settle_available h SacState.refused g hcomplete actions hcallers 1 0 _ rfl rfl
    (by decide) (fun i => if i = 0 then 4 else 2) (fun _ => 0) ?_ (fun i hi hne => ?_) hfunded
  · refine ⟨fun i hi => ?_, fun i bid hbid => ?_, ⟨by decide, fun i hi => ?_, fun i hi => ?_⟩,
      ⟨0, 1, by decide, by decide, by decide, by decide, by decide⟩,
      ⟨_, rfl, List.replicate 10 (0, false), rfl, by decide⟩⟩
    · refine ⟨?_, by norm_num⟩
      split <;> norm_num
    · match i, hbid with
      | 0, hbid =>
        cases hbid
        decide
      | 1, hbid =>
        cases hbid
        decide
    · change (if i = 0 then 4 else 2) ≤ 4
      split <;> norm_num
    · omega
  · change (((if i = 0 then 4 else 2 : ℕ)) : ℤ) ≤ 5
    split <;> norm_num

end SealedStellar
