import SealedStellar.RevealedBids
import SealedStellar.SettleAgreement
import SealedStellar.Settleability

/-! From sealed bids to the settled auction: every stage of the settlement goes through for
bidders who seal what the page seals, and each hands the next what it asks for. -/
namespace SealedStellar
open Checked SecondPrice BigIntText TokenFlow
variable {W : Type} {h : Host W} {strKey : StrKey} {nacl : Nacl}

structure HonestRecord (h : Host W) (nacl : Nacl) (boxSecret : List UInt8) (k : ℕ) (cap : ℤ)
    (r : BidRecord) (price : ℕ) (randomness : SealRandomness) : Prop where
  wellFormed : randomness.WellFormed
  positive : 0 < price
  range : price < 2 ^ 64
  capped : (price : ℤ) ≤ cap
  commitment : (r.commitment.toNat : ℤ) = (sealBid nacl (poseidonHasher h.poseidon) randomness price k
    (nacl.publicKey boxSecret)).commitment
  encryptedBid : r.encryptedBid = (sealBid nacl (poseidonHasher h.poseidon) randomness price k
    (nacl.publicKey boxSecret)).encryptedBid

def HonestReveal (strKey : StrKey) (hash : List ℤ → ℤ) (k : ℕ) (auction : Auction)
    (r : RevealedBid) : Prop :=
  ∃ (i : ℕ) (bid : Bid) (price salt : ℕ), auction.bids[i]? = some bid ∧ r.slotIndex = i ∧
    r.bidder = strKey.encode bid.bidder ∧ parse r.commitment = some (bid.commitment.toNat : ℤ) ∧
    parse r.price = some (price : ℤ) ∧ parse r.salt = some (salt : ℤ) ∧ 0 < price ∧
    (price : ℤ) ≤ auction.maxPrice ∧ hash [(price : ℤ), (salt : ℤ), (k : ℤ)] = bid.commitment.toNat

def OpenedSlots (hash : List ℤ → ℤ) (k : ℕ) (cap : ℤ) (slots : SlotData) : Prop :=
  ∀ i, slots.bidders.getD i none ≠ none →
    0 < slots.prices.getD i 0 ∧ slots.prices.getD i 0 ≤ cap ∧
    hash [slots.prices.getD i 0, slots.salts.getD i 0, (k : ℤ)] = slots.commitments.getD i 0

section Slots
variable {hash : List ℤ → ℤ} {k : ℕ} {auction : Auction}

theorem emptySlots_opened (hash : List ℤ → ℤ) (k : ℕ) (cap : ℤ) :
    OpenedSlots hash k cap emptySlots := by
  intro i hfilled
  refine absurd ?_ hfilled
  by_cases hi : i < maxBidSlots <;> simp [emptySlots, List.getD_eq_getElem?_getD, hi]

theorem getD_set_self {α : Type} {l : List α} {i : ℕ} (hi : i < l.length) (a z : α) :
    (l.set i a).getD i z = a := by
  rw [List.getD_eq_getElem?_getD, List.getElem?_set_self hi, Option.getD_some]

theorem getD_set_ne {α : Type} {l : List α} {i j : ℕ} (hij : j ≠ i) (a z : α) :
    (l.set i a).getD j z = l.getD j z := by
  rw [List.getD_eq_getElem?_getD, List.getElem?_set_ne (Ne.symm hij), List.getD_eq_getElem?_getD]

theorem layOut_honest (hroom : auction.bids.length ≤ maxBidSlots) {slots : SlotData}
    {r : RevealedBid} (hr : HonestReveal strKey hash k auction r)
    (hs : LaidOut strKey auction slots) (ho : OpenedSlots hash k auction.maxPrice slots) :
    ∃ slots', layOut slots r = .ok slots' ∧ OpenedSlots hash k auction.maxPrice slots' := by
  obtain ⟨i, bid, price, salt, hbid, hi, hbidder, hcommitment, hprice, hsalt, hpos, hcap, hopen⟩ := hr
  have hlt : i < 8 := lt_of_lt_of_le (List.getElem?_eq_some_iff.mp hbid).1 hroom
  have hrange : ¬((i : ℤ) < 0 ∨ (i : ℤ) ≥ maxBidSlots) := by
    simp only [maxBidSlots]
    omega
  refine ⟨{ prices := slots.prices.set i price
            salts := slots.salts.set i salt
            commitments := slots.commitments.set i bid.commitment.toNat
            bidders := slots.bidders.set i (some r.bidder) }, ?_, ?_⟩
  · simp only [layOut, bind_eq_ok, ensure_eq_ok, okOr_eq_ok, pure_eq_ok, hprice, hsalt, hcommitment,
      hi, Option.some.injEq, exists_eq_left', Int.toNat_natCast]
    exact ⟨(), hrange, trivial⟩
  · intro j hfilled
    by_cases hj : j = i
    · subst hj
      rw [getD_set_self (by rw [hs.prices]; exact hlt), getD_set_self (by rw [hs.salts]; exact hlt),
        getD_set_self (by rw [hs.commitments]; exact hlt)]
      exact ⟨by omega, hcap, hopen⟩
    · simp only [getD_set_ne hj] at hfilled ⊢
      exact ho j hfilled

theorem layOut_honest_run (hroom : auction.bids.length ≤ maxBidSlots) {bids : List RevealedBid}
    (hr : ∀ r ∈ bids, HonestReveal strKey hash k auction r)
    (hrepeats : ∀ r ∈ bids, Repeats strKey auction r) {slots : SlotData}
    (hs : LaidOut strKey auction slots) (ho : OpenedSlots hash k auction.maxPrice slots) :
    ∃ slots', bids.foldlM layOut slots = .ok slots' ∧ OpenedSlots hash k auction.maxPrice slots' := by
  induction bids generalizing slots with
  | nil => exact ⟨slots, rfl, ho⟩
  | cons r bids ih =>
    obtain ⟨slots₁, hfirst, ho₁⟩ := layOut_honest hroom (hr r List.mem_cons_self) hs ho
    obtain ⟨hs₁, -, -⟩ := layOut_step (hrepeats r List.mem_cons_self) hs hfirst
    obtain ⟨slots₂, hrest, ho₂⟩ := ih (fun q hq => hr q (List.mem_cons_of_mem r hq))
      (fun q hq => hrepeats q (List.mem_cons_of_mem r hq)) hs₁ ho₁
    exact ⟨slots₂, by rw [List.foldlM_cons]; exact bind_eq_ok.mpr ⟨slots₁, hfirst, hrest⟩, ho₂⟩

theorem LaidOut.filled {slots : SlotData} (hs : LaidOut strKey auction slots)
    (hempty : ∀ i, EmptySlot slots i → auction.bids[i]? = none) {i : ℕ}
    (hi : i < auction.bids.length) : FilledSlot strKey auction slots i := by
  cases hs.slot i with
  | inl he =>
    have hsome : auction.bids[i]? ≠ none := by
      rw [List.getElem?_eq_getElem hi]
      exact Option.some_ne_none _
    exact absurd (hempty i he) hsome
  | inr hf => exact hf

theorem LaidOut.settles {slots : SlotData} (hs : LaidOut strKey auction slots)
    (hempty : ∀ i, EmptySlot slots i → auction.bids[i]? = none)
    (ho : OpenedSlots hash k auction.maxPrice slots) (htwo : 2 ≤ auction.bids.length) :
    ∃ (w : ℕ) (bid : Bid), auction.bids[w]? = some bid ∧
      slots.bidders.getD w none = some (strKey.encode bid.bidder) ∧
      (selectVickreyOutcome slots.prices).winnerIndex = (w : ℤ) ∧
      0 < (selectVickreyOutcome slots.prices).winnerPrice ∧
      0 < (selectVickreyOutcome slots.prices).clearingPrice ∧
      (selectVickreyOutcome slots.prices).clearingPrice ≤ auction.maxPrice := by
  obtain ⟨w, hwin, hout⟩ := selectVickreyOutcome_eq (by norm_num) hs.prices hs.price_eq
  have hslot : ∀ i < auction.bids.length, ∃ bid, auction.bids[i]? = some bid ∧
      slots.bidders.getD i none = some (strKey.encode bid.bidder) ∧ 0 < slots.prices.getD i 0 ∧
      slots.prices.getD i 0 ≤ auction.maxPrice := by
    intro i hi
    obtain ⟨bid, hbid, hbidder, -⟩ := hs.filled hempty hi
    obtain ⟨hpos, hcap, -⟩ := ho i (by rw [hbidder]; exact Option.some_ne_none _)
    exact ⟨bid, hbid, hbidder, hpos, hcap⟩
  have hprices : ∀ i : Fin 8, (i : ℕ) < auction.bids.length → 0 < priceAt slots i := by
    intro i hi
    obtain ⟨-, -, -, hpos, -⟩ := hslot i hi
    rw [hs.price_eq] at hpos
    exact_mod_cast hpos
  have hcaps : ∀ i : Fin 8, (priceAt slots i : ℤ) ≤ auction.maxPrice := by
    intro i
    rw [← hs.price_eq]
    by_cases hi : slots.bidders.getD i none = none
    · cases hs.slot i with
      | inl he =>
        obtain ⟨-, -, -, hpos, hcap⟩ := hslot 0 (by omega)
        rw [he.2.1]
        omega
      | inr hf =>
        obtain ⟨bid, -, hbidder, -⟩ := hf
        rw [hi] at hbidder
        cases hbidder
    · exact (ho i hi).2.1
  have hwinner : (w : ℕ) < auction.bids.length := by
    by_contra hge
    have hzero : priceAt slots w = 0 := by
      cases hs.slot w with
      | inl he => rw [priceAt, he.2.1, Int.toNat_zero]
      | inr hf =>
        obtain ⟨bid, hbid, -⟩ := hf
        rw [List.getElem?_eq_none (by omega)] at hbid
        cases hbid
    have hmax := hwin.maximal ⟨0, by omega⟩
    have hfirst := hprices ⟨0, by omega⟩ (by simp only; omega)
    omega
  obtain ⟨bid, hbid, hbidder, hpos, -⟩ := hslot w hwinner
  -- some other slot holds a bid, and bounds the clearing price from below
  obtain ⟨j, hj, hjw⟩ : ∃ j : Fin 8, (j : ℕ) < auction.bids.length ∧ j ≠ w := by
    by_cases hw0 : (w : ℕ) = 0
    · exact ⟨⟨1, by omega⟩, by simp only; omega, fun he => by rw [← he] at hw0; simp at hw0⟩
    · exact ⟨⟨0, by omega⟩, by simp only; omega, fun he => hw0 (by rw [← he])⟩
  have hclear : 0 < clearingPrice (priceAt slots) w :=
    lt_of_lt_of_le (hprices j hj) (le_clearingPrice hjw)
  have hcap : ((clearingPrice (priceAt slots) w : ℕ) : ℤ) ≤ auction.maxPrice :=
    le_trans (by exact_mod_cast clearingPrice_le hwin) (hcaps w)
  refine ⟨w, bid, hbid, hbidder, by rw [hout], ?_, ?_, ?_⟩
  · rw [hout, ← hs.price_eq]
    exact hpos
  · rw [hout]
    exact Int.natCast_pos.mpr hclear
  · rw [hout]
    exact hcap

end Slots

section Page
variable {hash : List ℤ → ℤ} {k : ℕ} {auction : Auction} {members : List String}

theorem computeWhitelistRoot_ok {root : ℤ}
    (hroot : computeWhitelistRoot strKey hash members = .ok root) :
    ValidMembers strKey members ∧ (memberTree strKey hash members).root = root := by
  have hvalid : ValidMembers strKey members := by
    rw [computeWhitelistRoot, bind_eq_ok] at hroot
    obtain ⟨_, hne, hroot⟩ := hroot
    rw [bind_eq_ok] at hroot
    obtain ⟨_, hcap, hroot⟩ := hroot
    rw [bind_eq_ok] at hroot
    obtain ⟨leaves, hleaves, -⟩ := hroot
    refine ⟨ensure_eq_ok.mp hne, ensure_eq_ok.mp hcap, fun m hm => ?_⟩
    obtain ⟨leaf, -, hleaf⟩ := result_of_mem (mapM_eq_ok.mp hleaves) hm
    obtain ⟨key, hkey, -⟩ := bind_eq_ok.mp hleaf
    rw [okOr_eq_ok.mp hkey]
    rfl
  refine ⟨hvalid, ?_⟩
  rw [computeWhitelistRoot_valid hvalid, Except.ok.injEq] at hroot
  exact hroot

/-- The page reaches its prover for every list of honestly revealed bids. -/
theorem prepareSettle_honest (hroom : auction.bids.length ≤ maxBidSlots)
    (htwo : 2 ≤ auction.bids.length) {bids : List RevealedBid}
    (hr : ∀ r ∈ bids, HonestReveal strKey hash k auction r) (hb : Coincides strKey auction bids)
    (hroot : computeWhitelistRoot strKey hash members = .ok (auction.whitelistRoot.toNat : ℤ))
    (hmembers : ∀ bid ∈ auction.bids, strKey.encode bid.bidder ∈ members) :
    ∃ slots input arguments, bids.foldlM layOut emptySlots = .ok slots ∧
      OpenedSlots hash k auction.maxPrice slots ∧
      assemble strKey hash (auctionView k auction) slots members = .ok (input, arguments) ∧
      prepareSettle strKey hash (auctionView k auction) bids members = .ok (input, arguments) := by
  obtain ⟨slots, hslots, ho⟩ := layOut_honest_run hroom hr hb.repeats emptySlots_laidOut
    (emptySlots_opened hash k auction.maxPrice)
  obtain ⟨hs, hempty⟩ := layOut_complete hb hslots
  obtain ⟨w, bid, hbid, hbidder, hindex, hpositive, hclearing, -⟩ :=
    hs.settles hempty ho htwo
  obtain ⟨hvalid, htree⟩ := computeWhitelistRoot_ok hroot
  obtain ⟨index, hloop, hmember⟩ :=
    @addMember_valid strKey hash members (strKey.encode bid.bidder) hvalid.valid
  have hne : bids ≠ [] := by
    intro he
    obtain ⟨r, hmem, -⟩ := hb.complete 0 (by omega)
    rw [he] at hmem
    exact absurd hmem List.not_mem_nil
  have hchecks : (List.range maxBidSlots).forM (checkSlot hash (auctionView k auction) slots) =
      .ok () :=
    checkSlots_eq_ok.mpr fun i _ hfilled => (ho i hfilled).2.2
  obtain ⟨i, rfl, -⟩ : ∃ i : ℕ, index = (i : ℤ) ∧ members[i]? = some (strKey.encode bid.bidder) := by
    cases hmember with
    | inl hnone => exact absurd (hmembers bid (List.mem_of_getElem? hbid)) hnone.1
    | inr hsome => exact hsome
  obtain ⟨⟨input, arguments⟩, hout⟩ : ∃ out,
      assemble strKey hash (auctionView k auction) slots members = .ok out := by
    simp only [assemble, bind_eq_ok, ensure_eq_ok, okOr_eq_ok, hindex, Int.toNat_natCast]
    exact ⟨_, (), hchecks, (), by omega, (), by omega, _, hbidder, _, hloop, (), by simp only; omega,
      (), htree, rfl⟩
  refine ⟨slots, input, arguments, hslots, ho, hout, ?_⟩
  exact bind_eq_ok.mpr ⟨(), ensure_eq_ok.mpr hne, bind_eq_ok.mpr ⟨slots, hslots, hout⟩⟩

end Page

section Reveal
variable {g : Genesis W} {actions : List (Action W)} {k : ℕ} {auction : Auction} {rpc : Rpc}
  {env : Environment} {boxSecret : List UInt8}

theorem HonestRecord.reveals (hn : nacl.Lawful) (hsecret : boxSecret.length = 32)
    (ha : (runFrom h g actions).auctions k = some auction) {r : BidRecord}
    (hr : r ∈ bidLog (runFrom h g actions) k) {price : ℕ} {randomness : SealRandomness}
    (honest : HonestRecord h nacl boxSecret k auction.maxPrice r price randomness) :
    ∃ b, revealBid nacl boxSecret (bidEventOf strKey r) = .ok b ∧
      HonestReveal strKey (poseidonHasher h.poseidon) k auction b := by
  have hopen := decryptBid_sealBid nacl (poseidonHasher h.poseidon) hn randomness honest.wellFormed
    honest.range k hsecret
  rw [← honest.encryptedBid] at hopen
  have hstored := List.mk_mem_zipIdx_iff_getElem?.mp (bidLog_mem_stored ha hr)
  refine ⟨_, revealBid_eq_ok.mpr ⟨price, _, hopen, rfl⟩, ?_⟩
  exact ⟨r.slotIndex, _, price, fromBeBytes randomness.salt, hstored, rfl, rfl, parse_natToString _,
    parse_natToString _, parse_natToString _, honest.positive, honest.capped,
    honest.commitment.symm⟩

theorem handler_honest (hn : nacl.Lawful) (hsecret : boxSecret.length = 32)
    (hload : loadBoxSecret env = .ok boxSecret)
    (ha : (runFrom h g actions).auctions k = some auction) (isOpen : auction.status = .Open)
    {now : ℕ} (due : auction.commitDeadline ≤ now) (hbids : auction.bids ≠ [])
    (hrpc : rpc.Shows (runFrom h g actions)) {record : AuctionRecord}
    (hrecord : rpc.getAuction k = .result record) {latest : ℕ}
    (hlatest : rpc.getLatestLedger = .ok latest) {pages : List EventsPage}
    (hpages : rpc.Serves k maxEventPages (.startLedger (startLedger latest)) pages)
    (hall : ∀ r ∈ bidLog (runFrom h g actions) k, .bidPlaced r ∈ pages.flatMap EventsPage.events)
    (honest : ∀ r ∈ bidLog (runFrom h g actions) k, ∃ price randomness,
      HonestRecord h nacl boxSecret k auction.maxPrice r price randomness) :
    ∃ bids, handler strKey nacl env rpc now ⟨"POST", some k⟩ =
        ⟨200, .revealed k (toString auction.whitelistRoot.toNat)
          (getRegistryMembers rpc auction.whitelistRoot.toNat) bids⟩ ∧
      Coincides strKey auction bids ∧
      ∀ b ∈ bids, HonestReveal strKey (poseidonHasher h.poseidon) k auction b := by
  obtain ⟨served, hserved, hsub⟩ := hrpc.served hpages
  have hsame : served = bidLog (runFrom h g actions) k := by
    refine served_all hsub fun r hr => ?_
    have hmem := hall r hr
    rw [hserved] at hmem
    obtain ⟨r', hr', he⟩ := List.mem_map.mp hmem
    cases he
    exact hr'
  subst hsame
  have hne : bidLog (runFrom h g actions) k ≠ [] := by
    intro hnil
    have hstored := bidLog_stored (h := h) g actions k
    rw [hnil, storedBids_some ha, List.map_nil] at hstored
    exact hbids (List.zipIdx_eq_nil_iff.mp hstored.symm)
  have hopen : ∀ r ∈ bidLog (runFrom h g actions) k,
      decryptBid nacl r.encryptedBid boxSecret ≠ none := by
    intro r hr
    obtain ⟨price, randomness, hr'⟩ := honest r hr
    obtain ⟨b, hb, -⟩ : ∃ b, revealBid nacl boxSecret (bidEventOf strKey r) = .ok b ∧
        HonestReveal strKey (poseidonHasher h.poseidon) k auction b := hr'.reveals hn hsecret ha hr
    obtain ⟨p, salt, he, -⟩ := revealBid_eq_ok.mp hb
    exact fun hnone => absurd (hnone.symm.trans he) (by simp)
  obtain ⟨bids, hrevealed⟩ := revealed_exists strKey hopen
  have hevents : fetchBidEvents strKey rpc k =
      .ok ((bidLog (runFrom h g actions) k).map (bidEventOf strKey)) :=
    (fetchBidEvents_shows hrpc).mpr ⟨latest, pages, _, hlatest, hpages, hserved, hsub, rfl⟩
  have hresponse : handler strKey nacl env rpc now ⟨"POST", some k⟩ =
      ⟨200, .revealed k (toString auction.whitelistRoot.toNat)
        (getRegistryMembers rpc auction.whitelistRoot.toNat) bids⟩ :=
    handler_reveals hrpc ha isOpen due hrecord hevents hne hload hrevealed
  refine ⟨bids, hresponse, ?_, fun b hb => ?_⟩
  · refine (coincides_iff_listsStored ha hrpc hresponse).mpr ?_
    exact (listsStored_iff ha hsub hrevealed).mpr rfl
  · obtain ⟨e, he, hopened⟩ := source_of_mem hrevealed hb
    obtain ⟨r, hr, rfl⟩ := List.mem_map.mp he
    obtain ⟨price, randomness, hr'⟩ := honest r hr
    obtain ⟨b', hb', hreveal⟩ : ∃ b, revealBid nacl boxSecret (bidEventOf strKey r) = .ok b ∧
        HonestReveal strKey (poseidonHasher h.poseidon) k auction b := hr'.reveals hn hsecret ha hr
    rw [hopened, Except.ok.injEq] at hb'
    exact hb' ▸ hreveal

end Reveal
/-- The prover finds a proof for every satisfied input, and the verifier takes it. -/
def ProverComplete (h : Host W) (verifier : Address)
    (proveCircuit : CircuitInput → Except String VerifierProof) : Prop :=
  ∀ input : CircuitInput, input.Satisfies h.poseidon → ∃ proof, proveCircuit input = .ok proof ∧
    ∀ signals : List U256, signals.map (fun u => (u.toNat : ℤ)) = input.publicValues →
      h.verify verifier proof signals = some true

section Payments
variable {refused : W → Address → Address → Bool}

theorem settlement_covered {g : Genesis W} {actions : List (Action W)}
    (hcallers : ∀ a ∈ actions, a.External h) {k i : ℕ} {auction : Auction}
    (ha : (runFrom h g actions).auctions k = some auction) (isOpen : auction.status = .Open)
    {bid : Bid} (hbid : auction.bids[i]? = some bid) {price : ℤ} (positive : 0 < price)
    (capped : price ≤ auction.maxPrice)
    (htokens : ∀ t, t = auction.paymentToken ∨ t = auction.rwaToken →
      FundedRun h refused g actions t ∧ ∀ a, refused (runFrom h g actions).tokens t a = false) :
    ∃ s₁, payAll h (settlePayments h auction i price bid.bidder)
      ((runFrom h g actions).setAuction h k (closed auction .Settled)) = .ok s₁ := by
  have hs := runFrom_solvent g hcallers
  have hv := (hs.valid.stored k auction ha).2.2
  have hx := hs.external k auction ha
  refine payAll_accepted (fun m hm => (htokens _ (settlePayments_token hm)).1.token)
    (settlePayments_outgoing hv hx hbid positive)
    (fun m hm => (htokens _ (settlePayments_token hm)).2 m.dst) fun m hm => ?_
  have hfunds := (htokens _ (settlePayments_token hm)).1.owes_le_balance hcallers ha
  have hwinner := hx.bidders bid (List.mem_of_getElem? hbid)
  rw [net_settlePayments h m.token h.self isOpen hbid capped, net_trade_self price hx.seller hwinner,
    net_held_self h hx]
  change _ ≤ h.balance (runFrom h g actions).tokens m.token h.self
  omega

end Payments

/-- Honest bids on a closed auction: the endpoint reveals them, the page proves the settlement from
what it revealed, and the contract takes the bundle as long as the auction is open. -/
theorem honest_auction_settles (h : Host W) (strKey : StrKey) (hkeys : strKey.Faithful) (nacl : Nacl)
    (hn : nacl.Lawful) (refused : W → Address → Address → Bool) (g : Genesis W)
    (proveCircuit : CircuitInput → Except String VerifierProof)
    (hprover : ProverComplete h g.verifier proveCircuit) (actions : List (Action W)) (k : ℕ)
    (auction : Auction) (ha : (runFrom h g actions).auctions k = some auction)
    (isOpen : auction.status = .Open)
    (due : auction.commitDeadline ≤ (runFrom h g actions).timestamp)
    (htwo : 2 ≤ auction.bids.length) (boxSecret : List UInt8) (hsecret : boxSecret.length = 32)
    (honest : ∀ r ∈ bidLog (runFrom h g actions) k, ∃ price randomness,
      HonestRecord h nacl boxSecret k auction.maxPrice r price randomness)
    (members : List String) (hmembers : ∀ bid ∈ auction.bids, strKey.encode bid.bidder ∈ members)
    (hroot : computeWhitelistRoot strKey (poseidonHasher h.poseidon) members =
      .ok (auction.whitelistRoot.toNat : ℤ))
    (env : Environment) (hload : loadBoxSecret env = .ok boxSecret) (now : ℕ)
    (hnow : auction.commitDeadline ≤ now) (rpc : Rpc) (hrpc : rpc.Shows (runFrom h g actions))
    (record : AuctionRecord) (hrecord : rpc.getAuction k = .result record) (latest : ℕ)
    (hlatest : rpc.getLatestLedger = .ok latest) (pages : List EventsPage)
    (hpages : rpc.Serves k maxEventPages (.startLedger (startLedger latest)) pages)
    (hall : ∀ r ∈ bidLog (runFrom h g actions) k, .bidPlaced r ∈ pages.flatMap EventsPage.events)
    (hregistry : rpc.getMembers auction.whitelistRoot.toNat = .result (some members)) :
    ∃ bids bundle winner, handler strKey nacl env rpc now ⟨"POST", some k⟩ =
        ⟨200, .revealed k (toString auction.whitelistRoot.toNat) members bids⟩ ∧
      proveSettleFromRevealedBids strKey (poseidonHasher h.poseidon) proveCircuit
        (auctionView k auction) bids members = .ok bundle ∧
      strKey.encode winner = bundle.winnerAddress ∧ bundle.auctionId = k ∧
      ∀ later, (∀ a ∈ actions ++ later, a.External h) →
        (∃ current, (runFrom h g (actions ++ later)).auctions k = some current ∧
          current.status = .Open) →
        (∀ t, t = auction.paymentToken ∨ t = auction.rwaToken →
          FundedRun h refused g (actions ++ later) t ∧
            ∀ a, refused (runFrom h g (actions ++ later)).tokens t a = false) →
        ∀ signers, ∃ s', exec h signers (.settle bundle.auctionId bundle.winnerIndex
          bundle.winningPrice winner bundle.proof) (runFrom h g (actions ++ later)) = .ok s' := by
  have hvalid := runFrom_valid (h := h) g actions
  have hv := (hvalid.stored k auction ha).2.2
  have hid : k < 2 ^ 256 := by
    obtain ⟨next, hnext, -, hbound⟩ := hvalid.counter
    have hlt := (hvalid.stored k auction ha).2.1
    rw [hnext, Option.getD_some] at hlt
    simp only [u64Max] at hbound
    omega
  have hbids : auction.bids ≠ [] := by
    intro he
    rw [he] at htwo
    exact absurd htwo (by decide)
  obtain ⟨bids, hresponse, hcoincides, hreveals⟩ : ∃ bids,
      handler strKey nacl env rpc now ⟨"POST", some k⟩ =
        ⟨200, .revealed k (toString auction.whitelistRoot.toNat)
          (getRegistryMembers rpc auction.whitelistRoot.toNat) bids⟩ ∧
      Coincides strKey auction bids ∧
      ∀ b ∈ bids, HonestReveal strKey (poseidonHasher h.poseidon) k auction b :=
    handler_honest hn hsecret hload ha isOpen hnow hbids hrpc hrecord hlatest hpages hall honest
  have hlisted : getRegistryMembers rpc auction.whitelistRoot.toNat = members := by
    rw [getRegistryMembers, hregistry]
  rw [hlisted] at hresponse
  obtain ⟨slots, input, arguments, hslots, ho, hassemble, hprepare⟩ :=
    prepareSettle_honest hv.slots htwo hreveals hcoincides hroot hmembers
  obtain ⟨hs, hempty⟩ := layOut_complete hcoincides hslots
  obtain ⟨leaves, w, m, hleaves, hassembled⟩ := assemble_ok hassemble
  obtain ⟨w', bid, hbid, hbidder, hindex, -, hclearing, hcap⟩ := hs.settles hempty ho htwo
  have hw : w' = w := Int.ofNat_inj.mp (hindex.symm.trans hassembled.winner)
  subst hw
  have hcapacity : leaves.length ≤ 2 ^ merkleDepth := by
    rw [hleaves]
    exact (computeWhitelistRoot_ok hroot).1.capacity
  obtain ⟨proof, hproof, hverify⟩ := hprover input (hassembled.satisfies hv hs hcapacity)
  obtain ⟨hauctionId, hwinnerIndex, hprice⟩ := hassembled.arguments_eq
  have hwinner : strKey.encode bid.bidder = arguments.winnerAddress := by
    have hsame := hassembled.bidder
    rw [hbidder, Option.some.injEq] at hsame
    exact hsame
  have hvalues := hassembled.publicValues (h := h) hkeys hs hempty hid hwinner
  refine ⟨bids, { arguments with proof := proof }, bid.bidder, hresponse, ?_, hwinner,
    hauctionId, ?_⟩
  · rw [proveSettleFromRevealedBids, hprepare]
    simp [bind, Except.bind, hproof, pure, Except.pure]
  intro later hcallers hcurrent htokens signers
  obtain ⟨current, hsome, hopen⟩ := hcurrent
  -- past the deadline the record keeps its bids and its terms
  obtain ⟨current', hsome', hterms⟩ := (frozen_run ha due later).terms
  rw [hsome] at hsome'
  cases hsome'
  have hlate := (frozen_run ha due later).due
  have hkept : current = { auction with status := .Open, lotReclaimed := current.lotReclaimed } := by
    rw [SameTerms, hopen] at hterms
    exact hterms
  have hbids' : current.bids = auction.bids := by rw [hkept]
  have hmax : current.maxPrice = auction.maxPrice := by rw [hkept]
  have hsignals : buildPublicSignals h current k w' arguments.winningPrice bid.bidder =
      buildPublicSignals h auction k w' arguments.winningPrice bid.bidder := by
    rw [hkept]
    rfl
  have hslot : current.bids[w']? = some bid := by rw [hbids', hbid]
  have hpositive : 0 < arguments.winningPrice := by rw [hprice]; exact hclearing
  have hwithin : arguments.winningPrice ≤ current.maxPrice := by rw [hprice, hmax]; exact hcap
  have hdue : current.commitDeadline ≤ (runFrom h g (actions ++ later)).timestamp := by
    rw [hkept]
    exact hlate
  have htokens' : ∀ t, t = current.paymentToken ∨ t = current.rwaToken →
      FundedRun h refused g (actions ++ later) t ∧
        ∀ a, refused (runFrom h g (actions ++ later)).tokens t a = false := by
    intro t ht
    rw [hkept] at ht
    exact htokens t ht
  obtain ⟨s₁, hs₁⟩ := settlement_covered hcallers hsome hopen hslot hpositive hwithin htokens'
  have haccepted := hverify _ (by rw [hvalues, hauctionId, hwinnerIndex])
  rw [auctionView] at hauctionId
  simp only at hauctionId
  refine ⟨_, (settle_eq_ok h arguments.auctionId arguments.winnerIndex arguments.winningPrice
    bid.bidder proof _ _).mpr ⟨current, ?_, hopen, hdue, ?_, hpositive, hwithin, bid, ?_, rfl,
      g.verifier, runFrom_verifier g (actions ++ later), ?_, s₁, ?_, rfl⟩⟩
  · rw [hauctionId, hsome]
  · rw [hwinnerIndex]
    exact (List.getElem?_eq_some_iff.mp hslot).1
  · rw [hwinnerIndex, hslot]
  · rw [hauctionId, hwinnerIndex, hsignals]
    exact haccepted
  · rw [hauctionId, hwinnerIndex]
    exact hs₁

section Sample

def registryRpc (s : State W) (members : List String) : Rpc :=
  { snapshotRpc s with getMembers := fun _ => .result (some members) }

theorem registryRpc_shows (s : State W) (members : List String) : (registryRpc s members).Shows s :=
  ⟨(snapshotRpc_shows s).auction, (snapshotRpc_shows s).events⟩

theorem registryRpc_auction {s : State W} {k : ℕ} {auction : Auction}
    (ha : s.auctions k = some auction) (members : List String) :
    (registryRpc s members).getAuction k = .result (auctionRecord auction) := by
  simp only [registryRpc, snapshotRpc, ha]

theorem publicValues_cast {input : CircuitInput} (hslots : input.commitments.length = 8) :
    input.publicValues.map (fun x : ℤ => (x : Fr)) = input.publicSignals.toList := by
  have hcommitments : input.commitments.map (fun x : ℤ => (x : Fr)) =
      List.ofFn input.publicSignals.commitments := by
    apply List.ext_getElem
    · simp [hslots]
    · intro i hi hi'
      have hlt : i < input.commitments.length := by simpa using hi
      rw [List.getElem_map, List.getElem_ofFn, CircuitInput.publicSignals]
      simp only [List.getD_eq_getElem?_getD, List.getElem?_eq_getElem hlt, Option.getD_some]
  rw [CircuitInput.publicValues, PublicSignals.toList, List.map_cons, List.map_append, hcommitments]
  rfl

open Classical in
theorem exactVerifier_prover (self verifier : Address) (poseidon : Poseidon) (proof : VerifierProof) :
    ProverComplete (sacHost self (fun _ _ signals =>
      some (decide (exactVerifier poseidon signals))) poseidon) verifier fun _ => .ok proof := by
  intro input hsat
  refine ⟨proof, rfl, fun signals hsignals => congrArg some (decide_eq_true ?_)⟩
  obtain ⟨priv, -, -, -, -, hassignment⟩ := hsat.assignment
  refine ⟨input.publicSignals, ?_, priv, hassignment⟩
  rw [← publicValues_cast hsat.slots.1, ← hsignals, List.map_map]
  refine List.map_congr_left fun u _ => ?_
  rw [Function.comp_apply, Int.cast_natCast]
  rfl

set_option maxRecDepth 4000 in
open Classical in
/-- Bids of 4 and 2, sealed by the page, settled from the endpoint's response. -/
theorem honest_auction_settles_at :
    let leaf : U256 := 0x03030303030303030303030303030303
    let h := sacHost (.contract (keyOf 0)) (fun _ _ signals =>
      some (decide (exactVerifier firstInput signals))) firstInput
    let g : Genesis SacState := ⟨.contract (keyOf 1), evenTokens 100, 0, 1⟩
    let first : Address := .account (keyOf 3)
    let second : Address := .account (keyOf 4)
    let args : CreateArgs := ⟨.account (keyOf 2), .contract (keyOf 10), 7, .contract (keyOf 11), 5,
      10, 3, leaf, keyOf 10⟩
    let actions : List (Action SacState) := [.call [.account (keyOf 2)] (.createAuction args),
      .call [first] (.placeBid 1 first 4 (sampleCiphertext 1 4 1)),
      .call [second] (.placeBid 1 second 2 (sampleCiphertext 2 2 1)), .closeLedger 10 2]
    ∃ winnerIndex price winner proof s',
      exec h [] (.settle 1 winnerIndex price winner proof) (runFrom h g actions) = .ok s' := by
  intro leaf h g first second args actions
  let auction : Auction := { newAuction args with bids := [⟨first, 4⟩, ⟨second, 2⟩] }
  let members := [sep23.encode first, sep23.encode second]
  have ha : (runFrom h g actions).auctions 1 = some auction := by decide +kernel
  have hlog : bidLog (runFrom h g actions) 1 = [⟨1, 0, first, 4, sampleCiphertext 1 4 1⟩,
      ⟨1, 1, second, 2, sampleCiphertext 2 2 1⟩] := by decide +kernel
  have hcallers : ∀ a ∈ actions, a.External h := by decide
  have hbox : (keyOf 10).toList = tagBox.publicKey (List.replicate 32 9) := rfl
  have hhonest : ∀ r ∈ bidLog (runFrom h g actions) 1, ∃ price randomness,
      HonestRecord h tagBox (List.replicate 32 9) 1 auction.maxPrice r price randomness := by
    rw [hlog]
    refine List.forall_mem_cons.mpr ⟨⟨4, sampleRandomness 1, sampleRandomness_wellFormed 1, by decide,
      by norm_num, by decide, by decide, ?_⟩, List.forall_mem_cons.mpr ⟨⟨2, sampleRandomness 2,
        sampleRandomness_wellFormed 2, by decide, by norm_num, by decide, by decide, ?_⟩, nofun⟩⟩
    · rw [← hbox]
      rfl
    · rw [← hbox]
      rfl
  have hread : (registryRpc (runFrom h g actions) members).getEvents =
      (snapshotRpc (runFrom h g actions)).getEvents := rfl
  obtain ⟨pages, hpages, hfound⟩ := fetchPages_eq_ok.mp
    (fetchPages_snapshot hread (bidsDue_length ha (startLedger (runFrom h g actions).sequence)))
  have hall : ∀ r ∈ bidLog (runFrom h g actions) 1, EventValue.bidPlaced r ∈
      pages.flatMap EventsPage.events := by
    have hkept : (bidLog (runFrom h g actions) 1).filter (fun r =>
        decide (startLedger (runFrom h g actions).sequence ≤ r.ledger)) =
          bidLog (runFrom h g actions) 1 := by
      rw [hlog]
      decide +kernel
    intro r hr
    rw [hfound]
    exact List.mem_map_of_mem (hkept.symm ▸ hr)
  have hmembers : ∀ bid ∈ auction.bids, sep23.encode bid.bidder ∈ members :=
    List.forall_mem_cons.mpr ⟨List.mem_cons_self, List.forall_mem_cons.mpr
      ⟨List.mem_cons_of_mem _ List.mem_cons_self, nofun⟩⟩
  have hroot : computeWhitelistRoot sep23 (poseidonHasher firstInput) members =
      .ok (auction.whitelistRoot.toNat : ℤ) := by decide +kernel
  have hfunded : ∀ t, t = auction.paymentToken ∨ t = auction.rwaToken →
      FundedRun h SacState.refused g (actions ++ []) t ∧
        ∀ a, (runFrom h g (actions ++ [])).tokens.refused t a = false := by
    intro t _
    rw [List.append_nil]
    have hstart : (0 : ℤ) ≤ 100 := by norm_num
    have hdebit := sac_noOtherDebit (runFrom_solvent g hcallers).log (by decide +kernel) t
    exact ⟨⟨sac_paying t, hstart, hdebit⟩, fun a => rfl⟩
  obtain ⟨bids, bundle, winner, -, -, -, hid, hsettles⟩ := honest_auction_settles h sep23 sep23_faithful
    tagBox tagBox_lawful SacState.refused g _ (exactVerifier_prover _ _ _
      ⟨Vector.replicate 64 0, Vector.replicate 128 0, Vector.replicate 64 0⟩) actions 1 auction ha rfl
    (by decide +kernel) (by decide) (List.replicate 32 9) List.length_replicate hhonest members hmembers
    hroot ⟨none, some operatorSecretHex⟩ loadBoxSecret_sample 10 (by decide)
    (registryRpc (runFrom h g actions) members) (registryRpc_shows _ _) _ (registryRpc_auction ha _) _
    rfl _ hpages hall rfl
  obtain ⟨s', hs'⟩ := hsettles [] (by rwa [List.append_nil])
    ⟨auction, by rw [List.append_nil]; exact ha, rfl⟩ hfunded []
  rw [List.append_nil, hid] at hs'
  exact ⟨_, _, _, _, s', hs'⟩

end Sample
end SealedStellar
