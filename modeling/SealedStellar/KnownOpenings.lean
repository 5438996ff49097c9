import SealedStellar.Settlement

/-! Openings that are known. No bidder can open a commitment to two prices as long as nobody knows a
collision of the hash, whatever collisions there are. -/
namespace SealedStellar
open SecondPrice MerklePath
variable {W : Type} (h : Host W)

def CollisionFree (Known : List Fr → Prop) : Prop :=
  ∀ inputs inputs', Known inputs → Known inputs' → h.poseidon inputs = h.poseidon inputs' →
    inputs = inputs'

/-- The price p and the salt r are known to open c under the id of auction k. -/
structure KnownOpening (Known : List Fr → Prop) (k : ℕ) (c : U256) (p : ℕ) (r : Fr) : Prop where
  range : p < 2 ^ 64
  known : Known [(p : Fr), r, (k : Fr)]
  hash : h.poseidon [(p : Fr), r, (k : Fr)] = toFr c

variable {h} {Known : List Fr → Prop} {k : ℕ} {c : U256} {p q : ℕ} {r s : Fr}

theorem KnownOpening.unique (hfree : CollisionFree h Known) (hp : KnownOpening h Known k c p r)
    (hq : KnownOpening h Known k c q s) : p = q ∧ r = s := by
  have hinputs := hfree _ _ hp.known hq.known (hp.hash.trans hq.hash.symm)
  simp only [List.cons.injEq, and_true] at hinputs
  have hrange := hp.range
  have hrange' := hq.range
  have hfield : 2 ^ 64 < fieldOrder := by norm_num
  exact ⟨Circom.natCast_inj (p := fieldOrder) (by omega) (by omega) hinputs.1, hinputs.2⟩

section Outcome
variable {auction : Auction} {i : ℕ} {price : ℤ} {prices : Fin 8 → ℕ} {salts : Fin 8 → Fr}

theorem KnownOutcome.slot_opens (ht : KnownOutcome h Known auction k i price prices salts)
    {slot : Fin 8} (hmarker : toFr (slotCommitment auction.bids slot) ≠ 0) :
    KnownOpening h Known k (slotCommitment auction.bids slot) (prices slot) (salts slot) :=
  ⟨ht.range slot, ht.known slot hmarker, ht.opens slot hmarker⟩

theorem KnownOutcome.bid_opens (hslots : auction.bids.length ≤ maxBidSlots)
    (ht : KnownOutcome h Known auction k i price prices salts) {bid : Bid} (hbid : bid ∈ auction.bids)
    (hmarker : toFr bid.commitment ≠ 0) : ∃ p r, KnownOpening h Known k bid.commitment p r := by
  obtain ⟨slot, hslot⟩ := List.mem_iff_getElem?.mp hbid
  have hlt : slot < 8 := lt_of_lt_of_le (List.getElem?_eq_some_iff.mp hslot).1 hslots
  have hc : slotCommitment auction.bids slot = bid.commitment := by
    simp [slotCommitment, hslot]
  have hopen := @KnownOutcome.slot_opens _ _ _ _ _ _ _ _ _ ht ⟨slot, hlt⟩ (by rwa [hc])
  rw [hc] at hopen
  exact ⟨_, _, hopen⟩

end Outcome

def KnownStatement (poseidon : Poseidon) (Known : List Fr → Prop) (pub : PublicSignals 8) : Prop :=
  ∃ (w : Fin 8) (price : Fin 8 → ℕ) (salt : Fin 8 → Fr), WinnerStatement poseidon 10 pub w price salt ∧
    ∀ slot, pub.commitments slot ≠ 0 → Known [(price slot : Fr), salt slot, pub.auctionId]

theorem KnownStatement.assigned {poseidon : Poseidon} {pub : PublicSignals 8}
    (hpub : KnownStatement poseidon Known pub) :
    ∃ priv : PrivateSignals 8 10, AuctionWinner poseidon pub priv ∧ ∀ slot,
      pub.commitments slot ≠ 0 → Known [priv.bidPrices slot, priv.bidSalts slot, pub.auctionId] := by
  obtain ⟨w, price, salt, hw, hknown⟩ := hpub
  obtain ⟨path, hlen, hclimb⟩ := hw.member
  obtain ⟨elements, bits, hpath⟩ := membership_exists _ _ path hlen hclimb
  exact ⟨_, honestSignals_satisfy (by omega) (by omega) hw hpath, hknown⟩

section Fixture

def fixturePrices : List ℕ := [1200, 3500, 990, 2750, 3100]

def fixtureSalt (bidIndex : ℕ) : ℕ := fromBeBytes (List.replicate 31 (UInt8.ofNat (bidIndex + 1)))

def fixtureOpening (auctionId bidIndex : ℕ) : List Fr :=
  [(fixturePrices.getD bidIndex 0 : Fr), (fixtureSalt bidIndex : Fr), (auctionId : Fr)]

/-- Poseidon on openings of the fixture, under two auction ids. -/
def fixtureOpenings : List (List Fr × Fr) :=
  [(fixtureOpening 1 0, 0x2e29a23a58d4efb5e3f119e0fc91c2cdd3aa6d828ab70850c974d72ff8d85f85),
   (fixtureOpening 1 1, 0x1b5ee8e84d5a1656a0cadf3ce7b8292afaf38ca979a7e28c1c68e913f8868647),
   (fixtureOpening 1 4, 0xdbee9a51c623afb2b4a7ac2f99440fd6a3ecb1a769754700c9c9bde56cc8227),
   (fixtureOpening 2 1, 0x223a08d613a1ec771a9da5f19a77035adedc4e95937154487f305241b50ff853),
   (fixtureOpening 2 4, 0x2280aacc2c8c04f7b28ea19d56a1292ec71d7f2cd4b62d6c800ef463c5e9bf4c)]

def fixtureLower : List (List Fr × Fr) :=
  [([0x20202020202020202020202020202020, 0x20202020202020202020202020202020],
    0x1f9845d4c38336917e246431fadde795286e04a64b035230ef71b3cb3255ec40),
   ([0x42424242424242424242424242424242, 0x42424242424242424242424242424242],
    0x23cda92b064c56196bef5e470dee1f8e0f33d948569dd15ef731ea9ad3825ad7),
   ([0x1f9845d4c38336917e246431fadde795286e04a64b035230ef71b3cb3255ec40,
     0x1285ede2db47435d98945bb63d4d3d786d4cfc45133ad5c358a4dd798b981f02],
    0x15ede4d191b22bb7cae0d3e4f861b6805c1175ff926593743d665ffbe8b625bd),
   ([0x155133e9d1b752d18b662378ffab4ef2ea0ecc471d850d982f3f6f82e93148d,
     0x23cda92b064c56196bef5e470dee1f8e0f33d948569dd15ef731ea9ad3825ad7],
    0xfc2dc907cc06bb2c68839b6bc4f0595c8d91e206fd57cf9b97863a16bc70b13),
   ([0x15ede4d191b22bb7cae0d3e4f861b6805c1175ff926593743d665ffbe8b625bd,
     0xfc2dc907cc06bb2c68839b6bc4f0595c8d91e206fd57cf9b97863a16bc70b13],
    0x4d9e5629a67befe3a10a93215372440c41ddbbd3b68b0e4413d410c42ccaa72)]

def fixtureUpper : List Fr × List Fr :=
  ([0x4d9e5629a67befe3a10a93215372440c41ddbbd3b68b0e4413d410c42ccaa72,
    0xfe29c20157178dae01ecfb13b259e3611d646d63532f7a6eb404b3971c2a141,
    0x3fab65ad312406063bf99df130c15ad99086b51cb16f005f9c4de46be074062,
    0x1397a76e955788358d5a4d8acbd9076bcc54b38b8b48072ff5cfd6cf52fdf1cf,
    0x1052ed7b65e2efc1840757e30b6db63b38383880a9cea2ef64542af2c05c3d4e,
    0x8680dc3f446fdde99670ede2bc544d568d322a4a8f626e92a000b0cad716278,
    0x17c24d9ff81378651ae510990fc2be4874981add9ca4cc5ef7d9ab5b3e6a9133,
    0x21c30f66232242741914d83651aba3bb467511e61029d9536fa9b46d2bad154d,
    0x15938ad5e3278ddcaa068fea0211413e6db70481f7b7d1c0811b7a783fe31769],
   [0x1ff3d9413f98bd869770732d4a42c654fb63c30906db3dee9d6ef404d4c6435c,
    0x18f43331537ee2af2e3d758d50f72106467c6eea50371dd528d57eb2b856d238,
    0x7f9d837cb17b0d36320ffe93ba52345f1b728571a568265caac97559dbc952a,
    0x2b94cf5e8746b3f5c9631f4c5df32907a699c58c94b2ad4d7b5cec1639183f55,
    0x2dee93c5a666459646ea7d22cca9e1bcfed71e6951b953611d11dda32ea09d78,
    0x78295e5a22b84e982cf601eb639597b8b0515a88cb5ac7fa8a4aabe3c87349d,
    0x2fa5e5f18f6027a6501bec864564472a616b2e274a41211a444cbe3a99f3cc61,
    0xe884376d0d8fd21ecb780389e941f66e45e7acce3e228ab3e2156a614fcd747])

/-- Poseidon on the inputs that it takes in the fixture. -/
def fixtureHash : Poseidon := fun inputs =>
  let upper := (fixtureUpper.1.zip (fixtureUpper.2.zip fixtureUpper.1.tail)).map
    fun (node, sibling, parent) => ([node, sibling], parent)
  ((fixtureOpenings ++ fixtureLower ++ upper).lookup inputs).getD 0

/-- The openings of the fixture are all that is known. -/
def FixtureKnown (inputs : List Fr) : Prop := inputs ∈ fixtureOpenings.map Prod.fst

instance : DecidablePred FixtureKnown := fun _ => inferInstanceAs (Decidable (_ ∈ _))

def fixtureSeal (auctionId bidIndex : ℕ) : U256 :=
  ofFr (fixtureHash (fixtureOpening auctionId bidIndex))

def fixtureRoot : U256 := 0x15938ad5e3278ddcaa068fea0211413e6db70481f7b7d1c0811b7a783fe31769

/-- The clearing of a bid of member 3 with bid 4 of the fixture, which member 0 placed. -/
def fixtureSale (auctionId bidIndex winnerIndex winningPrice : ℕ) (winnerAddrHash : Fr) :
    PublicSignals 8 :=
  ⟨(auctionId : Fr), ![toFr (fixtureSeal auctionId bidIndex), toFr (fixtureSeal auctionId 4), 0, 0, 0, 0,
    0, 0], (winnerIndex : Fr), (winningPrice : Fr), toFr fixtureRoot, winnerAddrHash⟩

/-- The verifier takes three statements: member 3 wins with bid 1 in the auctions 1 and 2, and loses
with bid 0 in auction 1. -/
def fixtureSales : List (PublicSignals 8) :=
  let leaf := 0x23cda92b064c56196bef5e470dee1f8e0f33d948569dd15ef731ea9ad3825ad7
  [fixtureSale 1 1 0 3100 leaf, fixtureSale 2 1 0 3100 leaf,
    fixtureSale 1 0 1 1200 0x1f9845d4c38336917e246431fadde795286e04a64b035230ef71b3cb3255ec40]

def fixtureHost : Host SacState := sacHost (.contract (keyOf 0)) (fun _ _ signals =>
  some (decide (signals ∈ fixtureSales.map fun sale => sale.toList.map ofFr))) fixtureHash

theorem fixture_collisionFree : CollisionFree fixtureHost FixtureKnown := by
  have hall : ∀ x ∈ fixtureOpenings.map Prod.fst, ∀ y ∈ fixtureOpenings.map Prod.fst,
      fixtureHash x = fixtureHash y → x = y := by decide +kernel
  exact fun x y hx hy => hall x hx y hy

def fixturePath (third : Bool) : List (Fr × Bool) :=
  (if third then
    [(0x155133e9d1b752d18b662378ffab4ef2ea0ecc471d850d982f3f6f82e93148d, true),
      (0x15ede4d191b22bb7cae0d3e4f861b6805c1175ff926593743d665ffbe8b625bd, true)]
  else
    [(0x1285ede2db47435d98945bb63d4d3d786d4cfc45133ad5c358a4dd798b981f02, false),
      (0xfc2dc907cc06bb2c68839b6bc4f0595c8d91e206fd57cf9b97863a16bc70b13, false)]) ++
    fixtureUpper.2.map fun sibling => (sibling, false)

theorem fixtureSale_known {auctionId bidIndex winnerIndex winningPrice : ℕ} {leaf : Fr} (w : Fin 8)
    (third : Bool) :
    let sale := fixtureSale auctionId bidIndex winnerIndex winningPrice leaf
    let price : Fin 8 → ℕ := ![fixturePrices.getD bidIndex 0, 3100, 0, 0, 0, 0, 0, 0]
    let salt : Fin 8 → Fr := ![(fixtureSalt bidIndex : Fr), (fixtureSalt 4 : Fr), 0, 0, 0, 0, 0, 0]
    (winnerIndex = w ∧ (∀ i, price i < 2 ^ 64) ∧ (∀ i, sale.commitments i = 0 → price i = 0) ∧
      (∀ i, sale.commitments i ≠ 0 →
        fixtureHash [(price i : Fr), salt i, sale.auctionId] = sale.commitments i) ∧
      ((∀ i, price i ≤ price w) ∧ ∀ i, i < w → price i < price w) ∧
      (winningPrice = clearingPrice price w ∧ winningPrice ≠ 0) ∧
      climb (fun a b => fixtureHash [a, b]) leaf (fixturePath third) = sale.whitelistRoot ∧
      ∀ i, sale.commitments i ≠ 0 → FixtureKnown [(price i : Fr), salt i, sale.auctionId]) →
    KnownStatement fixtureHash FixtureKnown sale := by
  rintro sale price salt ⟨hindex, hrange, hempty, hopens, hwinner, hclear, hclimb, hknown⟩
  refine ⟨w, price, salt, ⟨congrArg Nat.cast hindex, hrange, hempty, hopens, ⟨hwinner.1, hwinner.2⟩,
    congrArg Nat.cast hclear.1, hclear.1 ▸ hclear.2, fixturePath third, ?_, hclimb⟩, hknown⟩
  cases third <;> rfl

theorem fixtureSales_known {sale : PublicSignals 8} (hsale : sale ∈ fixtureSales) :
    KnownStatement fixtureHash FixtureKnown sale := by
  simp only [fixtureSales, List.mem_cons, List.not_mem_nil, or_false] at hsale
  obtain rfl | rfl | rfl := hsale
  · exact fixtureSale_known 0 true (by decide +kernel)
  · exact fixtureSale_known 0 true (by decide +kernel)
  · exact fixtureSale_known 1 false (by decide +kernel)

theorem fixture_sound (verifier : Address) : KnowledgeSound fixtureHost FixtureKnown verifier := by
  intro proof signals hv
  have hmem : signals ∈ fixtureSales.map fun sale => sale.toList.map ofFr :=
    of_decide_eq_true (Option.some.inj hv)
  obtain ⟨sale, hsale, rfl⟩ := List.mem_map.mp hmem
  obtain ⟨priv, hpriv, hknown⟩ := (fixtureSales_known hsale).assigned
  refine ⟨sale, priv, ?_, hpriv, hknown⟩
  rw [List.map_map]
  exact (List.map_congr_left fun x _ => toFr_ofFr x).trans (List.map_id _)

end Fixture

end SealedStellar
