import SealedStellar.SettleCli
import SealedStellar.ProverCompleteness

/-! The page and the scripts settle the same auctions, and ask for a proof of the same public
signals, whatever the order in which each of them makes its checks. -/
namespace SealedStellar
open Checked BigIntText

abbrev Decrypted := EventBid × DecryptedBid

def slotOf (b : Decrypted) : ℕ := b.1.slotIndex

def priceOf (b : Decrypted) : ℤ := (b.2.price : ℤ)

def saltOf (b : Decrypted) : ℤ := (b.2.saltValue : ℤ)

def commitmentOf (b : Decrypted) : ℤ := (parse b.1.commitmentDecimal).getD 0

def revealedBid (b : Decrypted) : RevealedBid where
  slotIndex := (b.1.slotIndex : ℤ)
  bidder := b.1.bidder
  commitment := b.1.commitmentDecimal
  price := toString b.2.price
  salt := toString b.2.saltValue

def openedBid (b : Decrypted) : OpenedBid where
  slotIndex := b.1.slotIndex
  bidder := b.1.bidder
  commitmentDecimal := b.1.commitmentDecimal
  priceDecimal := toString b.2.price
  saltDecimal := toString b.2.saltValue

structure DistinctBids (nacl : Nacl) (secretKeyHex : String) (bids : List Decrypted) : Prop where
  opens : ∀ b ∈ bids,
    decryptOneBid nacl b.1.encryptedBidHex (Hex.decode secretKeyHex.toList) = .ok b.2
  slots : (bids.map slotOf).Nodup
  range : ∀ b ∈ bids, slotOf b < maxBidSlots
  canonical : ∀ b ∈ bids, ∃ commitment : ℤ, b.1.commitmentDecimal = toString commitment

def memberLeaf (strKey : StrKey) (hash : List ℤ → ℤ) (memberAddress : String) : ℤ :=
  ((strKey.decodeEd25519PublicKey memberAddress).map (computeAddressLeaf hash)).getD 0

structure ValidMembers (strKey : StrKey) (members : List String) : Prop where
  nonempty : members ≠ []
  capacity : members.length ≤ maxWhitelistMembers
  valid : ∀ m ∈ members, (strKey.decodeEd25519PublicKey m).isSome

def memberTree (strKey : StrKey) (hash : List ℤ → ℤ) (members : List String) : PoseidonMerkleTree :=
  .new hash merkleDepth (members.map (memberLeaf strKey hash))

def paddedPrices (bids : List Decrypted) : List ℤ := Slots.table slotOf maxBidSlots priceOf 0 bids

def outcomeOf (bids : List Decrypted) : VickreyOutcome := selectVickreyOutcome (paddedPrices bids)

/-- What both pipelines check: every commitment opens, there is a second price, and the holder of
the winning slot is a member. -/
structure Settles (hash : List ℤ → ℤ) (auctionId : ℤ) (bids : List Decrypted) (members : List String)
    (winner : Decrypted) : Prop where
  commitments : ∀ b ∈ bids, hash [priceOf b, saltOf b, auctionId] = commitmentOf b
  positive : ¬((outcomeOf bids).winnerIndex < 0 ∨ (outcomeOf bids).winnerPrice ≤ 0)
  clearing : ¬(outcomeOf bids).clearingPrice ≤ 0
  holder : Slots.holder slotOf bids (outcomeOf bids).winnerIndex.toNat = some winner
  member : winner.1.bidder ∈ members

def publicSettlement (strKey : StrKey) (hash : List ℤ → ℤ) (auctionId : ℤ) (bids : List Decrypted)
    (members : List String) (winner : Decrypted) : List ℤ :=
  auctionId :: (Slots.table slotOf maxBidSlots commitmentOf 0 bids ++
    [(outcomeOf bids).winnerIndex, (outcomeOf bids).clearingPrice,
      (memberTree strKey hash members).root, memberLeaf strKey hash winner.1.bidder])

section Texts

theorem toString_inj {a b : ℤ} : toString a = toString b ↔ a = b := by
  constructor
  · intro he
    have hparse := congrArg parse he
    rw [parse_toString, parse_toString] at hparse
    exact Option.some.inj hparse
  · exact fun he => he ▸ rfl

theorem toBigInt_toString (x : ℤ) : toBigInt (toString x) = .ok x :=
  toBigInt_eq_ok.mpr (parse_toString x)

variable {nacl : Nacl} {secretKeyHex : String} {bids : List Decrypted} {b : Decrypted}

theorem DistinctBids.commitment_text (hb : DistinctBids nacl secretKeyHex bids) (hmem : b ∈ bids) :
    b.1.commitmentDecimal = toString (commitmentOf b) := by
  obtain ⟨commitment, htext⟩ := hb.canonical b hmem
  rw [commitmentOf, htext, parse_toString]
  rfl

theorem DistinctBids.parse_commitment (hb : DistinctBids nacl secretKeyHex bids) (hmem : b ∈ bids) :
    parse b.1.commitmentDecimal = some (commitmentOf b) := by
  rw [hb.commitment_text hmem, parse_toString]

theorem DistinctBids.length_le (hb : DistinctBids nacl secretKeyHex bids) :
    bids.length ≤ bidSlotCount := by
  have hsub : bids.map slotOf ⊆ List.range bidSlotCount := by
    intro i hi
    obtain ⟨b, hmem, rfl⟩ := List.mem_map.mp hi
    exact List.mem_range.mpr (hb.range b hmem)
  have hle := (hb.slots.subperm hsub).length_le
  rwa [List.length_map, List.length_range] at hle

theorem DistinctBids.holder_none (hb : DistinctBids nacl secretKeyHex bids) {i : ℕ}
    (hi : ¬i < maxBidSlots) : Slots.holder slotOf bids i = none := by
  cases hholder : Slots.holder slotOf bids i with
  | none => rfl
  | some b =>
    have hrange := hb.range b (Slots.holder_mem hholder)
    rw [Slots.holder_slot hholder] at hrange
    exact absurd hrange hi

end Texts

section Members
variable {strKey : StrKey} {hash : List ℤ → ℤ} {members : List String} {winnerAddress : String}

theorem ValidMembers.leaf (hm : ValidMembers strKey members) {m : String} (hmem : m ∈ members) :
    ∃ key, strKey.decodeEd25519PublicKey m = some key ∧
      memberLeaf strKey hash m = computeAddressLeaf hash key := by
  obtain ⟨key, hkey⟩ := Option.isSome_iff_exists.mp (hm.valid m hmem)
  exact ⟨key, hkey, by rw [memberLeaf, hkey]; rfl⟩

theorem addMember_valid (hvalid : ∀ m ∈ members, (strKey.decodeEd25519PublicKey m).isSome) :
    ∃ index : ℤ, members.zipIdx.foldlM (addMember strKey hash winnerAddress) ([], -1) =
        .ok (members.map (memberLeaf strKey hash), index) ∧
      (winnerAddress ∉ members ∧ index = -1 ∨
        ∃ i : ℕ, index = (i : ℤ) ∧ members[i]? = some winnerAddress) := by
  induction members using List.reverseRecOn with
  | nil => exact ⟨-1, rfl, .inl ⟨List.not_mem_nil, rfl⟩⟩
  | append_singleton members member ih =>
    obtain ⟨index, hloop, hindex⟩ := ih fun m hm => hvalid m (List.mem_append_left [member] hm)
    obtain ⟨key, hkey⟩ := Option.isSome_iff_exists.mp (hvalid member (by simp))
    have hleaf : memberLeaf strKey hash member = computeAddressLeaf hash key := by
      rw [memberLeaf, hkey]
      rfl
    have hstep : ∀ leaves, addMember strKey hash winnerAddress (leaves, index)
        (member, members.length) = .ok (leaves ++ [computeAddressLeaf hash key],
          if member = winnerAddress then (members.length : ℤ) else index) := by
      intro leaves
      simp only [addMember, hkey, okOr]
      rfl
    refine ⟨if member = winnerAddress then (members.length : ℤ) else index, ?_, ?_⟩
    · rw [List.zipIdx_append, List.foldlM_append, hloop, List.map_append, List.map_singleton, hleaf,
        Nat.zero_add, List.zipIdx_singleton]
      refine bind_eq_ok.mpr ⟨_, rfl, ?_⟩
      rw [List.foldlM_cons, hstep]
      rfl
    · by_cases hwinner : member = winnerAddress
      · right
        rw [if_pos hwinner]
        exact ⟨members.length, rfl, by rw [List.getElem?_concat_length, hwinner]⟩
      · rw [if_neg hwinner]
        cases hindex with
        | inl hnone =>
          left
          refine ⟨fun hmem => ?_, hnone.2⟩
          cases List.mem_append.mp hmem with
          | inl hold => exact hnone.1 hold
          | inr hnew => exact hwinner (List.mem_singleton.mp hnew).symm
        | inr hsome =>
          obtain ⟨i, he, hi⟩ := hsome
          refine .inr ⟨i, he, ?_⟩
          rw [List.getElem?_append_left (List.getElem?_eq_some_iff.mp hi).1, hi]

theorem memberLeaf_getD {i : ℕ} (hi : members[i]? = some winnerAddress) (d : ℤ) :
    (members.map (memberLeaf strKey hash)).getD i d = memberLeaf strKey hash winnerAddress := by
  rw [List.getD_eq_getElem?_getD, List.getElem?_map, hi]
  rfl

end Members

section Page
variable {nacl : Nacl} {secretKeyHex : String} {bids : List Decrypted}

def layOutBid (slots : SlotData) (b : Decrypted) : SlotData where
  prices := Slots.write slotOf priceOf slots.prices b
  salts := Slots.write slotOf saltOf slots.salts b
  commitments := Slots.write slotOf commitmentOf slots.commitments b
  bidders := Slots.write slotOf (fun b => some b.1.bidder) slots.bidders b

def pageSlots (bids : List Decrypted) : SlotData where
  prices := paddedPrices bids
  salts := Slots.table slotOf maxBidSlots saltOf 0 bids
  commitments := Slots.table slotOf maxBidSlots commitmentOf 0 bids
  bidders := Slots.table slotOf maxBidSlots (fun b => some b.1.bidder) none bids

theorem layOutBid_foldl (bids : List Decrypted) (slots : SlotData) : bids.foldl layOutBid slots =
    { prices := bids.foldl (Slots.write slotOf priceOf) slots.prices
      salts := bids.foldl (Slots.write slotOf saltOf) slots.salts
      commitments := bids.foldl (Slots.write slotOf commitmentOf) slots.commitments
      bidders := bids.foldl (Slots.write slotOf fun b => some b.1.bidder) slots.bidders } := by
  induction bids generalizing slots with
  | nil => rfl
  | cons b bids ih => exact ih (layOutBid slots b)

theorem layOut_revealed (hb : DistinctBids nacl secretKeyHex bids) :
    (bids.map revealedBid).foldlM layOut emptySlots = .ok (pageSlots bids) := by
  have hstep : ∀ b ∈ bids, ∀ slots : SlotData, True →
      layOut slots (revealedBid b) = .ok (layOutBid slots b) ∧ True := by
    intro b hmem slots _
    have hslot : ¬((slotOf b : ℤ) < 0 ∨ (slotOf b : ℤ) ≥ maxBidSlots) := by
      have hrange := hb.range b hmem
      omega
    refine ⟨?_, trivial⟩
    simp only [layOut, revealedBid, bind_eq_ok, okOr_eq_ok, pure_eq_ok]
    exact ⟨(), ensure_eq_ok.mpr hslot, _, parse_toString (b.2.price : ℤ), _, parse_toString (b.2.saltValue : ℤ), _,
      hb.parse_commitment hmem, rfl⟩
  rw [List.foldlM_map, foldlM_eq_ok_foldl (fun _ => True) hstep trivial, layOutBid_foldl]
  simp only [emptySlots, Slots.writes_eq_table hb.slots]
  rfl

theorem pageSlots_bidder (hb : DistinctBids nacl secretKeyHex bids) (i : ℕ) :
    (pageSlots bids).bidders.getD i none = (Slots.holder slotOf bids i).map fun b => b.1.bidder := by
  by_cases hi : i < maxBidSlots
  · rw [pageSlots, Slots.table_getD hi]
    cases Slots.holder slotOf bids i <;> rfl
  · have hlength : (pageSlots bids).bidders.length ≤ i := by
      rw [pageSlots, Slots.table_length]
      omega
    rw [List.getD_eq_getElem?_getD, List.getElem?_eq_none hlength, hb.holder_none hi]
    rfl

theorem checkSlots_iff (hb : DistinctBids nacl secretKeyHex bids) (hash : List ℤ → ℤ)
    (view : AuctionView) :
    (List.range maxBidSlots).forM (checkSlot hash view (pageSlots bids)) = .ok () ↔
      ∀ b ∈ bids, hash [priceOf b, saltOf b, (view.id : ℤ)] = commitmentOf b := by
  have hfield : ∀ {i : ℕ} (value : Decrypted → ℤ) {b : Decrypted}, i < maxBidSlots →
      Slots.holder slotOf bids i = some b →
        (Slots.table slotOf maxBidSlots value 0 bids).getD i 0 = value b := by
    intro i value b hi hholder
    rw [Slots.table_getD hi, hholder]
    rfl
  rw [checkSlots_eq_ok]
  constructor
  · intro hall b hmem
    have hholder := Slots.holder_of_mem hb.slots hmem
    have hi := hb.range b hmem
    have hfilled : (pageSlots bids).bidders.getD (slotOf b) none ≠ none := by
      rw [pageSlots_bidder hb, hholder]
      exact Option.some_ne_none _
    have hcheck := hall (slotOf b) hi hfilled
    rwa [pageSlots, paddedPrices, hfield _ hi hholder, hfield _ hi hholder,
      hfield _ hi hholder] at hcheck
  · intro hall i hi hfilled
    rw [pageSlots_bidder hb] at hfilled
    cases hholder : Slots.holder slotOf bids i with
    | none =>
      rw [hholder] at hfilled
      exact absurd rfl hfilled
    | some b =>
      rw [pageSlots, paddedPrices, hfield _ hi hholder, hfield _ hi hholder, hfield _ hi hholder]
      exact hall b (Slots.holder_mem hholder)

variable {strKey : StrKey} {hash : List ℤ → ℤ} {view : AuctionView} {members : List String}

theorem page_sound (hb : DistinctBids nacl secretKeyHex bids) (hm : ValidMembers strKey members)
    {input : CircuitInput} {arguments : SettleArguments}
    (hpage : prepareSettle strKey hash view (bids.map revealedBid) members =
      .ok (input, arguments)) :
    ∃ winner, Settles hash (view.id : ℤ) bids members winner ∧
      (memberTree strKey hash members).root = view.whitelistRoot ∧
      input.publicValues = publicSettlement strKey hash (view.id : ℤ) bids members winner ∧
      (arguments.winnerIndex : ℤ) = (outcomeOf bids).winnerIndex ∧
      arguments.winningPrice = (outcomeOf bids).clearingPrice ∧
      arguments.winnerAddress = winner.1.bidder := by
  simp only [prepareSettle, bind_eq_ok, layOut_revealed hb] at hpage
  obtain ⟨-, -, slots, hslots, hpage⟩ := hpage
  cases hslots
  simp only [assemble, bind_eq_ok, okOr_eq_ok, pure_eq_ok, Prod.mk.injEq, pageSlots_bidder hb]
    at hpage
  obtain ⟨_, hchecks, _, hpositive, _, hclearing, winnerAddress, hbidder, ⟨leaves, index⟩, hloop, _,
    hindex, _, hroot, rfl, rfl⟩ := hpage
  obtain ⟨index', hloop', hmember⟩ := @addMember_valid strKey hash members winnerAddress hm.valid
  rw [hloop'] at hloop
  cases hloop
  obtain ⟨winner, hwinner, rfl⟩ := Option.map_eq_some_iff.mp hbidder
  have hpos : ¬((outcomeOf bids).winnerIndex < 0 ∨ (outcomeOf bids).winnerPrice ≤ 0) :=
    ensure_eq_ok.mp hpositive
  have hwin : ((outcomeOf bids).winnerIndex.toNat : ℤ) = (outcomeOf bids).winnerIndex := by omega
  have hrebuilt : (memberTree strKey hash members).root = view.whitelistRoot := ensure_eq_ok.mp hroot
  cases hmember with
  | inl hnone =>
    rw [hnone.2] at hindex
    exact absurd (show (-1 : ℤ) < 0 by decide) (ensure_eq_ok.mp hindex)
  | inr hsome =>
    obtain ⟨i, rfl, hi⟩ := hsome
    have hleaf : (members.map (memberLeaf strKey hash)).getD i 0 =
        memberLeaf strKey hash winner.1.bidder := memberLeaf_getD hi 0
    refine ⟨winner, ?_, hrebuilt, ?_, hwin, rfl, rfl⟩
    · exact {
        commitments := (checkSlots_iff hb hash view).mp hchecks
        positive := hpos
        clearing := ensure_eq_ok.mp hclearing
        holder := hwinner
        member := List.mem_of_getElem? hi }
    · simp only [CircuitInput.publicValues, publicSettlement, Int.toNat_natCast, hleaf, hrebuilt]
      rw [← hwin]
      rfl

theorem page_complete (hb : DistinctBids nacl secretKeyHex bids) (hm : ValidMembers strKey members)
    {winner : Decrypted} (hs : Settles hash (view.id : ℤ) bids members winner)
    (hroot : (memberTree strKey hash members).root = view.whitelistRoot) :
    ∃ out, prepareSettle strKey hash view (bids.map revealedBid) members = .ok out := by
  have hne : bids.map revealedBid ≠ [] := by
    intro he
    have hmem := Slots.holder_mem hs.holder
    rw [List.map_eq_nil_iff.mp he] at hmem
    exact absurd hmem List.not_mem_nil
  have hbidder : (pageSlots bids).bidders.getD (outcomeOf bids).winnerIndex.toNat none =
      some winner.1.bidder := by
    rw [pageSlots_bidder hb, hs.holder]
    rfl
  obtain ⟨index, hloop, hmember⟩ := @addMember_valid strKey hash members winner.1.bidder hm.valid
  cases hmember with
  | inl hnone => exact absurd hs.member hnone.1
  | inr hsome =>
    obtain ⟨i, rfl, -⟩ := hsome
    have hindex : ¬(i : ℤ) < 0 := by omega
    have hassemble : ∃ out, assemble strKey hash view (pageSlots bids) members = .ok out := by
      simp only [assemble, bind_eq_ok, okOr_eq_ok]
      exact ⟨_, (), (checkSlots_iff hb hash view).mpr hs.commitments,
        (), ensure_eq_ok.mpr hs.positive, (), ensure_eq_ok.mpr hs.clearing, _, hbidder, _, hloop,
        (), ensure_eq_ok.mpr hindex, (), ensure_eq_ok.mpr hroot, rfl⟩
    obtain ⟨out, hout⟩ := hassemble
    exact ⟨out, bind_eq_ok.mpr ⟨(), ensure_eq_ok.mpr hne,
      bind_eq_ok.mpr ⟨_, layOut_revealed hb, hout⟩⟩⟩

end Page

section Scripts
variable {nacl : Nacl} {secretKeyHex : String} {bids : List Decrypted} {strKey : StrKey}
  {hash : List ℤ → ℤ} {members : List String}

def writtenMember (strKey : StrKey) (hash : List ℤ → ℤ) (m : String) : WhitelistMember :=
  ⟨m, toString (memberLeaf strKey hash m)⟩

def writtenWhitelist (strKey : StrKey) (hash : List ℤ → ℤ) (members : List String) :
    WhitelistDocument where
  depth := merkleDepth
  rootDecimal := toString (memberTree strKey hash members).root
  members := members.map (writtenMember strKey hash)

theorem read_leaves (members : List String) :
    (members.map (writtenMember strKey hash)).mapM
      (fun member => toBigInt member.leafDecimal) = .ok (members.map (memberLeaf strKey hash)) := by
  have hread : ∀ m ∈ members, ∀ leaf, toBigInt (writtenMember strKey hash m).leafDecimal = .ok leaf ↔
      True ∧ memberLeaf strKey hash m = leaf := by
    intro m _ leaf
    rw [writtenMember, toBigInt_toString, true_and, Except.ok.injEq]
  rw [List.mapM_map]
  exact (mapM_eq_ok_map hread).mpr ⟨fun _ _ => trivial, rfl⟩

theorem ValidMembers.leaves_le (hm : ValidMembers strKey members) :
    (members.map (memberLeaf strKey hash)).length ≤ 2 ^ merkleDepth := by
  rw [List.length_map]
  exact hm.capacity

theorem buildWhitelist_valid {addresses : String}
    (hm : ValidMembers strKey (splitAddresses addresses)) :
    buildWhitelist strKey hash addresses =
      .ok (writtenWhitelist strKey hash (splitAddresses addresses)) := by
  have hne : (splitAddresses addresses).length ≠ 0 := by
    rw [ne_eq, List.length_eq_zero_iff]
    exact hm.nonempty
  have hmembers : (splitAddresses addresses).mapM (whitelistMember strKey hash) =
      .ok ((splitAddresses addresses).map (writtenMember strKey hash)) := by
    refine (mapM_eq_ok_map fun m hmem w => ?_).mpr ⟨hm.valid, rfl⟩
    obtain ⟨key, hkey, hleaf⟩ := @ValidMembers.leaf strKey hash _ hm m hmem
    rw [writtenMember, hleaf, whitelistMember, hkey]
    constructor
    · intro he
      cases he
      exact ⟨rfl, rfl⟩
    · rintro ⟨-, rfl⟩
      rfl
  simp only [buildWhitelist, bind_eq_ok]
  exact ⟨(), ensure_eq_ok.mpr hne, _, hmembers, _, read_leaves _, _,
    helpers_new hash hm.leaves_le, rfl⟩

theorem operatorDecrypt_eq_ok (hb : DistinctBids nacl secretKeyHex bids) {auctionText : String}
    {auctionId : ℤ} (htext : parse auctionText = some auctionId) {document : DecryptedDocument} :
    operatorDecrypt nacl hash secretKeyHex ⟨auctionText, bids.map Prod.fst⟩ = .ok document ↔
      (∀ b ∈ bids, hash [priceOf b, saltOf b, auctionId] = commitmentOf b) ∧
        ⟨toString auctionId, bids.map openedBid⟩ = document := by
  have hbid : ∀ b ∈ bids, ∀ opened, openEventBid nacl hash (Hex.decode secretKeyHex.toList) auctionId
      b.1 = .ok opened ↔ hash [priceOf b, saltOf b, auctionId] = commitmentOf b ∧
        openedBid b = opened := by
    intro b hmem opened
    simp only [openEventBid, hb.opens b hmem, hb.commitment_text hmem, bind_eq_ok, Except.ok.injEq,
      exists_eq_left', pure_eq_ok, computeBidCommitment]
    constructor
    · rintro ⟨_, hcheck, rfl⟩
      exact ⟨toString_inj.mp (ensure_eq_ok.mp hcheck), by rw [openedBid, hb.commitment_text hmem]⟩
    · rintro ⟨hcheck, rfl⟩
      exact ⟨(), ensure_eq_ok.mpr (toString_inj.mpr hcheck),
        by rw [openedBid, hb.commitment_text hmem]⟩
  simp only [operatorDecrypt, bind_eq_ok, toBigInt_eq_ok, htext, Option.some.injEq, exists_eq_left',
    List.mapM_map, pure_eq_ok]
  constructor
  · rintro ⟨decrypted, hmap, rfl⟩
    obtain ⟨hchecks, rfl⟩ := (mapM_eq_ok_map hbid).mp hmap
    exact ⟨hchecks, rfl⟩
  · rintro ⟨hchecks, rfl⟩
    exact ⟨_, (mapM_eq_ok_map hbid).mpr ⟨hchecks, rfl⟩, rfl⟩

theorem padPrice_opened (hb : DistinctBids nacl secretKeyHex bids) :
    (bids.map openedBid).foldlM padPrice (List.replicate bidSlotCount 0) = .ok (paddedPrices bids) := by
  have hstep : ∀ b ∈ bids, ∀ prices : List ℤ, prices.length = bidSlotCount →
      padPrice prices (openedBid b) = .ok (Slots.write slotOf priceOf prices b) ∧
        (Slots.write slotOf priceOf prices b).length = bidSlotCount := by
    intro b hmem prices hlength
    have hrange : slotOf b < bidSlotCount := hb.range b hmem
    have hpad : prices.rightpad (slotOf b + 1) 0 = prices := by
      rw [List.rightpad, hlength, Nat.sub_eq_zero_of_le hrange, List.replicate_zero, List.append_nil]
    refine ⟨bind_eq_ok.mpr ⟨_, toBigInt_toString (b.2.price : ℤ), ?_⟩, ?_⟩
    · rw [pure_eq_ok]
      exact congrArg (fun l : List ℤ => l.set (slotOf b) (priceOf b)) hpad
    · rw [Slots.write, List.length_set, hlength]
  rw [List.foldlM_map, foldlM_eq_ok_foldl (fun prices => prices.length = bidSlotCount) hstep
    List.length_replicate, Slots.writes_eq_table hb.slots]
  rfl

theorem find_winner (bids : List Decrypted) {index : ℤ} (hindex : 0 ≤ index) :
    (bids.map openedBid).find? (fun bid => (bid.slotIndex : ℤ) = index) =
      (Slots.holder slotOf bids index.toNat).map openedBid := by
  rw [List.find?_map, Slots.holder]
  congr 2
  funext b
  have hslot : (openedBid b).slotIndex = slotOf b := rfl
  rw [Function.comp_apply, hslot, decide_eq_decide]
  omega

theorem find_member (winnerAddress : String) :
    (winnerAddress ∉ members ∧ (members.map (writtenMember strKey hash)).findIdx?
        (fun member => member.address = winnerAddress) = none) ∨
      ∃ i : ℕ, (members.map (writtenMember strKey hash)).findIdx?
        (fun member => member.address = winnerAddress) = some i ∧ members[i]? = some winnerAddress := by
  cases hfind : (members.map (writtenMember strKey hash)).findIdx?
      (fun member => member.address = winnerAddress) with
  | none =>
    refine .inl ⟨fun hmem => ?_, rfl⟩
    have hall := List.findIdx?_eq_none_iff.mp hfind _ (List.mem_map_of_mem hmem)
    simp [writtenMember] at hall
  | some i =>
    obtain ⟨hi, hsame, -⟩ := List.findIdx?_eq_some_iff_getElem.mp hfind
    rw [List.length_map] at hi
    refine .inr ⟨i, rfl, ?_⟩
    rw [List.getElem?_eq_getElem hi]
    simpa [writtenMember] using hsame

variable {addresses auctionText : String} {auctionId : ℤ}

theorem slotTexts_commitments (hb : DistinctBids nacl secretKeyHex bids) :
    slotTexts OpenedBid.commitmentDecimal (bids.map openedBid) =
      (Slots.table slotOf maxBidSlots commitmentOf 0 bids).map toString := by
  rw [slotTexts, Slots.table_map, Slots.map_table]
  exact Slots.table_congr fun b hmem => hb.commitment_text hmem

theorem scripts_sound (hb : DistinctBids nacl secretKeyHex bids)
    (hm : ValidMembers strKey (splitAddresses addresses)) (htext : parse auctionText = some auctionId)
    {input : CircuitInputDocument} {settleMeta : SettleMeta}
    (hscripts : settleFromFiles strKey nacl hash addresses secretKeyHex
      ⟨auctionText, bids.map Prod.fst⟩ = .ok (input, settleMeta)) :
    ∃ winner, Settles hash auctionId bids (splitAddresses addresses) winner ∧
      input.publicTexts = (publicSettlement strKey hash auctionId bids (splitAddresses addresses)
        winner).map toString ∧
      settleMeta.winnerIndex = (outcomeOf bids).winnerIndex ∧
      settleMeta.winningPrice = toString (outcomeOf bids).clearingPrice ∧
      settleMeta.winnerAddress = winner.1.bidder := by
  simp only [settleFromFiles, bind_eq_ok, buildWhitelist_valid hm, Except.ok.injEq,
    exists_eq_left', operatorDecrypt_eq_ok hb htext] at hscripts
  obtain ⟨_, ⟨hchecks, rfl⟩, hbuild⟩ := hscripts
  simp only [buildInput, selectWinner, bind_eq_ok, okOr_eq_ok, pure_eq_ok, padPrice_opened hb,
    Except.ok.injEq, exists_eq_left', Prod.mk.injEq, writtenWhitelist, read_leaves,
    toBigInt_toString] at hbuild
  obtain ⟨_, -, _, ⟨_, hpositive, _, hclearing, rfl⟩, winnerBid, hwinner, i, hi, tree, htree, _, -,
    _, -, path, -, rfl, rfl⟩ := hbuild
  have hpos : ¬((outcomeOf bids).winnerIndex < 0 ∨ (outcomeOf bids).winnerPrice ≤ 0) :=
    ensure_eq_ok.mp hpositive
  have hnonneg : 0 ≤ (outcomeOf bids).winnerIndex := by omega
  have hfound := (find_winner bids hnonneg).symm.trans hwinner
  obtain ⟨winner, hholder, rfl⟩ := Option.map_eq_some_iff.mp hfound
  cases @find_member strKey hash (splitAddresses addresses) winner.1.bidder with
  | inl hnone => exact absurd (hnone.2.symm.trans hi) (Option.some_ne_none i).symm
  | inr hsome =>
    obtain ⟨i', hi', hmember⟩ := hsome
    have hsame : i' = i := Option.some.inj (hi'.symm.trans hi)
    subst hsame
    refine ⟨winner, ⟨hchecks, hpos, ensure_eq_ok.mp hclearing, hholder, List.mem_of_getElem? hmember⟩,
      ?_, rfl, rfl, rfl⟩
    simp only [CircuitInputDocument.publicTexts, publicSettlement, List.map_cons, List.map_append,
      slotTexts_commitments hb, List.getElem?_map, hmember]
    rfl

theorem scripts_complete (hb : DistinctBids nacl secretKeyHex bids)
    (hm : ValidMembers strKey (splitAddresses addresses)) (htext : parse auctionText = some auctionId)
    {winner : Decrypted} (hs : Settles hash auctionId bids (splitAddresses addresses) winner) :
    ∃ out, settleFromFiles strKey nacl hash addresses secretKeyHex
      ⟨auctionText, bids.map Prod.fst⟩ = .ok out := by
  have hlength : ¬((bids.map openedBid).length = 0 ∨ (bids.map openedBid).length > bidSlotCount) := by
    have hle := hb.length_le
    have hmem := List.length_pos_of_mem (Slots.holder_mem hs.holder)
    rw [List.length_map]
    omega
  have hnonneg : 0 ≤ (outcomeOf bids).winnerIndex := by
    have hpos := hs.positive
    omega
  have hwinner := find_winner bids hnonneg
  rw [hs.holder] at hwinner
  cases @find_member strKey hash (splitAddresses addresses) winner.1.bidder with
  | inl hnone => exact absurd hs.member hnone.1
  | inr hsome =>
    obtain ⟨i, hi, hmember⟩ := hsome
    have hlt : i < 2 ^ merkleDepth :=
      lt_of_lt_of_le (List.getElem?_eq_some_iff.mp hmember).1 hm.capacity
    have hbuild : ∃ out, buildInput hash ⟨toString auctionId, bids.map openedBid⟩
        (writtenWhitelist strKey hash (splitAddresses addresses)) = .ok out := by
      simp only [buildInput, selectWinner, bind_eq_ok, okOr_eq_ok, padPrice_opened hb,
        Except.ok.injEq, exists_eq_left', writtenWhitelist, read_leaves, toBigInt_toString,
        pure_eq_ok]
      exact ⟨_, (), ensure_eq_ok.mpr hlength, _, ⟨(), ensure_eq_ok.mpr hs.positive, (),
        ensure_eq_ok.mpr hs.clearing, rfl⟩, _, hwinner, i, hi, _, helpers_new hash hm.leaves_le, (),
        ensure_eq_ok.mpr rfl, (), ensure_eq_ok.mpr trivial, _,
        helpers_pathFor hash hm.leaves_le hlt, rfl⟩
    obtain ⟨out, hout⟩ := hbuild
    exact ⟨out, bind_eq_ok.mpr ⟨_, buildWhitelist_valid hm,
      bind_eq_ok.mpr ⟨_, (operatorDecrypt_eq_ok hb htext).mpr ⟨hs.commitments, rfl⟩, hout⟩⟩⟩

end Scripts

theorem computeWhitelistRoot_valid {strKey : StrKey} {hash : List ℤ → ℤ} {members : List String}
    (hm : ValidMembers strKey members) :
    computeWhitelistRoot strKey hash members = .ok (memberTree strKey hash members).root := by
  have hleaves : members.mapM (fun memberAddress => do
      let keyBytes ← okOr (strKey.decodeEd25519PublicKey memberAddress)
        s!"{memberAddress} is not a valid Stellar address."
      return computeAddressLeaf hash keyBytes) = .ok (members.map (memberLeaf strKey hash)) := by
    refine (mapM_eq_ok_map fun m hmem leaf => ?_).mpr ⟨hm.valid, rfl⟩
    obtain ⟨key, hkey, hleaf⟩ := @ValidMembers.leaf strKey hash _ hm m hmem
    rw [hleaf, hkey]
    constructor
    · intro he
      cases he
      exact ⟨rfl, rfl⟩
    · rintro ⟨-, rfl⟩
      rfl
  exact bind_eq_ok.mpr ⟨(), ensure_eq_ok.mpr hm.nonempty, bind_eq_ok.mpr ⟨(),
    ensure_eq_ok.mpr hm.capacity, bind_eq_ok.mpr ⟨_, hleaves, rfl⟩⟩⟩

/-- The page goes through exactly when the scripts do and the list rebuilds the root of the auction;
and then both settle with the same winner and price, over the same public signals. -/
theorem pipelines_agree (strKey : StrKey) (nacl : Nacl) (hash : List ℤ → ℤ) (auctionId : ℕ) (root : ℤ)
    (addresses secretKeyHex auctionText : String) (bids : List Decrypted)
    (htext : parse auctionText = some (auctionId : ℤ))
    (hb : DistinctBids nacl secretKeyHex bids)
    (hm : ValidMembers strKey (splitAddresses addresses)) :
    let page := prepareSettle strKey hash ⟨auctionId, root⟩ (bids.map revealedBid)
      (splitAddresses addresses)
    let scripts := settleFromFiles strKey nacl hash addresses secretKeyHex
      ⟨auctionText, bids.map Prod.fst⟩
    ((∃ out, page = .ok out) ↔ (∃ out, scripts = .ok out) ∧
      computeWhitelistRoot strKey hash (splitAddresses addresses) = .ok root) ∧
    ∀ input arguments document settleMeta, page = .ok (input, arguments) →
      scripts = .ok (document, settleMeta) →
        settleMeta.winnerIndex = arguments.winnerIndex ∧
        settleMeta.winningPrice = toString arguments.winningPrice ∧
        settleMeta.winnerAddress = arguments.winnerAddress ∧
        document.publicTexts = input.publicValues.map toString ∧ document.publicTexts.length = 13 := by
  intro page scripts
  rw [computeWhitelistRoot_valid hm, Except.ok.injEq]
  constructor
  · constructor
    · rintro ⟨⟨input, arguments⟩, hpage⟩
      obtain ⟨winner, hs, hroot, -⟩ := page_sound hb hm hpage
      exact ⟨scripts_complete hb hm htext hs, hroot⟩
    · rintro ⟨⟨⟨document, settleMeta⟩, hscripts⟩, hroot⟩
      obtain ⟨winner, hs, -⟩ := scripts_sound hb hm htext hscripts
      exact page_complete hb hm hs hroot
  · intro input arguments document settleMeta hpage hscripts
    obtain ⟨winner, hs, -, hpublic, hindex, hprice, haddress⟩ := page_sound hb hm hpage
    obtain ⟨winner', hs', hpublic', hindex', hprice', haddress'⟩ := scripts_sound hb hm htext hscripts
    have hwinner : winner' = winner := Option.some.inj (hs'.holder.symm.trans hs.holder)
    subst hwinner
    have hlength : (publicSettlement strKey hash (auctionId : ℤ) bids (splitAddresses addresses)
        winner').length = 13 := by
      simp only [publicSettlement, List.length_cons, List.length_append, Slots.table_length,
        List.length_nil]
      rfl
    refine ⟨hindex'.trans hindex.symm, by rw [hprice', hprice], by rw [haddress', haddress], ?_, ?_⟩
    · rw [hpublic', hpublic]
    · rw [hpublic', List.length_map, hlength]

/-- Two bids, and a list that names the winner twice: the page proves the membership of the second
entry, the scripts that of the first. -/
theorem pipelines_agree_witness :
    let hash := poseidonHasher firstInput
    let first := sep23.encode (.account (keyOf 3))
    let second := sep23.encode (.account (keyOf 4))
    let addresses := first ++ "," ++ second ++ "," ++ first
    let secretKey : List UInt8 := List.replicate 32 7
    let r : SealRandomness := ⟨List.replicate 31 0, List.replicate 24 4, List.replicate 32 6⟩
    let sealed := fun price => hexText
      (sealBid tagBox hash r price 1 (tagBox.publicKey secretKey)).encryptedBid
    let bids : List Decrypted := [(⟨0, first, "4", sealed 4⟩, ⟨4, 0⟩),
      (⟨1, second, "2", sealed 2⟩, ⟨2, 0⟩)]
    ∃ input arguments document settleMeta,
      prepareSettle sep23 hash ⟨1, 0x03030303030303030303030303030303⟩ (bids.map revealedBid)
        [first, second, first] = .ok (input, arguments) ∧
      settleFromFiles sep23 tagBox hash addresses (hexText secretKey) ⟨"1", bids.map Prod.fst⟩ =
        .ok (document, settleMeta) ∧
      document.publicTexts = input.publicValues.map toString := by
  intro hash first second addresses secretKey r sealed bids
  have hr : r.WellFormed := ⟨by decide, by decide, by decide⟩
  have hsplit : splitAddresses addresses = [first, second, first] := by decide +kernel
  have hopens : ∀ price : ℕ, price < 2 ^ 64 → decryptOneBid tagBox (sealed price)
      (Hex.decode (hexText secretKey).toList) = .ok ⟨price, 0⟩ := by
    intro price hlt
    rw [decode_hexText]
    exact (sealBid_delivers hash tagBox_lawful hr hlt 1 (by decide)).decrypted _ (decode_hexText _)
  have hb : DistinctBids tagBox (hexText secretKey) bids := by
    refine ⟨?_, by decide, ?_, ?_⟩
    · simp only [bids, List.forall_mem_cons]
      exact ⟨hopens 4 (by norm_num), hopens 2 (by norm_num), fun b hb => absurd hb List.not_mem_nil⟩
    · simp only [bids, List.forall_mem_cons]
      exact ⟨by decide, by decide, fun b hb => absurd hb List.not_mem_nil⟩
    · simp only [bids, List.forall_mem_cons]
      exact ⟨⟨4, rfl⟩, ⟨2, rfl⟩, fun b hb => absurd hb List.not_mem_nil⟩
  have hm : ValidMembers sep23 (splitAddresses addresses) := by
    rw [hsplit]
    exact ⟨by simp, by decide, by decide +kernel⟩
  have hok : (prepareSettle sep23 hash ⟨1, 0x03030303030303030303030303030303⟩
      (bids.map revealedBid) [first, second, first]).isOk = true := by decide +kernel
  obtain ⟨hiff, hsame⟩ := pipelines_agree sep23 tagBox hash 1 0x03030303030303030303030303030303
    addresses (hexText secretKey) "1" bids (parse_toString 1) hb hm
  rw [hsplit] at hiff hsame
  cases hpage : prepareSettle sep23 hash ⟨1, 0x03030303030303030303030303030303⟩
      (bids.map revealedBid) [first, second, first] with
  | error e =>
    rw [hpage] at hok
    exact absurd hok Bool.false_ne_true
  | ok out =>
    obtain ⟨⟨⟨document, settleMeta⟩, hscripts⟩, -⟩ := hiff.mp ⟨out, hpage⟩
    obtain ⟨-, -, -, htexts, -⟩ := hsame out.1 out.2 document settleMeta hpage hscripts
    exact ⟨out.1, out.2, document, settleMeta, rfl, hscripts, htexts⟩

end SealedStellar
