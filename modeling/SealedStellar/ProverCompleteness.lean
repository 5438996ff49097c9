import SealedStellar.Operator
import SealedStellar.Sac

/-! The page never asks for a proof that does not exist: what it hands to the prover satisfies
the circuit, over the public vector the contract will rebuild. -/
namespace SealedStellar
open Checked SecondPrice MerklePath Circom BigIntText
variable {W : Type} {h : Host W} {strKey : StrKey}

def CircuitInput.publicSignals (input : CircuitInput) : PublicSignals 8 where
  auctionId := (input.auctionId : Fr)
  commitments := fun i => ((input.commitments.getD i 0 : ℤ) : Fr)
  winnerIndex := (input.winnerIndex : Fr)
  winningPrice := (input.winningPrice : Fr)
  whitelistRoot := (input.whitelistRoot : Fr)
  winnerAddrHash := (input.winnerAddrHash : Fr)

def CircuitInput.publicValues (input : CircuitInput) : List ℤ :=
  input.auctionId :: (input.commitments ++
    [input.winnerIndex, input.winningPrice, input.whitelistRoot, input.winnerAddrHash])

/-- The input has the shape of AuctionWinner(8, 10) and extends to a satisfying assignment. -/
structure CircuitInput.Satisfies (poseidon : Poseidon) (input : CircuitInput) : Prop where
  slots : input.commitments.length = 8 ∧ input.bidPrices.length = 8 ∧ input.bidSalts.length = 8
  levels : input.merklePathElements.length = 10 ∧ input.merklePathIndexBits.length = 10
  assignment : ∃ priv : PrivateSignals 8 10,
    (∀ i, priv.bidPrices i = ((input.bidPrices.getD i 0 : ℤ) : Fr)) ∧
    (∀ i, priv.bidSalts i = ((input.bidSalts.getD i 0 : ℤ) : Fr)) ∧
    (∀ i, priv.merklePathElements i = ((input.merklePathElements.getD i 0 : ℤ) : Fr)) ∧
    (∀ i, priv.merklePathIndexBits i = ((input.merklePathIndexBits.getD i 0 : ℤ) : Fr)) ∧
    AuctionWinner poseidon input.publicSignals priv

def Repeats (strKey : StrKey) (auction : Auction) (r : RevealedBid) : Prop :=
  ∃ (i : ℕ) (bid : Bid) (price salt : ℕ), auction.bids[i]? = some bid ∧ r.slotIndex = i ∧
    r.bidder = strKey.encode bid.bidder ∧ parse r.commitment = some (bid.commitment.toNat : ℤ) ∧
    parse r.price = some (price : ℤ) ∧ price < 2 ^ 64 ∧
    parse r.salt = some (salt : ℤ) ∧ salt < 2 ^ 248

structure Coincides (strKey : StrKey) (auction : Auction) (bids : List RevealedBid) : Prop where
  repeats : ∀ r ∈ bids, Repeats strKey auction r
  complete : ∀ i < auction.bids.length, ∃ r ∈ bids, r.slotIndex = i

def EmptySlot (slots : SlotData) (i : ℕ) : Prop :=
  slots.bidders.getD i none = none ∧ slots.prices.getD i 0 = 0 ∧ slots.commitments.getD i 0 = 0

def FilledSlot (strKey : StrKey) (auction : Auction) (slots : SlotData) (i : ℕ) : Prop :=
  ∃ bid, auction.bids[i]? = some bid ∧
    slots.bidders.getD i none = some (strKey.encode bid.bidder) ∧
    slots.commitments.getD i 0 = (bid.commitment.toNat : ℤ) ∧
    0 ≤ slots.prices.getD i 0 ∧ slots.prices.getD i 0 < 2 ^ 64

structure LaidOut (strKey : StrKey) (auction : Auction) (slots : SlotData) : Prop where
  prices : slots.prices.length = 8
  salts : slots.salts.length = 8
  commitments : slots.commitments.length = 8
  bidders : slots.bidders.length = 8
  slot : ∀ i, EmptySlot slots i ∨ FilledSlot strKey auction slots i

section LayOut
variable {auction : Auction}

theorem emptySlots_laidOut : LaidOut strKey auction emptySlots where
  prices := rfl
  salts := rfl
  commitments := rfl
  bidders := rfl
  slot := fun i => by
    left
    by_cases hi : i < maxBidSlots <;>
      simp [EmptySlot, emptySlots, List.getD_eq_getElem?_getD, hi]

theorem layOut_step {slots slots' : SlotData} {r : RevealedBid} (hr : Repeats strKey auction r)
    (hs : LaidOut strKey auction slots) (he : layOut slots r = .ok slots') :
    LaidOut strKey auction slots' ∧ ¬EmptySlot slots' r.slotIndex.toNat ∧
      ∀ i, EmptySlot slots' i → EmptySlot slots i := by
  obtain ⟨i, bid, price, salt, hbid, hi, hbidder, hcommitment, hprice, hrange, hsalt, -⟩ := hr
  simp only [layOut, bind_eq_ok, ensure_eq_ok, okOr_eq_ok, pure_eq_ok, hprice, hsalt, hcommitment,
    hi, Option.some.injEq, exists_eq_left', Int.toNat_natCast] at he
  obtain ⟨-, hslot, rfl⟩ := he
  have hlt : i < 8 := by
    simp only [maxBidSlots] at hslot
    omega
  have hat : ∀ {α : Type} (l : List α) (a z : α), l.length = 8 → (l.set i a).getD i z = a := by
    intro α l a z hl
    rw [List.getD_eq_getElem?_getD, List.getElem?_set_self (by omega), Option.getD_some]
  have hother : ∀ {α : Type} (l : List α) (a z : α) (j : ℕ), j ≠ i →
      (l.set i a).getD j z = l.getD j z := by
    intro α l a z j hj
    rw [List.getD_eq_getElem?_getD, List.getElem?_set_ne (Ne.symm hj), List.getD_eq_getElem?_getD]
  rw [hi, Int.toNat_natCast]
  refine ⟨⟨?_, ?_, ?_, ?_, fun j => ?_⟩, fun hempty => ?_, fun j hempty => ?_⟩
  · rw [List.length_set, hs.prices]
  · rw [List.length_set, hs.salts]
  · rw [List.length_set, hs.commitments]
  · rw [List.length_set, hs.bidders]
  · by_cases hj : j = i
    · subst hj
      right
      refine ⟨bid, hbid, ?_, ?_, ?_⟩
      · rw [hat _ _ _ hs.bidders, hbidder]
      · rw [hat _ _ _ hs.commitments]
      · rw [hat _ _ _ hs.prices]
        exact ⟨by omega, by exact_mod_cast hrange⟩
    · simpa only [EmptySlot, FilledSlot, hother _ _ _ j hj] using hs.slot j
  · have hnone := hempty.1
    rw [hat _ _ _ hs.bidders] at hnone
    cases hnone
  · by_cases hj : j = i
    · subst hj
      have hnone := hempty.1
      rw [hat _ _ _ hs.bidders] at hnone
      cases hnone
    · simpa only [EmptySlot, hother _ _ _ j hj] using hempty

theorem layOut_run {bids : List RevealedBid} (hr : ∀ r ∈ bids, Repeats strKey auction r)
    {slots slots' : SlotData} (hs : LaidOut strKey auction slots)
    (he : bids.foldlM layOut slots = .ok slots') :
    LaidOut strKey auction slots' ∧ (∀ r ∈ bids, ¬EmptySlot slots' r.slotIndex.toNat) ∧
      ∀ i, EmptySlot slots' i → EmptySlot slots i := by
  induction bids generalizing slots with
  | nil =>
    rw [List.foldlM_nil, pure_eq_ok] at he
    subst he
    exact ⟨hs, fun r hr => absurd hr List.not_mem_nil, fun i hi => hi⟩
  | cons r bids ih =>
    rw [List.foldlM_cons, bind_eq_ok] at he
    obtain ⟨slots₁, h₁, h₂⟩ := he
    obtain ⟨hs₁, hfilled, hkept⟩ := layOut_step (hr r List.mem_cons_self) hs h₁
    obtain ⟨hs₂, hall, hrest⟩ := ih (fun q hq => hr q (List.mem_cons_of_mem r hq)) hs₁ h₂
    refine ⟨hs₂, fun q hq => ?_, fun i hi => hkept i (hrest i hi)⟩
    cases List.mem_cons.mp hq with
    | inl hq =>
      subst hq
      exact fun hempty => hfilled (hrest _ hempty)
    | inr hq => exact hall q hq

theorem layOut_complete {bids : List RevealedBid} (hb : Coincides strKey auction bids)
    {slots : SlotData} (he : bids.foldlM layOut emptySlots = .ok slots) :
    LaidOut strKey auction slots ∧ ∀ i, EmptySlot slots i → auction.bids[i]? = none := by
  obtain ⟨hs, hfilled, -⟩ := layOut_run hb.repeats emptySlots_laidOut he
  refine ⟨hs, fun i hempty => ?_⟩
  by_contra hsome
  have hi : i < auction.bids.length := by
    by_contra hge
    exact hsome (List.getElem?_eq_none (by omega))
  obtain ⟨r, hr, hslot⟩ := hb.complete i hi
  have hne := hfilled r hr
  rw [hslot, Int.toNat_natCast] at hne
  exact hne hempty

end LayOut

section Members
variable {hash : List ℤ → ℤ} {winnerAddress : String}

/-- The whitelist loop: a leaf for every member, and the winner's index if it is one. -/
theorem addMember_run {members : List String} {leaves : List ℤ} {index : ℤ}
    (he : members.zipIdx.foldlM (addMember strKey hash winnerAddress) ([], -1) =
      .ok (leaves, index)) :
    leaves.length = members.length ∧ (index < 0 ∨ ∃ i < members.length, index = (i : ℤ) ∧
      ∃ key, strKey.decodeEd25519PublicKey winnerAddress = some key ∧
        leaves.getD i 0 = computeAddressLeaf hash key) := by
  induction members using List.reverseRecOn generalizing leaves index with
  | nil =>
    cases he
    exact ⟨rfl, .inl (by decide)⟩
  | append_singleton members member ih =>
    rw [List.zipIdx_append, List.foldlM_append, bind_eq_ok] at he
    obtain ⟨⟨leaves₁, index₁⟩, h₁, h₂⟩ := he
    obtain ⟨hlen, hindex⟩ := ih h₁
    simp only [List.zipIdx_singleton, List.foldlM_cons, List.foldlM_nil, addMember, bind_eq_ok,
      okOr_eq_ok, pure_eq_ok, Nat.zero_add] at h₂
    obtain ⟨_, ⟨key, hkey, rfl⟩, h₂⟩ := h₂
    cases h₂
    refine ⟨by simp [hlen], ?_⟩
    by_cases hwinner : member = winnerAddress
    · right
      rw [if_pos hwinner]
      refine ⟨members.length, by simp, rfl, key, hwinner ▸ hkey, ?_⟩
      rw [← hlen]
      simp
    · rw [if_neg hwinner]
      cases hindex with
      | inl hnone => exact .inl hnone
      | inr hsome =>
        obtain ⟨i, hi, hidx, key', hkey', hleaf⟩ := hsome
        right
        refine ⟨i, by simp; omega, hidx, key', hkey', ?_⟩
        rw [List.getD_append leaves₁ _ 0 i (by omega), hleaf]

end Members

section Assembly
variable {hash : List ℤ → ℤ} {view : AuctionView} {slots : SlotData} {members : List String}
  {input : CircuitInput} {arguments : SettleArguments}

theorem checkSlots_eq_ok {n : ℕ} :
    (List.range n).forM (checkSlot hash view slots) = .ok () ↔
      ∀ i < n, slots.bidders.getD i none ≠ none →
        hash [slots.prices.getD i 0, slots.salts.getD i 0, (view.id : ℤ)] =
          slots.commitments.getD i 0 := by
  have hslot : ∀ i, checkSlot hash view slots i = .ok () ↔ (slots.bidders.getD i none ≠ none →
      hash [slots.prices.getD i 0, slots.salts.getD i 0, (view.id : ℤ)] =
        slots.commitments.getD i 0) := by
    intro i
    rw [checkSlot]
    cases slots.bidders.getD i none with
    | none => simp
    | some bidder => simp
  have hall : ∀ l : List ℕ, l.forM (checkSlot hash view slots) = .ok () ↔
      ∀ i ∈ l, checkSlot hash view slots i = .ok () := by
    intro l
    induction l with
    | nil => simp [pure, Except.pure]
    | cons i l ih =>
      have hcons : (i :: l).forM (checkSlot hash view slots) =
          (checkSlot hash view slots i >>= fun _ => l.forM (checkSlot hash view slots)) := rfl
      rw [hcons, bind_eq_ok, List.forall_mem_cons, ← ih]
      constructor
      · rintro ⟨_, hfirst, hrest⟩
        exact ⟨hfirst, hrest⟩
      · rintro ⟨hfirst, hrest⟩
        exact ⟨(), hfirst, hrest⟩
  rw [hall]
  simp only [List.mem_range, hslot]

structure Assembled (strKey : StrKey) (hash : List ℤ → ℤ) (view : AuctionView) (slots : SlotData)
    (input : CircuitInput) (arguments : SettleArguments) (leaves : List ℤ) (w m : ℕ) : Prop where
  opens : ∀ i < maxBidSlots, slots.bidders.getD i none ≠ none →
    hash [slots.prices.getD i 0, slots.salts.getD i 0, (view.id : ℤ)] =
      slots.commitments.getD i 0
  winner : (selectVickreyOutcome slots.prices).winnerIndex = (w : ℤ)
  positive : 0 < (selectVickreyOutcome slots.prices).clearingPrice
  bidder : slots.bidders.getD w none = some arguments.winnerAddress
  member : m < leaves.length ∧ ∃ key,
    strKey.decodeEd25519PublicKey arguments.winnerAddress = some key ∧
      leaves.getD m 0 = computeAddressLeaf hash key
  root : (PoseidonMerkleTree.new hash merkleDepth leaves).root = view.whitelistRoot
  input_eq : input =
    { auctionId := (view.id : ℤ)
      commitments := slots.commitments
      winnerIndex := (w : ℤ)
      winningPrice := (selectVickreyOutcome slots.prices).clearingPrice
      whitelistRoot := view.whitelistRoot
      winnerAddrHash := leaves.getD m 0
      bidPrices := slots.prices
      bidSalts := slots.salts
      merklePathElements := ((PoseidonMerkleTree.new hash merkleDepth leaves).pathFor m).elements
      merklePathIndexBits :=
        ((PoseidonMerkleTree.new hash merkleDepth leaves).pathFor m).indexBits }
  arguments_eq : arguments.auctionId = view.id ∧ arguments.winnerIndex = w ∧
    arguments.winningPrice = (selectVickreyOutcome slots.prices).clearingPrice

theorem assemble_ok (he : assemble strKey hash view slots members = .ok (input, arguments)) :
    ∃ leaves w m, leaves.length = members.length ∧
      Assembled strKey hash view slots input arguments leaves w m := by
  simp only [assemble, bind_eq_ok, ensure_eq_ok, okOr_eq_ok, pure_eq_ok, Prod.mk.injEq] at he
  obtain ⟨_, hopens, _, hwinner, _, hpositive, winnerAddress, hbidder, ⟨leaves, index⟩, hleaves, _,
    hindex, _, hroot, rfl, rfl⟩ := he
  obtain ⟨hlen, hnone | ⟨m, hm, rfl, key, hkey, hleaf⟩⟩ := addMember_run hleaves
  · exact absurd hnone hindex
  · have hw : (selectVickreyOutcome slots.prices).winnerIndex =
        ((selectVickreyOutcome slots.prices).winnerIndex.toNat : ℤ) := by omega
    exact ⟨leaves, _, m, hlen, checkSlots_eq_ok.mp hopens, hw, by omega, hbidder,
      ⟨by omega, key, hkey, hleaf⟩, hroot, rfl, rfl, rfl, rfl⟩

end Assembly

section Outcome
variable {auction : Auction} {slots : SlotData}

def priceAt (slots : SlotData) (i : Fin 8) : ℕ := (slots.prices.getD i 0).toNat

theorem LaidOut.price_bounds (hs : LaidOut strKey auction slots) (i : ℕ) :
    0 ≤ slots.prices.getD i 0 ∧ slots.prices.getD i 0 < 2 ^ 64 := by
  cases hs.slot i with
  | inl hempty =>
    rw [hempty.2.1]
    norm_num
  | inr hfilled =>
    obtain ⟨-, -, -, -, hbounds⟩ := hfilled
    exact hbounds

theorem LaidOut.price_eq (hs : LaidOut strKey auction slots) (i : Fin 8) :
    slots.prices.getD i 0 = (priceAt slots i : ℤ) := by
  have hnonneg := (hs.price_bounds i).1
  rw [priceAt]
  omega

theorem LaidOut.price_cast (hs : LaidOut strKey auction slots) (i : Fin 8) :
    ((slots.prices.getD i 0 : ℤ) : Fr) = (priceAt slots i : Fr) := by
  rw [hs.price_eq, Int.cast_natCast]

/-- The page's selection is the second-price outcome over the eight slots. -/
theorem LaidOut.outcome (hs : LaidOut strKey auction slots) {w : ℕ}
    (hw : (selectVickreyOutcome slots.prices).winnerIndex = (w : ℤ)) :
    ∃ hlt : w < 8, IsWinner (priceAt slots) ⟨w, hlt⟩ ∧
      (selectVickreyOutcome slots.prices).clearingPrice =
        (clearingPrice (priceAt slots) ⟨w, hlt⟩ : ℕ) := by
  obtain ⟨v, hwin, hout⟩ := selectVickreyOutcome_eq (by norm_num) hs.prices hs.price_eq
  rw [hout] at hw
  have hvw : (v : ℕ) = w := Int.ofNat_inj.mp hw
  subst hvw
  exact ⟨v.isLt, hwin, by rw [hout]⟩

end Outcome

section Complete
variable {auction : Auction} {slots : SlotData} {k w m : ℕ} {leaves : List ℤ}
  {input : CircuitInput} {arguments : SettleArguments}

theorem Assembled.slot_opens
    (ha : Assembled strKey (poseidonHasher h.poseidon) (auctionView k auction) slots input arguments
      leaves w m)
    (hv : auction.Valid) (hs : LaidOut strKey auction slots) {i : Fin 8}
    (hfilled : FilledSlot strKey auction slots i) :
    h.poseidon [(priceAt slots i : Fr), ((slots.salts.getD i 0 : ℤ) : Fr), (k : Fr)] =
        ((slots.commitments.getD i 0 : ℤ) : Fr) ∧
      ((slots.commitments.getD i 0 : ℤ) : Fr) ≠ 0 := by
  obtain ⟨bid, hbid, hbidder, hcommitment, -⟩ := hfilled
  have hopens := ha.opens i i.isLt (by rw [hbidder]; exact Option.some_ne_none _)
  have hcast : h.poseidon [(priceAt slots i : Fr), ((slots.salts.getD i 0 : ℤ) : Fr), (k : Fr)] =
      ((slots.commitments.getD i 0 : ℤ) : Fr) := by
    rw [← hopens, poseidonHasher_cast, List.map_cons, List.map_cons, List.map_cons, List.map_nil,
      hs.price_cast i, auctionView, Int.cast_natCast]
  refine ⟨hcast, fun hzero => hv.marker bid (List.mem_of_getElem? hbid) ?_⟩
  have hval : slots.commitments.getD i 0 = 0 := by
    rw [← hopens, poseidonHasher, List.map_cons, List.map_cons, List.map_cons, List.map_nil,
      hs.price_cast i, auctionView, Int.cast_natCast, hcast, hzero, ZMod.val_zero, Nat.cast_zero]
  rw [hcommitment] at hval
  exact BitVec.eq_of_toNat_eq (by simpa using hval)

theorem Assembled.empty_price
    (ha : Assembled strKey (poseidonHasher h.poseidon) (auctionView k auction) slots input arguments
      leaves w m)
    (hv : auction.Valid) (hs : LaidOut strKey auction slots) (i : Fin 8)
    (hzero : ((slots.commitments.getD i 0 : ℤ) : Fr) = 0) : priceAt slots i = 0 := by
  cases hs.slot i with
  | inl hempty => rw [priceAt, hempty.2.1, Int.toNat_zero]
  | inr hfilled => exact absurd hzero (ha.slot_opens hv hs hfilled).2

theorem Assembled.commitment_opens
    (ha : Assembled strKey (poseidonHasher h.poseidon) (auctionView k auction) slots input arguments
      leaves w m)
    (hv : auction.Valid) (hs : LaidOut strKey auction slots) (i : Fin 8)
    (hne : ((slots.commitments.getD i 0 : ℤ) : Fr) ≠ 0) :
    h.poseidon [(priceAt slots i : Fr), ((slots.salts.getD i 0 : ℤ) : Fr),
      (((auctionView k auction).id : ℤ) : Fr)] = ((slots.commitments.getD i 0 : ℤ) : Fr) := by
  have hauction : (((auctionView k auction).id : ℤ) : Fr) = (k : Fr) := Int.cast_natCast k
  rw [hauction]
  cases hs.slot i with
  | inl hempty => exact absurd (by rw [hempty.2.2, Int.cast_zero]) hne
  | inr hfilled => exact (ha.slot_opens hv hs hfilled).1

/-- The commitments laid out are those the contract puts into the public vector. -/
theorem LaidOut.commitments_eq (hs : LaidOut strKey auction slots)
    (hempty : ∀ i, EmptySlot slots i → auction.bids[i]? = none) : slots.commitments =
      ((List.range maxBidSlots).map (slotCommitment auction.bids)).map fun u => (u.toNat : ℤ) := by
  apply List.ext_getElem
  · simp [hs.commitments, maxBidSlots]
  · intro i hi hi'
    have hget : slots.commitments[i] = slots.commitments.getD i 0 := by
      rw [List.getD_eq_getElem?_getD, List.getElem?_eq_getElem hi, Option.getD_some]
    have hslot : slots.commitments.getD i 0 = ((slotCommitment auction.bids i).toNat : ℤ) := by
      cases hs.slot i with
      | inl he =>
        rw [he.2.2, slotCommitment, hempty i he]
        rfl
      | inr hf =>
        obtain ⟨bid, hbid, -, hcommitment, -⟩ := hf
        rw [hcommitment, slotCommitment, hbid]
    simp only [hget, hslot, List.getElem_map, List.getElem_range]

theorem path_entries (path : List (ℤ × Bool)) {n : ℕ} (hlen : path.length = n) :
    (List.ofFn fun i : Fin n => (((path.map Prod.fst).getD i 0 : Fr),
      decide ((((path.map fun entry => if entry.2 then (1 : ℤ) else 0).getD i 0 : ℤ) : Fr) = 1))) =
    path.map fun entry => ((entry.1 : Fr), entry.2) := by
  apply List.ext_getElem
  · simp [hlen]
  · intro i hi hi'
    have hin : i < path.length := by simpa using hi'
    cases hbit : path[i].2 <;>
      simp [List.getD_eq_getElem?_getD, hin, hbit]

theorem path_bits (path : List (ℤ × Bool)) (i : ℕ) :
    (((path.map fun entry => if entry.2 then (1 : ℤ) else 0).getD i 0 : ℤ) : Fr) = 0 ∨
    (((path.map fun entry => if entry.2 then (1 : ℤ) else 0).getD i 0 : ℤ) : Fr) = 1 := by
  rw [List.getD_eq_getElem?_getD, List.getElem?_map]
  cases path[i]? with
  | none => exact .inl (by simp)
  | some entry => cases hbit : entry.2 <;> simp [hbit]

/-- The input satisfies the circuit. -/
theorem Assembled.satisfies
    (ha : Assembled strKey (poseidonHasher h.poseidon) (auctionView k auction) slots input arguments
      leaves w m)
    (hv : auction.Valid) (hs : LaidOut strKey auction slots) (hcap : leaves.length ≤ 2 ^ merkleDepth) :
    input.Satisfies h.poseidon := by
  obtain ⟨hlt, hwin, hclear⟩ := hs.outcome ha.winner
  have hbidPrices := hs.prices
  have hpositive := ha.positive
  have hprice : ∀ i, priceAt slots i < 2 ^ 64 := fun i => by
    have hbounds := hs.price_bounds i
    rw [priceAt]
    omega
  let tree := PoseidonMerkleTree.new (poseidonHasher h.poseidon) merkleDepth leaves
  let path := pathFrom 0 (tree.levels.take tree.depth) m
  have hpath : path.length = 10 := by
    rw [pathFrom_length, List.length_take]
    change min merkleDepth (levels _ merkleDepth _).length = 10
    rw [levels_length]
    rfl
  have hinput := ha.input_eq
  subst hinput
  refine ⟨⟨hs.commitments, hs.prices, hs.salts⟩, ⟨?_, ?_⟩, ?_⟩
  · exact (List.length_map _).trans hpath
  · exact (List.length_map _).trans hpath
  have hclimb : climb (fun a b => h.poseidon [a, b]) ((leaves.getD m 0 : ℤ) : Fr)
      (path.map fun entry => ((entry.1 : Fr), entry.2)) =
        ((auctionView k auction).whitelistRoot : Fr) := by
    rw [← ha.root]
    exact pathFor_climbs h.poseidon leaves hcap ha.member.1
  refine ⟨honestSignals ⟨w, hlt⟩ (priceAt slots) (fun i => ((slots.salts.getD i 0 : ℤ) : Fr))
    (fun i => (((path.map Prod.fst).getD i 0 : ℤ) : Fr))
    (fun i => (((path.map fun entry => if entry.2 then (1 : ℤ) else 0).getD i 0 : ℤ) : Fr)),
    fun i => (hs.price_cast i).symm, fun i => rfl, fun i => rfl, fun i => rfl,
    honestSignals_satisfy (by omega) (by omega) ?_ ?_⟩
  · exact
      { index := Int.cast_natCast w
        range := hprice
        empty := ha.empty_price hv hs
        opens := ha.commitment_opens hv hs
        winner := hwin
        clearing := by
          change ((selectVickreyOutcome slots.prices).clearingPrice : Fr) = _
          rw [hclear, Int.cast_natCast]
        positive := by omega
        member := ⟨_, by rw [List.length_map, hpath], hclimb⟩ }
  · refine (merkleTreeChecker_iff _ _ _ _).mpr ⟨fun i => path_bits path i, ?_⟩
    rw [path_entries path hpath]
    exact hclimb

theorem Assembled.publicValues
    (ha : Assembled strKey (poseidonHasher h.poseidon) (auctionView k auction) slots input arguments
      leaves w m)
    (hkeys : strKey.Faithful) (hs : LaidOut strKey auction slots)
    (hempty : ∀ i, EmptySlot slots i → auction.bids[i]? = none) (hk : k < 2 ^ 256)
    {winner : Address} (hwinner : strKey.encode winner = arguments.winnerAddress) :
    input.publicValues = (buildPublicSignals h auction arguments.auctionId arguments.winnerIndex
      arguments.winningPrice winner).map fun u => (u.toNat : ℤ) := by
  obtain ⟨hlt, hwin, hclear⟩ := hs.outcome ha.winner
  obtain ⟨-, key, hkey, hleaf⟩ := ha.member
  obtain ⟨hid, hindex, hprice⟩ := ha.arguments_eq
  have haccount : winner = .account key := hkeys.account (by rw [hwinner, hkey])
  have hcommitments := hs.commitments_eq hempty
  have hbound : clearingPrice (priceAt slots) ⟨w, hlt⟩ < 2 ^ 64 := by
    have hle := clearingPrice_le hwin
    have hbounds := hs.price_bounds w
    simp only [priceAt] at hle
    omega
  have hamount : (BitVec.ofNat 256 (arguments.winningPrice % 2 ^ 128).toNat).toNat =
      clearingPrice (priceAt slots) ⟨w, hlt⟩ := by
    rw [hprice, hclear, BitVec.toNat_ofNat]
    omega
  have hinput := ha.input_eq
  subst hinput
  simp only [CircuitInput.publicValues, buildPublicSignals, List.map_cons, List.map_append,
    List.map_nil, hamount, ← hcommitments, hclear, hid, hindex, haccount, hleaf,
    computeAddressLeaf_eq, auctionView, BitVec.toNat_ofNat, Nat.mod_eq_of_lt hk,
    Nat.mod_eq_of_lt (by omega : w < 2 ^ 256)]

end Complete

/-- What reaches the prover satisfies every constraint, and its public values are those the
contract rebuilds for the arguments the page then submits. -/
theorem prepareSettle_complete (h : Host W) (strKey : StrKey) (hkeys : strKey.Faithful)
    (g : Genesis W) (actions : List (Action W)) (k : ℕ) (auction : Auction)
    (ha : (runFrom h g actions).auctions k = some auction) (bids : List RevealedBid)
    (hbids : Coincides strKey auction bids) (members : List String)
    (hcap : members.length ≤ maxWhitelistMembers) (input : CircuitInput)
    (arguments : SettleArguments)
    (he : prepareSettle strKey (poseidonHasher h.poseidon) (auctionView k auction) bids members =
      .ok (input, arguments)) :
    input.Satisfies h.poseidon ∧
    (∀ winner, strKey.encode winner = arguments.winnerAddress →
      input.publicValues = (buildPublicSignals h auction arguments.auctionId arguments.winnerIndex
        arguments.winningPrice winner).map fun u => (u.toNat : ℤ)) ∧
    ∀ proveCircuit bundle, proveSettleFromRevealedBids strKey (poseidonHasher h.poseidon)
      proveCircuit (auctionView k auction) bids members = .ok bundle →
      bundle.toSettleArguments = arguments := by
  have hvalid := runFrom_valid (h := h) g actions
  obtain ⟨next, hnext, -, hroom⟩ := hvalid.counter
  obtain ⟨-, hbound, hv⟩ := hvalid.stored k auction ha
  rw [hnext, Option.getD_some] at hbound
  simp only [u64Max] at hroom
  have hprepared := he
  simp only [prepareSettle, bind_eq_ok, ensure_eq_ok] at hprepared
  obtain ⟨_, -, slots, hslots, hassemble⟩ := hprepared
  obtain ⟨hs, hempty⟩ := layOut_complete hbids hslots
  obtain ⟨leaves, w, m, hleaves, hassembled⟩ := assemble_ok hassemble
  refine ⟨hassembled.satisfies hv hs (by rw [hleaves]; exact hcap),
    fun winner hwinner => hassembled.publicValues hkeys hs hempty (by omega) hwinner, ?_⟩
  intro proveCircuit bundle hbundle
  rw [proveSettleFromRevealedBids, he] at hbundle
  cases hproof : proveCircuit input with
  | error detail => simp [bind, Except.bind, hproof] at hbundle
  | ok proof =>
    simp only [bind, Except.bind, hproof, pure_eq_ok] at hbundle
    rw [← hbundle]

/-- Bids of 4 and 2 by the two members of a whitelist reach the prover. -/
theorem prepareSettle_complete_witness :
    let leaf : U256 := 0x03030303030303030303030303030303
    let h := sacHost (.contract (keyOf 0)) (fun _ _ _ => some true) firstInput
    let g : Genesis SacState := ⟨.contract (keyOf 1), evenTokens 100, 0, 1⟩
    let first : Address := .account (keyOf 3)
    let second : Address := .account (keyOf 4)
    let args : CreateArgs := ⟨.account (keyOf 2), .contract (keyOf 10), 7, .contract (keyOf 11), 5,
      10, 3, leaf, keyOf 9⟩
    let actions : List (Action SacState) := [.call [.account (keyOf 2)] (.createAuction args),
      .call [first] (.placeBid 1 first 4 []), .call [second] (.placeBid 1 second 2 []),
      .closeLedger 10 2]
    let auction : Auction := { newAuction args with bids := [⟨first, 4⟩, ⟨second, 2⟩] }
    let bids : List RevealedBid := [⟨0, sep23.encode first, "4", "4", "0"⟩,
      ⟨1, sep23.encode second, "2", "2", "0"⟩]
    (runFrom h g actions).auctions 1 = some auction ∧
    ∃ input arguments, prepareSettle sep23 (poseidonHasher firstInput) (auctionView 1 auction) bids
        [sep23.encode first, sep23.encode second] = .ok (input, arguments) ∧
      input.Satisfies firstInput ∧ ∀ winner, sep23.encode winner = arguments.winnerAddress →
        input.publicValues = (buildPublicSignals h auction arguments.auctionId
          arguments.winnerIndex arguments.winningPrice winner).map fun u => (u.toNat : ℤ) := by
  intro leaf h g first second args actions auction bids
  have ha : (runFrom h g actions).auctions 1 = some auction := rfl
  have hok : (prepareSettle sep23 (poseidonHasher firstInput) (auctionView 1 auction) bids
      [sep23.encode first, sep23.encode second]).isOk = true := by decide +kernel
  have hbids : Coincides sep23 auction bids := by
    constructor
    · intro r hr
      simp only [bids, List.mem_cons, List.not_mem_nil, or_false] at hr
      cases hr with
      | inl hr =>
        subst hr
        exact ⟨0, ⟨first, 4⟩, 4, 0, rfl, rfl, rfl, by decide, by decide, by decide, by decide,
          by norm_num⟩
      | inr hr =>
        subst hr
        exact ⟨1, ⟨second, 2⟩, 2, 0, rfl, rfl, rfl, by decide, by decide, by decide, by decide,
          by norm_num⟩
    · intro i hi
      match i, hi with
      | 0, _ => exact ⟨_, List.mem_cons_self, rfl⟩
      | 1, _ => exact ⟨_, List.mem_cons_of_mem _ List.mem_cons_self, rfl⟩
  cases hr : prepareSettle sep23 (poseidonHasher firstInput) (auctionView 1 auction) bids
      [sep23.encode first, sep23.encode second] with
  | error e =>
    rw [hr] at hok
    exact absurd hok Bool.false_ne_true
  | ok r =>
    have hcomplete := prepareSettle_complete h sep23 sep23_faithful g actions 1 auction ha bids hbids
      [sep23.encode first, sep23.encode second] (by decide) r.1 r.2 hr
    exact ⟨ha, r.1, r.2, rfl, hcomplete.1, hcomplete.2.1⟩

end SealedStellar
