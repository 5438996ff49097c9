import SealedStellar.WhitelistTree
import SealedStellar.StrKey
import SealedStellar.Lib.BigIntText
import SealedStellar.Lib.SecondPrice
import Mathlib.Data.List.GetD

/-! web/src/lib/operator.ts: from the revealed bids to the input of the prover and the
arguments of settle. -/
namespace SealedStellar
open Checked BigIntText SecondPrice

/-- web/src/lib/reveal.ts -/
structure RevealedBid where
  slotIndex : ℤ
  bidder : String
  commitment : String
  price : String
  salt : String
  deriving DecidableEq

/-- web/src/lib/chain.ts, the fields the pipeline reads. -/
structure AuctionView where
  id : ℕ
  whitelistRoot : ℤ

def auctionView (auctionId : ℕ) (auction : Auction) : AuctionView where
  id := auctionId
  whitelistRoot := (auction.whitelistRoot.toNat : ℤ)

structure SlotData where
  prices : List ℤ
  salts : List ℤ
  commitments : List ℤ
  bidders : List (Option String)

structure CircuitInput where
  auctionId : ℤ
  commitments : List ℤ
  winnerIndex : ℤ
  winningPrice : ℤ
  whitelistRoot : ℤ
  winnerAddrHash : ℤ
  bidPrices : List ℤ
  bidSalts : List ℤ
  merklePathElements : List ℤ
  merklePathIndexBits : List ℤ

structure SettleArguments where
  auctionId : ℕ
  winnerIndex : ℕ
  winningPrice : ℤ
  winnerAddress : String

structure SettleBundle extends SettleArguments where
  proof : VerifierProof

structure VickreyOutcome where
  winnerIndex : ℤ
  winnerPrice : ℤ
  clearingPrice : ℤ

def higherBid (best : ℤ × ℤ) (slot : ℤ × ℕ) : ℤ × ℤ :=
  if slot.1 > best.2 then ((slot.2 : ℤ), slot.1) else best

def otherBid (winnerIndex clearingPrice : ℤ) (slot : ℤ × ℕ) : ℤ :=
  if (slot.2 : ℤ) ≠ winnerIndex ∧ slot.1 > clearingPrice then slot.1 else clearingPrice

def selectVickreyOutcome (prices : List ℤ) : VickreyOutcome :=
  let winner := prices.zipIdx.foldl higherBid (-1, -1)
  { winnerIndex := winner.1
    winnerPrice := winner.2
    clearingPrice := prices.zipIdx.foldl (otherBid winner.1) 0 }

section Pipeline
variable (strKey : StrKey) (hash : List ℤ → ℤ)

def checkSlot (auction : AuctionView) (slots : SlotData) (slotIndex : ℕ) : Except String Unit :=
  match slots.bidders.getD slotIndex none with
  | none => .ok ()
  | some _ =>
    let recomputed := hash [slots.prices.getD slotIndex 0, slots.salts.getD slotIndex 0,
      (auction.id : ℤ)]
    ensure (recomputed = slots.commitments.getD slotIndex 0)
      s!"Slot {slotIndex}: the revealed bid does not match its on-chain commitment."

def addMember (winnerAddress : String) (acc : List ℤ × ℤ) (member : String × ℕ) :
    Except String (List ℤ × ℤ) := do
  let (memberAddress, memberIndex) := member
  let keyBytes ← okOr (strKey.decodeEd25519PublicKey memberAddress)
    s!"Whitelist member {memberAddress} is not a valid address."
  return (acc.1 ++ [computeAddressLeaf hash keyBytes],
    if memberAddress = winnerAddress then (memberIndex : ℤ) else acc.2)

def assemble (auction : AuctionView) (slots : SlotData) (whitelistMembers : List String) :
    Except String (CircuitInput × SettleArguments) := do
  (List.range maxBidSlots).forM (checkSlot hash auction slots)
  let outcome := selectVickreyOutcome slots.prices
  ensure (¬(outcome.winnerIndex < 0 ∨ outcome.winnerPrice ≤ 0))
    "No positive-price bid; there is nothing to settle."
  ensure (¬outcome.clearingPrice ≤ 0)
    ("Fewer than two positive bids: there is no second price, so the auction can only be " ++
      "refunded.")
  let winnerIndex := outcome.winnerIndex.toNat
  let winnerAddress ← okOr (slots.bidders.getD winnerIndex none)
    "Internal error: the winning slot has no bidder."
  let (memberLeaves, winnerMemberIndex) ←
    whitelistMembers.zipIdx.foldlM (addMember strKey hash winnerAddress) ([], -1)
  ensure (¬winnerMemberIndex < 0)
    "The winner is not in the whitelist; membership cannot be proven."
  let tree := PoseidonMerkleTree.new hash merkleDepth memberLeaves
  ensure (tree.root = auction.whitelistRoot)
    "The whitelist does not rebuild to the auction on-chain root."
  let winnerPath := tree.pathFor winnerMemberIndex.toNat
  return (
    { auctionId := (auction.id : ℤ)
      commitments := slots.commitments
      winnerIndex := (winnerIndex : ℤ)
      winningPrice := outcome.clearingPrice
      whitelistRoot := auction.whitelistRoot
      winnerAddrHash := memberLeaves.getD winnerMemberIndex.toNat 0
      bidPrices := slots.prices
      bidSalts := slots.salts
      merklePathElements := winnerPath.elements
      merklePathIndexBits := winnerPath.indexBits },
    { auctionId := auction.id
      winnerIndex := winnerIndex
      winningPrice := outcome.clearingPrice
      winnerAddress := winnerAddress })

def emptySlots : SlotData where
  prices := List.replicate maxBidSlots 0
  salts := List.replicate maxBidSlots 0
  commitments := List.replicate maxBidSlots 0
  bidders := List.replicate maxBidSlots none

def layOut (slots : SlotData) (bid : RevealedBid) : Except String SlotData := do
  let slotIndex := bid.slotIndex
  ensure (¬(slotIndex < 0 ∨ slotIndex ≥ maxBidSlots))
    s!"A revealed bid has an out-of-range slot ({slotIndex})."
  let price ← okOr (parse bid.price) "A revealed bid has a non-numeric field."
  let salt ← okOr (parse bid.salt) "A revealed bid has a non-numeric field."
  let commitment ← okOr (parse bid.commitment) "A revealed bid has a non-numeric field."
  let slot := slotIndex.toNat
  return { prices := slots.prices.set slot price
           salts := slots.salts.set slot salt
           commitments := slots.commitments.set slot commitment
           bidders := slots.bidders.set slot (some bid.bidder) }

def prepareSettle (auction : AuctionView) (revealedBids : List RevealedBid)
    (whitelistMembers : List String) : Except String (CircuitInput × SettleArguments) := do
  ensure (revealedBids ≠ []) "No sealed bids were revealed for this auction."
  let slots ← revealedBids.foldlM layOut emptySlots
  assemble strKey hash auction slots whitelistMembers

def proveSettleFromRevealedBids (proveCircuit : CircuitInput → Except String VerifierProof)
    (auction : AuctionView) (revealedBids : List RevealedBid) (whitelistMembers : List String) :
    Except String SettleBundle := do
  let (circuitInput, arguments) ← prepareSettle strKey hash auction revealedBids whitelistMembers
  match proveCircuit circuitInput with
  | .ok proof => return { arguments with proof := proof }
  | .error detail => throw s!"In-browser proving failed: {detail}"

end Pipeline

section Selection

theorem higherBid_run {prices : List ℤ} (hnonneg : ∀ p ∈ prices, 0 ≤ p) (hne : prices ≠ []) :
    ∃ w < prices.length, prices.zipIdx.foldl higherBid (-1, -1) = ((w : ℤ), prices.getD w 0) ∧
      (∀ i < prices.length, prices.getD i 0 ≤ prices.getD w 0) ∧
      ∀ i < w, prices.getD i 0 < prices.getD w 0 := by
  induction prices using List.reverseRecOn with
  | nil => exact absurd rfl hne
  | append_singleton prices p ih =>
    have hlast : (prices ++ [p]).getD prices.length 0 = p := by simp
    have hold : ∀ i < prices.length, (prices ++ [p]).getD i 0 = prices.getD i 0 := fun i hi =>
      List.getD_append prices [p] 0 i hi
    have hp := hnonneg p (by simp)
    rw [List.zipIdx_append, List.foldl_append]
    simp only [List.length_append, List.length_singleton, List.zipIdx_singleton, List.foldl_cons,
      List.foldl_nil, Nat.zero_add]
    by_cases hempty : prices = []
    · subst hempty
      refine ⟨0, by simp, by simp [higherBid]; omega, fun i hi => ?_, fun i hi => absurd hi (by omega)⟩
      have hi0 : i = 0 := by simpa using hi
      rw [hi0]
    · obtain ⟨w, hw, hfold, hmax, hlow⟩ :=
        ih (fun q hq => hnonneg q (List.mem_append_left [p] hq)) hempty
      rw [hfold]
      by_cases hgt : p > prices.getD w 0
      · refine ⟨prices.length, by omega, by rw [higherBid, if_pos hgt, hlast], fun i hi => ?_,
          fun i hi => ?_⟩
        · rw [hlast]
          by_cases hi' : i < prices.length
          · rw [hold i hi']
            exact (hmax i hi').trans hgt.le
          · have he : i = prices.length := by omega
            rw [he, hlast]
        · rw [hlast, hold i hi]
          exact lt_of_le_of_lt (hmax i hi) hgt
      · refine ⟨w, by omega, by rw [higherBid, if_neg hgt, hold w hw], fun i hi => ?_,
          fun i hi => ?_⟩
        · rw [hold w hw]
          by_cases hi' : i < prices.length
          · rw [hold i hi']
            exact hmax i hi'
          · have he : i = prices.length := by omega
            rw [he, hlast]
            omega
        · rw [hold w hw, hold i (by omega)]
          exact hlow i hi

theorem otherBid_run (prices : List ℤ) (w : ℕ) :
    0 ≤ prices.zipIdx.foldl (otherBid w) 0 ∧
    (∀ i < prices.length, i ≠ w → prices.getD i 0 ≤ prices.zipIdx.foldl (otherBid w) 0) ∧
    (prices.zipIdx.foldl (otherBid w) 0 = 0 ∨
      ∃ i < prices.length, i ≠ w ∧ prices.zipIdx.foldl (otherBid w) 0 = prices.getD i 0) := by
  induction prices using List.reverseRecOn with
  | nil => exact ⟨le_refl 0, fun i hi => absurd hi (by simp), .inl rfl⟩
  | append_singleton prices p ih =>
    obtain ⟨hpos, hmax, hfrom⟩ := ih
    have hlast : (prices ++ [p]).getD prices.length 0 = p := by simp
    have hold : ∀ i < prices.length, (prices ++ [p]).getD i 0 = prices.getD i 0 := fun i hi =>
      List.getD_append prices [p] 0 i hi
    rw [List.zipIdx_append, List.foldl_append]
    simp only [List.length_append, List.length_singleton, List.zipIdx_singleton, List.foldl_cons,
      List.foldl_nil, Nat.zero_add]
    rw [otherBid]
    split
    · rename_i htake
      obtain ⟨hne, hgt⟩ := htake
      have hother : prices.length ≠ w := fun he => hne (by rw [he])
      refine ⟨hpos.trans hgt.le, fun i hi hiw => ?_,
        .inr ⟨prices.length, by omega, hother, hlast.symm⟩⟩
      by_cases hi' : i < prices.length
      · rw [hold i hi']
        exact (hmax i hi' hiw).trans hgt.le
      · have he : i = prices.length := by omega
        rw [he, hlast]
    · rename_i hkeep
      refine ⟨hpos, fun i hi hiw => ?_, ?_⟩
      · by_cases hi' : i < prices.length
        · rw [hold i hi']
          exact hmax i hi' hiw
        · have he : i = prices.length := by omega
          have hne : ((prices.length : ℕ) : ℤ) ≠ w := by omega
          rw [he, hlast]
          by_contra hgt
          exact hkeep ⟨hne, by omega⟩
      · cases hfrom with
        | inl hzero => exact .inl hzero
        | inr hsome =>
          obtain ⟨i, hi, hiw, he⟩ := hsome
          exact .inr ⟨i, by omega, hiw, by rw [hold i hi]; exact he⟩

theorem otherBid_clearingPrice {n : ℕ} {prices : List ℤ} (hlength : prices.length = n)
    {price : Fin n → ℕ} (hprice : ∀ i : Fin n, prices.getD i 0 = (price i : ℤ)) (w : Fin n) :
    prices.zipIdx.foldl (otherBid w) 0 = (clearingPrice price w : ℕ) := by
  obtain ⟨hpos, hother, hfrom⟩ := otherBid_run prices w
  apply le_antisymm
  · cases hfrom with
    | inl hzero => omega
    | inr hsome =>
      obtain ⟨i, hi, hiw, he⟩ := hsome
      have hle : price ⟨i, by omega⟩ ≤ clearingPrice price w :=
        le_clearingPrice (by simpa [Fin.ext_iff] using hiw)
      have hi' := hprice ⟨i, by omega⟩
      simp only at hi'
      omega
  · by_cases hbot : clearingPrice price w = ⊥
    · rw [hbot]
      exact hpos
    · obtain ⟨i, hi, he⟩ := clearingPrice_attained hbot
      have hle := hother i (by omega) fun hiw => hi (Fin.ext hiw)
      rw [hprice i] at hle
      omega

/-- Both loops compute the second-price outcome, whatever the arrangement of ties and zeros. -/
theorem selectVickreyOutcome_eq {n : ℕ} (hn : 0 < n) {prices : List ℤ} (hlength : prices.length = n)
    {price : Fin n → ℕ} (hprice : ∀ i : Fin n, prices.getD i 0 = (price i : ℤ)) :
    ∃ w : Fin n, IsWinner price w ∧
      selectVickreyOutcome prices = ⟨w, price w, (clearingPrice price w : ℕ)⟩ := by
  have hnonneg : ∀ p ∈ prices, 0 ≤ p := by
    intro p hp
    obtain ⟨i, hi, rfl⟩ := List.mem_iff_getElem.mp hp
    have hi' := hprice ⟨i, by omega⟩
    rw [List.getD_eq_getElem?_getD, List.getElem?_eq_getElem hi, Option.getD_some] at hi'
    omega
  have hne : prices ≠ [] := List.ne_nil_of_length_pos (by omega)
  obtain ⟨v, hv, hfold, hmax, hlow⟩ := higherBid_run hnonneg hne
  have hlt : v < n := by omega
  have hwin : IsWinner price ⟨v, hlt⟩ := by
    constructor
    · intro i
      have hi := hmax i (by omega)
      rw [hprice i, hprice ⟨v, hlt⟩] at hi
      omega
    · intro i hi
      have hi' := hlow i hi
      rw [hprice i, hprice ⟨v, hlt⟩] at hi'
      omega
  refine ⟨⟨v, hlt⟩, hwin, ?_⟩
  rw [selectVickreyOutcome, hfold, otherBid_clearingPrice hlength hprice ⟨v, hlt⟩, hprice ⟨v, hlt⟩]

end Selection
end SealedStellar
