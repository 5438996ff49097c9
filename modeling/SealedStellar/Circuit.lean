import SealedStellar.ScalarField
import SealedStellar.Lib.Circom

/-! circuits/auction_winner.circom and its libraries as constraint systems. Blocks 1 to 6
follow the numbered comments of the template; a component's output that is used once is bound
where it is used. -/
namespace SealedStellar
open Circom

/-- Poseidon of any width; the circuit, the host and circomlibjs share one function. -/
abbrev Poseidon := List Fr → Fr

structure PublicSignals (bidCount : ℕ) where
  auctionId : Fr
  commitments : Fin bidCount → Fr
  winnerIndex : Fr
  winningPrice : Fr
  whitelistRoot : Fr
  winnerAddrHash : Fr

def PublicSignals.toList {bidCount : ℕ} (pub : PublicSignals bidCount) : List Fr :=
  pub.auctionId :: (List.ofFn pub.commitments ++
    [pub.winnerIndex, pub.winningPrice, pub.whitelistRoot, pub.winnerAddrHash])

structure PrivateSignals (bidCount merkleDepth : ℕ) where
  bidPrices : Fin bidCount → Fr
  bidSalts : Fin bidCount → Fr
  merklePathElements : Fin merkleDepth → Fr
  merklePathIndexBits : Fin merkleDepth → Fr
  indicators : Fin bidCount → Fr
  selectedPriceTerms : Fin bidCount → Fr
  selectedPrice : Fr
  otherPrices : Fin bidCount → Fr
  runningSecondMax : Fin bidCount → Fr

/-- circuits/lib/commitment.circom -/
def BidCommitment (poseidon : Poseidon) (bidPrice bidSalt auctionId : Fr) : Fr :=
  poseidon [bidPrice, bidSalt, auctionId]

/-- circuits/lib/merkle.circom -/
structure MerkleTreeChecker (poseidon : Poseidon) (depth : ℕ) (leaf root : Fr)
    (pathElements pathIndexBits : Fin depth → Fr) (levelNodes : Fin (depth + 1) → Fr)
    (leftInputs rightInputs : Fin depth → Fr) : Prop where
  leafNode : levelNodes 0 = leaf
  isBit : ∀ i, pathIndexBits i * (1 - pathIndexBits i) = 0
  leftInput : ∀ i, leftInputs i = levelNodes i.castSucc +
    pathIndexBits i * (pathElements i - levelNodes i.castSucc)
  rightInput : ∀ i, rightInputs i = pathElements i +
    pathIndexBits i * (levelNodes i.castSucc - pathElements i)
  nextNode : ∀ i, levelNodes i.succ = poseidon [leftInputs i, rightInputs i]
  rootNode : root = levelNodes (Fin.last depth)

section Template
variable (poseidon : Poseidon) {bidCount merkleDepth : ℕ} (pub : PublicSignals bidCount)
  (priv : PrivateSignals bidCount merkleDepth)

def PriceRange : Prop := ∀ i, ∃ bits, Num2Bits 64 (priv.bidPrices i) bits

/-- The zero marker frees a slot from the hash equality and forces its price to 0. -/
def CommitmentBinding : Prop :=
  ∀ i, ∃ isEmpty, IsZero (pub.commitments i) isEmpty ∧
    (1 - isEmpty) * (BidCommitment poseidon (priv.bidPrices i) (priv.bidSalts i) pub.auctionId
      - pub.commitments i) = 0 ∧
    isEmpty * priv.bidPrices i = 0

structure WinnerSelector : Prop where
  indexMatch : ∀ i : Fin bidCount, IsEqual pub.winnerIndex ((i : ℕ) : Fr) (priv.indicators i)
  priceTerm : ∀ i, priv.selectedPriceTerms i = priv.indicators i * priv.bidPrices i
  oneHot : ∑ i, priv.indicators i = 1
  selected : priv.selectedPrice = ∑ i, priv.selectedPriceTerms i

/-- Out == 1 keeps the running value, out == 0 takes the new price. -/
structure SecondPriceFold : Prop where
  masked : ∀ i, priv.otherPrices i = priv.bidPrices i * (1 - priv.indicators i)
  first : ∀ h : 0 < bidCount, priv.runningSecondMax ⟨0, h⟩ = priv.otherPrices ⟨0, h⟩
  next : ∀ (i : ℕ) (h : i + 1 < bidCount), ∃ keep,
    GreaterEqThan 64 (priv.runningSecondMax ⟨i, Nat.lt_of_succ_lt h⟩)
      (priv.otherPrices ⟨i + 1, h⟩) keep ∧
    priv.runningSecondMax ⟨i + 1, h⟩ = priv.otherPrices ⟨i + 1, h⟩ +
      keep * (priv.runningSecondMax ⟨i, Nat.lt_of_succ_lt h⟩ - priv.otherPrices ⟨i + 1, h⟩)
  clearing : ∀ h : 0 < bidCount,
    pub.winningPrice = priv.runningSecondMax ⟨bidCount - 1, Nat.sub_one_lt_of_lt h⟩
  nonzero : IsZero pub.winningPrice 0

structure MaximalityChecks : Prop where
  maxCheck : ∀ i, GreaterEqThan 64 priv.selectedPrice (priv.bidPrices i) 1
  tieBreak : ∀ i : Fin bidCount, ∃ strict beforeWinner,
    GreaterThan 64 priv.selectedPrice (priv.bidPrices i) strict ∧
    LessThan 4 ((i : ℕ) : Fr) pub.winnerIndex beforeWinner ∧
    beforeWinner * (1 - strict) = 0

def Membership : Prop :=
  ∃ levelNodes leftInputs rightInputs,
    MerkleTreeChecker poseidon merkleDepth pub.winnerAddrHash pub.whitelistRoot
      priv.merklePathElements priv.merklePathIndexBits levelNodes leftInputs rightInputs

structure AuctionWinner : Prop where
  priceRange : PriceRange priv
  binding : CommitmentBinding poseidon pub priv
  selector : WinnerSelector pub priv
  fold : SecondPriceFold pub priv
  maximality : MaximalityChecks pub priv
  membership : Membership poseidon pub priv

end Template

/-- `component main = AuctionWinner(8, 10)` has a satisfying private assignment. -/
def Satisfiable (poseidon : Poseidon) (pub : PublicSignals 8) : Prop :=
  ∃ priv : PrivateSignals 8 10, AuctionWinner poseidon pub priv

theorem PublicSignals.toList_injective {bidCount : ℕ} {u v : PublicSignals bidCount}
    (h : u.toList = v.toList) : u = v := by
  obtain ⟨ua, uc, uw, up, ur, uh⟩ := u
  obtain ⟨va, vc, vw, vp, vr, vh⟩ := v
  simp only [PublicSignals.toList, List.cons.injEq] at h
  obtain ⟨ha, ht⟩ := h
  obtain ⟨hc, hr⟩ := List.append_inj ht (by simp)
  simp only [List.cons.injEq, and_true] at hr
  obtain ⟨hw, hp, hroot, hhash⟩ := hr
  rw [ha, List.ofFn_injective hc, hw, hp, hroot, hhash]

end SealedStellar
