import SealedStellar.Circuit
import SealedStellar.Lib.SecondPrice
import SealedStellar.Lib.MerklePath

/-! What AuctionWinner proves, without signals: the statement below is equivalent to the
existence of a satisfying private assignment. -/
namespace SealedStellar
open Circom SecondPrice MerklePath

/-- The intended meaning of the public vector for winner slot w and an opening of the bids. -/
structure WinnerStatement (poseidon : Poseidon) {bidCount : ℕ} (merkleDepth : ℕ)
    (pub : PublicSignals bidCount) (w : Fin bidCount) (price : Fin bidCount → ℕ)
    (salt : Fin bidCount → Fr) : Prop where
  index : pub.winnerIndex = ((w : ℕ) : Fr)
  range : ∀ i, price i < 2 ^ 64
  empty : ∀ i, pub.commitments i = 0 → price i = 0
  opens : ∀ i, pub.commitments i ≠ 0 →
    poseidon [(price i : Fr), salt i, pub.auctionId] = pub.commitments i
  winner : IsWinner price w
  clearing : pub.winningPrice = ((clearingPrice price w : ℕ) : Fr)
  positive : clearingPrice price w ≠ 0
  member : ∃ path : List (Fr × Bool), path.length = merkleDepth ∧
    climb (fun a b => poseidon [a, b]) pub.winnerAddrHash path = pub.whitelistRoot

section Blocks
variable {poseidon : Poseidon} {bidCount merkleDepth : ℕ} {pub : PublicSignals bidCount}
  {priv : PrivateSignals bidCount merkleDepth}

theorem priceRange_iff : PriceRange priv ↔ ∀ i, (priv.bidPrices i).val < 2 ^ 64 := by
  have h := fun i => num2Bits_iff (n := 64) (priv.bidPrices i) (by norm_num)
  simp only [PriceRange, h]

theorem commitmentBinding_iff : CommitmentBinding poseidon pub priv ↔
    ∀ i, (pub.commitments i = 0 → priv.bidPrices i = 0) ∧
      (pub.commitments i ≠ 0 →
        poseidon [priv.bidPrices i, priv.bidSalts i, pub.auctionId] = pub.commitments i) := by
  simp only [CommitmentBinding, isZero_iff, exists_eq_left]
  refine forall_congr' fun i => ?_
  by_cases h : pub.commitments i = 0
  · simp [h]
  · simp [h, BidCommitment, sub_eq_zero]

theorem slot_cast_inj (hn : bidCount ≤ 16) (i w : Fin bidCount) :
    ((w : ℕ) : Fr) = ((i : ℕ) : Fr) ↔ i = w := by
  have hp : (16 : ℕ) < fieldOrder := by norm_num
  constructor
  · intro h
    exact Fin.ext (natCast_inj (by omega) (by omega) h.symm)
  · intro h
    rw [h]

/-- One hot: the sum constraint excludes an index outside the slots. -/
theorem winnerSelector_iff (hn : bidCount ≤ 16) : WinnerSelector pub priv ↔
    ∃ w : Fin bidCount, pub.winnerIndex = ((w : ℕ) : Fr) ∧
      (∀ i, priv.indicators i = if i = w then 1 else 0) ∧
      (∀ i, priv.selectedPriceTerms i = if i = w then priv.bidPrices i else 0) ∧
      priv.selectedPrice = priv.bidPrices w := by
  constructor
  · intro h
    have hind : ∀ i, priv.indicators i = if pub.winnerIndex = ((i : ℕ) : Fr) then 1 else 0 :=
      fun i => (isEqual_iff _ _ _).mp (h.indexMatch i)
    have hex : ∃ w : Fin bidCount, pub.winnerIndex = ((w : ℕ) : Fr) := by
      by_contra hnone
      have hzero : ∀ i, priv.indicators i = 0 := fun i => by
        rw [hind i, if_neg (fun he => hnone ⟨i, he⟩)]
      have hsum := h.oneHot
      simp only [hzero, Finset.sum_const_zero] at hsum
      exact zero_ne_one hsum
    obtain ⟨w, hw⟩ := hex
    have hone : ∀ i, priv.indicators i = if i = w then 1 else 0 := fun i => by
      rw [hind i, hw]
      simp only [slot_cast_inj hn]
    have hterm : ∀ i, priv.selectedPriceTerms i = if i = w then priv.bidPrices i else 0 :=
      fun i => by rw [h.priceTerm i, hone i, ite_mul, one_mul, zero_mul]
    exact ⟨w, hw, hone, hterm, by simp [h.selected, hterm]⟩
  · rintro ⟨w, hw, hone, hterm, hsel⟩
    refine ⟨fun i => ?_, fun i => ?_, ?_, ?_⟩
    · rw [isEqual_iff, hone i, hw]
      simp only [slot_cast_inj hn]
    · rw [hterm i, hone i, ite_mul, one_mul, zero_mul]
    · simp [hone]
    · simp [hterm, hsel]

theorem keep_iff {a b : ℕ} (ha : a < 2 ^ 64) (hb : b < 2 ^ 64) (x : Fr) :
    (∃ keep, GreaterEqThan 64 (a : Fr) b keep ∧ x = b + keep * (a - b)) ↔
      x = ((max b a : ℕ) : Fr) := by
  simp only [greaterEqThan_iff (p := fieldOrder) (by norm_num) ha hb, exists_eq_left]
  by_cases hle : b ≤ a
  · rw [if_pos hle, max_eq_right hle]
    ring_nf
  · rw [if_neg hle, max_eq_left (by omega)]
    ring_nf

/-- The signals that the second-price block assigns, before its constraints on winningPrice. -/
structure RunningFold (priv : PrivateSignals bidCount merkleDepth) : Prop where
  masked : ∀ i, priv.otherPrices i = priv.bidPrices i * (1 - priv.indicators i)
  first : ∀ h : 0 < bidCount, priv.runningSecondMax ⟨0, h⟩ = priv.otherPrices ⟨0, h⟩
  next : ∀ (i : ℕ) (h : i + 1 < bidCount), ∃ keep,
    GreaterEqThan 64 (priv.runningSecondMax ⟨i, Nat.lt_of_succ_lt h⟩)
      (priv.otherPrices ⟨i + 1, h⟩) keep ∧
    priv.runningSecondMax ⟨i + 1, h⟩ = priv.otherPrices ⟨i + 1, h⟩ +
      keep * (priv.runningSecondMax ⟨i, Nat.lt_of_succ_lt h⟩ - priv.otherPrices ⟨i + 1, h⟩)

theorem secondPriceFold_eq : SecondPriceFold pub priv ↔ RunningFold priv ∧
    (∀ h : 0 < bidCount,
      pub.winningPrice = priv.runningSecondMax ⟨bidCount - 1, Nat.sub_one_lt_of_lt h⟩) ∧
    IsZero pub.winningPrice 0 := by
  constructor
  · intro h
    exact ⟨⟨h.masked, h.first, h.next⟩, h.clearing, h.nonzero⟩
  · rintro ⟨h, hclearing, hnonzero⟩
    exact ⟨h.masked, h.first, h.next, hclearing, hnonzero⟩

/-- Range invariant of the fold: every running value is the maximum so far, below 2^64. -/
theorem fold_running {o : Fin bidCount → ℕ} (ho : ∀ i, o i < 2 ^ 64)
    (hother : ∀ i, priv.otherPrices i = (o i : Fr)) (h : RunningFold priv) :
    ∀ (i : ℕ) (hi : i < bidCount),
      priv.runningSecondMax ⟨i, hi⟩ = ((runningMax o ⟨i, hi⟩ : ℕ) : Fr) := by
  intro i
  induction i with
  | zero =>
    intro hi
    rw [h.first hi, hother, runningMax_zero]
  | succ i ih =>
    intro hi
    have hnext := h.next i hi
    rw [ih (by omega), hother, keep_iff (runningMax_lt ho _) (ho _)] at hnext
    rw [hnext, runningMax_succ]

theorem natCast_eq_zero {m : ℕ} (hm : m < 2 ^ 64) : (m : Fr) = 0 ↔ m = 0 := by
  have hp : 2 ^ 64 < fieldOrder := by norm_num
  constructor
  · intro h
    exact natCast_inj (p := fieldOrder) (by omega) (by omega) (by simpa using h)
  · intro h
    simp [h]

theorem isZero_zero_iff (x : Fr) : IsZero x 0 ↔ x ≠ 0 := by
  rw [isZero_iff]
  by_cases h : x = 0 <;> simp [h]

def maskedPrice (price : Fin bidCount → ℕ) (w i : Fin bidCount) : ℕ := if i = w then ⊥ else price i

theorem maskedPrice_lt {price : Fin bidCount → ℕ} (hprice : ∀ i, price i < 2 ^ 64)
    (w i : Fin bidCount) : maskedPrice price w i < 2 ^ 64 := by
  by_cases hi : i = w
  · simp [maskedPrice, hi]
  · simpa [maskedPrice, hi] using hprice i

theorem runningMax_masked (hn : 0 < bidCount) (price : Fin bidCount → ℕ) (w : Fin bidCount) :
    runningMax (maskedPrice price w) ⟨bidCount - 1, Nat.sub_one_lt_of_lt hn⟩ =
      clearingPrice price w := by
  rw [runningMax_last _ hn, ← sup_masked]
  rfl

theorem runningFold_iff {price : Fin bidCount → ℕ} {w : Fin bidCount}
    (hprice : ∀ i, price i < 2 ^ 64) (hbid : ∀ i, priv.bidPrices i = (price i : Fr))
    (hone : ∀ i, priv.indicators i = if i = w then 1 else 0) :
    RunningFold priv ↔ (∀ i, priv.otherPrices i = (maskedPrice price w i : Fr)) ∧
      ∀ i, priv.runningSecondMax i = ((runningMax (maskedPrice price w) i : ℕ) : Fr) := by
  have ho := maskedPrice_lt hprice w
  have hmask : ∀ i, priv.bidPrices i * (1 - priv.indicators i) = (maskedPrice price w i : Fr) := by
    intro i
    by_cases hi : i = w <;> simp [hone, hbid, maskedPrice, hi]
  constructor
  · intro h
    have hother := fun i => (h.masked i).trans (hmask i)
    exact ⟨hother, fun i => fold_running ho hother h i i.isLt⟩
  · rintro ⟨hother, hrun⟩
    refine ⟨fun i => (hother i).trans (hmask i).symm, fun h0 => ?_, fun i hi => ?_⟩
    · rw [hrun, hother, runningMax_zero]
    · rw [hrun, hrun, hother, keep_iff (runningMax_lt ho _) (ho _), runningMax_succ]

theorem clearingPrice_lt (hn : 0 < bidCount) {price : Fin bidCount → ℕ}
    (hprice : ∀ i, price i < 2 ^ 64) (w : Fin bidCount) : clearingPrice price w < 2 ^ 64 := by
  rw [← runningMax_masked hn price w]
  exact runningMax_lt (maskedPrice_lt hprice w) _

/-- The fold with the winner masked out computes the clearing price. -/
theorem secondPriceFold_iff (hn : 0 < bidCount) {price : Fin bidCount → ℕ} {w : Fin bidCount}
    (hprice : ∀ i, price i < 2 ^ 64) (hbid : ∀ i, priv.bidPrices i = (price i : Fr))
    (hone : ∀ i, priv.indicators i = if i = w then 1 else 0) :
    SecondPriceFold pub priv ↔
      (∀ i, priv.otherPrices i = (maskedPrice price w i : Fr)) ∧
      (∀ i, priv.runningSecondMax i = ((runningMax (maskedPrice price w) i : ℕ) : Fr)) ∧
      pub.winningPrice = ((clearingPrice price w : ℕ) : Fr) ∧ clearingPrice price w ≠ 0 := by
  rw [secondPriceFold_eq, runningFold_iff hprice hbid hone, and_assoc]
  refine and_congr_right fun _ => and_congr_right fun hrun => ?_
  have hlast : priv.runningSecondMax ⟨bidCount - 1, Nat.sub_one_lt_of_lt hn⟩ =
      ((clearingPrice price w : ℕ) : Fr) := by rw [hrun, runningMax_masked hn]
  have hsmall := natCast_eq_zero (clearingPrice_lt hn hprice w)
  constructor
  · rintro ⟨hclear, hnonzero⟩
    have he := (hclear hn).trans hlast
    rw [isZero_zero_iff, he, ne_eq, hsmall] at hnonzero
    exact ⟨he, hnonzero⟩
  · rintro ⟨hclear, hpos⟩
    refine ⟨fun _ => by rw [hclear, hlast], ?_⟩
    rw [isZero_zero_iff, hclear, ne_eq, hsmall]
    exact hpos

theorem maximalityChecks_iff (hn : bidCount ≤ 16) {price : Fin bidCount → ℕ} {w : Fin bidCount}
    (hprice : ∀ i, price i < 2 ^ 64) (hbid : ∀ i, priv.bidPrices i = (price i : Fr))
    (hindex : pub.winnerIndex = ((w : ℕ) : Fr)) (hsel : priv.selectedPrice = priv.bidPrices w) :
    MaximalityChecks pub priv ↔ IsWinner price w := by
  have hge : ∀ i out, GreaterEqThan 64 priv.selectedPrice (priv.bidPrices i) out ↔
      out = if price i ≤ price w then 1 else 0 := fun i out => by
    rw [hsel, hbid, hbid]
    exact greaterEqThan_iff (by norm_num) (hprice w) (hprice i) out
  have hgt : ∀ i out, GreaterThan 64 priv.selectedPrice (priv.bidPrices i) out ↔
      out = if price i < price w then 1 else 0 := fun i out => by
    rw [hsel, hbid, hbid]
    exact greaterThan_iff (by norm_num) (hprice w).le (hprice i) out
  have hlt : ∀ (i : Fin bidCount) out, LessThan 4 ((i : ℕ) : Fr) pub.winnerIndex out ↔
      out = if i < w then 1 else 0 := fun i out => by
    rw [hindex]
    exact lessThan_iff (by norm_num) (by omega) (by omega) out
  constructor
  · intro h
    refine ⟨fun i => ?_, fun i hi => ?_⟩
    · by_contra hle
      have hc := (hge i 1).mp (h.maxCheck i)
      rw [if_neg hle] at hc
      exact one_ne_zero hc
    · by_contra hle
      obtain ⟨strict, before, hstrict, hbefore, hprod⟩ := h.tieBreak i
      rw [(hgt i strict).mp hstrict, (hlt i before).mp hbefore, if_pos hi, if_neg hle] at hprod
      simp at hprod
  · intro h
    refine ⟨fun i => (hge i 1).mpr (by rw [if_pos (h.maximal i)]), fun i => ?_⟩
    refine ⟨_, _, (hgt i _).mpr rfl, (hlt i _).mpr rfl, ?_⟩
    by_cases hi : i < w
    · simp [hi, h.lowest i hi]
    · simp [hi]

/-- Peeling the lowest level off a checker leaves a checker for the parent node. -/
theorem merkleTreeChecker_succ {depth : ℕ} (leaf root : Fr) (elements bits : Fin (depth + 1) → Fr) :
    (∃ nodes lefts rights,
      MerkleTreeChecker poseidon (depth + 1) leaf root elements bits nodes lefts rights) ↔
    bits 0 * (1 - bits 0) = 0 ∧ ∃ nodes lefts rights, MerkleTreeChecker poseidon depth
      (poseidon [leaf + bits 0 * (elements 0 - leaf), elements 0 + bits 0 * (leaf - elements 0)])
      root (Fin.tail elements) (Fin.tail bits) nodes lefts rights := by
  constructor
  · rintro ⟨nodes, lefts, rights, h⟩
    have hparent := h.nextNode 0
    rw [h.leftInput 0, h.rightInput 0, Fin.castSucc_zero, h.leafNode] at hparent
    exact ⟨h.isBit 0, Fin.tail nodes, Fin.tail lefts, Fin.tail rights, hparent,
      fun i => h.isBit i.succ, fun i => h.leftInput i.succ, fun i => h.rightInput i.succ,
      fun i => h.nextNode i.succ, h.rootNode⟩
  · rintro ⟨hbit, nodes, lefts, rights, h⟩
    refine ⟨Fin.cons leaf nodes, Fin.cons (leaf + bits 0 * (elements 0 - leaf)) lefts,
      Fin.cons (elements 0 + bits 0 * (leaf - elements 0)) rights, rfl, ?_, ?_, ?_, ?_, h.rootNode⟩
    · exact Fin.cases hbit h.isBit
    · exact Fin.cases rfl h.leftInput
    · exact Fin.cases rfl h.rightInput
    · exact Fin.cases h.leafNode h.nextNode

theorem merkleTreeChecker_iff {depth : ℕ} (leaf root : Fr) (elements bits : Fin depth → Fr) :
    (∃ nodes lefts rights,
      MerkleTreeChecker poseidon depth leaf root elements bits nodes lefts rights) ↔
    (∀ i, bits i = 0 ∨ bits i = 1) ∧
      climb (fun a b => poseidon [a, b]) leaf
        (List.ofFn fun i => (elements i, decide (bits i = 1))) = root := by
  induction depth generalizing leaf with
  | zero =>
    constructor
    · rintro ⟨nodes, lefts, rights, h⟩
      exact ⟨fun i => i.elim0, h.leafNode.symm.trans h.rootNode.symm⟩
    · rintro ⟨-, h⟩
      exact ⟨fun _ => leaf, Fin.elim0, Fin.elim0, rfl, fun i => i.elim0, fun i => i.elim0,
        fun i => i.elim0, fun i => i.elim0, h.symm⟩
  | succ depth ih =>
    have hbit : bits 0 * (1 - bits 0) = 0 ↔ bits 0 = 0 ∨ bits 0 = 1 := by
      rw [mul_eq_zero, sub_eq_zero, eq_comm (a := (1 : Fr))]
    rw [merkleTreeChecker_succ, ih, hbit, Fin.forall_fin_succ, List.ofFn_succ, and_assoc]
    refine and_congr_right fun h0 => and_congr_right fun _ => ?_
    rcases h0 with h0 | h0 <;> simp [climb, h0] <;> rfl

theorem membership_exists (leaf root : Fr) {depth : ℕ} (path : List (Fr × Bool))
    (hlen : path.length = depth) (h : climb (fun a b => poseidon [a, b]) leaf path = root) :
    ∃ elements bits : Fin depth → Fr, ∃ nodes lefts rights,
      MerkleTreeChecker poseidon depth leaf root elements bits nodes lefts rights := by
  subst hlen
  refine ⟨fun i => path[i].1, fun i => if path[i].2 then 1 else 0,
    (merkleTreeChecker_iff _ _ _ _).mpr ⟨fun i => ?_, ?_⟩⟩
  · cases path[i].2 <;> simp
  · have hpath : (List.ofFn fun i : Fin path.length =>
        (path[i].1, decide ((if path[i].2 then (1 : Fr) else 0) = 1))) = path := by
      have hcopy : List.ofFn (fun i : Fin path.length => path[i]) = path := List.ofFn_getElem
      refine Eq.trans ?_ hcopy
      congr 1
      funext i
      refine Prod.ext rfl ?_
      cases path[i].2 <;> simp
    rw [hpath, h]

end Blocks

section Exactness
variable {poseidon : Poseidon} {bidCount merkleDepth : ℕ} {pub : PublicSignals bidCount}

/-- Soundness: every satisfying assignment opens the bids and names their true outcome. -/
theorem auctionWinner_sound (hn : 0 < bidCount) (hn' : bidCount ≤ 16)
    {priv : PrivateSignals bidCount merkleDepth} (h : AuctionWinner poseidon pub priv) :
    ∃ w, WinnerStatement poseidon merkleDepth pub w (fun i => (priv.bidPrices i).val)
      priv.bidSalts := by
  have hprice := priceRange_iff.mp h.priceRange
  have hcast : ∀ i, (((priv.bidPrices i).val : ℕ) : Fr) = priv.bidPrices i :=
    fun i => ZMod.natCast_zmod_val _
  have hbid := fun i => (hcast i).symm
  have hbind := commitmentBinding_iff.mp h.binding
  obtain ⟨w, hindex, hone, -, hsel⟩ := (winnerSelector_iff hn').mp h.selector
  obtain ⟨-, -, hclear, hpos⟩ := (secondPriceFold_iff hn hprice hbid hone).mp h.fold
  have hwin := (maximalityChecks_iff hn' hprice hbid hindex hsel).mp h.maximality
  obtain ⟨-, hclimb⟩ := (merkleTreeChecker_iff _ _ _ _).mp h.membership
  refine ⟨w, hindex, hprice, fun i hi => ?_, fun i hi => ?_, hwin, hclear, hpos, _,
    List.length_ofFn, hclimb⟩
  · rw [(hbind i).1 hi, ZMod.val_zero]
  · rw [hcast]
    exact (hbind i).2 hi

def honestSignals (w : Fin bidCount) (price : Fin bidCount → ℕ)
    (salt : Fin bidCount → Fr) (elements bits : Fin merkleDepth → Fr) :
    PrivateSignals bidCount merkleDepth where
  bidPrices i := (price i : Fr)
  bidSalts := salt
  merklePathElements := elements
  merklePathIndexBits := bits
  indicators i := if i = w then 1 else 0
  selectedPriceTerms i := if i = w then (price i : Fr) else 0
  selectedPrice := (price w : Fr)
  otherPrices i := (maskedPrice price w i : Fr)
  runningSecondMax i := ((runningMax (maskedPrice price w) i : ℕ) : Fr)

/-- Completeness: the honest witness satisfies the circuit for every valid path. -/
theorem honestSignals_satisfy (hn : 0 < bidCount) (hn' : bidCount ≤ 16) {w : Fin bidCount}
    {price : Fin bidCount → ℕ} {salt : Fin bidCount → Fr} {elements bits : Fin merkleDepth → Fr}
    (h : WinnerStatement poseidon merkleDepth pub w price salt)
    (hpath : ∃ nodes lefts rights, MerkleTreeChecker poseidon merkleDepth pub.winnerAddrHash
      pub.whitelistRoot elements bits nodes lefts rights) :
    AuctionWinner poseidon pub (honestSignals w price salt elements bits) := by
  have hp : 2 ^ 64 < fieldOrder := by norm_num
  refine ⟨priceRange_iff.mpr fun i => ?_, commitmentBinding_iff.mpr fun i => ⟨fun hi => ?_, ?_⟩,
    (winnerSelector_iff hn').mpr ⟨w, h.index, fun _ => rfl, fun _ => rfl, rfl⟩,
    (secondPriceFold_iff hn h.range (fun _ => rfl) fun _ => rfl).mpr
      ⟨fun _ => rfl, fun _ => rfl, h.clearing, h.positive⟩,
    (maximalityChecks_iff hn' h.range (fun _ => rfl) h.index rfl).mpr h.winner, hpath⟩
  · have hr := h.range i
    simpa [honestSignals, ZMod.val_cast_of_lt (lt_trans hr hp)] using hr
  · simp [honestSignals, h.empty i hi]
  · exact h.opens i

theorem auctionWinner_iff (hn : 0 < bidCount) (hn' : bidCount ≤ 16) :
    (∃ priv : PrivateSignals bidCount merkleDepth, AuctionWinner poseidon pub priv) ↔
      ∃ w price salt, WinnerStatement poseidon merkleDepth pub w price salt := by
  constructor
  · rintro ⟨priv, h⟩
    obtain ⟨w, hw⟩ := auctionWinner_sound hn hn' h
    exact ⟨w, _, _, hw⟩
  · rintro ⟨w, price, salt, h⟩
    obtain ⟨path, hlen, hclimb⟩ := h.member
    obtain ⟨elements, bits, hpath⟩ := membership_exists _ _ path hlen hclimb
    exact ⟨_, honestSignals_satisfy hn hn' h hpath⟩

end Exactness

/-- Exactness of the deployed circuit over all 13 public signals. -/
theorem satisfiable_iff_winnerStatement (poseidon : Poseidon) (pub : PublicSignals 8) :
    Satisfiable poseidon pub ↔ ∃ (w : Fin 8) (price : Fin 8 → ℕ) (salt : Fin 8 → Fr),
      WinnerStatement poseidon 10 pub w price salt :=
  auctionWinner_iff (by omega) (by omega)

end SealedStellar
