import SealedStellar.Lifecycle
import SealedStellar.Sac

/-! Stored commitments as the circuit reads them: residues modulo r. -/
namespace SealedStellar
open Checked
variable {W : Type} {h : Host W}

/-- No stored bid sits on the empty-slot marker or on another bid's residue. -/
def ResiduesDistinct (s : State W) : Prop :=
  ∀ k, (∀ bid ∈ storedBids s k, toFr bid.commitment ≠ 0) ∧
    ((storedBids s k).map fun bid => toFr bid.commitment).Nodup

/-- The commitment is no positive multiple of r, and no stored commitment of the auction
differs from it by one. -/
def NoAlias (s : State W) : Action W → Prop
  | .call _ (.placeBid k _ commitment _) =>
    (fieldOrder ∣ commitment.toNat → commitment = 0) ∧
      ∀ bid ∈ storedBids s k,
        bid.commitment.toNat ≡ commitment.toNat [MOD fieldOrder] → bid.commitment = commitment
  | _ => True

theorem toFr_eq_zero {u : U256} : toFr u = 0 ↔ fieldOrder ∣ u.toNat :=
  ZMod.natCast_eq_zero_iff ..

theorem toFr_eq_toFr {u v : U256} : toFr u = toFr v ↔ u.toNat ≡ v.toNat [MOD fieldOrder] :=
  ZMod.natCast_eq_natCast_iff ..

/-- Distinct residues cannot share an opening. -/
theorem no_shared_opening {s : State W} (hr : ResiduesDistinct s) (poseidon : Poseidon) (k : ℕ) :
    (storedBids s k).Pairwise fun b b' => ∀ price salt : Fr,
      poseidon [price, salt, (k : Fr)] = toFr b.commitment →
        poseidon [price, salt, (k : Fr)] ≠ toFr b'.commitment := by
  have hpair := List.pairwise_map.mp (hr k).2
  exact hpair.imp fun hne price salt ho ho' => hne (ho.symm.trans ho')

theorem residues_append {bids : List Bid} {bid : Bid}
    (hb : (∀ b ∈ bids, toFr b.commitment ≠ 0) ∧ (bids.map fun b => toFr b.commitment).Nodup) :
    ((∀ b ∈ bids ++ [bid], toFr b.commitment ≠ 0) ∧
      ((bids ++ [bid]).map fun b => toFr b.commitment).Nodup) ↔
    toFr bid.commitment ≠ 0 ∧ ∀ b ∈ bids, toFr b.commitment ≠ toFr bid.commitment := by
  rw [List.map_append, List.nodup_append]
  simp only [List.map_cons, List.map_nil, List.nodup_singleton, List.mem_map, List.mem_singleton,
    List.mem_append]
  constructor
  · rintro ⟨hne, _, _, hd⟩
    exact ⟨hne bid (.inr rfl), fun b hm => hd _ ⟨b, hm, rfl⟩ _ rfl⟩
  · rintro ⟨hzero, hfresh⟩
    refine ⟨fun b hm => ?_, hb.2, trivial, ?_⟩
    · cases hm with
      | inl hm => exact hb.1 b hm
      | inr hm => exact hm ▸ hzero
    · intro x ⟨b, hm, hx⟩ y hy
      rw [← hx, hy]
      exact hfresh b hm

theorem noAlias_iff {s : State W} {signers : List Address} {k : ℕ} {bidder : Address}
    {commitment : U256} {encryptedBid : List UInt8} (hne : commitment ≠ 0)
    (hfresh : ∀ b ∈ storedBids s k, b.commitment ≠ commitment) :
    NoAlias s (.call signers (.placeBid k bidder commitment encryptedBid)) ↔
      toFr commitment ≠ 0 ∧ ∀ b ∈ storedBids s k, toFr b.commitment ≠ toFr commitment := by
  constructor
  · rintro ⟨hzero, halias⟩
    refine ⟨fun hc => hne (hzero (toFr_eq_zero.mp hc)), fun b hb he => ?_⟩
    exact hfresh b hb (halias b hb (toFr_eq_toFr.mp he))
  · rintro ⟨hzero, hdistinct⟩
    refine ⟨fun hd => absurd (toFr_eq_zero.mpr hd) hzero, fun b hb hm => ?_⟩
    exact absurd (toFr_eq_toFr.mpr hm) (hdistinct b hb)

/-- An accepted bid keeps the residues of its auction distinct exactly when it has no alias. -/
theorem placeBid_residues {s s' : State W} {signers : List Address} {k : ℕ} {bidder : Address}
    {commitment : U256} {encryptedBid : List UInt8} (hr : ResiduesDistinct s)
    (he : exec h signers (.placeBid k bidder commitment encryptedBid) s = .ok s') :
    ((∀ bid ∈ storedBids s' k, toFr bid.commitment ≠ 0) ∧
      ((storedBids s' k).map fun bid => toFr bid.commitment).Nodup) ↔
    NoAlias s (.call signers (.placeBid k bidder commitment encryptedBid)) := by
  obtain ⟨-, auction, ha, -, -, -, hne, hfresh, -⟩ :=
    (placeBid_eq_ok h signers k bidder commitment encryptedBid s s').mp he
  obtain ⟨auction', ha', hp⟩ := placeBid_progress he
  rw [ha] at ha'
  cases ha'
  have hold := storedBids_some ha
  have hnew : storedBids s' k = storedBids s k ++ [⟨bidder, commitment⟩] := by
    have hat : storedBids s' k = (addBid auction ⟨bidder, commitment⟩).bids :=
      storedBids_some hp.auction_at
    rw [hat, hold]
    rfl
  rw [← hold] at hfresh
  rw [hnew, residues_append (hr k), noAlias_iff hne hfresh]

theorem residues_step (s : State W) (a : Action W) (hP : s.Valid ∧ ResiduesDistinct s)
    (ha : NoAlias s a) : (step h s a).Valid ∧ ResiduesDistinct (step h s a) := by
  refine ⟨step_valid s a hP.1, fun k => ?_⟩
  obtain hsame | ⟨signers, bidder, commitment, encryptedBid, auction, rfl, he, -⟩ :=
    step_bids (h := h) k a hP.1
  · rw [hsame]
    exact hP.2 k
  · exact (placeBid_residues hP.2 he).mpr ha

/-- The invariant of every run without aliases, and that an alias breaks it at once. -/
theorem residues_distinct_run (h : Host W) (g : Genesis W) (actions : List (Action W))
    (hok : Runs.Along (step h) NoAlias (g.state h) actions) :
    ResiduesDistinct (runFrom h g actions) ∧
    (∀ k, (storedBids (runFrom h g actions) k).Pairwise fun b b' => ∀ price salt : Fr,
      h.poseidon [price, salt, (k : Fr)] = toFr b.commitment →
        h.poseidon [price, salt, (k : Fr)] ≠ toFr b'.commitment) ∧
    ∀ signers k bidder commitment encryptedBid s',
      exec h signers (.placeBid k bidder commitment encryptedBid) (runFrom h g actions) = .ok s' →
      (ResiduesDistinct s' ↔ NoAlias (runFrom h g actions)
        (.call signers (.placeBid k bidder commitment encryptedBid))) := by
  have hgenesis : ResiduesDistinct (g.state h) := fun k => ⟨List.forall_mem_nil _, List.nodup_nil⟩
  have hP := Runs.run_invariant residues_step ⟨genesis_valid g, hgenesis⟩ hok
  refine ⟨hP.2, no_shared_opening hP.2 h.poseidon, ?_⟩
  intro signers k bidder commitment encryptedBid s' he
  constructor
  · intro hr
    exact (placeBid_residues hP.2 he).mp (hr k)
  · intro hno
    have hstep := residues_step (h := h) (runFrom h g actions) _ hP hno
    rw [step_call_ok he] at hstep
    exact hstep.2

/-- A run with the bids 4 and 6, which are no aliases of anything. -/
theorem residues_distinct_run_witness :
    let h := sacHost (.contract (keyOf 0)) (fun _ _ _ => none) firstInput
    let g : Genesis SacState := ⟨.contract (keyOf 1), evenTokens 100, 0, 1⟩
    let args : CreateArgs := ⟨.account (keyOf 2), .contract (keyOf 10), 7, .contract (keyOf 11), 5,
      10, 3, 0, keyOf 9⟩
    let first : Address := .account (keyOf 3)
    let second : Address := .account (keyOf 4)
    let actions : List (Action SacState) := [.call [.account (keyOf 2)] (.createAuction args),
      .call [first] (.placeBid 1 first 4 []), .call [second] (.placeBid 1 second 6 [])]
    storedBids (runFrom h g actions) 1 = [⟨first, 4⟩, ⟨second, 6⟩] ∧
      ResiduesDistinct (runFrom h g actions) := by
  intro h g args first second actions
  have hok : Runs.Along (step h) NoAlias (g.state h) actions :=
    ⟨trivial, ⟨by decide, by decide⟩, ⟨by decide, by decide⟩, trivial⟩
  exact ⟨by decide, (residues_distinct_run h g actions hok).1⟩

/-- The contract takes r for a commitment, and 4 together with r + 4. -/
theorem residues_collide :
    let h := sacHost (.contract (keyOf 0)) (fun _ _ _ => none) firstInput
    let g : Genesis SacState := ⟨.contract (keyOf 1), evenTokens 100, 0, 1⟩
    let args : CreateArgs := ⟨.account (keyOf 2), .contract (keyOf 10), 7, .contract (keyOf 11), 5,
      10, 3, 0, keyOf 9⟩
    let bidder : Address := .account (keyOf 3)
    let actions : List (Action SacState) := [.call [.account (keyOf 2)] (.createAuction args),
      .call [bidder] (.placeBid 1 bidder (BitVec.ofNat 256 fieldOrder) []),
      .call [bidder] (.placeBid 1 bidder 4 []),
      .call [bidder] (.placeBid 1 bidder (BitVec.ofNat 256 (fieldOrder + 4)) [])]
    ((storedBids (runFrom h g actions) 1).map fun bid => toFr bid.commitment) = [0, 4, 4] ∧
      ¬ResiduesDistinct (runFrom h g actions) := by
  intro h g args bidder actions
  have hres : ((storedBids (runFrom h g actions) 1).map fun bid => toFr bid.commitment) =
    [0, 4, 4] := by decide
  refine ⟨hres, fun hr => ?_⟩
  have hnodup := (hr 1).2
  rw [hres] at hnodup
  exact absurd hnodup (by decide)

end SealedStellar
