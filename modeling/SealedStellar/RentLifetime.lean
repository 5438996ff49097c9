import SealedStellar.Sac
import SealedStellar.Lifecycle

/-! The rent an auction is created with: how far it reaches, and that nothing renews it. -/
namespace SealedStellar
open Checked
variable {W : Type} {h : Host W} {k : ℕ}

def rentSeconds : ℕ := maxTtlExtensionLedgers * secondsPerLedger

theorem lifetimeLedgers_eq (now commitDeadline gracePeriod : ℕ) :
    lifetimeLedgers now commitDeadline gracePeriod =
      min (min (commitDeadline - now + gracePeriod) u64Max / secondsPerLedger + ledgersPerDay)
        maxTtlExtensionLedgers := by
  simp only [lifetimeLedgers]
  split
  · rename_i hclamp
    simp only [saturatingAdd, u64Max, secondsPerLedger, ledgersPerDay,
      maxTtlExtensionLedgers] at hclamp ⊢
    omega
  · rename_i hclamp
    simp only [saturatingAdd, u64Max, secondsPerLedger, ledgersPerDay,
      maxTtlExtensionLedgers] at hclamp ⊢
    omega

theorem lifetime_covers_iff (now commitDeadline gracePeriod : ℕ) :
    commitDeadline - now + gracePeriod ≤
        lifetimeLedgers now commitDeadline gracePeriod * secondsPerLedger ↔
      commitDeadline - now + gracePeriod ≤ rentSeconds := by
  rw [lifetimeLedgers_eq]
  simp only [rentSeconds, u64Max, secondsPerLedger, ledgersPerDay, maxTtlExtensionLedgers]
  omega

section Rent

theorem extendTtl_ge (sequence liveUntil threshold extendTo : ℕ) :
    liveUntil ≤ h.extendTtl sequence liveUntil threshold extendTo := by
  simp only [Host.extendTtl]
  split
  · rename_i hc
    exact le_of_lt hc.1
  · exact le_refl liveUntil

theorem extendTtl_reaches {ledgers : ℕ} (hcap : ledgers < h.maxEntryTtl)
    (sequence liveUntil : ℕ) :
    sequence + ledgers ≤ h.extendTtl sequence liveUntil ledgers ledgers := by
  simp only [Host.extendTtl]
  split <;> omega

theorem setAuction_liveUntil {s : State W} {auction : Auction} (new : Auction)
    (ha : s.auctions k = some auction) :
    (s.setAuction h k new).auctionLiveUntil = s.auctionLiveUntil := by
  simp only [State.setAuction, ha, Option.isSome_some, if_true]

theorem lotLeg_rent (auction : Auction) {s : State W} {stored : Auction}
    (ha : s.auctions k = some stored) :
    (lotLeg h auction k s).auctionLiveUntil = s.auctionLiveUntil ∧
      (lotLeg h auction k s).instanceLiveUntil = s.instanceLiveUntil := by
  rw [lotLeg]
  cases h.transfer s.tokens (lotTo h auction auction.seller) with
  | returned w => exact ⟨setAuction_liveUntil _ ha, rfl⟩
  | undecodable w => exact ⟨rfl, rfl⟩
  | trapped => exact ⟨rfl, rfl⟩

/-- A call leaves the rent of every existing auction as it is and never shortens that of the
instance. -/
theorem exec_rent {signers : List Address} {c : Call} {s s' : State W} {auction : Auction}
    (hs : s.Valid) (he : exec h signers c s = .ok s') (ha : s.auctions k = some auction) :
    s'.auctionLiveUntil k = s.auctionLiveUntil k ∧ s.instanceLiveUntil ≤ s'.instanceLiveUntil := by
  cases c with
  | createAuction args =>
    obtain ⟨-, -, -, -, -, -, -, s₁, ht, rfl, -⟩ :=
      (createAuction_eq_ok h signers args s s' _).mp (exec_createAuction.mp he)
    obtain ⟨w, acts, -, rfl⟩ := transfer_paid ht
    have hk : k ≠ s.nextAuctionId.getD 1 := by
      intro heq
      rw [heq, hs.fresh] at ha
      cases ha
    constructor
    · simp [State.publish, extendLifetime, State.extendInstanceTtl, State.extendAuctionTtl,
        State.setAuction, hs.fresh, Function.update_of_ne hk]
    · simp only [State.publish, extendLifetime, State.extendInstanceTtl, State.extendAuctionTtl,
        State.setAuction]
      exact extendTtl_ge ..
  | placeBid auctionId bidder commitment encryptedBid =>
    obtain ⟨-, old, ho, -, -, -, -, -, -, s₁, ht, rfl⟩ :=
      (placeBid_eq_ok h signers auctionId bidder commitment encryptedBid s s').mp he
    obtain ⟨w, acts, -, rfl⟩ := transfer_paid ht
    exact ⟨congrFun (setAuction_liveUntil (h := h) (addBid old ⟨bidder, commitment⟩) ho) k, le_refl _⟩
  | settle auctionId i price winner proof =>
    obtain ⟨old, ho, -, -, -, -, -, bid, -, -, verifier, -, -, s₁, ht, rfl⟩ :=
      (settle_eq_ok h auctionId i price winner proof s s').mp he
    obtain ⟨w, acts, -, rfl⟩ := payAll_paid ht
    exact ⟨congrFun (setAuction_liveUntil (h := h) (closed old .Settled) ho) k, le_refl _⟩
  | refundAll auctionId =>
    obtain ⟨old, ho, -, -, s₁, ht, rfl⟩ := (refundAll_eq_ok h auctionId s s').mp he
    obtain ⟨w, acts, -, hpaid⟩ := payAll_paid ht
    have hstored : s₁.auctions auctionId = some (closed old .Refunded) := by
      rw [hpaid]
      exact Function.update_self ..
    have hkept : s₁.auctionLiveUntil = s.auctionLiveUntil ∧
        s₁.instanceLiveUntil = s.instanceLiveUntil := by
      rw [hpaid]
      exact ⟨setAuction_liveUntil (closed old .Refunded) ho, rfl⟩
    have hleg := lotLeg_rent (h := h) (closed old .Refunded) hstored
    rw [hkept.1, hkept.2] at hleg
    exact ⟨congrFun hleg.1 k, le_of_eq hleg.2.symm⟩
  | reclaimLot auctionId =>
    obtain ⟨old, ho, -, -, s₁, ht, rfl⟩ := (reclaimLot_eq_ok h auctionId s s').mp he
    obtain ⟨w, acts, -, rfl⟩ := transfer_paid ht
    exact ⟨congrFun (setAuction_liveUntil (h := h) (lotBack old) ho) k, le_refl _⟩

structure Rented (k n m : ℕ) (s : State W) : Prop where
  valid : s.Valid
  stored : ∃ auction, s.auctions k = some auction
  entry : s.auctionLiveUntil k = n
  inst : m ≤ s.instanceLiveUntil

theorem rented_step {n m : ℕ} (s : State W) (a : Action W) (hr : Rented k n m s) :
    Rented k n m (step h s a) := by
  obtain ⟨auction, ha⟩ := hr.stored
  obtain ⟨next, hnext, -, -⟩ := step_terms (h := h) k a hr.valid ha
  have hrent : (step h s a).auctionLiveUntil k = s.auctionLiveUntil k ∧
      s.instanceLiveUntil ≤ (step h s a).instanceLiveUntil := by
    cases a with
    | call signers c =>
      cases he : exec h signers c s with
      | error e =>
        rw [step_call_error he]
        exact ⟨rfl, le_refl _⟩
      | ok s' =>
        rw [step_call_ok he]
        exact exec_rent hr.valid he ha
    | closeLedger timestamp sequence =>
      rw [step]
      split
      · exact ⟨rfl, le_refl _⟩
      · exact ⟨rfl, le_refl _⟩
    | outside tokens => exact ⟨rfl, le_refl _⟩
  exact { valid := step_valid s a hr.valid
          stored := ⟨next, hnext⟩
          entry := hrent.1.trans hr.entry
          inst := hr.inst.trans hrent.2 }

end Rent

/-- What the rent of create_auction is for: it covers the window and the grace period, and until
the refund unlocks, ledgers closing at the target pace find the entry and the instance live. -/
structure Outlives (h : Host W) (created s' : State W) (args : CreateArgs) (k : ℕ) : Prop where
  lifetime : args.commitDeadline - created.timestamp + args.gracePeriod ≤
    lifetimeLedgers created.timestamp args.commitDeadline args.gracePeriod * secondsPerLedger
  live : ∀ after, (Runs.run (step h) s' after).timestamp ≤
      saturatingAdd args.commitDeadline args.gracePeriod →
    ((Runs.run (step h) s' after).sequence - created.sequence) * secondsPerLedger ≤
      (Runs.run (step h) s' after).timestamp - created.timestamp →
    (Runs.run (step h) s' after).sequence ≤ (Runs.run (step h) s' after).auctionLiveUntil k ∧
      (Runs.run (step h) s' after).sequence ≤ (Runs.run (step h) s' after).instanceLiveUntil

theorem createAuction_rented (network : maxTtlExtensionLedgers < h.maxEntryTtl) {s s' : State W}
    (hs : s.Valid) {signers : List Address} {args : CreateArgs}
    (he : createAuction h signers args s = .ok (s', k)) :
    ∃ n, s.sequence + lifetimeLedgers s.timestamp args.commitDeadline args.gracePeriod ≤ n ∧
      Rented k n (s.sequence + lifetimeLedgers s.timestamp args.commitDeadline args.gracePeriod)
        s' := by
  obtain ⟨-, -, -, -, -, -, -, s₁, ht, hs', hk⟩ := (createAuction_eq_ok h signers args s s' k).mp he
  subst hk
  obtain ⟨w, acts, -, hpaid⟩ := transfer_paid ht
  have hclock : s₁.timestamp = s.timestamp ∧ s₁.sequence = s.sequence := by
    rw [hpaid]
    exact ⟨rfl, rfl⟩
  have hcap : lifetimeLedgers s.timestamp args.commitDeadline args.gracePeriod < h.maxEntryTtl := by
    rw [lifetimeLedgers_eq]
    exact lt_of_le_of_lt (min_le_right _ _) network
  have hp := createAuction_progress hs (exec_createAuction.mpr he)
  have hentry : s.sequence + lifetimeLedgers s.timestamp args.commitDeadline args.gracePeriod ≤
      s'.auctionLiveUntil (s.nextAuctionId.getD 1) := by
    rw [← hs']
    simp only [State.publish, extendLifetime, State.extendInstanceTtl, State.extendAuctionTtl,
      Function.update_self, State.setAuction, hclock]
    exact extendTtl_reaches hcap ..
  have hinstance : s.sequence + lifetimeLedgers s.timestamp args.commitDeadline args.gracePeriod ≤
      s'.instanceLiveUntil := by
    rw [← hs']
    simp only [State.publish, extendLifetime, State.extendInstanceTtl, State.extendAuctionTtl,
      State.setAuction, hclock]
    exact extendTtl_reaches hcap ..
  exact ⟨s'.auctionLiveUntil (s.nextAuctionId.getD 1), hentry,
    { valid := hp.valid hs
      stored := ⟨_, hp.auction_at⟩
      entry := rfl
      inst := hinstance }⟩

/-- The lifetime is computed without loss below its clamp, nothing renews the entry, and it
outlives the grace period exactly when the clamp does not cut it short. -/
theorem rent_outlives_iff (h : Host W) (network : maxTtlExtensionLedgers < h.maxEntryTtl)
    (g : Genesis W) (before : List (Action W)) (signers : List Address) (args : CreateArgs)
    (s' : State W) (k : ℕ)
    (he : createAuction h signers args (runFrom h g before) = .ok (s', k)) :
    let now := (runFrom h g before).timestamp
    lifetimeLedgers now args.commitDeadline args.gracePeriod =
      min (min (args.commitDeadline - now + args.gracePeriod) u64Max / secondsPerLedger +
        ledgersPerDay) maxTtlExtensionLedgers ∧
    (∀ after, (Runs.run (step h) s' after).auctionLiveUntil k = s'.auctionLiveUntil k) ∧
    (Outlives h (runFrom h g before) s' args k ↔
      args.commitDeadline - now + args.gracePeriod ≤ rentSeconds) := by
  intro now
  obtain ⟨n, hn, hrented⟩ := createAuction_rented network (runFrom_valid g before) he
  have hrun := fun after => Runs.run_invariant' (rented_step (h := h)) hrented after
  refine ⟨lifetimeLedgers_eq .., fun after => (hrun after).entry.trans hrented.entry.symm, ?_⟩
  constructor
  · intro hout
    exact (lifetime_covers_iff ..).mp hout.lifetime
  · intro hcond
    have hcovers := (lifetime_covers_iff now args.commitDeadline args.gracePeriod).mpr hcond
    refine ⟨hcovers, fun after hunlock hpace => ?_⟩
    have hentry := (hrun after).entry
    have hinst := (hrun after).inst
    have hbound : (Runs.run (step h) s' after).sequence ≤ (runFrom h g before).sequence +
        lifetimeLedgers now args.commitDeadline args.gracePeriod := by
      simp only [saturatingAdd, secondsPerLedger] at hunlock hpace hcovers
      have hnow : (runFrom h g before).timestamp = now := rfl
      rw [hnow] at hpace
      omega
    exact ⟨hentry ▸ hbound.trans hn, hbound.trans hinst⟩

/-- A window of ten seconds and three of grace. -/
theorem rent_outlives_iff_witness :
    let h := sacHost (.contract (keyOf 0)) (fun _ _ _ => none) firstInput
    let g : Genesis SacState := ⟨.contract (keyOf 1), evenTokens 100, 0, 1⟩
    let seller : Address := .account (keyOf 2)
    let args : CreateArgs := ⟨seller, .contract (keyOf 10), 7, .contract (keyOf 11), 5, 10, 3, 0,
      keyOf 9⟩
    Outlives h (runFrom h g []) (step h (runFrom h g []) (.call [seller] (.createAuction args)))
      args 1 := by
  intro h g seller args
  have he : createAuction h [seller] args (runFrom h g []) =
      .ok (step h (runFrom h g []) (.call [seller] (.createAuction args)), 1) :=
    exec_createAuction.mp (exec_of_isOk (by decide))
  exact (rent_outlives_iff h (by decide) g [] [seller] args _ 1 he).2.2.mpr (by decide)

/-- With twenty million seconds of grace the entry is gone four million seconds too early. -/
theorem rent_cut_short :
    let h := sacHost (.contract (keyOf 0)) (fun _ _ _ => none) firstInput
    let g : Genesis SacState := ⟨.contract (keyOf 1), evenTokens 100, 0, 1⟩
    let seller : Address := .account (keyOf 2)
    let args : CreateArgs := ⟨seller, .contract (keyOf 10), 7, .contract (keyOf 11), 5, 10,
      20000000, 0, keyOf 9⟩
    let s' := step h (runFrom h g []) (.call [seller] (.createAuction args))
    let late := step h s' (.closeLedger 16000000 3200001)
    (exec h [seller] (.createAuction args) (runFrom h g [])).isOk = true ∧
      late.timestamp < saturatingAdd args.commitDeadline args.gracePeriod ∧
      late.auctionLiveUntil 1 < late.sequence ∧ ¬Outlives h (runFrom h g []) s' args 1 := by
  intro h g seller args s' late
  refine ⟨by decide, by decide, by decide, fun hout => ?_⟩
  have hlive := (hout.live [.closeLedger 16000000 3200001] (by decide) (by decide)).1
  exact absurd hlive (by decide)

end SealedStellar
