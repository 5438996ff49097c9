import SealedStellar.Payments
import SealedStellar.Sac

/-! Each auction pays out exactly once: what all calls on it amount to, address by address. -/
namespace SealedStellar
open TokenFlow
variable {W : Type} (h : Host W)

/-- Every token moves exactly the stated amount of itself, or nothing. -/
structure ExactTokens : Prop where
  moves : ∀ w m w', h.transfer w m = .returned w' →
    ∀ t a, h.balance w' t a = h.balance w t a + m.effect t a
  fails : ∀ w m w', h.transfer w m = .undecodable w' → ∀ t a, h.balance w' t a = h.balance w t a

def gain (k : ℕ) (t a : Address) (s : State W) : Action W → ℤ
  | .call signers c =>
    if c.auctionId s = k then
      h.balance (step h s (.call signers c)).tokens t a - h.balance s.tokens t a
    else 0
  | _ => 0

def netEffect (g : Genesis W) (actions : List (Action W)) (k : ℕ) (t a : Address) : ℤ :=
  Runs.total (step h) (gain h k t a) (g.state h) actions

def succeeded (kind : Call → Bool) (s : State W) : Action W → ℤ
  | .call signers c => if kind c ∧ (exec h signers c s).isOk then 1 else 0
  | _ => 0

def successes (g : Genesis W) (actions : List (Action W)) (kind : Call → Bool) : ℤ :=
  Runs.total (step h) (succeeded h kind) (g.state h) actions

def closes (k : ℕ) : Call → Bool
  | .settle auctionId _ _ _ _ | .refundAll auctionId => auctionId == k
  | _ => false

def reclaims (k : ℕ) : Call → Bool
  | .reclaimLot auctionId => auctionId == k
  | _ => false

variable {h}

/-- With exact tokens a call changes balances by its moves and by nothing else. -/
theorem ExactTokens.callLog (hx : ExactTokens h) {acts : List (Activity W)} {w w' : W}
    {moves : List TokenMove} (hlog : CallLog h w acts w' moves) (t a : Address) :
    h.balance w' t a = h.balance w t a + net moves t a := by
  obtain ⟨hlog, hinside, rfl⟩ := hlog
  induction hlog with
  | nil w => simp [executed]
  | cons x acts w hran hlog ih =>
    have htail := ih fun y hy => hinside y (List.mem_cons_of_mem x hy)
    rw [htail]
    cases x with
    | transfer m before after =>
      have hone := hx.moves before m after hran t a
      simp only [Activity.after, Activity.before, executed, net_cons, hone]
      ring
    | undecodable m before after =>
      have hone := hx.fails before m after hran t a
      simp only [Activity.after, Activity.before, executed, hone]
    | outside before after => exact (hinside _ (List.mem_cons_self ..)).elim

section Step
variable {signers : List Address} {c : Call} {s s' : State W} {moves : List TokenMove}
  {auction : Auction}

theorem Progress.gain_eq (hp : Progress h signers c s s' moves auction) (hx : ExactTokens h)
    (he : exec h signers c s = .ok s') (t a : Address) :
    gain h (c.auctionId s) t a s (.call signers c) = net moves t a := by
  obtain ⟨acts, hlog, -⟩ := hp.books
  rw [gain, if_pos rfl, step_call_ok he, hx.callLog hlog t a]
  ring

theorem Evolves.unsettled {now : ℕ} {old : Auction}
    (he : Evolves h signers now (some old) moves auction) : old.status ≠ .Settled := by
  intro hs
  cases he with
  | bid _ bid signed isOpen early slots marker fresh => cases isOpen.symm.trans hs
  | settle _ i price bid isOpen due slot positive capped => cases isOpen.symm.trans hs
  | refund _ isOpen due => cases isOpen.symm.trans hs
  | refundKeepingLot _ isOpen due => cases isOpen.symm.trans hs
  | reclaim _ refunded kept => cases refunded.symm.trans hs

theorem Evolves.stays_refunded {now : ℕ} {old : Auction}
    (he : Evolves h signers now (some old) moves auction) (hr : old.status = .Refunded) :
    auction.status = .Refunded := by
  cases he with
  | bid _ bid signed isOpen early slots marker fresh => cases isOpen.symm.trans hr
  | settle _ i price bid isOpen due slot positive capped => cases isOpen.symm.trans hr
  | refund _ isOpen due => rfl
  | refundKeepingLot _ isOpen due => rfl
  | reclaim _ refunded kept => exact hr

end Step

theorem quiet_worth {k : ℕ} {s : State W} {a : Action W}
    (hq : ∀ signers c, a = .call signers c → c.auctionId s = k → ∃ e, exec h signers c s = .error e) :
    (∀ t z, gain h k t z s a = 0) ∧ succeeded h (closes k) s a = 0 ∧
      succeeded h (reclaims k) s a = 0 := by
  cases a with
  | call signers c =>
    by_cases hk : c.auctionId s = k
    · obtain ⟨e, he⟩ := hq signers c rfl hk
      have hsame := step_call_error he
      refine ⟨fun t z => ?_, ?_, ?_⟩
      · simp [gain, hsame]
      · simp [succeeded, he, Except.isOk, Except.toBool]
      · simp [succeeded, he, Except.isOk, Except.toBool]
    · refine ⟨fun t z => by rw [gain, if_neg hk], ?_, ?_⟩
      · cases c <;> simp_all [succeeded, closes, Call.auctionId]
      · cases c <;> simp_all [succeeded, reclaims, Call.auctionId]
  | closeLedger timestamp sequence => exact ⟨fun t z => rfl, rfl, rfl⟩
  | outside tokens => exact ⟨fun t z => rfl, rfl, rfl⟩

def closedCount : Option Auction → ℤ
  | some auction => if auction.status = .Open then 0 else 1
  | none => 0

def returnedCount : Option Auction → ℤ
  | some auction => if auction.lotReclaimed then 1 else 0
  | none => 0

theorem exec_counts {signers : List Address} {c : Call} {s s' : State W} (hs : s.Valid)
    (he : exec h signers c s = .ok s') :
    closedCount (s.auctions (c.auctionId s)) + (if closes (c.auctionId s) c then 1 else 0) =
      closedCount (s'.auctions (c.auctionId s)) ∧
    returnedCount (s.auctions (c.auctionId s)) + (if reclaims (c.auctionId s) c then 1 else 0) ≤
      returnedCount (s'.auctions (c.auctionId s)) := by
  cases c with
  | createAuction args =>
    have hold : s.auctions ((Call.createAuction args).auctionId s) = none := hs.fresh
    rw [(createAuction_progress hs he).auction_at, hold]
    simp [closedCount, returnedCount, newAuction, closes, reclaims]
  | placeBid auctionId bidder commitment encryptedBid =>
    obtain ⟨auction, hold, hp⟩ := placeBid_progress he
    rw [hp.auction_at, Call.auctionId, hold]
    exact ⟨add_zero _, (add_zero _).le⟩
  | settle auctionId i price winner proof =>
    obtain ⟨auction, bid, hold, isOpen, -, -, -, hp⟩ := settle_progress he
    rw [hp.auction_at, Call.auctionId, hold]
    exact ⟨by simp [closedCount, closed, closes, isOpen], (add_zero _).le⟩
  | refundAll auctionId =>
    obtain ⟨auction, hold, isOpen, hp | hp⟩ := refundAll_progress he
    · rw [hp.auction_at, Call.auctionId, hold]
      refine ⟨by simp [closedCount, closed, lotBack, closes, isOpen], ?_⟩
      cases hr : auction.lotReclaimed <;> simp [returnedCount, lotBack, reclaims, hr]
    · rw [hp.auction_at, Call.auctionId, hold]
      exact ⟨by simp [closedCount, closed, closes, isOpen], (add_zero _).le⟩
  | reclaimLot auctionId =>
    obtain ⟨auction, hold, refunded, kept, hp⟩ := reclaimLot_progress he
    rw [hp.auction_at, Call.auctionId, hold]
    exact ⟨by simp [closedCount, lotBack, closes, refunded],
      by simp [returnedCount, lotBack, reclaims, kept]⟩

section Runs
variable {k : ℕ} {s : State W} {n : ℤ}

theorem closes_step (a : Action W) (hs : s.Valid) (hn : n = closedCount (s.auctions k)) :
    n + succeeded h (closes k) s a = closedCount ((step h s a).auctions k) := by
  obtain ⟨hsame, hq⟩ | ⟨signers, c, moves, auction, rfl, rfl, he, hp⟩ :=
    step_cases (h := h) k a hs
  · rw [hsame, (quiet_worth hq).2.1, hn, add_zero]
  · rw [hn, ← (exec_counts hs he).1, succeeded, he]
    simp [Except.isOk, Except.toBool]

theorem reclaims_step (a : Action W) (hs : s.Valid) (hn : n ≤ returnedCount (s.auctions k)) :
    n + succeeded h (reclaims k) s a ≤ returnedCount ((step h s a).auctions k) := by
  obtain ⟨hsame, hq⟩ | ⟨signers, c, moves, auction, rfl, rfl, he, hp⟩ :=
    step_cases (h := h) k a hs
  · rw [hsame, (quiet_worth hq).2.2, add_zero]
    exact hn
  · have hcount := (exec_counts hs he).2
    have hone : succeeded h (reclaims (c.auctionId s)) s (.call signers c) =
        if reclaims (c.auctionId s) c then 1 else 0 := by
      simp [succeeded, he, Except.isOk, Except.toBool]
    omega

/-- As long as an auction is not settled, its accounts show what the contract holds for it. -/
theorem held_step (hx : ExactTokens h) {t z : Address} (a : Action W) (hs : s.Valid)
    (hn : (∀ old, s.auctions k = some old → old.status ≠ .Settled) →
      n = net (heldBefore h (s.auctions k)) t z)
    (hns : ∀ new, (step h s a).auctions k = some new → new.status ≠ .Settled) :
    n + gain h k t z s a = net (heldBefore h ((step h s a).auctions k)) t z := by
  obtain ⟨hsame, hq⟩ | ⟨signers, c, moves, auction, rfl, rfl, he, hp⟩ :=
    step_cases (h := h) k a hs
  · rw [hsame] at hns ⊢
    rw [(quiet_worth hq).1, hn hns, add_zero]
  · have hold : ∀ old, s.auctions (c.auctionId s) = some old → old.status ≠ .Settled := by
      intro old ho
      have hev := hp.evolves
      rw [ho] at hev
      exact hev.unsettled
    have hmoves := hp.evolves.net_eq h (fun old ho => (hs.stored _ old ho).2.2)
      (hns auction hp.auction_at) t z
    rw [hp.gain_eq hx he t z, hn hold, hmoves, hp.auction_at]
    simp [heldBefore]

theorem settled_step {t z : Address} (a : Action W) (hs : s.Valid)
    (hset : ∃ auction, s.auctions k = some auction ∧ auction.status = .Settled) :
    (step h s a).auctions k = s.auctions k ∧ gain h k t z s a = 0 := by
  obtain ⟨hsame, hq⟩ | ⟨signers, c, moves, auction, rfl, rfl, he, hp⟩ :=
    step_cases (h := h) k a hs
  · exact ⟨hsame, (quiet_worth hq).1 t z⟩
  · obtain ⟨old, ho, hsettled⟩ := hset
    have hev := hp.evolves
    rw [ho] at hev
    exact absurd hsettled hev.unsettled

theorem refunded_step (a : Action W) (hs : s.Valid)
    (hr : ∃ auction, s.auctions k = some auction ∧ auction.status = .Refunded) :
    ∃ auction, (step h s a).auctions k = some auction ∧ auction.status = .Refunded := by
  obtain ⟨hsame, -⟩ | ⟨signers, c, moves, auction, rfl, rfl, he, hp⟩ :=
    step_cases (h := h) k a hs
  · rwa [hsame]
  · obtain ⟨old, ho, hrefunded⟩ := hr
    have hev := hp.evolves
    rw [ho] at hev
    exact ⟨auction, hp.auction_at, hev.stays_refunded hrefunded⟩

end Runs

section Accounts
variable {g : Genesis W} {k : ℕ} {t z : Address}

theorem closes_run (g : Genesis W) (k : ℕ) (actions : List (Action W)) :
    successes h g actions (closes k) = closedCount ((runFrom h g actions).auctions k) := by
  have hrun := Runs.total_invariant (s := g.state h) (f := succeeded h (closes k))
    (P := fun s n => s.Valid ∧ n = closedCount (s.auctions k))
    (fun s a n hP => ⟨step_valid s a hP.1, closes_step a hP.1 hP.2⟩)
    ⟨genesis_valid g, (rfl : (0 : ℤ) = 0)⟩ actions
  rw [zero_add] at hrun
  exact hrun.2

theorem reclaims_run (g : Genesis W) (k : ℕ) (actions : List (Action W)) :
    successes h g actions (reclaims k) ≤ returnedCount ((runFrom h g actions).auctions k) := by
  have hrun := Runs.total_invariant (s := g.state h) (f := succeeded h (reclaims k))
    (P := fun s n => s.Valid ∧ n ≤ returnedCount (s.auctions k))
    (fun s a n hP => ⟨step_valid s a hP.1, reclaims_step a hP.1 hP.2⟩)
    ⟨genesis_valid g, le_refl (0 : ℤ)⟩ actions
  rw [zero_add] at hrun
  exact hrun.2

theorem held_run (hx : ExactTokens h) (actions : List (Action W))
    (hns : ∀ a, (runFrom h g actions).auctions k = some a → a.status ≠ .Settled) :
    netEffect h g actions k t z = net (heldBefore h ((runFrom h g actions).auctions k)) t z := by
  have hrun := Runs.total_invariant (s := g.state h) (f := gain h k t z)
    (P := fun s n => s.Valid ∧ ((∀ a, s.auctions k = some a → a.status ≠ .Settled) →
      n = net (heldBefore h (s.auctions k)) t z))
    (fun s a n hP => ⟨step_valid s a hP.1, held_step hx a hP.1 hP.2⟩)
    ⟨genesis_valid g, fun _ => (rfl : (0 : ℤ) = 0)⟩ actions
  rw [zero_add] at hrun
  exact hrun.2 hns

theorem settled_run {s : State W} (hs : s.Valid) {auction : Auction}
    (ha : s.auctions k = some auction) (hset : auction.status = .Settled)
    (actions : List (Action W)) : Runs.total (step h) (gain h k t z) s actions = 0 := by
  have hrun := Runs.total_invariant (s := s) (f := gain h k t z)
    (P := fun s n => s.Valid ∧ s.auctions k = some auction ∧ n = 0)
    (fun s a n hP => by
      obtain ⟨hsame, hgain⟩ := settled_step (h := h) (t := t) (z := z) a hP.1 ⟨auction, hP.2.1, hset⟩
      exact ⟨step_valid s a hP.1, hsame.trans hP.2.1, by rw [hP.2.2, hgain, add_zero]⟩)
    ⟨hs, ha, (rfl : (0 : ℤ) = 0)⟩ actions
  rw [zero_add] at hrun
  exact hrun.2.2

theorem refunded_run {s : State W} (hs : s.Valid)
    (hr : ∃ auction, s.auctions k = some auction ∧ auction.status = .Refunded)
    (actions : List (Action W)) : ∃ auction, (Runs.run (step h) s actions).auctions k =
      some auction ∧ auction.status = .Refunded :=
  (Runs.run_invariant' (P := fun s => s.Valid ∧ ∃ auction, s.auctions k = some auction ∧
    auction.status = .Refunded) (fun s a hP => ⟨step_valid s a hP.1, refunded_step a hP.1 hP.2⟩)
    ⟨hs, hr⟩ actions).2

theorem closedCount_le (old : Option Auction) : closedCount old ≤ 1 := by
  cases old with
  | none => simp [closedCount]
  | some auction =>
    rw [closedCount]
    split <;> omega

theorem returnedCount_le (old : Option Auction) : returnedCount old ≤ 1 := by
  cases old with
  | none => simp [returnedCount]
  | some auction =>
    rw [returnedCount]
    split <;> omega

theorem netEffect_settled (hx : ExactTokens h) {before : List (Action W)}
    {signers : List Address} {i : ℕ} {price : ℤ} {winner : Address} {proof : VerifierProof}
    {s' : State W} (he : exec h signers (.settle k i price winner proof) (runFrom h g before) = .ok s')
    (after : List (Action W)) :
    ∃ auction bid, (runFrom h g before).auctions k = some auction ∧
      auction.bids[i]? = some bid ∧ bid.bidder = winner ∧
      ∀ t z, netEffect h g (before ++ .call signers (.settle k i price winner proof) :: after) k t z =
        net (trade auction winner price) t z := by
  obtain ⟨auction, bid, ha, isOpen, slot, rfl, capped, hp⟩ := settle_progress he
  refine ⟨auction, bid, ha, slot, rfl, fun t z => ?_⟩
  have hvalid := runFrom_valid (h := h) g before
  have hbefore := held_run (g := g) (k := k) (t := t) (z := z) hx before (by
    intro a hsome
    rw [ha] at hsome
    cases hsome
    simp [isOpen])
  have hafter := settled_run (h := h) (k := k) (t := t) (z := z) (hp.valid hvalid) hp.auction_at
    rfl after
  have hgain : gain h k t z (runFrom h g before)
      (.call signers (.settle k i price bid.bidder proof)) = _ := hp.gain_eq hx he t z
  rw [net_settlePayments h t z isOpen slot capped] at hgain
  rw [netEffect] at hbefore ⊢
  rw [Runs.total_append, hbefore, Runs.total, ← runFrom, hgain, step_call_ok he, ha, hafter]
  simp [heldBefore]

theorem netEffect_refunded (hx : ExactTokens h) {before : List (Action W)}
    {signers : List Address} {s' : State W}
    (he : exec h signers (.refundAll k) (runFrom h g before) = .ok s') (after : List (Action W)) :
    ∃ auction, (runFrom h g (before ++ .call signers (.refundAll k) :: after)).auctions k =
        some auction ∧ auction.status = .Refunded ∧
      ∀ t z, netEffect h g (before ++ .call signers (.refundAll k) :: after) k t z =
        if auction.lotReclaimed then 0 else (lotIn h auction).effect t z := by
  have hvalid := runFrom_valid (h := h) g before
  have hrun : runFrom h g (before ++ .call signers (.refundAll k) :: after) =
      Runs.run (step h) s' after := by
    rw [runFrom, Runs.run_append, Runs.run_cons, ← runFrom, step_call_ok he]
  obtain ⟨auction, ha, hr⟩ := refunded_run (k := k) (h := h) (s := s') (by
    obtain ⟨moves, auction, hp⟩ := exec_progress hvalid he
    exact hp.valid hvalid) (by
    obtain ⟨auction, -, -, hp | hp⟩ := refundAll_progress he
    · exact ⟨_, hp.auction_at, rfl⟩
    · exact ⟨_, hp.auction_at, rfl⟩) after
  rw [← hrun] at ha
  refine ⟨auction, ha, hr, fun t z => ?_⟩
  rw [held_run hx _ (by
    intro a hsome
    rw [ha] at hsome
    cases hsome
    simp [hr]), ha]
  cases hl : auction.lotReclaimed with
  | true => simp [heldBefore, held_returned h hr hl]
  | false => simp [heldBefore, held_kept h hr hl]

end Accounts

theorem reclaimLot_accepted {s : State W} {k : ℕ} {auction : Auction}
    (ha : s.auctions k = some auction) (hr : auction.status = .Refunded)
    (hl : auction.lotReclaimed = false) (signers : List Address) :
    (∃ s', exec h signers (.reclaimLot k) s = .ok s') ↔
      ∃ w, h.transfer s.tokens (lotTo h auction auction.seller) = .returned w := by
  constructor
  · rintro ⟨s', he⟩
    obtain ⟨a, hsome, -, -, s₁, ht, -⟩ := (reclaimLot_eq_ok h k s s').mp he
    rw [ha] at hsome
    cases hsome
    obtain ⟨w, hw, -⟩ := (transfer_eq_ok h).mp ht
    exact ⟨w, hw⟩
  · rintro ⟨w, hw⟩
    exact ⟨_, (reclaimLot_eq_ok h k s _).mpr
      ⟨auction, ha, hr, hl, _, (transfer_eq_ok h).mpr ⟨w, hw, rfl⟩, rfl⟩⟩

/-- Exactly-once payout over any run, for tokens that are exact or fail without effect. -/
theorem payout_exactly_once (h : Host W) (hx : ExactTokens h) (g : Genesis W) (k : ℕ) :
    (∀ actions, successes h g actions (closes k) ≤ 1 ∧ successes h g actions (reclaims k) ≤ 1) ∧
    (∀ before after signers i price winner proof s',
      exec h signers (.settle k i price winner proof) (runFrom h g before) = .ok s' →
      ∃ auction bid, (runFrom h g before).auctions k = some auction ∧
        auction.bids[i]? = some bid ∧ bid.bidder = winner ∧
        ∀ t a, netEffect h g (before ++ .call signers (.settle k i price winner proof) :: after) k
          t a = net [⟨auction.rwaToken, auction.seller, winner, auction.lotAmount⟩,
            ⟨auction.paymentToken, winner, auction.seller, price⟩] t a) ∧
    ∀ before after signers s',
      exec h signers (.refundAll k) (runFrom h g before) = .ok s' →
      ∃ auction, (runFrom h g (before ++ .call signers (.refundAll k) :: after)).auctions k =
          some auction ∧ auction.status = .Refunded ∧
        (∀ t a, netEffect h g (before ++ .call signers (.refundAll k) :: after) k t a =
          if auction.lotReclaimed then 0 else
            Move.effect ⟨auction.rwaToken, auction.seller, h.self, auction.lotAmount⟩ t a) ∧
        (auction.lotReclaimed = false → ∀ caller,
          (∃ s'', exec h caller (.reclaimLot k)
            (runFrom h g (before ++ .call signers (.refundAll k) :: after)) = .ok s'') ↔
          ∃ w, h.transfer (runFrom h g (before ++ .call signers (.refundAll k) :: after)).tokens
            ⟨auction.rwaToken, h.self, auction.seller, auction.lotAmount⟩ = .returned w) := by
  refine ⟨fun actions => ⟨?_, ?_⟩, ?_, ?_⟩
  · exact closes_run g k actions ▸ closedCount_le _
  · exact (reclaims_run g k actions).trans (returnedCount_le _)
  · intro before after signers i price winner proof s' he
    exact netEffect_settled hx he after
  · intro before after signers s' he
    have hrefunded := netEffect_refunded hx he
    obtain ⟨auction, ha, hr, hnet⟩ := hrefunded after
    exact ⟨auction, ha, hr, hnet, fun hl caller => reclaimLot_accepted ha hr hl caller⟩

theorem sac_exactTokens {self : Address} {verify : Address → VerifierProof → List U256 → Option Bool}
    {poseidon : Poseidon} : ExactTokens (sacHost self verify poseidon) where
  moves := by
    intro w m w' hr t a
    obtain ⟨-, -, -, rfl⟩ := sacTransfer_returned.mp hr
    rfl
  fails := fun w m w' hr => absurd hr (sacTransfer_ne_undecodable w w' m)

/-- The seller holds a losing slot of its own auction, and still ends at the bare trade. -/
theorem payout_exactly_once_witness :
    let h := sacHost (.contract (keyOf 0)) (fun _ _ _ => some true) (fun _ => 0)
    let g : Genesis SacState := ⟨.contract (keyOf 1), evenTokens 100, 0, 1⟩
    let seller : Address := .account (keyOf 2)
    let bidder : Address := .account (keyOf 3)
    let args : CreateArgs := ⟨seller, .contract (keyOf 10), 7, .contract (keyOf 11), 5, 10, 3, 0,
      keyOf 9⟩
    let proof : VerifierProof := ⟨Vector.replicate 64 0, Vector.replicate 128 0,
      Vector.replicate 64 0⟩
    let before : List (Action SacState) := [.call [seller] (.createAuction args),
      .call [bidder] (.placeBid 1 bidder 4 []), .call [seller] (.placeBid 1 seller 6 []),
      .closeLedger 10 2]
    netEffect h g (before ++ [.call [] (.settle 1 0 2 bidder proof)]) 1 (.contract (keyOf 11))
      seller = 2 := by
  intro h g seller bidder args proof before
  have he : (exec h [] (.settle 1 0 2 bidder proof) (runFrom h g before)).isOk = true := by decide
  obtain ⟨auction, bid, ha, -, -, hnet⟩ :=
    (payout_exactly_once h sac_exactTokens g 1).2.1 before [] [] 0 2 bidder proof _ (exec_of_isOk he)
  cases ha
  exact (hnet (.contract (keyOf 11)) seller).trans rfl

end SealedStellar
