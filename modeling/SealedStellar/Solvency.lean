import SealedStellar.Payments
import SealedStellar.Sac
import Mathlib.Algebra.BigOperators.Group.Finset.Basic
import Mathlib.Algebra.BigOperators.Intervals

/-! All auctions share one account at each token: its balance is what was sent there directly
and what the contract still owes over all auctions. -/
namespace SealedStellar
open TokenFlow
variable {W : Type} {h : Host W} {t : Address}

def owesOf (t : Address) : Option Auction → ℤ
  | some auction => auction.owes t
  | none => 0

@[simp] theorem owesOf_none : owesOf t none = 0 := rfl

def State.owes (s : State W) (t : Address) (k : ℕ) : ℤ := owesOf t (s.auctions k)

def State.owed (s : State W) (t : Address) : ℤ :=
  ∑ k ∈ Finset.range (s.nextAuctionId.getD 1), s.owes t k

theorem Auction.Valid.owes_nonneg {auction : Auction} (hv : auction.Valid) (t : Address) :
    0 ≤ auction.owes t := by
  have hlot := hv.lot
  have hdep : 0 ≤ auction.maxPrice * auction.bids.length :=
    mul_nonneg hv.price.le (Int.natCast_nonneg _)
  rw [Auction.owes]
  split <;> split <;> omega

theorem State.Valid.owes_nonneg {s : State W} (hs : s.Valid) (t : Address) (k : ℕ) :
    0 ≤ s.owes t k := by
  rw [State.owes]
  cases hk : s.auctions k with
  | none => exact le_refl 0
  | some auction => exact (hs.stored k auction hk).2.2.owes_nonneg t

structure Solvent (h : Host W) (g : Genesis W) (s : State W) : Prop where
  valid : s.Valid
  external : ∀ k auction, s.auctions k = some auction → auction.External h
  booked : ∀ t, net (executed s.activity) t h.self = s.owed t
  log : Log h g.tokens s.activity s.tokens

theorem Evolves.external {signers : List Address} {now : ℕ} {old : Option Auction}
    {moves : List TokenMove} {auction : Auction} (he : Evolves h signers now old moves auction)
    (hself : h.self ∉ signers) (hold : ∀ a, old = some a → a.External h) :
    auction.External h := by
  cases he with
  | create args signed lot price fits future grace =>
    exact ⟨fun hs => hself (hs ▸ signed), fun _ hb => nomatch hb⟩
  | bid auction bid signed isOpen early slots marker fresh =>
    have hx := hold auction rfl
    refine ⟨hx.seller, fun b hb => ?_⟩
    cases List.mem_append.mp hb with
    | inl hb => exact hx.bidders b hb
    | inr hb =>
      rw [List.mem_singleton.mp hb]
      exact fun hs => hself (hs ▸ signed)
  | settle auction i price bid isOpen due slot positive capped =>
    exact ⟨(hold auction rfl).seller, (hold auction rfl).bidders⟩
  | refund auction isOpen due => exact ⟨(hold auction rfl).seller, (hold auction rfl).bidders⟩
  | refundKeepingLot auction isOpen due =>
    exact ⟨(hold auction rfl).seller, (hold auction rfl).bidders⟩
  | reclaim auction refunded kept => exact ⟨(hold auction rfl).seller, (hold auction rfl).bidders⟩

theorem net_trade_self {auction : Auction} {winner : Address} (price : ℤ)
    (hseller : auction.seller ≠ h.self) (hwinner : winner ≠ h.self) (t : Address) :
    net (trade auction winner price) t h.self = 0 := by
  simp [trade, Move.effect, hseller, hwinner]

/-- Each step moves the contract's account by the change of what it owes for that auction. -/
theorem Evolves.net_self {signers : List Address} {now : ℕ} {old : Option Auction}
    {moves : List TokenMove} {auction : Auction} (he : Evolves h signers now old moves auction)
    (hold : ∀ a, old = some a → a.Valid ∧ a.External h) (hnew : auction.External h)
    (t : Address) : net moves t h.self =
      auction.owes t - owesOf t old := by
  have hbefore : net (heldBefore h old) t h.self = owesOf t old := by
    cases old with
    | none => rfl
    | some a => exact net_held_self h (hold a rfl).2 t
  rw [← hbefore]
  by_cases hns : auction.status = .Settled
  · cases he with
    | create args signed lot price fits future grace => cases hns
    | bid auction bid signed isOpen early slots marker fresh => cases isOpen.symm.trans hns
    | settle auction i price bid isOpen due slot positive capped =>
      have hbid := hnew.bidders bid (List.mem_of_getElem? slot)
      have howes : (closed auction .Settled).owes t = 0 := by
        simp [Auction.owes, LotHeld, closed]
      have htrade : net (trade auction bid.bidder price) t h.self = 0 :=
        net_trade_self price hnew.seller hbid t
      rw [net_settlePayments h t h.self isOpen slot capped, htrade, howes]
      rfl
    | refund auction isOpen due => cases hns
    | refundKeepingLot auction isOpen due => cases hns
    | reclaim auction refunded kept => cases refunded.symm.trans hns
  · rw [he.net_eq h (fun a ha => (hold a ha).1) hns t h.self, net_held_self h hnew]

section Step
variable {signers : List Address} {c : Call} {s s' : State W} {moves : List TokenMove}
  {auction : Auction}

theorem Progress.net_self (hp : Progress h signers c s s' moves auction) (hs : s.Valid)
    (hx : ∀ k auction, s.auctions k = some auction → auction.External h) (hself : h.self ∉ signers)
    (t : Address) : net moves t h.self =
      s'.owes t (c.auctionId s) - s.owes t (c.auctionId s) := by
  have hnew := hp.evolves.external hself fun a ha => hx _ a ha
  rw [hp.evolves.net_self (fun a ha => ⟨(hs.stored _ a ha).2.2, hx _ a ha⟩) hnew t, State.owes,
    hp.auction_at]
  rfl

theorem Progress.owed_eq (hp : Progress h signers c s s' moves auction) (hs : s.Valid)
    (t : Address) : s'.owed t = s.owed t + (s'.owes t (c.auctionId s) - s.owes t (c.auctionId s)) := by
  have hfresh : s.owes t (s.nextAuctionId.getD 1) = 0 := by
    rw [State.owes, hs.fresh, owesOf_none]
  have hsame : ∀ k, k ≠ c.auctionId s → s'.owes t k = s.owes t k := by
    intro k hk
    rw [State.owes, hp.other hk]
    rfl
  obtain ⟨hid, hcount, -⟩ | ⟨⟨old, hold⟩, hcount⟩ := hp.counter
  · have hrest : ∀ k ∈ Finset.range (s.nextAuctionId.getD 1), s'.owes t k = s.owes t k := by
      intro k hk
      exact hsame k (by have := Finset.mem_range.mp hk; omega)
    rw [State.owed, State.owed, hcount, Option.getD_some, Finset.sum_range_succ,
      Finset.sum_congr rfl hrest, hid, hfresh, sub_zero]
  · have hmem : c.auctionId s ∈ Finset.range (s.nextAuctionId.getD 1) :=
      Finset.mem_range.mpr (hs.stored _ old hold).2.1
    have hrest : ∀ k ∈ (Finset.range (s.nextAuctionId.getD 1)).erase (c.auctionId s),
        s'.owes t k = s.owes t k := fun k hk => hsame k (Finset.ne_of_mem_erase hk)
    rw [State.owed, State.owed, hcount, ← Finset.add_sum_erase _ _ hmem,
      ← Finset.add_sum_erase _ (s.owes t) hmem, Finset.sum_congr rfl hrest]
    ring

theorem Progress.solvent {g : Genesis W} (hp : Progress h signers c s s' moves auction)
    (hs : Solvent h g s) (hself : h.self ∉ signers) : Solvent h g s' := by
  obtain ⟨acts, hlog, hact⟩ := hp.books
  refine ⟨hp.valid hs.valid, fun k a ha => ?_, fun t => ?_, ?_⟩
  · by_cases hk : k = c.auctionId s
    · subst hk
      rw [hp.auction_at] at ha
      cases ha
      exact hp.evolves.external hself fun a ha => hs.external _ a ha
    · rw [hp.other hk] at ha
      exact hs.external k a ha
  · rw [hact, executed_append, net_append, hlog.moved, hs.booked t, hp.owed_eq hs.valid t,
      hp.net_self hs.valid hs.external hself t]
  · rw [hact]
    exact hs.log.append hlog.log

end Step

theorem genesis_solvent (g : Genesis W) : Solvent h g (g.state h) where
  valid := genesis_valid g
  external := fun _ _ ha => nomatch ha
  booked := fun t => by simp [Genesis.state, deploy, executed, State.owed, State.owes]
  log := .nil g.tokens

theorem step_solvent {g : Genesis W} (s : State W) (a : Action W) (hs : Solvent h g s)
    (ha : a.External h) : Solvent h g (step h s a) := by
  cases a with
  | call signers c =>
    cases he : exec h signers c s with
    | error e => rwa [step_call_error he]
    | ok s' =>
      rw [step_call_ok he]
      obtain ⟨moves, auction, hp⟩ := exec_progress hs.valid he
      exact hp.solvent hs ha
  | closeLedger timestamp sequence =>
    rw [step]
    split
    · exact ⟨⟨hs.valid.verifier, hs.valid.counter, hs.valid.stored⟩, hs.external, hs.booked,
        hs.log⟩
    · exact hs
  | outside tokens =>
    have hlog := Log.single (h := h) (a := .outside s.tokens tokens) trivial
    refine ⟨step_valid s (.outside tokens) hs.valid, hs.external, fun t => ?_,
      hs.log.append hlog⟩
    have hbooked := hs.booked t
    simpa [step, State.record, executed, State.owed, State.owes] using hbooked

theorem runFrom_solvent (g : Genesis W) {actions : List (Action W)}
    (hcallers : ∀ a ∈ actions, a.External h) : Solvent h g (runFrom h g actions) :=
  Runs.run_invariant step_solvent (genesis_solvent g) (Runs.along_of_mem hcallers _)

/-- Solvency of every run, and the escrow each payout is taken from. -/
theorem escrow_solvent (h : Host W) (t : Address) (ht : ExactToken h t) (g : Genesis W)
    (actions : List (Action W)) (hcallers : ∀ a ∈ actions, a.External h)
    (hdebit : NoOtherDebit h t (runFrom h g actions).activity) :
    (h.balance (runFrom h g actions).tokens t h.self =
      (h.balance g.tokens t h.self + directlySent h t (runFrom h g actions).activity) +
        (runFrom h g actions).owed t ∧
      0 ≤ directlySent h t (runFrom h g actions).activity) ∧
    ∀ signers c s', h.self ∉ signers → exec h signers c (runFrom h g actions) = .ok s' →
      ∃ moves, executed s'.activity = executed (runFrom h g actions).activity ++ moves ∧
        net moves t h.self = s'.owes t (c.auctionId (runFrom h g actions)) -
          (runFrom h g actions).owes t (c.auctionId (runFrom h g actions)) ∧
        -net moves t h.self ≤ (runFrom h g actions).owes t (c.auctionId (runFrom h g actions)) ∧
        ∀ k, k ≠ c.auctionId (runFrom h g actions) →
          s'.auctions k = (runFrom h g actions).auctions k := by
  have hs := runFrom_solvent g hcallers
  refine ⟨⟨?_, directlySent_nonneg hdebit⟩, ?_⟩
  · rw [ht.log hs.log, hs.booked t]
  · intro signers c s' hself he
    obtain ⟨moves, auction, hp⟩ := exec_progress hs.valid he
    obtain ⟨acts, hlog, hact⟩ := hp.books
    have hnet := hp.net_self hs.valid hs.external hself t
    have hpos := (hp.valid hs.valid).owes_nonneg t (c.auctionId (runFrom h g actions))
    refine ⟨moves, ?_, hnet, by omega, fun k hk => hp.other hk⟩
    rw [hact, executed_append, hlog.moved]

/-- An auction of seven lot units with one bid of five deposited, nothing sent directly. -/
theorem escrow_solvent_witness :
    let h := sacHost (.contract (keyOf 0)) (fun _ _ _ => none) (fun _ => 0)
    let g : Genesis SacState := ⟨.contract (keyOf 1), evenTokens 100, 0, 1⟩
    let args : CreateArgs := ⟨.account (keyOf 2), .contract (keyOf 10), 7, .contract (keyOf 11), 5,
      10, 3, 0, keyOf 9⟩
    let actions : List (Action SacState) := [.call [.account (keyOf 2)] (.createAuction args),
      .call [.account (keyOf 3)] (.placeBid 1 (.account (keyOf 3)) 4 [])]
    h.balance (runFrom h g actions).tokens (.contract (keyOf 11)) h.self =
      (100 + directlySent h (.contract (keyOf 11)) (runFrom h g actions).activity) +
        (runFrom h g actions).owed (.contract (keyOf 11)) := by
  intro h g args actions
  have hcallers : ∀ a ∈ actions, a.External h := by decide
  have hdebit := sac_noOtherDebit (runFrom_solvent g hcallers).log (by decide)
    (.contract (keyOf 11))
  exact (escrow_solvent h (.contract (keyOf 11)) (sac_exact _) g actions hcallers hdebit).1.1

end SealedStellar
