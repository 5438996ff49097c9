import SealedStellar.Refund

/-! Emptying the escrow by calls that need no signature, whatever else is going on. -/
namespace SealedStellar
open Checked TokenFlow
variable {W : Type} {h : Host W} {refused : W → Address → Address → Bool} {t : Address}

def Auction.Cleared (auction : Auction) : Prop :=
  auction.status = .Settled ∨ (auction.status = .Refunded ∧ auction.lotReclaimed = true)

/-- Nobody whom the auction would have to pay back is refused, by tokens that can be relied on. -/
structure Payable (refused : W → Address → Address → Bool) (T : Set Address) (w : W)
    (auction : Auction) : Prop where
  payment : auction.paymentToken ∈ T
  lot : auction.rwaToken ∈ T
  bidders : ∀ bid ∈ auction.bids, refused w auction.paymentToken bid.bidder = false
  seller : refused w auction.rwaToken auction.seller = false

/-- Time passes, or anybody calls refund_all or reclaim_lot. -/
def Action.Unsigned : Action W → Prop
  | .call [] (.refundAll _) | .call [] (.reclaimLot _) | .closeLedger _ _ => True
  | _ => False

section Payments
variable {moves : List TokenMove} {s s' : State W}

theorem payAll_balance (ht : PayingToken h refused t) (hp : payAll h moves s = .ok s') :
    h.balance s.tokens t h.self + net moves t h.self ≤ h.balance s'.tokens t h.self := by
  induction moves generalizing s with
  | nil =>
    cases hp
    simp
  | cons m moves ih =>
    rw [payAll_cons, bind_eq_ok] at hp
    obtain ⟨s₁, h₁, h₂⟩ := hp
    obtain ⟨w, hw, rfl⟩ := (transfer_eq_ok h).mp h₁
    have hrest := ih h₂
    change h.balance w t h.self + _ ≤ _ at hrest
    rw [net_cons]
    by_cases hm : m.token = t
    · have hone := ht.exact.moves s.tokens m w hm hw h.self
      omega
    · have hone := ht.isolated s.tokens m w hm hw
      rw [effect_ne hm]
      omega

theorem payAll_refused (ht : PayingToken h refused t) (hp : payAll h moves s = .ok s')
    (a : Address) : refused s'.tokens t a = refused s.tokens t a := by
  induction moves generalizing s with
  | nil =>
    cases hp
    rfl
  | cons m moves ih =>
    rw [payAll_cons, bind_eq_ok] at hp
    obtain ⟨s₁, h₁, h₂⟩ := hp
    obtain ⟨w, hw, rfl⟩ := (transfer_eq_ok h).mp h₁
    exact (ih h₂).trans (ht.stable s.tokens m w hw a)

end Payments

theorem Auction.Cleared.owes {auction : Auction} (hc : auction.Cleared) (t : Address) :
    auction.owes t = 0 := by
  cases hc with
  | inl settled => simp [Auction.owes, LotHeld, settled]
  | inr refunded => simp [Auction.owes, LotHeld, refunded.1, refunded.2]

theorem lotBack_cleared {auction : Auction} (refunded : auction.status = .Refunded) :
    (lotBack auction).Cleared := .inr ⟨refunded, rfl⟩

structure Covered (h : Host W) (T : Set Address) (g : Genesis W) (s : State W) : Prop where
  solvent : Solvent h g s
  funds : ∀ t ∈ T, s.owed t ≤ h.balance s.tokens t h.self

theorem FundedRun.covered {T : Set Address} {g : Genesis W} {actions : List (Action W)}
    (hT : ∀ t ∈ T, FundedRun h refused g actions t) (hcallers : ∀ a ∈ actions, a.External h) :
    Covered h T g (runFrom h g actions) := by
  have hs := runFrom_solvent g hcallers
  refine ⟨hs, fun t ht => ?_⟩
  have hbal := (hT t ht).token.exact.log hs.log
  have hsent := directlySent_nonneg (hT t ht).debits
  have hstart := (hT t ht).start
  rw [hs.booked t] at hbal
  omega

theorem State.owed_zero {s : State W}
    (hcleared : ∀ k auction, s.auctions k = some auction → auction.Cleared) (t : Address) :
    s.owed t = 0 := by
  refine Finset.sum_eq_zero fun k _ => ?_
  rw [State.owes]
  cases hk : s.auctions k with
  | none => rfl
  | some auction => exact (hcleared k auction hk).owes t

structure Clears (h : Host W) (refused : W → Address → Address → Bool) (T : Set Address)
    (g : Genesis W) (k : ℕ) (s s' : State W) : Prop where
  covered : Covered h T g s'
  cleared : ∃ auction, s'.auctions k = some auction ∧ auction.Cleared
  other : ∀ j, j ≠ k → s'.auctions j = s.auctions j
  clock : s'.timestamp = s.timestamp
  refusal : ∀ t ∈ T, ∀ a, refused s'.tokens t a = refused s.tokens t a

section Clearing
variable {T : Set Address} {g : Genesis W} {k : ℕ} {s s' : State W} {moves : List TokenMove}
  {auction new : Auction}

/-- What a successful call pays is taken off what the contract owes, and off no more. -/
theorem Progress.clears {c : Call} (hT : ∀ t ∈ T, PayingToken h refused t)
    (hc : Covered h T g s) (hp : Progress h [] c s s' moves new) {before after : State W}
    (hpaid : payAll h moves before = .ok after) (hstart : before.tokens = s.tokens)
    (hend : after.tokens = s'.tokens) (hcleared : new.Cleared) :
    Clears h refused T g (c.auctionId s) s s' where
  covered := by
    have hself : h.self ∉ ([] : List Address) := List.not_mem_nil
    refine ⟨hp.solvent hc.solvent hself, fun t ht => ?_⟩
    have howed := hp.owed_eq hc.solvent.valid t
    have hnet := hp.net_self hc.solvent.valid hc.solvent.external hself t
    have hbal := payAll_balance (hT t ht) hpaid
    have hfunds := hc.funds t ht
    rw [hstart, hend] at hbal
    omega
  cleared := ⟨new, hp.auction_at, hcleared⟩
  other := fun j hj => hp.other hj
  clock := hp.clock.1
  refusal := fun t ht a => by
    have hsame := payAll_refused (hT t ht) hpaid a
    rwa [hstart, hend] at hsame

theorem Evolves.payments_accepted {signers : List Address}
    (hT : ∀ t ∈ T, PayingToken h refused t) (hc : Covered h T g s)
    (ha : s.auctions k = some auction) (hev : Evolves h signers s.timestamp (some auction) moves new)
    (hself : h.self ∉ signers) (hcleared : new.Cleared) (hout : ∀ m ∈ moves, Outgoing h m)
    (htoken : ∀ m ∈ moves, m.token ∈ T)
    (hr : ∀ m ∈ moves, refused s.tokens m.token m.dst = false) {before : State W}
    (hstart : before.tokens = s.tokens) : ∃ after, payAll h moves before = .ok after := by
  have hv := (hc.solvent.valid.stored k auction ha).2.2
  have hx := hc.solvent.external k auction ha
  have hold : ∀ a, some auction = some a → a.Valid ∧ a.External h := by
    intro a he
    cases he
    exact ⟨hv, hx⟩
  have hnew := hev.external hself fun a he => (hold a he).2
  refine payAll_accepted (fun m hm => hT _ (htoken m hm)) hout (fun m hm => ?_) fun m hm => ?_
  · rw [hstart]
    exact hr m hm
  · have hnet := hev.net_self hold hnew m.token
    have howes := hcleared.owes m.token
    have hle := hc.solvent.valid.owes_le_owed ha m.token
    have hfunds := hc.funds m.token (htoken m hm)
    rw [hstart]
    simp only [owesOf] at hnet
    omega

theorem lotTo_outgoing (hv : auction.Valid) (hx : auction.External h) :
    Outgoing h (lotTo h auction auction.seller) := ⟨rfl, hx.seller, hv.lot.le⟩

theorem refundAll_clears (hT : ∀ t ∈ T, PayingToken h refused t) (hc : Covered h T g s)
    (ha : s.auctions k = some auction) (isOpen : auction.status = .Open)
    (due : saturatingAdd auction.commitDeadline auction.gracePeriod ≤ s.timestamp)
    (hp : Payable refused T s.tokens auction) :
    ∃ s', exec h [] (.refundAll k) s = .ok s' ∧ Clears h refused T g k s s' := by
  have hv := (hc.solvent.valid.stored k auction ha).2.2
  have hx := hc.solvent.external k auction ha
  have hmoves : ∀ m ∈ refundPayments h auction ++ [lotTo h auction auction.seller],
      Outgoing h m ∧ m.token ∈ T ∧ refused s.tokens m.token m.dst = false := by
    intro m hm
    cases List.mem_append.mp hm with
    | inl hm =>
      obtain ⟨bid, hbid, rfl⟩ := List.mem_map.mp hm
      exact ⟨⟨rfl, hx.bidders bid hbid, hv.price.le⟩, hp.payment, hp.bidders bid hbid⟩
    | inr hm =>
      rw [List.mem_singleton.mp hm]
      exact ⟨lotTo_outgoing hv hx, hp.lot, hp.seller⟩
  have hcleared : (lotBack (closed auction .Refunded)).Cleared := lotBack_cleared rfl
  have hev : Evolves h [] s.timestamp (some auction) _ (lotBack (closed auction .Refunded)) :=
    .refund auction isOpen due
  obtain ⟨after, hpaid⟩ := hev.payments_accepted hT hc ha List.not_mem_nil hcleared
    (fun m hm => (hmoves m hm).1) (fun m hm => (hmoves m hm).2.1) (fun m hm => (hmoves m hm).2.2)
    (rfl : (s.setAuction h k (closed auction .Refunded)).tokens = s.tokens)
  have hall := hpaid
  rw [payAll_append, bind_eq_ok] at hall
  obtain ⟨s₁, hrefunds, hlot⟩ := hall
  rw [payAll_one] at hlot
  obtain ⟨w, hw, rfl⟩ := (transfer_eq_ok h).mp hlot
  have hexec : exec h [] (.refundAll k) s = .ok
      ((lotLeg h (closed auction .Refunded) k s₁).publish
        (.AuctionRefunded k auction.bids.length)) :=
    (refundAll_eq_ok h k s _).mpr ⟨auction, ha, isOpen, due, s₁, hrefunds, rfl⟩
  have hleg : lotLeg h (closed auction .Refunded) k s₁ =
      (s₁.record (.transfer (lotTo h auction auction.seller) s₁.tokens w)).setAuction h k
        (lotBack (closed auction .Refunded)) := by
    have hw' : h.transfer s₁.tokens (lotTo h (closed auction .Refunded)
      (closed auction .Refunded).seller) = .returned w := hw
    rw [lotLeg, hw']
    rfl
  refine ⟨_, hexec, ?_⟩
  obtain ⟨a, ha', -, hprogress | hkept⟩ := refundAll_progress hexec
  · rw [ha] at ha'
    cases ha'
    refine hprogress.clears hT hc hpaid rfl ?_ hcleared
    rw [hleg]
    rfl
  · rw [ha] at ha'
    cases ha'
    have hat := hkept.auction_at
    rw [hleg] at hat
    have hsame : lotBack (closed auction .Refunded) = closed auction .Refunded := by
      simpa [State.publish, State.setAuction, Call.auctionId] using hat
    have hheld : auction.lotReclaimed = true := (congrArg Auction.lotReclaimed hsame).symm
    cases isOpen.symm.trans (hv.held hheld)

theorem reclaimLot_clears (hT : ∀ t ∈ T, PayingToken h refused t) (hc : Covered h T g s)
    (ha : s.auctions k = some auction) (refunded : auction.status = .Refunded)
    (kept : auction.lotReclaimed = false) (hp : Payable refused T s.tokens auction) :
    ∃ s', exec h [] (.reclaimLot k) s = .ok s' ∧ Clears h refused T g k s s' := by
  have hv := (hc.solvent.valid.stored k auction ha).2.2
  have hx := hc.solvent.external k auction ha
  have hcleared : (lotBack auction).Cleared := lotBack_cleared refunded
  have hev : Evolves h [] s.timestamp (some auction) _ (lotBack auction) :=
    .reclaim auction refunded kept
  obtain ⟨after, hpaid⟩ := hev.payments_accepted hT hc ha List.not_mem_nil hcleared
    (List.forall_mem_singleton.mpr (lotTo_outgoing hv hx)) (List.forall_mem_singleton.mpr hp.lot)
    (List.forall_mem_singleton.mpr hp.seller) (rfl : s.tokens = s.tokens)
  have hexec : exec h [] (.reclaimLot k) s = .ok
      ((after.setAuction h k (lotBack auction)).publish
        (.LotReclaimed k auction.seller auction.lotAmount)) :=
    (reclaimLot_eq_ok h k s _).mpr
      ⟨auction, ha, refunded, kept, after, (payAll_one h _ s) ▸ hpaid, rfl⟩
  refine ⟨_, hexec, ?_⟩
  obtain ⟨a, ha', -, -, hprogress⟩ := reclaimLot_progress hexec
  rw [ha] at ha'
  cases ha'
  exact hprogress.clears hT hc hpaid rfl rfl hcleared

/-- One call, or none, clears a payable auction that is due. -/
theorem payable_clears (hT : ∀ t ∈ T, PayingToken h refused t) (hc : Covered h T g s)
    (ha : s.auctions k = some auction)
    (due : saturatingAdd auction.commitDeadline auction.gracePeriod ≤ s.timestamp)
    (hp : Payable refused T s.tokens auction) :
    ∃ calls : List (Action W), (∀ a ∈ calls, a.Unsigned) ∧
      Clears h refused T g k s (Runs.run (step h) s calls) := by
  have hdone : auction.Cleared → Clears h refused T g k s s := fun hcleared =>
    ⟨hc, ⟨auction, ha, hcleared⟩, fun _ _ => rfl, rfl, fun _ _ _ => rfl⟩
  cases hstatus : auction.status with
  | Open =>
    obtain ⟨s', he, hclears⟩ := refundAll_clears hT hc ha hstatus due hp
    refine ⟨[.call [] (.refundAll k)], by simp [Action.Unsigned], ?_⟩
    rwa [Runs.run_cons, Runs.run_nil, step_call_ok he]
  | Settled => exact ⟨[], by simp, hdone (.inl hstatus)⟩
  | Refunded =>
    cases hkept : auction.lotReclaimed with
    | true => exact ⟨[], by simp, hdone (.inr ⟨hstatus, hkept⟩)⟩
    | false =>
      obtain ⟨s', he, hclears⟩ := reclaimLot_clears hT hc ha hstatus hkept hp
      refine ⟨[.call [] (.reclaimLot k)], by simp [Action.Unsigned], ?_⟩
      rwa [Runs.run_cons, Runs.run_nil, step_call_ok he]

end Clearing

section Draining
variable {T : Set Address} {g : Genesis W} {start s : State W}

/-- The payable auctions with an id below n are cleared, the others are as they were. -/
structure Drained (h : Host W) (refused : W → Address → Address → Bool) (T : Set Address)
    (g : Genesis W) (start : State W) (n : ℕ) (s : State W) : Prop where
  covered : Covered h T g s
  clock : s.timestamp = start.timestamp
  refusal : ∀ t ∈ T, ∀ a, refused s.tokens t a = refused start.tokens t a
  later : ∀ k, n ≤ k → s.auctions k = start.auctions k
  cleared : ∀ k auction, start.auctions k = some auction →
    Payable refused T start.tokens auction → k < n →
      ∃ auction', s.auctions k = some auction' ∧ auction'.Cleared
  kept : ∀ k, (∀ auction, start.auctions k = some auction →
    ¬Payable refused T start.tokens auction) → s.auctions k = start.auctions k

theorem Payable.congr {w w' : W} {auction : Auction}
    (hsame : ∀ t ∈ T, ∀ a, refused w' t a = refused w t a) (hp : Payable refused T w auction) :
    Payable refused T w' auction where
  payment := hp.payment
  lot := hp.lot
  bidders := fun bid hbid => (hsame _ hp.payment _).trans (hp.bidders bid hbid)
  seller := (hsame _ hp.lot _).trans hp.seller

theorem drained_step (hT : ∀ t ∈ T, PayingToken h refused t)
    (due : ∀ k auction, start.auctions k = some auction →
      saturatingAdd auction.commitDeadline auction.gracePeriod ≤ start.timestamp)
    {n : ℕ} (hd : Drained h refused T g start n s) :
    ∃ calls : List (Action W), (∀ a ∈ calls, a.Unsigned) ∧
      Drained h refused T g start (n + 1) (Runs.run (step h) s calls) := by
  classical
  by_cases hn : ∃ auction, start.auctions n = some auction ∧
      Payable refused T start.tokens auction
  · obtain ⟨auction, ha, hp⟩ := hn
    obtain ⟨calls, hcalls, hc⟩ := payable_clears hT hd.covered ((hd.later n le_rfl).trans ha)
      (hd.clock ▸ due n auction ha) (hp.congr hd.refusal)
    refine ⟨calls, hcalls, hc.covered, hc.clock.trans hd.clock,
      fun t ht a => (hc.refusal t ht a).trans (hd.refusal t ht a), fun k hk => ?_,
      fun k auction' ha' hp' hk => ?_, fun k hunpaid => ?_⟩
    · exact (hc.other k (by omega)).trans (hd.later k (by omega))
    · by_cases hkn : k = n
      · exact hkn ▸ hc.cleared
      · obtain ⟨old, hold, hcleared⟩ := hd.cleared k auction' ha' hp' (by omega)
        exact ⟨old, (hc.other k hkn).trans hold, hcleared⟩
    · have hkn : k ≠ n := by
        rintro rfl
        exact hunpaid auction ha hp
      exact (hc.other k hkn).trans (hd.kept k hunpaid)
  · refine ⟨[], by simp, hd.covered, hd.clock, hd.refusal, fun k hk => hd.later k (by omega),
      fun k auction' ha' hp' hk => ?_, hd.kept⟩
    have hkn : k ≠ n := by
      rintro rfl
      exact hn ⟨auction', ha', hp'⟩
    exact hd.cleared k auction' ha' hp' (by omega)

theorem drained_run (hT : ∀ t ∈ T, PayingToken h refused t) (hc : Covered h T g start)
    (due : ∀ k auction, start.auctions k = some auction →
      saturatingAdd auction.commitDeadline auction.gracePeriod ≤ start.timestamp) (n : ℕ) :
    ∃ calls : List (Action W), (∀ a ∈ calls, a.Unsigned) ∧
      Drained h refused T g start n (Runs.run (step h) start calls) := by
  induction n with
  | zero =>
    exact ⟨[], by simp, hc, rfl, fun _ _ _ => rfl, fun _ _ => rfl, fun _ _ _ _ hk => by omega,
      fun _ _ => rfl⟩
  | succ n ih =>
    obtain ⟨calls, hcalls, hd⟩ := ih
    obtain ⟨more, hmore, hd'⟩ := drained_step hT due hd
    refine ⟨calls ++ more, fun a ha => (List.mem_append.mp ha).elim (hcalls a) (hmore a), ?_⟩
    rwa [Runs.run_append]

theorem closeLedger_due (s : State W) : ∃ timestamp,
    step h s (.closeLedger timestamp s.sequence) = { s with timestamp := timestamp } ∧
      ∀ auction : Auction, saturatingAdd auction.commitDeadline auction.gracePeriod ≤ timestamp := by
  refine ⟨max s.timestamp u64Max, ?_, fun auction => ?_⟩
  · rw [step, if_pos ⟨le_max_left _ _, le_rfl⟩]
  · rw [saturatingAdd]
    exact (min_le_right _ _).trans (le_max_right _ _)

end Draining

/-- In every reachable state anyone can, without a signature, have all the auctions paid out whose
own participants can be credited; refusals elsewhere hold up nobody else, and with none at all
the contract is left with what it started with and what was sent to it directly. -/
theorem escrow_drains (h : Host W) (refused : W → Address → Address → Bool) (g : Genesis W)
    (actions : List (Action W)) (hcallers : ∀ a ∈ actions, a.External h) (T : Set Address)
    (hT : ∀ t ∈ T, FundedRun h refused g actions t) :
    ∃ calls : List (Action W), (∀ a ∈ calls, a.Unsigned) ∧
      (∀ k auction, (runFrom h g actions).auctions k = some auction →
        Payable refused T (runFrom h g actions).tokens auction →
        ∃ auction', (runFrom h g (actions ++ calls)).auctions k = some auction' ∧
          auction'.Cleared) ∧
      (∀ k auction, (runFrom h g actions).auctions k = some auction →
        ¬Payable refused T (runFrom h g actions).tokens auction →
        (runFrom h g (actions ++ calls)).auctions k = some auction) ∧
      ((∀ k auction, (runFrom h g actions).auctions k = some auction →
          Payable refused T (runFrom h g actions).tokens auction) →
        ∀ t ∈ T, h.balance (runFrom h g (actions ++ calls)).tokens t h.self =
          h.balance g.tokens t h.self +
            directlySent h t (runFrom h g (actions ++ calls)).activity) := by
  obtain ⟨timestamp, htime, due⟩ := closeLedger_due (h := h) (runFrom h g actions)
  have hc := FundedRun.covered hT hcallers
  have hstart : Covered h T g { runFrom h g actions with timestamp := timestamp } := by
    have hsolvent := step_solvent _ (.closeLedger timestamp (runFrom h g actions).sequence)
      hc.solvent trivial
    rw [htime] at hsolvent
    exact ⟨hsolvent, hc.funds⟩
  obtain ⟨calls, hcalls, hd⟩ := drained_run (fun t ht => (hT t ht).token) hstart
    (fun k auction _ => due auction) ((runFrom h g actions).nextAuctionId.getD 1)
  let pass : Action W := .closeLedger timestamp (runFrom h g actions).sequence
  refine ⟨pass :: calls, List.forall_mem_cons.mpr ⟨trivial, hcalls⟩, ?_⟩
  have hrun : runFrom h g (actions ++ pass :: calls) = Runs.run (step h)
      { runFrom h g actions with timestamp := timestamp } calls := by
    rw [runFrom_append, Runs.run_cons, htime]
  rw [hrun]
  have hids := (runFrom_valid (h := h) g actions).stored
  generalize Runs.run (step h) { runFrom h g actions with timestamp := timestamp } calls = final
    at hd
  refine ⟨fun k auction ha hp => hd.cleared k auction ha hp (hids k auction ha).2.1,
    fun k auction ha hp => ?_, fun hall t ht => ?_⟩
  · refine (hd.kept k fun a hsome => ?_).trans ha
    cases ha.symm.trans hsome
    exact hp
  · have hcleared : ∀ k auction, final.auctions k = some auction → auction.Cleared := by
      intro k auction hfinal
      cases hk : (runFrom h g actions).auctions k with
      | none =>
        have hsame := hd.kept k fun a hsome => absurd (hk.symm.trans hsome) (by simp)
        cases hfinal.symm.trans (hsame.trans hk)
      | some old =>
        obtain ⟨new, hnew, hdone⟩ := hd.cleared k old hk (hall k old hk) (hids k old hk).2.1
        cases hnew.symm.trans hfinal
        exact hdone
    have hbal := (hT t ht).token.exact.log hd.covered.solvent.log
    rwa [hd.covered.solvent.booked t, State.owed_zero hcleared, add_zero] at hbal

/-- Two lots of seven in escrow and one deposit: the auction with the bid is paid out. -/
theorem escrow_drains_at :
    let h := sacHost (.contract (keyOf 0)) (fun _ _ _ => none) firstInput
    let g : Genesis SacState := ⟨.contract (keyOf 1), evenTokens 100, 0, 1⟩
    let lot : Address := .contract (keyOf 10)
    let payment : Address := .contract (keyOf 11)
    let args : CreateArgs := ⟨.account (keyOf 2), lot, 7, payment, 5, 10, 3, 0, keyOf 9⟩
    let actions : List (Action SacState) := [.call [.account (keyOf 2)] (.createAuction args),
      .call [.account (keyOf 3)] (.placeBid 1 (.account (keyOf 3)) 4 []),
      .call [.account (keyOf 2)] (.createAuction args)]
    h.balance (runFrom h g actions).tokens lot h.self = 114 ∧
    ∃ calls : List (Action SacState), (∀ a ∈ calls, a.Unsigned) ∧
      ∃ auction, (runFrom h g (actions ++ calls)).auctions 1 = some auction ∧ auction.Cleared := by
  intro h g lot payment args actions
  have hcallers : ∀ a ∈ actions, a.External h := by decide
  have hT : ∀ t ∈ (Set.univ : Set Address), FundedRun h SacState.refused g actions t :=
    fun t _ => ⟨sac_paying t, (by decide : (0 : ℤ) ≤ 100),
      sac_noOtherDebit (runFrom_solvent g hcallers).log (by decide) t⟩
  refine ⟨by decide, ?_⟩
  obtain ⟨calls, hcalls, hcleared, -, -⟩ :=
    escrow_drains h SacState.refused g actions hcallers Set.univ hT
  exact ⟨calls, hcalls, hcleared 1 _ rfl ⟨trivial, trivial, by decide, by decide⟩⟩

end SealedStellar
