import SealedStellar.Funds

/-! Refunding an unsettled auction when some bidders cannot be credited. -/
namespace SealedStellar
open Checked TokenFlow
variable {W : Type} {h : Host W} {refused : W → Address → Address → Bool}

theorem refundPayments_outgoing {auction : Auction} (hv : auction.Valid)
    (hx : auction.External h) : ∀ m ∈ refundPayments h auction, Outgoing h m := by
  intro m hm
  obtain ⟨bid, hbid, rfl⟩ := List.mem_map.mp hm
  exact ⟨rfl, hx.bidders bid hbid, hv.price.le⟩

theorem refundPayments_token {auction : Auction}
    (htoken : PayingToken h refused auction.paymentToken) :
    ∀ m ∈ refundPayments h auction, PayingToken h refused m.token := by
  intro m hm
  obtain ⟨bid, -, rfl⟩ := List.mem_map.mp hm
  exact htoken

theorem net_refundPayments_le {auction : Auction} (hv : auction.Valid) (hx : auction.External h)
    (isOpen : auction.status = .Open) (t : Address) :
    -net (refundPayments h auction) t h.self ≤ auction.owes t := by
  have hheld := net_held_self h hx t
  have hlot : 0 ≤ (lotIn h auction).effect t h.self := by
    have hpos := hv.lot
    rw [lotIn, effect_received _ t hx.seller]
    split <;> omega
  rw [held_open h isOpen, net_cons] at hheld
  rw [net_refundPayments]
  omega

/-- `refund_all` goes through and pays back every deposit whose bidder is not refused. -/
def RefundsAll (h : Host W) (refused : W → Address → Address → Bool) (s : State W) (k : ℕ)
    (auction : Auction) : Prop :=
  ∃ s' moves, refundAll h k s = .ok s' ∧ executed s'.activity = executed s.activity ++ moves ∧
    ((auction.bids.filter fun bid => !refused s.tokens auction.paymentToken bid.bidder).map
      (depositBack h auction)).Sublist moves

theorem refundAll_unrefused {s s' : State W} {k : ℕ} {auction : Auction}
    (htoken : PayingToken h refused auction.paymentToken) (ha : s.auctions k = some auction)
    (he : refundAll h k s = .ok s') :
    ∀ bid ∈ auction.bids, refused s.tokens auction.paymentToken bid.bidder = false := by
  obtain ⟨a, hsome, -, -, s₁, hp, -⟩ := (refundAll_eq_ok h k s s').mp he
  rw [ha] at hsome
  cases hsome
  intro bid hbid
  exact payAll_unrefused (refundPayments_token htoken) hp (depositBack h auction bid)
    (List.mem_map_of_mem hbid)

theorem refundAll_accepted {s : State W} {k : ℕ} {auction : Auction} (hs : s.Valid)
    (hx : auction.External h) (htoken : PayingToken h refused auction.paymentToken)
    (ha : s.auctions k = some auction) (isOpen : auction.status = .Open)
    (due : saturatingAdd auction.commitDeadline auction.gracePeriod ≤ s.timestamp)
    (hfunds : auction.owes auction.paymentToken ≤ h.balance s.tokens auction.paymentToken h.self)
    (hr : ∀ bid ∈ auction.bids, refused s.tokens auction.paymentToken bid.bidder = false) :
    ∃ s', refundAll h k s = .ok s' := by
  have hv := (hs.stored k auction ha).2.2
  have hneed := net_refundPayments_le hv hx isOpen auction.paymentToken
  have hpay : ∃ s₁, payAll h (refundPayments h auction)
      (s.setAuction h k (closed auction .Refunded)) = .ok s₁ := by
    refine payAll_accepted (refundPayments_token htoken) (refundPayments_outgoing hv hx)
      (fun m hm => ?_) fun m hm => ?_
    · obtain ⟨bid, hbid, rfl⟩ := List.mem_map.mp hm
      exact hr bid hbid
    · obtain ⟨bid, -, rfl⟩ := List.mem_map.mp hm
      exact hneed.trans hfunds
  obtain ⟨s₁, hs₁⟩ := hpay
  exact ⟨_, (refundAll_eq_ok h k s _).mpr ⟨auction, ha, isOpen, due, s₁, hs₁, rfl⟩⟩

/-- One refused bidder is enough to block every refund: the deposit loop does not catch. -/
theorem refundAll_refunds_iff (h : Host W) (refused : W → Address → Address → Bool)
    (g : Genesis W) (actions : List (Action W)) (hcallers : ∀ a ∈ actions, a.External h) (k : ℕ)
    (auction : Auction) (ha : (runFrom h g actions).auctions k = some auction)
    (isOpen : auction.status = .Open)
    (due : saturatingAdd auction.commitDeadline auction.gracePeriod ≤
      (runFrom h g actions).timestamp)
    (htoken : FundedRun h refused g actions auction.paymentToken) :
    RefundsAll h refused (runFrom h g actions) k auction ↔
      ∀ bid ∈ auction.bids,
        refused (runFrom h g actions).tokens auction.paymentToken bid.bidder = false := by
  constructor
  · rintro ⟨s', moves, he, _, _⟩
    exact refundAll_unrefused htoken.token ha he
  · intro hr
    have hs := runFrom_solvent g hcallers
    have hfunds := htoken.owes_le_balance hcallers ha
    obtain ⟨s', he⟩ := refundAll_accepted hs.valid (hs.external k auction ha) htoken.token ha
      isOpen due hfunds hr
    have hcall : exec h [] (.refundAll k) (runFrom h g actions) = .ok s' := he
    obtain ⟨a, hsome, -, hp⟩ := refundAll_progress hcall
    rw [ha] at hsome
    cases hsome
    have hall : (auction.bids.filter fun bid =>
        !refused (runFrom h g actions).tokens auction.paymentToken bid.bidder) = auction.bids := by
      rw [List.filter_eq_self]
      intro bid hbid
      rw [hr bid hbid]
      rfl
    cases hp with
    | inl hp =>
      obtain ⟨acts, hlog, hact⟩ := hp.books
      refine ⟨s', _, he, by rw [hact, executed_append, hlog.moved], ?_⟩
      rw [hall]
      exact List.sublist_append_left _ _
    | inr hp =>
      obtain ⟨acts, hlog, hact⟩ := hp.books
      refine ⟨s', _, he, by rw [hact, executed_append, hlog.moved], ?_⟩
      rw [hall]
      exact List.Sublist.refl _

/-- The second bidder drops its trustline after the deadline: the first is not paid either. -/
theorem refund_blocked :
    let h := sacHost (.contract (keyOf 0)) (fun _ _ _ => none) firstInput
    let g : Genesis SacState := ⟨.contract (keyOf 1), evenTokens 100, 0, 1⟩
    let payment : Address := .contract (keyOf 11)
    let args : CreateArgs := ⟨.account (keyOf 2), .contract (keyOf 10), 7, payment, 5, 10, 3, 0,
      keyOf 9⟩
    let first : Address := .account (keyOf 3)
    let second : Address := .account (keyOf 4)
    let bidding : List (Action SacState) := [.call [.account (keyOf 2)] (.createAuction args),
      .call [first] (.placeBid 1 first 4 []), .call [second] (.placeBid 1 second 6 [])]
    let actions := bidding ++ [.outside { (runFrom h g bidding).tokens with
      refused := fun t a => decide (t = payment ∧ a = second) }, .closeLedger 13 2]
    let s := runFrom h g actions
    (∀ a ∈ actions, a.External h) ∧
      (∃ auction, s.auctions 1 = some auction ∧ auction.status = .Open ∧
        saturatingAdd auction.commitDeadline auction.gracePeriod ≤ s.timestamp ∧
        auction.bids = [⟨first, 4⟩, ⟨second, 6⟩] ∧ s.tokens.refused auction.paymentToken first = false ∧
        ¬RefundsAll h SacState.refused s 1 auction) ∧
      refundAll h 1 s = .error .trap := by
  intro h g payment args first second bidding actions s
  have hblocked : refundAll h 1 s = .error .trap := rfl
  refine ⟨by decide, ⟨_, rfl, rfl, by decide, rfl, by decide, ?_⟩, hblocked⟩
  rintro ⟨s', moves, he, _, _⟩
  rw [hblocked] at he
  cases he

/-- With both bidders creditable the refund pays both. -/
theorem refundAll_refunds_iff_witness :
    let h := sacHost (.contract (keyOf 0)) (fun _ _ _ => none) firstInput
    let g : Genesis SacState := ⟨.contract (keyOf 1), evenTokens 100, 0, 1⟩
    let payment : Address := .contract (keyOf 11)
    let args : CreateArgs := ⟨.account (keyOf 2), .contract (keyOf 10), 7, payment, 5, 10, 3, 0,
      keyOf 9⟩
    let first : Address := .account (keyOf 3)
    let second : Address := .account (keyOf 4)
    let actions : List (Action SacState) := [.call [.account (keyOf 2)] (.createAuction args),
      .call [first] (.placeBid 1 first 4 []), .call [second] (.placeBid 1 second 6 []),
      .closeLedger 13 2]
    ∃ auction, (runFrom h g actions).auctions 1 = some auction ∧
      RefundsAll h SacState.refused (runFrom h g actions) 1 auction := by
  intro h g payment args first second actions
  have hcallers : ∀ a ∈ actions, a.External h := by decide
  have hdebit := sac_noOtherDebit (runFrom_solvent g hcallers).log (by decide) payment
  have htoken : FundedRun h SacState.refused g actions payment :=
    ⟨sac_paying payment, by decide, hdebit⟩
  exact ⟨_, rfl, (refundAll_refunds_iff h SacState.refused g actions hcallers 1 _ rfl rfl
    (by decide) htoken).mpr (by decide)⟩

end SealedStellar
