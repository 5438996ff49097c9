import SealedStellar.Lifecycle

/-! What the contract holds for an auction, what it owes, and how each step moves the two. -/
namespace SealedStellar
open TokenFlow
variable {W : Type} (h : Host W)

def LotHeld (auction : Auction) : Prop :=
  auction.status = .Open ∨ auction.status = .Refunded ∧ auction.lotReclaimed = false

instance (auction : Auction) : Decidable (LotHeld auction) :=
  inferInstanceAs (Decidable (_ ∨ _ ∧ _))

/-- What the contract still holds for an auction, as the transfers that brought it in. -/
def held (auction : Auction) : List TokenMove :=
  (if LotHeld auction then [lotIn h auction] else []) ++
    if auction.status = .Open then auction.bids.map (depositIn h auction) else []

def Auction.owes (auction : Auction) (t : Address) : ℤ :=
  (if auction.rwaToken = t ∧ LotHeld auction then auction.lotAmount else 0) +
    if auction.paymentToken = t ∧ auction.status = .Open then
      auction.maxPrice * auction.bids.length else 0

/-- What the whole auction amounts to once settled: the lot for the price. -/
def trade (auction : Auction) (winner : Address) (price : ℤ) : List TokenMove :=
  [⟨auction.rwaToken, auction.seller, winner, auction.lotAmount⟩,
    ⟨auction.paymentToken, winner, auction.seller, price⟩]

structure Auction.External (auction : Auction) : Prop where
  seller : auction.seller ≠ h.self
  bidders : ∀ bid ∈ auction.bids, bid.bidder ≠ h.self

section Held
variable {auction : Auction}

theorem held_open (isOpen : auction.status = .Open) :
    held h auction = lotIn h auction :: auction.bids.map (depositIn h auction) := by
  simp [held, LotHeld, isOpen]

theorem held_kept (refunded : auction.status = .Refunded) (kept : auction.lotReclaimed = false) :
    held h auction = [lotIn h auction] := by
  simp [held, LotHeld, refunded, kept]

theorem held_returned (refunded : auction.status = .Refunded)
    (returned : auction.lotReclaimed = true) : held h auction = [] := by
  simp [held, LotHeld, refunded, returned]

end Held

theorem map_fst_filter_zipIdx (bids : List Bid) (n i : ℕ) :
    ((bids.zipIdx n).filter fun slot => decide (slot.2 ≠ n + i)).map Prod.fst =
      bids.eraseIdx i := by
  induction bids generalizing n i with
  | nil => rfl
  | cons bid bids ih =>
    cases i with
    | zero =>
      have hall : ∀ slot ∈ bids.zipIdx (n + 1), decide (slot.2 ≠ n + 0) = true := by
        intro slot hslot
        have hle := List.le_snd_of_mem_zipIdx hslot
        simp only [decide_eq_true_eq]
        omega
      rw [List.zipIdx_cons, List.filter_cons_of_neg (by simp), List.filter_eq_self.mpr hall,
        List.zipIdx_map_fst]
      rfl
    | succ i =>
      have hne : n + 1 + i = n + (i + 1) := by omega
      rw [List.zipIdx_cons, List.filter_cons_of_pos (by simp), List.map_cons, ← hne, ih]
      rfl

theorem losingBids_eq (auction : Auction) (i : ℕ) : losingBids auction i = auction.bids.eraseIdx i := by
  have hdrop := map_fst_filter_zipIdx auction.bids 0 i
  rwa [Nat.zero_add] at hdrop

theorem losingBids_perm {auction : Auction} {i : ℕ} {bid : Bid} (hb : auction.bids[i]? = some bid) :
    (bid :: losingBids auction i).Perm auction.bids := by
  obtain ⟨hi, rfl⟩ := List.getElem?_eq_some_iff.mp hb
  rw [losingBids_eq]
  exact List.getElem_cons_eraseIdx_perm hi

section Closing
variable (t a : Address)

theorem net_depositBack (auction : Auction) (bids : List Bid) :
    net (bids.map (depositBack h auction)) t a = -net (bids.map (depositIn h auction)) t a :=
  net_map_neg _ _ t a bids fun _ _ => effect_back ..

theorem net_overpayment {auction : Auction} {price : ℤ} (winner : Address)
    (hp : price ≤ auction.maxPrice) : net (overpayment h auction price winner) t a =
      (Move.mk auction.paymentToken h.self winner (auction.maxPrice - price)).effect t a := by
  by_cases hpos : 0 < auction.maxPrice - price
  · rw [overpayment, if_pos hpos, net_cons, net_nil, add_zero]
  · have hzero : auction.maxPrice - price = 0 := by omega
    rw [overpayment, if_neg hpos, hzero, effect_zero, net_nil]

/-- A settlement turns what is held into the trade. -/
theorem net_settlePayments {auction : Auction} {i : ℕ} {price : ℤ} {bid : Bid}
    (isOpen : auction.status = .Open) (hb : auction.bids[i]? = some bid)
    (hp : price ≤ auction.maxPrice) : net (settlePayments h auction i price bid.bidder) t a =
      net (trade auction bid.bidder price) t a - net (held h auction) t a := by
  have hdeposits := net_perm ((losingBids_perm hb).map (depositIn h auction)) t a
  have hlot := effect_via auction.rwaToken auction.seller h.self bid.bidder auction.lotAmount t a
  have hpay := effect_via auction.paymentToken bid.bidder h.self auction.seller price t a
  have hsplit := effect_add auction.paymentToken bid.bidder h.self price (auction.maxPrice - price)
    t a
  have hover := effect_back auction.paymentToken bid.bidder h.self (auction.maxPrice - price) t a
  have hdep : (depositIn h auction bid).effect t a =
    (Move.mk auction.paymentToken bid.bidder h.self auction.maxPrice).effect t a := rfl
  rw [add_sub_cancel] at hsplit
  rw [List.map_cons, net_cons, hdep] at hdeposits
  rw [settlePayments, trade, held_open h isOpen]
  simp only [net_cons, net_append, net_nil, net_overpayment h t a bid.bidder hp,
    net_depositBack, lotTo, lotIn]
  omega

theorem net_refundPayments (auction : Auction) :
    net (refundPayments h auction) t a = -net (auction.bids.map (depositIn h auction)) t a :=
  net_depositBack h t a auction auction.bids

theorem net_lotTo_seller (auction : Auction) :
    (lotTo h auction auction.seller).effect t a = -(lotIn h auction).effect t a :=
  effect_back ..

end Closing

def heldBefore (old : Option Auction) : List TokenMove := (old.map (held h)).getD []

/-- A step that does not settle moves exactly the change of what is held. -/
theorem Evolves.net_eq {signers : List Address} {now : ℕ} {old : Option Auction}
    {moves : List TokenMove} {auction : Auction} (he : Evolves h signers now old moves auction)
    (hold : ∀ a, old = some a → a.Valid) (hns : auction.status ≠ .Settled) (t a : Address) :
    net moves t a = net (held h auction) t a - net (heldBefore h old) t a := by
  cases he with
  | create args signed lot price fits future grace =>
    rw [held_open h rfl]
    simp [heldBefore, newAuction]
  | bid auction bid signed isOpen early slots marker fresh =>
    have hnew : (addBid auction bid).status = .Open := isOpen
    have hsame : held h (addBid auction bid) = held h auction ++ [depositIn h auction bid] := by
      rw [held_open h hnew, held_open h isOpen]
      simp only [addBid, List.map_append, List.map_cons, List.map_nil, List.cons_append]
      rfl
    simp [heldBefore, hsame]
  | settle auction i price bid isOpen due slot positive capped => exact absurd rfl hns
  | refund auction isOpen due =>
    have hnew : held h (lotBack (closed auction .Refunded)) = [] := held_returned h rfl rfl
    simp [heldBefore, hnew, held_open h isOpen, net_refundPayments, net_lotTo_seller]
  | refundKeepingLot auction isOpen due =>
    have hfalse : auction.lotReclaimed = false := by
      cases hl : auction.lotReclaimed with
      | false => rfl
      | true => simp [(hold auction rfl).held hl] at isOpen
    have hnew : held h (closed auction .Refunded) = [lotIn h auction] := held_kept h rfl hfalse
    simp [heldBefore, hnew, held_open h isOpen, net_refundPayments]
  | reclaim auction refunded kept =>
    have hnew : held h (lotBack auction) = [] := held_returned h refunded rfl
    simp [heldBefore, hnew, held_kept h refunded kept, net_lotTo_seller]

/-- What is held is what is owed, when nobody trades with the contract itself. -/
theorem net_held_self {auction : Auction} (hx : auction.External h) (t : Address) :
    net (held h auction) t h.self = auction.owes t := by
  have hlot : (lotIn h auction).effect t h.self =
    if auction.rwaToken = t then auction.lotAmount else 0 := effect_received _ t hx.seller
  have hdeposits : ∀ bids : List Bid, (∀ bid ∈ bids, bid.bidder ≠ h.self) →
      net (bids.map (depositIn h auction)) t h.self =
        if auction.paymentToken = t then auction.maxPrice * bids.length else 0 := by
    intro bids hb
    induction bids with
    | nil => simp
    | cons bid bids ih =>
      have hone : (depositIn h auction bid).effect t h.self =
        if auction.paymentToken = t then auction.maxPrice else 0 :=
          effect_received _ t (hb bid (List.mem_cons_self ..))
      rw [List.map_cons, net_cons, hone, ih fun b hm => hb b (List.mem_cons_of_mem bid hm)]
      by_cases ht : auction.paymentToken = t
      · simp only [ht, if_true, List.length_cons]
        push_cast
        ring
      · simp [ht]
  by_cases hheld : LotHeld auction <;> by_cases hopen : auction.status = .Open <;>
    by_cases hp : auction.paymentToken = t <;> by_cases hr : auction.rwaToken = t <;>
    simp [held, Auction.owes, hheld, hopen, hp, hr, hlot, hdeposits auction.bids hx.bidders]

end SealedStellar
