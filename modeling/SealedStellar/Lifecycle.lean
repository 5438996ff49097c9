import SealedStellar.System

/-! The life of one auction: what each successful call does to its record and its money, and
what every reachable state looks like. -/
namespace SealedStellar
open Checked TokenFlow
variable {W : Type} (h : Host W)

def lotBack (auction : Auction) : Auction := { auction with lotReclaimed := true }

/-- One step in the life of an auction: who signed, the ledger time, the record before, the
transfers made, the record after. -/
inductive Evolves (signers : List Address) (now : ℕ) :
    Option Auction → List TokenMove → Auction → Prop
  | create (args : CreateArgs) (signed : args.seller ∈ signers) (lot : 0 < args.lotAmount)
      (price : 0 < args.maxPrice) (fits : args.maxPrice ≤ u64Max)
      (future : now < args.commitDeadline) (grace : args.gracePeriod ≠ 0) :
      Evolves signers now none [lotIn h (newAuction args)] (newAuction args)
  | bid (auction : Auction) (bid : Bid) (signed : bid.bidder ∈ signers)
      (isOpen : auction.status = .Open) (early : now < auction.commitDeadline)
      (slots : auction.bids.length < maxBidSlots) (marker : bid.commitment ≠ 0)
      (fresh : ∀ b ∈ auction.bids, b.commitment ≠ bid.commitment) :
      Evolves signers now (some auction) [depositIn h auction bid] (addBid auction bid)
  | settle (auction : Auction) (i : ℕ) (price : ℤ) (bid : Bid) (isOpen : auction.status = .Open)
      (due : auction.commitDeadline ≤ now) (slot : auction.bids[i]? = some bid)
      (positive : 0 < price) (capped : price ≤ auction.maxPrice) :
      Evolves signers now (some auction) (settlePayments h auction i price bid.bidder)
        (closed auction .Settled)
  | refund (auction : Auction) (isOpen : auction.status = .Open)
      (due : saturatingAdd auction.commitDeadline auction.gracePeriod ≤ now) :
      Evolves signers now (some auction)
        (refundPayments h auction ++ [lotTo h auction auction.seller])
        (lotBack (closed auction .Refunded))
  | refundKeepingLot (auction : Auction) (isOpen : auction.status = .Open)
      (due : saturatingAdd auction.commitDeadline auction.gracePeriod ≤ now) :
      Evolves signers now (some auction) (refundPayments h auction) (closed auction .Refunded)
  | reclaim (auction : Auction) (refunded : auction.status = .Refunded)
      (held : auction.lotReclaimed = false) :
      Evolves signers now (some auction) [lotTo h auction auction.seller] (lotBack auction)

/-- Everything a successful call changes: one auction, the counter, the events, the tokens. -/
structure Progress (signers : List Address) (c : Call) (s s' : State W)
    (moves : List TokenMove) (auction : Auction) : Prop where
  evolves : Evolves h signers s.timestamp (s.auctions (c.auctionId s)) moves auction
  auctions : s'.auctions = Function.update s.auctions (c.auctionId s) (some auction)
  counter : (c.auctionId s = s.nextAuctionId.getD 1 ∧
      s'.nextAuctionId = some (s.nextAuctionId.getD 1 + 1) ∧
      s.nextAuctionId.getD 1 + 1 ≤ u64Max) ∨
    (∃ old, s.auctions (c.auctionId s) = some old) ∧ s'.nextAuctionId = s.nextAuctionId
  verifier : s'.verifier = s.verifier
  clock : s'.timestamp = s.timestamp ∧ s'.sequence = s.sequence
  books : ∃ acts, CallLog h s.tokens acts s'.tokens moves ∧ s'.activity = s.activity ++ acts

structure Auction.Valid (auction : Auction) : Prop where
  lot : 0 < auction.lotAmount
  price : 0 < auction.maxPrice
  fits : auction.maxPrice ≤ u64Max
  slots : auction.bids.length ≤ maxBidSlots
  marker : ∀ bid ∈ auction.bids, bid.commitment ≠ 0
  distinct : (auction.bids.map Bid.commitment).Nodup
  held : auction.lotReclaimed = true → auction.status = .Refunded

structure State.Valid (s : State W) : Prop where
  verifier : s.verifier.isSome
  counter : ∃ next, s.nextAuctionId = some next ∧ 1 ≤ next ∧ next ≤ u64Max
  stored : ∀ k auction, s.auctions k = some auction →
    1 ≤ k ∧ k < s.nextAuctionId.getD 1 ∧ auction.Valid

theorem State.Valid.fresh {s : State W} (hs : s.Valid) :
    s.auctions (s.nextAuctionId.getD 1) = none := by
  cases hk : s.auctions (s.nextAuctionId.getD 1) with
  | none => rfl
  | some auction => exact absurd (hs.stored _ _ hk).2.1 (lt_irrefl _)

section Inversion
variable {h} {signers : List Address} {s s' : State W}

theorem createAuction_progress {args : CreateArgs} (hs : s.Valid)
    (he : exec h signers (.createAuction args) s = .ok s') :
    Progress h signers (.createAuction args) s s' [lotIn h (newAuction args)]
      (newAuction args) := by
  obtain ⟨signed, lot, price, fits, future, grace, room, s₁, ht, rfl, -⟩ :=
    (createAuction_eq_ok h signers args s s' _).mp (exec_createAuction.mp he)
  obtain ⟨w, acts, hlog, rfl⟩ := transfer_paid ht
  have hnone : s.auctions ((Call.createAuction args).auctionId s) = none := hs.fresh
  exact { evolves := hnone ▸ .create args signed lot price fits future grace
          auctions := rfl
          counter := .inl ⟨rfl, rfl, room⟩
          verifier := rfl
          clock := ⟨rfl, rfl⟩
          books := ⟨acts, hlog, rfl⟩ }

theorem placeBid_progress {auctionId : ℕ} {bidder : Address} {commitment : U256}
    {encryptedBid : List UInt8}
    (he : exec h signers (.placeBid auctionId bidder commitment encryptedBid) s = .ok s') :
    ∃ auction, s.auctions auctionId = some auction ∧
      Progress h signers (.placeBid auctionId bidder commitment encryptedBid) s s'
        [depositIn h auction ⟨bidder, commitment⟩] (addBid auction ⟨bidder, commitment⟩) := by
  obtain ⟨signed, auction, ha, isOpen, early, slots, marker, fresh, -, s₁, ht, rfl⟩ :=
    (placeBid_eq_ok h signers auctionId bidder commitment encryptedBid s s').mp he
  obtain ⟨w, acts, hlog, rfl⟩ := transfer_paid ht
  exact ⟨auction, ha,
    { evolves := ha ▸ .bid auction ⟨bidder, commitment⟩ signed isOpen early slots marker fresh
      auctions := rfl
      counter := .inr ⟨⟨auction, ha⟩, rfl⟩
      verifier := rfl
      clock := ⟨rfl, rfl⟩
      books := ⟨acts, hlog, rfl⟩ }⟩

theorem settle_progress {auctionId i : ℕ} {price : ℤ} {winner : Address} {proof : VerifierProof}
    (he : exec h signers (.settle auctionId i price winner proof) s = .ok s') :
    ∃ auction bid, s.auctions auctionId = some auction ∧ auction.status = .Open ∧
      auction.bids[i]? = some bid ∧ bid.bidder = winner ∧ price ≤ auction.maxPrice ∧
      Progress h signers (.settle auctionId i price winner proof) s s'
        (settlePayments h auction i price winner) (closed auction .Settled) := by
  obtain ⟨auction, ha, isOpen, due, -, positive, capped, bid, slot, rfl, -, -, -, s₁, ht, rfl⟩ :=
    (settle_eq_ok h auctionId i price winner proof s s').mp he
  obtain ⟨w, acts, hlog, rfl⟩ := payAll_paid ht
  exact ⟨auction, bid, ha, isOpen, slot, rfl, capped,
    { evolves := ha ▸ .settle auction i price bid isOpen due slot positive capped
      auctions := rfl
      counter := .inr ⟨⟨auction, ha⟩, rfl⟩
      verifier := rfl
      clock := ⟨rfl, rfl⟩
      books := ⟨acts, hlog, rfl⟩ }⟩

theorem lotLeg_cases (auction : Auction) (auctionId : ℕ) (s : State W) :
    (∃ s₁, Paid h [lotTo h auction auction.seller] s s₁ ∧
      lotLeg h auction auctionId s = s₁.setAuction h auctionId (lotBack auction)) ∨
    ∃ s₁, Paid h [] s s₁ ∧ lotLeg h auction auctionId s =
      s₁.publish (.LotReturnFailed auctionId auction.seller auction.lotAmount) := by
  cases ht : h.transfer s.tokens (lotTo h auction auction.seller) with
  | returned w =>
    left
    refine ⟨_, transfer_paid ((transfer_eq_ok h).mpr ⟨w, ht, rfl⟩), ?_⟩
    simp only [lotLeg, ht, lotBack]
  | undecodable w =>
    right
    have hlog := CallLog.single (a := .undecodable (lotTo h auction auction.seller) s.tokens w) ht
      trivial
    refine ⟨_, ⟨w, _, hlog, rfl⟩, ?_⟩
    simp only [lotLeg, ht]
    rfl
  | trapped =>
    right
    refine ⟨s, Paid.refl s, ?_⟩
    simp only [lotLeg, ht]

theorem refundAll_progress {auctionId : ℕ}
    (he : exec h signers (.refundAll auctionId) s = .ok s') :
    ∃ auction, s.auctions auctionId = some auction ∧ auction.status = .Open ∧
      (Progress h signers (.refundAll auctionId) s s'
        (refundPayments h auction ++ [lotTo h auction auction.seller])
        (lotBack (closed auction .Refunded)) ∨
      Progress h signers (.refundAll auctionId) s s' (refundPayments h auction)
        (closed auction .Refunded)) := by
  obtain ⟨auction, ha, isOpen, due, s₁, ht, rfl⟩ := (refundAll_eq_ok h auctionId s s').mp he
  refine ⟨auction, ha, isOpen, ?_⟩
  have hpaid := payAll_paid ht
  obtain ⟨s₂, hlot, heq⟩ | ⟨s₂, hlot, heq⟩ :=
    lotLeg_cases (h := h) (closed auction .Refunded) auctionId s₁
  · left
    obtain ⟨w, acts, hlog, rfl⟩ := hpaid.trans hlot
    rw [heq]
    exact { evolves := ha ▸ .refund auction isOpen due
            auctions := by simp [State.publish, State.setAuction, Call.auctionId]
            counter := .inr ⟨⟨auction, ha⟩, rfl⟩
            verifier := rfl
            clock := ⟨rfl, rfl⟩
            books := ⟨acts, hlog, rfl⟩ }
  · right
    obtain ⟨w, acts, hlog, rfl⟩ := hpaid.trans hlot
    rw [List.append_nil] at hlog
    rw [heq]
    exact { evolves := ha ▸ .refundKeepingLot auction isOpen due
            auctions := rfl
            counter := .inr ⟨⟨auction, ha⟩, rfl⟩
            verifier := rfl
            clock := ⟨rfl, rfl⟩
            books := ⟨acts, hlog, rfl⟩ }

theorem reclaimLot_progress {auctionId : ℕ}
    (he : exec h signers (.reclaimLot auctionId) s = .ok s') :
    ∃ auction, s.auctions auctionId = some auction ∧ auction.status = .Refunded ∧
      auction.lotReclaimed = false ∧ Progress h signers (.reclaimLot auctionId) s s'
        [lotTo h auction auction.seller] (lotBack auction) := by
  obtain ⟨auction, ha, refunded, held, s₁, ht, rfl⟩ := (reclaimLot_eq_ok h auctionId s s').mp he
  obtain ⟨w, acts, hlog, rfl⟩ := transfer_paid ht
  exact ⟨auction, ha, refunded, held,
    { evolves := ha ▸ .reclaim auction refunded held
      auctions := rfl
      counter := .inr ⟨⟨auction, ha⟩, rfl⟩
      verifier := rfl
      clock := ⟨rfl, rfl⟩
      books := ⟨acts, hlog, rfl⟩ }⟩

/-- Every successful call is one step in the life of one auction. -/
theorem exec_progress {c : Call} (hs : s.Valid) (he : exec h signers c s = .ok s') :
    ∃ moves auction, Progress h signers c s s' moves auction := by
  cases c with
  | createAuction args => exact ⟨_, _, createAuction_progress hs he⟩
  | placeBid auctionId bidder commitment encryptedBid =>
    obtain ⟨auction, -, hp⟩ := placeBid_progress he
    exact ⟨_, _, hp⟩
  | settle auctionId i price winner proof =>
    obtain ⟨auction, bid, -, -, -, -, -, hp⟩ := settle_progress he
    exact ⟨_, _, hp⟩
  | refundAll auctionId =>
    obtain ⟨auction, -, -, hp | hp⟩ := refundAll_progress he
    · exact ⟨_, _, hp⟩
    · exact ⟨_, _, hp⟩
  | reclaimLot auctionId =>
    obtain ⟨auction, -, -, -, hp⟩ := reclaimLot_progress he
    exact ⟨_, _, hp⟩

end Inversion

section Validity
variable {h} {signers : List Address} {now : ℕ}

theorem newAuction_valid {args : CreateArgs} (lot : 0 < args.lotAmount)
    (price : 0 < args.maxPrice) (fits : args.maxPrice ≤ u64Max) : (newAuction args).Valid where
  lot := lot
  price := price
  fits := fits
  slots := Nat.zero_le _
  marker := fun _ hb => nomatch hb
  distinct := List.nodup_nil
  held := fun hc => nomatch hc

theorem Auction.Valid.addBid {auction : Auction} {bid : Bid} (hv : auction.Valid)
    (isOpen : auction.status = .Open) (slots : auction.bids.length < maxBidSlots)
    (marker : bid.commitment ≠ 0) (fresh : ∀ b ∈ auction.bids, b.commitment ≠ bid.commitment) :
    (addBid auction bid).Valid where
  lot := hv.lot
  price := hv.price
  fits := hv.fits
  slots := by
    simp only [SealedStellar.addBid, List.length_append, List.length_singleton]
    exact slots
  marker := by
    intro b hb
    cases List.mem_append.mp hb with
    | inl hb => exact hv.marker b hb
    | inr hb => exact List.mem_singleton.mp hb ▸ marker
  distinct := by
    simp only [SealedStellar.addBid, List.map_append, List.map_cons, List.map_nil]
    rw [List.nodup_append_comm, List.singleton_append, List.nodup_cons]
    refine ⟨fun hm => ?_, hv.distinct⟩
    obtain ⟨b, hb, he⟩ := List.mem_map.mp hm
    exact fresh b hb he
  held := fun hr => absurd (hv.held hr) (by simp [isOpen])

theorem Evolves.valid {old : Option Auction} {moves : List TokenMove} {auction : Auction}
    (he : Evolves h signers now old moves auction) (hold : ∀ a, old = some a → a.Valid) :
    auction.Valid := by
  cases he with
  | create args signed lot price fits future grace => exact newAuction_valid lot price fits
  | bid auction bid signed isOpen early slots marker fresh =>
    exact (hold auction rfl).addBid isOpen slots marker fresh
  | settle auction i price bid isOpen due slot positive capped =>
    have hv := hold auction rfl
    exact { hv with held := fun hr => absurd (hv.held hr) (by simp [isOpen]) }
  | refund auction isOpen due => exact { hold auction rfl with held := fun _ => rfl }
  | refundKeepingLot auction isOpen due => exact { hold auction rfl with held := fun _ => rfl }
  | reclaim auction refunded held => exact { hold auction rfl with held := fun _ => refunded }

theorem Evolves.seller {old auction : Auction} {moves : List TokenMove}
    (he : Evolves h signers now (some old) moves auction) : auction.seller = old.seller := by
  cases he <;> rfl

theorem Evolves.payer {old : Option Auction} {moves : List TokenMove} {auction : Auction}
    (he : Evolves h signers now old moves auction) :
    ∀ m ∈ moves, m.src ∈ signers ∨ m.src = h.self := by
  cases he with
  | create args signed => simp [lotIn, newAuction, signed]
  | bid auction bid signed => simp [depositIn, signed]
  | settle auction i price bid isOpen due slot positive capped =>
    intro m hm
    right
    simp only [settlePayments, overpayment, List.mem_cons, List.mem_append, List.mem_map] at hm
    split at hm <;> grind [depositBack, lotTo]
  | refund auction isOpen due =>
    intro m hm
    right
    simp only [refundPayments, List.mem_append, List.mem_map, List.mem_singleton] at hm
    grind [depositBack, lotTo]
  | refundKeepingLot auction isOpen due =>
    intro m hm
    right
    obtain ⟨bid, hbid, rfl⟩ := List.mem_map.mp hm
    rfl
  | reclaim auction refunded held => simp [lotTo]

theorem Progress.auction_at {c : Call} {s s' : State W} {moves : List TokenMove}
    {auction : Auction} (hp : Progress h signers c s s' moves auction) :
    s'.auctions (c.auctionId s) = some auction := by
  rw [hp.auctions, Function.update_self]

theorem Progress.other {c : Call} {s s' : State W} {moves : List TokenMove} {auction : Auction}
    (hp : Progress h signers c s s' moves auction) {k : ℕ} (hk : k ≠ c.auctionId s) :
    s'.auctions k = s.auctions k := by
  rw [hp.auctions, Function.update_of_ne hk]

theorem Progress.valid {c : Call} {s s' : State W} {moves : List TokenMove} {auction : Auction}
    (hp : Progress h signers c s s' moves auction) (hs : s.Valid) : s'.Valid := by
  obtain ⟨next, hnext, hlow, hhigh⟩ := hs.counter
  have hauction : auction.Valid := hp.evolves.valid fun a ha => (hs.stored _ a ha).2.2
  have hid : 1 ≤ c.auctionId s ∧ c.auctionId s < s'.nextAuctionId.getD 1 ∧
      next ≤ s'.nextAuctionId.getD 1 ∧ (∃ n, s'.nextAuctionId = some n ∧ 1 ≤ n ∧ n ≤ u64Max) := by
    obtain ⟨hid, hcount, hroom⟩ | ⟨⟨old, hold⟩, hcount⟩ := hp.counter
    · rw [hnext, Option.getD_some] at hid hcount hroom
      rw [hid, hcount, Option.getD_some]
      exact ⟨hlow, by omega, by omega, _, rfl, by omega, hroom⟩
    · have hstored := hs.stored _ old hold
      rw [hcount, hnext, Option.getD_some]
      rw [hnext, Option.getD_some] at hstored
      exact ⟨hstored.1, hstored.2.1, le_refl next, next, rfl, hlow, hhigh⟩
  refine ⟨by rw [hp.verifier]; exact hs.verifier, hid.2.2.2, ?_⟩
  intro k a ha
  by_cases hk : k = c.auctionId s
  · subst hk
    rw [hp.auction_at] at ha
    cases ha
    exact ⟨hid.1, hid.2.1, hauction⟩
  · rw [hp.other hk] at ha
    have hstored := hs.stored k a ha
    rw [hnext, Option.getD_some] at hstored
    exact ⟨hstored.1, lt_of_lt_of_le hstored.2.1 hid.2.2.1, hstored.2.2⟩

theorem genesis_valid (g : Genesis W) : (g.state h).Valid where
  verifier := rfl
  counter := ⟨1, rfl, le_refl 1, by decide⟩
  stored := fun _ _ ha => nomatch ha

theorem step_valid (s : State W) (a : Action W) (hs : s.Valid) : (step h s a).Valid := by
  cases a with
  | call signers c =>
    cases he : exec h signers c s with
    | error e => rwa [step_call_error he]
    | ok s' =>
      rw [step_call_ok he]
      obtain ⟨moves, auction, hp⟩ := exec_progress hs he
      exact hp.valid hs
  | closeLedger timestamp sequence =>
    rw [step]
    split
    · exact ⟨hs.verifier, hs.counter, hs.stored⟩
    · exact hs
  | outside tokens => exact ⟨hs.verifier, hs.counter, hs.stored⟩

/-- A step leaves auction k alone, or is a successful call on it. -/
theorem step_cases (k : ℕ) {s : State W} (a : Action W) (hs : s.Valid) :
    ((step h s a).auctions k = s.auctions k ∧
      ∀ signers c, a = .call signers c → c.auctionId s = k → ∃ e, exec h signers c s = .error e) ∨
    ∃ signers c moves auction, a = .call signers c ∧ c.auctionId s = k ∧
      exec h signers c s = .ok (step h s a) ∧ Progress h signers c s (step h s a) moves auction := by
  cases a with
  | call signers c =>
    cases he : exec h signers c s with
    | error e =>
      left
      refine ⟨by rw [step_call_error he], fun signers' c' heq _ => ?_⟩
      cases heq
      exact ⟨e, he⟩
    | ok s' =>
      obtain ⟨moves, auction, hp⟩ := exec_progress hs he
      rw [step_call_ok he]
      by_cases hk : c.auctionId s = k
      · exact .inr ⟨signers, c, moves, auction, rfl, hk, he, hp⟩
      · left
        refine ⟨hp.other (Ne.symm hk), fun signers' c' heq hk' => ?_⟩
        cases heq
        exact absurd hk' hk
  | closeLedger timestamp sequence =>
    left
    constructor
    · rw [step]
      split <;> rfl
    · intro signers c heq
      cases heq
  | outside tokens =>
    left
    refine ⟨rfl, ?_⟩
    intro signers c heq
    cases heq

theorem step_terms (k : ℕ) {s : State W} (a : Action W) (hs : s.Valid) {auction : Auction}
    (ha : s.auctions k = some auction) : ∃ auction', (step h s a).auctions k = some auction' ∧
      auction'.commitDeadline = auction.commitDeadline ∧
      auction'.operatorEncPubkey = auction.operatorEncPubkey := by
  obtain ⟨hsame, -⟩ | ⟨signers, c, moves, new, -, rfl, -, hp⟩ := step_cases (h := h) k a hs
  · exact ⟨auction, hsame.trans ha, rfl, rfl⟩
  · have hev := hp.evolves
    rw [ha] at hev
    refine ⟨new, hp.auction_at, ?_⟩
    cases hev <;> exact ⟨rfl, rfl⟩

theorem step_verifier {s : State W} (a : Action W) (hs : s.Valid) :
    (step h s a).verifier = s.verifier := by
  cases a with
  | call signers c =>
    cases he : exec h signers c s with
    | error e => rw [step_call_error he]
    | ok s' =>
      obtain ⟨moves, auction, hp⟩ := exec_progress hs he
      rw [step_call_ok he, hp.verifier]
  | closeLedger timestamp sequence =>
    rw [step]
    split <;> rfl
  | outside tokens => rfl

theorem step_timestamp_le {s : State W} (a : Action W) (hs : s.Valid) :
    s.timestamp ≤ (step h s a).timestamp := by
  cases a with
  | call signers c =>
    cases he : exec h signers c s with
    | error e => rw [step_call_error he]
    | ok s' =>
      obtain ⟨moves, auction, hp⟩ := exec_progress hs he
      rw [step_call_ok he, hp.clock.1]
  | closeLedger timestamp sequence =>
    rw [step]
    split
    · rename_i hc
      exact hc.1
    · exact le_refl _
  | outside tokens => exact le_refl _

theorem reachable_valid {s : State W} (hs : Reachable h s) : s.Valid :=
  reachable_invariant genesis_valid step_valid hs

theorem runFrom_valid (g : Genesis W) (actions : List (Action W)) : (runFrom h g actions).Valid :=
  reachable_valid ⟨g, actions, rfl⟩

theorem runFrom_append (g : Genesis W) (before after : List (Action W)) :
    runFrom h g (before ++ after) = Runs.run (step h) (runFrom h g before) after :=
  Runs.run_append ..

theorem runFrom_verifier (g : Genesis W) (actions : List (Action W)) :
    (runFrom h g actions).verifier = some g.verifier :=
  (Runs.run_invariant' (P := fun s => s.Valid ∧ s.verifier = some g.verifier)
    (fun s a hP => ⟨step_valid s a hP.1, (step_verifier a hP.1).trans hP.2⟩)
    ⟨genesis_valid g, rfl⟩ actions).2

end Validity

section Bids
variable {h} {k : ℕ}

/-- The bids stored for an auction; none when it does not exist. -/
def storedBids (s : State W) (k : ℕ) : List Bid :=
  match s.auctions k with
  | some auction => auction.bids
  | none => []

theorem storedBids_some {s : State W} {auction : Auction} (ha : s.auctions k = some auction) :
    storedBids s k = auction.bids := by
  rw [storedBids, ha]

theorem storedBids_congr {s s' : State W} (he : s'.auctions k = s.auctions k) :
    storedBids s' k = storedBids s k := by
  rw [storedBids, storedBids, he]

/-- Only an accepted bid changes what is stored, and it appends. -/
theorem step_bids (k : ℕ) {s : State W} (a : Action W) (hs : s.Valid) :
    storedBids (step h s a) k = storedBids s k ∨
      ∃ signers bidder commitment encryptedBid auction,
        a = .call signers (.placeBid k bidder commitment encryptedBid) ∧
        exec h signers (.placeBid k bidder commitment encryptedBid) s = .ok (step h s a) ∧
        s.auctions k = some auction ∧ commitment ≠ 0 ∧
        (∀ b ∈ auction.bids, b.commitment ≠ commitment) ∧
        storedBids (step h s a) k = auction.bids ++ [⟨bidder, commitment⟩] := by
  obtain ⟨hsame, -⟩ | ⟨signers, c, moves, auction, rfl, rfl, he, hp⟩ := step_cases (h := h) k a hs
  · exact .inl (storedBids_congr hsame)
  · generalize step h s (.call signers c) = s' at he hp
    cases c with
    | createAuction args =>
      left
      have hnew := (createAuction_progress hs he).auction_at
      have hold : s.auctions ((Call.createAuction args).auctionId s) = none := hs.fresh
      rw [storedBids_some hnew, storedBids, hold]
      rfl
    | placeBid auctionId bidder commitment encryptedBid =>
      right
      obtain ⟨-, old, ho, -, -, -, marker, fresh, -⟩ :=
        (placeBid_eq_ok h signers auctionId bidder commitment encryptedBid s s').mp he
      obtain ⟨old', ho', hp'⟩ := placeBid_progress he
      rw [ho] at ho'
      cases ho'
      exact ⟨signers, bidder, commitment, encryptedBid, old, rfl, he, ho, marker, fresh,
        storedBids_some hp'.auction_at⟩
    | settle auctionId i price winner proof =>
      left
      obtain ⟨old, bid, ho, -, -, -, -, hp'⟩ := settle_progress he
      rw [storedBids_some hp'.auction_at]
      exact (storedBids_some ho).symm
    | refundAll auctionId =>
      left
      obtain ⟨old, ho, -, hp' | hp'⟩ := refundAll_progress he
      · rw [storedBids_some hp'.auction_at]
        exact (storedBids_some ho).symm
      · rw [storedBids_some hp'.auction_at]
        exact (storedBids_some ho).symm
    | reclaimLot auctionId =>
      left
      obtain ⟨old, ho, -, -, hp'⟩ := reclaimLot_progress he
      rw [storedBids_some hp'.auction_at]
      exact (storedBids_some ho).symm

end Bids

section Frozen
variable {h} {k : ℕ} {auction : Auction}

def SameTerms (auction auction' : Auction) : Prop :=
  auction' = { auction with status := auction'.status, lotReclaimed := auction'.lotReclaimed }

theorem Evolves.sameTerms {signers : List Address} {now : ℕ} {moves : List TokenMove}
    {auction' : Auction} (he : Evolves h signers now (some auction) moves auction')
    (due : auction.commitDeadline ≤ now) : SameTerms auction auction' := by
  cases he with
  | bid _ bid signed isOpen early slots marker fresh => exact absurd early (not_lt_of_ge due)
  | settle _ i price bid isOpen due slot positive capped => rfl
  | refund _ isOpen due => rfl
  | refundKeepingLot _ isOpen due => rfl
  | reclaim _ refunded kept => rfl

theorem SameTerms.trans {a b c : Auction} (hab : SameTerms a b) (hbc : SameTerms b c) :
    SameTerms a c := by
  rw [SameTerms] at *
  rw [hbc, hab]

structure Frozen (k : ℕ) (auction : Auction) (s : State W) : Prop where
  valid : s.Valid
  terms : ∃ auction', s.auctions k = some auction' ∧ SameTerms auction auction'
  due : auction.commitDeadline ≤ s.timestamp

theorem frozen_step (s : State W) (a : Action W) (hf : Frozen k auction s) :
    Frozen k auction (step h s a) := by
  refine ⟨step_valid s a hf.valid, ?_, hf.due.trans (step_timestamp_le a hf.valid)⟩
  obtain ⟨a', ha, hterms⟩ := hf.terms
  obtain ⟨hsame, -⟩ | ⟨signers, c, moves, new, -, rfl, -, hp⟩ := step_cases (h := h) k a hf.valid
  · exact ⟨a', hsame.trans ha, hterms⟩
  · have hev := hp.evolves
    rw [ha] at hev
    have hdue : a'.commitDeadline ≤ s.timestamp := by
      rw [hterms]
      exact hf.due
    exact ⟨new, hp.auction_at, hterms.trans (hev.sameTerms hdue)⟩

theorem frozen_run {g : Genesis W} {before : List (Action W)}
    (ha : (runFrom h g before).auctions k = some auction)
    (due : auction.commitDeadline ≤ (runFrom h g before).timestamp) (after : List (Action W)) :
    Frozen k auction (runFrom h g (before ++ after)) := by
  rw [runFrom_append]
  exact Runs.run_invariant' frozen_step ⟨runFrom_valid g before, ⟨auction, ha, rfl⟩, due⟩ after

end Frozen
end SealedStellar
