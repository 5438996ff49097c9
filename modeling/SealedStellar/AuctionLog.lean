import SealedStellar.LifecycleInvariant
import SealedStellar.Lib.LastWrite

/-! What the events of one auction tell about its record. Each event carries only a part of what
its call changes, and a refund that returns the lot in the same call does not say so. -/
namespace SealedStellar
open Checked LastWrite
variable {W : Type} {h : Host W}

def Event.auctionId : Event → ℕ
  | .AuctionCreated auctionId _ _ _ => auctionId
  | .BidPlaced auctionId _ _ _ _ => auctionId
  | .AuctionSettled auctionId _ _ => auctionId
  | .AuctionRefunded auctionId _ => auctionId
  | .LotReturnFailed auctionId _ _ => auctionId
  | .LotReclaimed auctionId _ _ => auctionId

def Event.isCreated : Event → Bool
  | .AuctionCreated _ _ _ _ => true
  | _ => false

def Event.bid : Event → Option (ℕ × Address)
  | .BidPlaced _ slotIndex bidder _ _ => some (slotIndex, bidder)
  | _ => none

def Event.status : Event → Option AuctionStatus
  | .AuctionSettled _ _ _ => some .Settled
  | .AuctionRefunded _ _ => some .Refunded
  | _ => none

def Event.lot : Event → Option Bool
  | .LotReturnFailed _ _ _ => some false
  | .LotReclaimed _ _ _ => some true
  | _ => none

def Event.settlement : Event → Option (Address × ℤ)
  | .AuctionSettled _ winner winningPrice => some (winner, winningPrice)
  | _ => none

def ofAuction (k : ℕ) (log : List (ℕ × Event)) : List Event :=
  (log.map Prod.snd).filter fun e => e.auctionId = k

def auctionLog (s : State W) (k : ℕ) : List Event := ofAuction k s.events

inductive Told (k : ℕ) : Option Auction → List Event → Auction → Prop
  | create (args : CreateArgs) :
      Told k none [.AuctionCreated k args.seller args.maxPrice args.commitDeadline] (newAuction args)
  | bid (auction : Auction) (bid : Bid) (encryptedBid : List UInt8) (isOpen : auction.status = .Open) :
      Told k (some auction)
        [.BidPlaced k auction.bids.length bid.bidder bid.commitment encryptedBid]
        (addBid auction bid)
  | settle (auction : Auction) (winner : Address) (winningPrice : ℤ)
      (isOpen : auction.status = .Open) :
      Told k (some auction) [.AuctionSettled k winner winningPrice] (closed auction .Settled)
  | refund (auction : Auction) (isOpen : auction.status = .Open) :
      Told k (some auction) [.AuctionRefunded k auction.bids.length]
        (lotBack (closed auction .Refunded))
  | refundKeepingLot (auction : Auction) (isOpen : auction.status = .Open) :
      Told k (some auction) [.LotReturnFailed k auction.seller auction.lotAmount,
        .AuctionRefunded k auction.bids.length] (closed auction .Refunded)
  | reclaim (auction : Auction) (refunded : auction.status = .Refunded) :
      Told k (some auction) [.LotReclaimed k auction.seller auction.lotAmount] (lotBack auction)

section Steps

/-- What an accepted call publishes, in the ledger that carries it. -/
theorem exec_told {signers : List Address} {c : Call} {s s' : State W} (hs : s.Valid)
    (he : exec h signers c s = .ok s') :
    ∃ es auction, Told (c.auctionId s) (s.auctions (c.auctionId s)) es auction ∧
      s'.auctions = Function.update s.auctions (c.auctionId s) (some auction) ∧
      s'.events = s.events ++ es.map fun e => (s.sequence, e) := by
  cases c with
  | createAuction args =>
    obtain ⟨-, -, -, -, -, -, -, s₁, ht, rfl, -⟩ :=
      (createAuction_eq_ok h signers args s s' _).mp (exec_createAuction.mp he)
    obtain ⟨w, -, rfl⟩ := (transfer_eq_ok h).mp ht
    have hnone : s.auctions ((Call.createAuction args).auctionId s) = none := hs.fresh
    rw [hnone]
    exact ⟨_, _, .create args, rfl, rfl⟩
  | placeBid auctionId bidder commitment encryptedBid =>
    obtain ⟨-, auction, ha, isOpen, -, -, -, -, -, s₁, ht, rfl⟩ :=
      (placeBid_eq_ok h signers auctionId bidder commitment encryptedBid s s').mp he
    obtain ⟨w, -, rfl⟩ := (transfer_eq_ok h).mp ht
    rw [Call.auctionId, ha]
    exact ⟨_, _, .bid auction ⟨bidder, commitment⟩ encryptedBid isOpen, rfl, rfl⟩
  | settle auctionId i price winner proof =>
    obtain ⟨auction, ha, isOpen, -, -, -, -, bid, -, -, verifier, -, -, s₁, hp, rfl⟩ :=
      (settle_eq_ok h auctionId i price winner proof s s').mp he
    obtain ⟨w, acts, -, rfl⟩ := payAll_paid hp
    rw [Call.auctionId, ha]
    exact ⟨_, _, .settle auction winner price isOpen, rfl, rfl⟩
  | refundAll auctionId =>
    obtain ⟨auction, ha, isOpen, -, s₁, hp, rfl⟩ := (refundAll_eq_ok h auctionId s s').mp he
    rw [Call.auctionId, ha]
    obtain ⟨s₂, hlot, heq⟩ | ⟨s₂, hlot, heq⟩ :=
      lotLeg_cases (h := h) (closed auction .Refunded) auctionId s₁
    · obtain ⟨w, acts, -, rfl⟩ := (payAll_paid hp).trans hlot
      rw [heq]
      exact ⟨_, _, .refund auction isOpen,
        by simp [State.publish, State.setAuction], rfl⟩
    · obtain ⟨w, acts, -, rfl⟩ := (payAll_paid hp).trans hlot
      rw [heq]
      exact ⟨_, _, .refundKeepingLot auction isOpen, rfl, by simp [State.publish, State.setAuction,
        closed]⟩
  | reclaimLot auctionId =>
    obtain ⟨auction, ha, refunded, -, s₁, ht, rfl⟩ := (reclaimLot_eq_ok h auctionId s s').mp he
    obtain ⟨w, -, rfl⟩ := (transfer_eq_ok h).mp ht
    rw [Call.auctionId, ha]
    exact ⟨_, _, .reclaim auction refunded, rfl, rfl⟩

theorem Told.auctionId {k : ℕ} {old : Option Auction} {es : List Event} {auction : Auction}
    (ht : Told k old es auction) : ∀ e ∈ es, e.auctionId = k := by
  cases ht <;> simp [Event.auctionId]

theorem ofAuction_append (k : ℕ) (u v : List (ℕ × Event)) :
    ofAuction k (u ++ v) = ofAuction k u ++ ofAuction k v := by
  rw [ofAuction, List.map_append, List.filter_append, ofAuction, ofAuction]

theorem Told.log {k : ℕ} {old : Option Auction} {es : List Event} {auction : Auction}
    (ht : Told k old es auction) (ledger j : ℕ) :
    ofAuction j (es.map fun e => (ledger, e)) = if k = j then es else [] := by
  rw [ofAuction, List.map_map]
  split
  case isTrue hk =>
    subst hk
    refine (congrArg _ (List.map_id es)).trans (List.filter_eq_self.mpr fun e he => ?_)
    exact decide_eq_true (ht.auctionId e he)
  case isFalse hk =>
    refine (congrArg _ (List.map_id es)).trans (List.filter_eq_nil_iff.mpr fun e he => ?_)
    rw [ht.auctionId e he]
    simpa using hk

/-- A step leaves auction k and its log alone, or adds what it tells about its change. -/
theorem step_told (k : ℕ) {s : State W} (a : Action W) (hs : s.Valid) :
    ((step h s a).auctions k = s.auctions k ∧ auctionLog (step h s a) k = auctionLog s k) ∨
      ∃ es auction, Told k (s.auctions k) es auction ∧
        (step h s a).auctions k = some auction ∧
        auctionLog (step h s a) k = auctionLog s k ++ es := by
  cases a with
  | call signers c =>
    cases he : exec h signers c s with
    | error e =>
      rw [step_call_error he]
      exact .inl ⟨rfl, rfl⟩
    | ok s' =>
      rw [step_call_ok he]
      obtain ⟨es, auction, ht, hauctions, hevents⟩ := exec_told hs he
      rw [auctionLog, hevents, hauctions, ofAuction_append, ht.log]
      by_cases hk : c.auctionId s = k
      · subst hk
        rw [if_pos rfl, Function.update_self]
        exact .inr ⟨es, auction, ht, rfl, rfl⟩
      · rw [if_neg hk, List.append_nil, Function.update_of_ne (Ne.symm hk)]
        exact .inl ⟨rfl, rfl⟩
  | closeLedger timestamp sequence =>
    left
    rw [step]
    split <;> exact ⟨rfl, rfl⟩
  | outside tokens => exact .inl ⟨rfl, rfl⟩

end Steps

/-- What the log of an auction says about its record. Where no event speaks of the lot, it is back
exactly when the auction is refunded. -/
structure Recorded (log : List Event) (auction : Auction) : Prop where
  created : ∃ e rest, log = e :: rest ∧ e.isCreated ∧ ∀ e' ∈ rest, e'.isCreated = false
  bids : log.filterMap Event.bid = auction.bids.zipIdx.map fun slot => (slot.2, slot.1.bidder)
  status : auction.status = lastWrite Event.status .Open log
  closing : log.filterMap Event.status =
    if auction.status = .Open then [] else [auction.status]
  lot : auction.lotReclaimed = lastWrite Event.lot (decide (auction.status = .Refunded)) log
  quiet : auction.status ≠ .Refunded → ∀ e ∈ log, e.lot = none
  settled : (log.filterMap Event.settlement).length = if auction.status = .Settled then 1 else 0

theorem Recorded.created_append {log es : List Event} {auction : Auction}
    (hr : Recorded log auction) (hes : ∀ e ∈ es, e.isCreated = false) :
    ∃ e rest, log ++ es = e :: rest ∧ e.isCreated ∧ ∀ e' ∈ rest, e'.isCreated = false := by
  obtain ⟨e, rest, rfl, he, hrest⟩ := hr.created
  refine ⟨e, rest ++ es, rfl, he, fun e' he' => ?_⟩
  cases List.mem_append.mp he' with
  | inl hmem => exact hrest e' hmem
  | inr hmem => exact hes e' hmem

theorem Recorded.bids_append {log : List Event} {auction : Auction} (hr : Recorded log auction)
    (es : List Event) : (log ++ es).filterMap Event.bid =
      (auction.bids.zipIdx.map fun slot => (slot.2, slot.1.bidder)) ++ es.filterMap Event.bid := by
  rw [List.filterMap_append, hr.bids]

theorem Recorded.quiet_append {log es : List Event} {auction : Auction} (hr : Recorded log auction)
    (hstatus : auction.status ≠ .Refunded) (hes : ∀ e ∈ es, e.lot = none) :
    ∀ e ∈ log ++ es, e.lot = none := by
  intro e he
  cases List.mem_append.mp he with
  | inl hmem => exact hr.quiet hstatus e hmem
  | inr hmem => exact hes e hmem

theorem Recorded.open_lot {log : List Event} {auction : Auction} (hr : Recorded log auction)
    (isOpen : auction.status = .Open) : auction.lotReclaimed = false := by
  rw [hr.lot, lastWrite_keep (hr.quiet (by simp [isOpen])), isOpen]
  rfl

/-- The events of a step that closes an open auction decide its status, and their word on the lot
comes after a log that says nothing of it. -/
theorem Recorded.closed {log es : List Event} {auction auction' : Auction}
    (hr : Recorded log auction) (isOpen : auction.status = .Open)
    (hcreated : ∀ e ∈ es, e.isCreated = false) (hbid : es.filterMap Event.bid = [])
    (hbids : auction'.bids = auction.bids)
    (hstatus : ∀ status, auction'.status = lastWrite Event.status status es)
    (hclosing : es.filterMap Event.status =
      if auction'.status = .Open then [] else [auction'.status])
    (hlot : auction'.lotReclaimed = lastWrite Event.lot (decide (auction'.status = .Refunded)) es)
    (hquiet : auction'.status ≠ .Refunded → ∀ e ∈ es, e.lot = none)
    (hsettled : (es.filterMap Event.settlement).length =
      if auction'.status = .Settled then 1 else 0) : Recorded (log ++ es) auction' where
  created := hr.created_append hcreated
  bids := by rw [hr.bids_append, hbid, List.append_nil, hbids]
  status := by rw [lastWrite_append, ← hstatus]
  closing := by rw [List.filterMap_append, hr.closing, if_pos isOpen, List.nil_append, hclosing]
  lot := by rw [lastWrite_append, lastWrite_keep (hr.quiet (by simp [isOpen])), hlot]
  quiet := fun hne => hr.quiet_append (by simp [isOpen]) (hquiet hne)
  settled := by
    have hlog := hr.settled
    rw [isOpen, if_neg (by decide)] at hlog
    rw [List.filterMap_append, List.length_append, hlog, Nat.zero_add, hsettled]

theorem Told.recorded {k : ℕ} {old : Option Auction} {log es : List Event} {auction : Auction}
    (ht : Told k old es auction) (hnone : old = none → log = [])
    (hsome : ∀ a, old = some a → Recorded log a) : Recorded (log ++ es) auction := by
  cases ht with
  | create args =>
    rw [hnone rfl]
    exact { created := ⟨_, [], rfl, rfl, fun _ h => absurd h List.not_mem_nil⟩
            bids := rfl
            status := rfl
            closing := rfl
            lot := rfl
            quiet := by simp [Event.lot]
            settled := rfl }
  | bid auction bid encryptedBid isOpen =>
    have hr := hsome auction rfl
    exact { created := hr.created_append (by simp [Event.isCreated])
            bids := by
              rw [hr.bids_append, addBid, List.zipIdx_append, List.map_append]
              simp [Event.bid]
            status := by
              rw [lastWrite_append, ← hr.status]
              rfl
            closing := by
              rw [List.filterMap_append, hr.closing]
              exact List.append_nil _
            lot := by
              rw [lastWrite_append]
              exact hr.lot
            quiet := fun hne => hr.quiet_append hne (by simp [Event.lot])
            settled := by
              rw [List.filterMap_append, List.length_append, hr.settled]
              rfl }
  | settle auction winner winningPrice isOpen =>
    have hr := hsome auction rfl
    exact hr.closed isOpen (by simp [Event.isCreated]) rfl rfl (fun _ => rfl) rfl
      (hr.open_lot isOpen) (fun _ => by simp [Event.lot]) rfl
  | refund auction isOpen =>
    have hr := hsome auction rfl
    exact hr.closed isOpen (by simp [Event.isCreated]) rfl rfl (fun _ => rfl) rfl rfl
      (fun hne => absurd rfl hne) rfl
  | refundKeepingLot auction isOpen =>
    have hr := hsome auction rfl
    exact hr.closed isOpen (by simp [Event.isCreated]) rfl rfl (fun _ => rfl) rfl
      (hr.open_lot isOpen) (fun hne => absurd rfl hne) rfl
  | reclaim auction refunded =>
    have hr := hsome auction rfl
    exact { created := hr.created_append (by simp [Event.isCreated])
            bids := by
              rw [hr.bids_append]
              exact List.append_nil _
            status := by
              rw [lastWrite_append, ← hr.status]
              rfl
            closing := by
              rw [List.filterMap_append, hr.closing]
              exact List.append_nil _
            lot := by
              rw [lastWrite_append]
              rfl
            quiet := fun hne => absurd refunded hne
            settled := by
              rw [List.filterMap_append, List.length_append, hr.settled]
              rfl }

structure Recounted (s : State W) : Prop where
  absent : ∀ k, s.auctions k = none → auctionLog s k = []
  stored : ∀ k auction, s.auctions k = some auction → Recorded (auctionLog s k) auction

theorem recounted_step (s : State W) (a : Action W) (hP : s.Valid ∧ Recounted s) :
    (step h s a).Valid ∧ Recounted (step h s a) := by
  refine ⟨step_valid s a hP.1, fun k hnone => ?_, fun k auction ha => ?_⟩
  · cases step_told (h := h) k a hP.1 with
    | inl hsame =>
      rw [hsame.2]
      exact hP.2.absent k (hsame.1 ▸ hnone)
    | inr htold =>
      obtain ⟨es, auction, -, ha, -⟩ := htold
      rw [ha] at hnone
      cases hnone
  · cases step_told (h := h) k a hP.1 with
    | inl hsame =>
      rw [hsame.2]
      exact hP.2.stored k auction (hsame.1 ▸ ha)
    | inr htold =>
      obtain ⟨es, auction', ht, ha', hlog⟩ := htold
      rw [ha'] at ha
      cases ha
      rw [hlog]
      exact ht.recorded (hP.2.absent k) (hP.2.stored k)

theorem run_recounted (g : Genesis W) (actions : List (Action W)) :
    Recounted (runFrom h g actions) := by
  have hstart : (g.state h).Valid ∧ Recounted (g.state h) :=
    ⟨genesis_valid g, fun _ _ => rfl, fun _ _ ha => nomatch ha⟩
  exact (Runs.run_invariant' recounted_step hstart actions).2

theorem step_events_grow (s : State W) (a : Action W) (hs : s.Valid) :
    s.events <+: (step h s a).events := by
  cases a with
  | call signers c =>
    cases he : exec h signers c s with
    | error e => rw [step_call_error he]
    | ok s' =>
      rw [step_call_ok he]
      obtain ⟨es, auction, -, -, hevents⟩ := exec_told hs he
      rw [hevents]
      exact List.prefix_append _ _
  | closeLedger timestamp sequence =>
    rw [step]
    split <;> exact List.prefix_rfl
  | outside tokens => exact List.prefix_rfl

theorem run_events_grow (g : Genesis W) (before after : List (Action W)) :
    (runFrom h g before).events <+: (runFrom h g (before ++ after)).events := by
  have hstep : ∀ (s : State W) (a : Action W),
      s.Valid ∧ (runFrom h g before).events <+: s.events →
      (step h s a).Valid ∧ (runFrom h g before).events <+: (step h s a).events :=
    fun s a hP => ⟨step_valid s a hP.1, hP.2.trans (step_events_grow s a hP.1)⟩
  rw [runFrom_append]
  exact (Runs.run_invariant' hstep ⟨runFrom_valid g before, List.prefix_rfl⟩ after).2

def stateAt (h : Host W) (g : Genesis W) (actions : List (Action W)) (n : ℕ) : State W :=
  runFrom h g (actions.take n)

theorem stateAt_grow (g : Genesis W) (actions : List (Action W)) {m n : ℕ} (hmn : m ≤ n) :
    (stateAt h g actions m).events <+: (stateAt h g actions n).events := by
  obtain ⟨later, hlater⟩ := List.take_prefix_take_left (l := actions) hmn
  rw [stateAt, stateAt, ← hlater]
  exact run_events_grow g _ later

theorem stateAt_events (g : Genesis W) (actions : List (Action W)) (n : ℕ) :
    (stateAt h g actions n).events <+: (runFrom h g actions).events := by
  have hgrow := run_events_grow (h := h) g (actions.take n) (actions.drop n)
  rwa [List.take_append_drop] at hgrow

theorem stateAt_recounted (g : Genesis W) (actions : List (Action W)) (n : ℕ) :
    Recounted (stateAt h g actions n) := run_recounted g _

/-- The log of an auction at one moment is the beginning of its log at a later one, and what is
published from any earlier point on is the end of the one and then the rest. -/
theorem auctionLog_replay {s s' : State W} (hgrow : s.events <+: s'.events) {q : ℕ}
    (hq : q ≤ s.events.length) (k : ℕ) : ∃ j more, auctionLog s' k = auctionLog s k ++ more ∧
      ofAuction k (s'.events.drop q) = (auctionLog s k).drop j ++ more := by
  obtain ⟨later, hlater⟩ := hgrow
  refine ⟨(ofAuction k (s.events.take q)).length, ofAuction k later, ?_, ?_⟩
  · rw [auctionLog, ← hlater, ofAuction_append, auctionLog]
  · have hsplit : auctionLog s k =
        ofAuction k (s.events.take q) ++ ofAuction k (s.events.drop q) := by
      rw [← ofAuction_append, List.take_append_drop, auctionLog]
    rw [← hlater, List.drop_append_of_le_length hq, ofAuction_append, hsplit, List.drop_left]

theorem Recorded.created_first {log u v : List Event} {e : Event} {auction : Auction}
    (hr : Recorded log auction) (hsuffix : u ++ e :: v <:+ log) (he : e.isCreated) :
    u = [] ∧ ∀ e' ∈ v, e'.isCreated = false := by
  obtain ⟨first, rest, rfl, -, hrest⟩ := hr.created
  obtain ⟨w, hw⟩ := hsuffix
  rw [← List.append_assoc] at hw
  cases hwu : w ++ u with
  | nil =>
    rw [hwu] at hw
    cases hw
    exact ⟨(List.append_eq_nil_iff.mp hwu).2, hrest⟩
  | cons e₀ before =>
    rw [hwu] at hw
    cases hw
    have hlater := hrest e (List.mem_append_right before List.mem_cons_self)
    rw [he] at hlater
    cases hlater

theorem Recorded.status_unique {log : List Event} {auction : Auction} {e : Event}
    {status : AuctionStatus} (hr : Recorded log auction) (he : e ∈ log)
    (hs : e.status = some status) : status = auction.status := by
  have hmem : status ∈ log.filterMap Event.status := List.mem_filterMap.mpr ⟨e, he, hs⟩
  rw [hr.closing] at hmem
  split at hmem
  · exact absurd hmem List.not_mem_nil
  · exact List.mem_singleton.mp hmem

theorem eq_of_length_le_one {α : Type*} {l : List α} (hl : l.length ≤ 1) {a b : α} (ha : a ∈ l)
    (hb : b ∈ l) : a = b := by
  cases l with
  | nil => exact absurd ha List.not_mem_nil
  | cons c rest =>
    have hrest : rest = [] := List.eq_nil_of_length_eq_zero (by simpa using hl)
    subst hrest
    rw [List.mem_singleton.mp ha, List.mem_singleton.mp hb]

/-- At most one entry of the log settles an auction. -/
theorem Recounted.settled_once {s : State W} (hr : Recounted s) {k : ℕ} {e e' : ℕ × Event}
    (he : e ∈ s.events) (he' : e' ∈ s.events) {winner winner' : Address}
    {winningPrice winningPrice' : ℤ} (hs : e.2 = .AuctionSettled k winner winningPrice)
    (hs' : e'.2 = .AuctionSettled k winner' winningPrice') : e = e' := by
  have hcount : (s.events.filter fun e => e.2.settlement.isSome ∧ e.2.auctionId = k).length =
      ((auctionLog s k).filterMap Event.settlement).length := by
    rw [List.length_filterMap_eq_countP, auctionLog, ofAuction, List.countP_filter, List.countP_map,
      ← List.countP_eq_length_filter]
    simp [Function.comp_def]
  have hbound : ((auctionLog s k).filterMap Event.settlement).length ≤ 1 := by
    cases ha : s.auctions k with
    | none => simp [hr.absent k ha]
    | some auction =>
      rw [(hr.stored k auction ha).settled]
      split <;> omega
  have hmem : e ∈ s.events.filter fun e => e.2.settlement.isSome ∧ e.2.auctionId = k :=
    List.mem_filter.mpr ⟨he, by simp [hs, Event.settlement, Event.auctionId]⟩
  have hmem' : e' ∈ s.events.filter fun e => e.2.settlement.isSome ∧ e.2.auctionId = k :=
    List.mem_filter.mpr ⟨he', by simp [hs', Event.settlement, Event.auctionId]⟩
  exact eq_of_length_le_one (hcount ▸ hbound) hmem hmem'

theorem Recorded.closed_stays {log more : List Event} {auction auction' : Auction}
    (hr : Recorded log auction) (hr' : Recorded (log ++ more) auction')
    (hclosed : auction.status ≠ .Open) : auction'.status = auction.status := by
  have hclosing := hr'.closing
  rw [List.filterMap_append, hr.closing, if_neg hclosed] at hclosing
  split at hclosing
  · cases hclosing
  · exact (List.cons.inj hclosing).1.symm

def Dated (s : State W) : Prop :=
  (s.events.Pairwise fun e e' => e.1 ≤ e'.1) ∧ ∀ e ∈ s.events, e.1 ≤ s.sequence

theorem dated_step (s : State W) (a : Action W) (hP : s.Valid ∧ Dated s) :
    (step h s a).Valid ∧ Dated (step h s a) := by
  refine ⟨step_valid s a hP.1, ?_⟩
  obtain ⟨hsorted, hbound⟩ := hP.2
  cases a with
  | call signers c =>
    cases he : exec h signers c s with
    | error e =>
      rw [step_call_error he]
      exact hP.2
    | ok s' =>
      rw [step_call_ok he]
      obtain ⟨es, auction, -, -, hevents⟩ := exec_told hP.1 he
      obtain ⟨moves, auction', hp⟩ := exec_progress hP.1 he
      have hnew : ∀ e ∈ es.map fun e => (s.sequence, e), e.1 = s.sequence := by simp
      constructor
      · rw [hevents, List.pairwise_append]
        refine ⟨hsorted, ?_, fun e he e' he' => (hnew e' he').symm ▸ hbound e he⟩
        refine List.pairwise_of_forall_mem_list fun e he e' he' => ?_
        rw [hnew e he, hnew e' he']
      · rw [hevents, hp.clock.2]
        intro e he
        cases List.mem_append.mp he with
        | inl hold => exact hbound e hold
        | inr hnew' => exact (hnew e hnew').le
  | closeLedger timestamp sequence =>
    rw [step]
    split
    case isTrue hlater => exact ⟨hsorted, fun e he => (hbound e he).trans hlater.2⟩
    case isFalse => exact hP.2
  | outside tokens => exact hP.2

theorem run_dated (g : Genesis W) (actions : List (Action W)) : Dated (runFrom h g actions) := by
  have hstart : (g.state h).Valid ∧ Dated (g.state h) :=
    ⟨genesis_valid g, List.Pairwise.nil, fun _ he => absurd he List.not_mem_nil⟩
  exact (Runs.run_invariant' dated_step hstart actions).2

theorem run_event_auction (g : Genesis W) (actions : List (Action W)) {e : ℕ × Event}
    (he : e ∈ (runFrom h g actions).events) :
    1 ≤ e.2.auctionId ∧ ∃ auction, (runFrom h g actions).auctions e.2.auctionId = some auction := by
  cases ha : (runFrom h g actions).auctions e.2.auctionId with
  | none =>
    have hlog : e.2 ∈ auctionLog (runFrom h g actions) e.2.auctionId :=
      List.mem_filter.mpr ⟨List.mem_map_of_mem he, by simp⟩
    rw [(run_recounted g actions).absent _ ha] at hlog
    exact absurd hlog List.not_mem_nil
  | some auction => exact ⟨((runFrom_valid g actions).stored _ auction ha).1, auction, rfl⟩

end SealedStellar
