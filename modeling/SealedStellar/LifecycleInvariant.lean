import SealedStellar.BidLog

/-! What every reachable state of the contract looks like, and how the record of an auction at
one moment constrains its record at every later one. -/
namespace SealedStellar
variable {W : Type} {h : Host W} {k : ℕ}

def State.nextId (s : State W) : ℕ := s.nextAuctionId.getD 1

structure State.Intact (s : State W) : Prop where
  ids : ∀ k, (∃ auction, s.auctions k = some auction) ↔ 1 ≤ k ∧ k < s.nextId
  slots : ∀ k auction, s.auctions k = some auction → auction.bids.length ≤ maxBidSlots
  marker : ∀ k auction, s.auctions k = some auction → ∀ bid ∈ auction.bids, bid.commitment ≠ 0
  distinct : ∀ k auction, s.auctions k = some auction →
    (auction.bids.map Bid.commitment).Nodup
  reclaimed : ∀ k auction, s.auctions k = some auction →
    auction.lotReclaimed = true → auction.status = .Refunded

/-- A record read at time now, and a record of the same auction read later. -/
structure Leads (now : ℕ) (auction auction' : Auction) : Prop where
  terms : auction' = { auction with status := auction'.status, bids := auction'.bids,
                                    lotReclaimed := auction'.lotReclaimed }
  bids : auction.bids <+: auction'.bids
  growth : auction'.bids ≠ auction.bids → auction.status = .Open ∧ now < auction.commitDeadline
  status : auction'.status ≠ auction.status → auction.status = .Open
  reclaimed : auction.lotReclaimed = true → auction'.lotReclaimed = true

theorem Leads.refl (now : ℕ) (auction : Auction) : Leads now auction auction where
  terms := rfl
  bids := List.prefix_rfl
  growth := fun hne => absurd rfl hne
  status := fun hne => absurd rfl hne
  reclaimed := id

theorem Leads.deadline {now : ℕ} {a b : Auction} (hab : Leads now a b) :
    b.commitDeadline = a.commitDeadline := by
  rw [hab.terms]

theorem Leads.root {now : ℕ} {a b : Auction} (hab : Leads now a b) :
    b.whitelistRoot = a.whitelistRoot := by
  rw [hab.terms]

theorem Leads.open_of_open {now : ℕ} {a b : Auction} (hab : Leads now a b)
    (hb : b.status = .Open) : a.status = .Open := by
  by_cases hs : b.status = a.status
  · exact hs ▸ hb
  · exact hab.status hs

theorem Leads.trans {now now' : ℕ} {a b c : Auction} (hab : Leads now a b)
    (hbc : Leads now' b c) (hle : now ≤ now') : Leads now a c where
  terms := by rw [hbc.terms, hab.terms]
  bids := hab.bids.trans hbc.bids
  growth := by
    intro hne
    by_cases hb : b.bids = a.bids
    · have hlate := hbc.growth (by rwa [hb])
      have hearly : now' < a.commitDeadline := hab.deadline ▸ hlate.2
      exact ⟨hab.open_of_open hlate.1, lt_of_le_of_lt hle hearly⟩
    · exact hab.growth hb
  status := by
    intro hne
    by_cases hb : b.status = a.status
    · have hopen := hbc.status (by rwa [hb])
      exact hb ▸ hopen
    · exact hab.status hb
  reclaimed := fun ha => hbc.reclaimed (hab.reclaimed ha)

theorem Evolves.leads {signers : List Address} {now : ℕ} {a b : Auction}
    {moves : List TokenMove} (he : Evolves h signers now (some a) moves b) : Leads now a b := by
  cases he with
  | bid _ bid signed isOpen early slots marker fresh =>
    exact { terms := rfl
            bids := List.prefix_append a.bids [bid]
            growth := fun _ => ⟨isOpen, early⟩
            status := fun hne => absurd rfl hne
            reclaimed := id }
  | settle _ i price bid isOpen due slot positive capped =>
    exact { Leads.refl now a with terms := rfl, status := fun _ => isOpen }
  | refund _ isOpen due =>
    exact { Leads.refl now a with terms := rfl, status := fun _ => isOpen, reclaimed := fun _ => rfl }
  | refundKeepingLot _ isOpen due =>
    exact { Leads.refl now a with terms := rfl, status := fun _ => isOpen }
  | reclaim _ refunded held =>
    exact { Leads.refl now a with terms := rfl, reclaimed := fun _ => rfl }

theorem step_leads {s : State W} (a : Action W) (hs : s.Valid) {auction : Auction}
    (ha : s.auctions k = some auction) : ∃ auction', (step h s a).auctions k = some auction' ∧
      Leads s.timestamp auction auction' := by
  obtain ⟨hsame, -⟩ | ⟨signers, c, moves, new, -, rfl, -, hp⟩ := step_cases (h := h) k a hs
  · exact ⟨auction, hsame.trans ha, Leads.refl _ _⟩
  · have hev := hp.evolves
    rw [ha] at hev
    exact ⟨new, hp.auction_at, hev.leads⟩

structure Followed (k now : ℕ) (auction : Auction) (s : State W) : Prop where
  valid : s.Valid
  clock : now ≤ s.timestamp
  record : ∃ auction', s.auctions k = some auction' ∧ Leads now auction auction'

theorem followed_step {now : ℕ} {auction : Auction} (s : State W) (a : Action W)
    (hf : Followed k now auction s) : Followed k now auction (step h s a) := by
  obtain ⟨current, hc, hlead⟩ := hf.record
  obtain ⟨next, hn, hnext⟩ := step_leads (h := h) a hf.valid hc
  exact { valid := step_valid s a hf.valid
          clock := hf.clock.trans (step_timestamp_le a hf.valid)
          record := ⟨next, hn, hlead.trans hnext hf.clock⟩ }

theorem followed_run (g : Genesis W) (before after : List (Action W)) {auction : Auction}
    (ha : (runFrom h g before).auctions k = some auction) :
    Followed k (runFrom h g before).timestamp auction (runFrom h g (before ++ after)) := by
  have hstart : Followed k (runFrom h g before).timestamp auction (runFrom h g before) :=
    ⟨runFrom_valid g before, le_refl _, auction, ha, Leads.refl _ _⟩
  rw [runFrom_append]
  exact Runs.run_invariant' followed_step hstart after

section Ids

def Allocated (s : State W) : Prop :=
  ∀ k, 1 ≤ k → k < s.nextId → ∃ auction, s.auctions k = some auction

theorem allocated_step (s : State W) (a : Action W) (hP : s.Valid ∧ Allocated s) :
    (step h s a).Valid ∧ Allocated (step h s a) := by
  refine ⟨step_valid s a hP.1, ?_⟩
  cases a with
  | call signers c =>
    cases he : exec h signers c s with
    | error e =>
      rw [step_call_error he]
      exact hP.2
    | ok s' =>
      rw [step_call_ok he]
      obtain ⟨moves, new, hp⟩ := exec_progress hP.1 he
      intro k hlow hhigh
      by_cases hk : k = c.auctionId s
      · exact ⟨new, hk ▸ hp.auction_at⟩
      · rw [hp.other hk]
        apply hP.2 k hlow
        rw [State.nextId] at hhigh ⊢
        obtain ⟨hid, hcount, -⟩ | ⟨-, hcount⟩ := hp.counter
        · rw [hcount, Option.getD_some] at hhigh
          omega
        · rwa [hcount] at hhigh
  | closeLedger timestamp sequence =>
    rw [step]
    split
    · exact hP.2
    · exact hP.2
  | outside tokens => exact hP.2

theorem genesis_allocated (g : Genesis W) : Allocated (g.state h) :=
  fun _ hlow hhigh => absurd hlow (Nat.not_le.mpr hhigh)

theorem run_intact (g : Genesis W) (actions : List (Action W)) :
    (runFrom h g actions).Intact := by
  have hstart : (g.state h).Valid ∧ Allocated (g.state h) := ⟨genesis_valid g, genesis_allocated g⟩
  have hP : (runFrom h g actions).Valid ∧ Allocated (runFrom h g actions) :=
    Runs.run_invariant' allocated_step hstart actions
  have hstored := hP.1.stored
  have hbound : ∀ k, (∃ auction, (runFrom h g actions).auctions k = some auction) →
      1 ≤ k ∧ k < (runFrom h g actions).nextId := by
    intro k hk
    obtain ⟨auction, ha⟩ := hk
    exact ⟨(hstored k auction ha).1, (hstored k auction ha).2.1⟩
  exact { ids := fun k => ⟨hbound k, fun hk => hP.2 k hk.1 hk.2⟩
          slots := fun k auction ha => (hstored k auction ha).2.2.slots
          marker := fun k auction ha => (hstored k auction ha).2.2.marker
          distinct := fun k auction ha => (hstored k auction ha).2.2.distinct
          reclaimed := fun k auction ha => (hstored k auction ha).2.2.held }

end Ids

theorem bid_of_event (g : Genesis W) (actions : List (Action W)) {ledger slotIndex : ℕ}
    {bidder : Address} {commitment : U256} {encryptedBid : List UInt8}
    (he : (ledger, Event.BidPlaced k slotIndex bidder commitment encryptedBid) ∈
      (runFrom h g actions).events) :
    ∃ auction, (runFrom h g actions).auctions k = some auction ∧
      auction.bids[slotIndex]? = some ⟨bidder, commitment⟩ := by
  have hrecord : (⟨ledger, slotIndex, bidder, commitment, encryptedBid⟩ : BidRecord) ∈
      bidLog (runFrom h g actions) k :=
    List.mem_filterMap.mpr ⟨_, he, by simp [bidRecord]⟩
  have hstored := List.mem_map_of_mem (f := BidRecord.stored) hrecord
  rw [bidLog_stored, List.mem_zipIdx_iff_getElem?] at hstored
  cases ha : (runFrom h g actions).auctions k with
  | none =>
    rw [storedBids, ha] at hstored
    exact absurd hstored (by simp)
  | some auction =>
    rw [storedBids_some ha] at hstored
    exact ⟨auction, rfl, hstored⟩

theorem Leads.signals {now : ℕ} {a b : Auction} (hab : Leads now a b)
    (due : a.commitDeadline ≤ now) (winnerIndex : ℕ) (winningPrice : ℤ) (winner : Address) :
    buildPublicSignals h b k winnerIndex winningPrice winner =
      buildPublicSignals h a k winnerIndex winningPrice winner := by
  have hbids : b.bids = a.bids := by
    by_contra hne
    exact absurd (hab.growth hne).2 (not_lt_of_ge due)
  simp only [buildPublicSignals, hbids, hab.root]

/-- The lifecycle of every auction over every run: the stored records of each reachable state,
what each moment promises of all later ones, the slots the bid events name, and the public
vector from the deadline on. -/
theorem lifecycle_holds (h : Host W) (g : Genesis W) (before : List (Action W)) :
    (runFrom h g before).Intact ∧
    (∀ k ledger slotIndex bidder commitment encryptedBid,
      (ledger, Event.BidPlaced k slotIndex bidder commitment encryptedBid) ∈
        (runFrom h g before).events →
      ∀ after, ∃ auction, (runFrom h g (before ++ after)).auctions k = some auction ∧
        auction.bids[slotIndex]? = some ⟨bidder, commitment⟩) ∧
    ∀ k auction, (runFrom h g before).auctions k = some auction → ∀ after,
      ∃ auction', (runFrom h g (before ++ after)).auctions k = some auction' ∧
        Leads (runFrom h g before).timestamp auction auction' ∧
        (runFrom h g (before ++ after)).verifier = (runFrom h g before).verifier ∧
        (auction.commitDeadline ≤ (runFrom h g before).timestamp →
          ∀ winnerIndex winningPrice winner,
            buildPublicSignals h auction' k winnerIndex winningPrice winner =
              buildPublicSignals h auction k winnerIndex winningPrice winner) := by
  refine ⟨run_intact g before, ?_, ?_⟩
  · intro k ledger slotIndex bidder commitment encryptedBid he after
    obtain ⟨auction, ha, hslot⟩ := bid_of_event g before he
    obtain ⟨auction', ha', hlead⟩ := (followed_run g before after ha).record
    refine ⟨auction', ha', ?_⟩
    obtain ⟨later, hlater⟩ := hlead.bids
    rw [← hlater]
    exact List.getElem?_append_left (List.getElem?_eq_some_iff.mp hslot).1 |>.trans hslot
  · intro k auction ha after
    obtain ⟨auction', ha', hlead⟩ := (followed_run g before after ha).record
    refine ⟨auction', ha', hlead, ?_, fun due => hlead.signals due⟩
    rw [runFrom_verifier, runFrom_verifier]

end SealedStellar
