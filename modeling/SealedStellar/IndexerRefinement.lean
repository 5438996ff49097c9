import SealedStellar.IndexerReads
import SealedStellar.Sac

/-! The store as a projection of the contract. A refund that returns the lot in the same call does
not say so in its events: the row of an auction that was read before keeps its lot unreclaimed. -/
namespace SealedStellar.Indexer
open LastWrite
variable {W : Type} {h : Host W} {strKey : StrKey} {txHash : ℕ × Event → Option String} {k : ℕ}

structure Projected (strKey : StrKey) (processed : List (ℕ × Event)) (k : ℕ) (auction : Auction)
    (row : AuctionListRow) : Prop where
  status : row.status = auction.status
  filledSlots : row.filledSlots = auction.bids.length
  lotReclaimed : row.lotReclaimed = auction.lotReclaimed
  outcome : auction.status = .Settled → ∀ winner winningPrice,
    .AuctionSettled k winner winningPrice ∈ ofAuction k processed →
      row.winner = some (strKey.encode winner) ∧ row.clearingPrice = some (toString winningPrice)

/-- Where no event speaks of the lot of a refunded auction, its record was read after the refund. -/
def LotSeen (log : List Event) (auction read : Auction) : Prop :=
  auction.status = .Refunded → (∀ e ∈ log, e.lot = none) → read.status = .Refunded

section Replay
variable {log more : List Event} {j : ℕ} {auction read : Auction} {row row' : AuctionDbRow}

theorem replayed_status (hread : Recorded log read) (hnow : Recorded (log ++ more) auction)
    (hsnap : Snapshot (decodedAuction strKey read) row)
    (hw : Written strKey (log.drop j ++ more) row row') :
    (toListRow row').status = auction.status := by
  have hstart : row.status = statusName (lastWrite Event.status .Open log) :=
    hsnap.status.trans (congrArg statusName hread.status)
  have hend : row'.status = statusName auction.status := by
    rw [hw.status, hstart, lastWrite_map, lastWrite_replay, hnow.status]
  exact (congrArg parseStatus hend).trans (parseStatus_statusName auction.status)

theorem replayed_lot (hread : Recorded log read) (hsnap : Snapshot (decodedAuction strKey read) row)
    (hw : Written strKey (log.drop j ++ more) row row') : (toListRow row').lotReclaimed =
      lastWrite Event.lot (decide (read.status = .Refunded)) (log ++ more) := by
  have hstart : row.lotReclaimed = (fun b => if b then 1 else 0)
      (lastWrite Event.lot (decide (read.status = .Refunded)) log) := by
    rw [← hread.lot]
    exact hsnap.lot
  have hend : row'.lotReclaimed = (fun b => if b then 1 else 0)
      (lastWrite Event.lot (decide (read.status = .Refunded)) (log ++ more)) := by
    rw [hw.lot, hstart, lastWrite_map, lastWrite_replay]
  rw [toListRow, hend]
  cases lastWrite Event.lot (decide (read.status = .Refunded)) (log ++ more) <;> rfl

theorem replayed_lot_iff (hread : Recorded log read) (hnow : Recorded (log ++ more) auction)
    (hsnap : Snapshot (decodedAuction strKey read) row)
    (hw : Written strKey (log.drop j ++ more) row row') :
    (toListRow row').lotReclaimed = auction.lotReclaimed ↔ LotSeen (log ++ more) auction read := by
  rw [replayed_lot hread hsnap hw, hnow.lot, LotSeen]
  by_cases hquiet : ∀ e ∈ log ++ more, e.lot = none
  · rw [lastWrite_keep hquiet, lastWrite_keep hquiet, decide_eq_decide]
    constructor
    · exact fun hsame hrefunded _ => hsame.mpr hrefunded
    · intro hseen
      refine ⟨fun hrefunded => ?_, fun hrefunded => hseen hrefunded hquiet⟩
      have hclosed : read.status ≠ .Open := by simp [hrefunded]
      rw [hread.closed_stays hnow hclosed, hrefunded]
  · have htold : ∃ e ∈ log ++ more, e.lot ≠ none := by simpa using hquiet
    obtain ⟨e, he, hne⟩ := htold
    obtain ⟨b, hb⟩ := Option.ne_none_iff_exists'.mp hne
    exact iff_of_true (lastWrite_irrel he hb _ _) fun _ h => absurd h hquiet

theorem settlement_unique {o o' : Address × ℤ} {e e' : Event} (hr : Recorded log auction)
    (he : e ∈ log) (ho : e.settlement = some o) (he' : e' ∈ log) (ho' : e'.settlement = some o') :
    o' = o := by
  have hmem : o ∈ log.filterMap Event.settlement := List.mem_filterMap.mpr ⟨e, he, ho⟩
  have hmem' : o' ∈ log.filterMap Event.settlement := List.mem_filterMap.mpr ⟨e', he', ho'⟩
  have hlength : (log.filterMap Event.settlement).length ≤ 1 := by
    rw [hr.settled]
    split <;> omega
  exact eq_of_length_le_one hlength hmem' hmem

theorem written_outcome {processed : List Event} (hr : Recorded log auction)
    (hsub : processed ⊆ log) (hw : Written strKey processed row row') {winner : Address}
    {winningPrice : ℤ} (he : .AuctionSettled k winner winningPrice ∈ processed) :
    (toListRow row').winner = some (strKey.encode winner) ∧
      (toListRow row').clearingPrice = some (toString winningPrice) := by
  have hwrite : (row'.clearingPrice, row'.winner) =
      (some (toString winningPrice), some (strKey.encode winner)) := by
    rw [hw.outcome]
    refine lastWrite_agree he rfl fun e' he' b hb => ?_
    obtain ⟨o, ho, rfl⟩ := Option.map_eq_some_iff.mp hb
    rw [settlement_unique hr (hsub he) rfl (hsub he') ho]
  exact ⟨congrArg Prod.snd hwrite, congrArg Prod.fst hwrite⟩

theorem written_settled {processed : List Event} (hr : Recorded log auction)
    (hsub : processed ⊆ log) (hw : Written strKey processed row row') {winner : Address}
    {winningPrice : ℤ} (he : .AuctionSettled k winner winningPrice ∈ processed) :
    (toListRow row').status = .Settled := by
  have hsettled := hr.status_unique (hsub he) rfl
  have hwrite : row'.status = statusName .Settled := by
    rw [hw.status]
    refine lastWrite_agree he rfl fun e' he' b hb => ?_
    obtain ⟨status, hstatus, rfl⟩ := Option.map_eq_some_iff.mp hb
    rw [hr.status_unique (hsub he') hstatus, hsettled]
  exact (congrArg parseStatus hwrite).trans (parseStatus_statusName .Settled)

end Replay

section Taken
variable {s s' : State W} {ix : IndexerState} {rs : List Reading} {q : ℕ} {read auction : Auction}

theorem run_slots {more : List Event} (hread : Recorded (auctionLog s k) read)
    (hnow : Recorded (auctionLog s' k) auction) (hlog : auctionLog s' k = auctionLog s k ++ more)
    (hmore : ∀ e ∈ more, ∃ r ∈ rs, r.event.2 = e) (ht : Taken strKey ix.store k read) (i : ℕ)
    (hi : i < auction.bids.length) : (k, (i : ℤ)) ∈
      ((Runs.run (advance strKey txHash) ix rs).store.bidsOf k).map BidRow.key := by
  let bid : BidRow := ⟨k, i, strKey.encode auction.bids[i].bidder⟩
  have hbid : BidOf strKey auction.bids k bid := ⟨i, _, List.getElem?_eq_getElem hi, rfl⟩
  obtain ⟨e, he, hrow⟩ := (bidOf_iff hnow).mp hbid
  rw [key_bidsOf]
  change e ∈ auctionLog s' k at he
  rw [hlog] at he
  cases List.mem_append.mp he with
  | inl hold =>
    obtain ⟨i', b, hi', hslot⟩ := (bidOf_iff hread).mpr ⟨e, hold, hrow⟩
    have hsame : (i : ℤ) = i' := congrArg BidRow.slotIndex hslot
    have hlt : i < read.bids.length := by
      have hlt' := (List.getElem?_eq_some_iff.mp hi').1
      omega
    have hkey := (key_bidsOf ix.store k i).mp (ht.slots i hlt)
    exact List.map_subset _ run_subset hkey
  | inr hnew =>
    obtain ⟨r, hr, rfl⟩ := hmore e hnew
    exact run_key hr hrow

structure ProjectedFrom (strKey : StrKey) (log : List Event) (processed : List (ℕ × Event)) (k : ℕ)
    (auction read : Auction) (row : AuctionListRow) : Prop where
  status : row.status = auction.status
  filledSlots : row.filledSlots = auction.bids.length
  lotReclaimed : row.lotReclaimed = auction.lotReclaimed ↔ LotSeen log auction read
  outcome : ∀ winner winningPrice, .AuctionSettled k winner winningPrice ∈ ofAuction k processed →
    row.winner = some (strKey.encode winner) ∧ row.clearingPrice = some (toString winningPrice)

/-- The row of an auction that was read in state s, after the events that follow a point not later
than s. -/
theorem taken_projected (hs : Recounted s) (hs' : Recounted s') (hgrow : s.events <+: s'.events)
    (hq : q ≤ s.events.length) (hread : s.auctions k = some read)
    (hnow : s'.auctions k = some auction) (ht : Taken strKey ix.store k read)
    (hrs : rs.map Reading.event = s'.events.drop q)
    (hg : Genuine strKey s'.events (Runs.run (advance strKey txHash) ix rs).store) :
    ∃ row, (Runs.run (advance strKey txHash) ix rs).store.getById k = some row ∧
      ProjectedFrom strKey (auctionLog s' k) (s'.events.drop q) k auction read row := by
  have hrecorded : Recorded (auctionLog s k) read := hs.stored k read hread
  have hrecorded' : Recorded (auctionLog s' k) auction := hs'.stored k auction hnow
  obtain ⟨j, more, hlog, hafter⟩ := auctionLog_replay hgrow hq k
  obtain ⟨row, hrow, hsnap⟩ := ht.row
  obtain ⟨row', hrow', hw, hc⟩ := run_row strKey txHash rs hrow ht.counted
  have hmore : ∀ e ∈ more, ∃ r ∈ rs, r.event.2 = e := by
    intro e he
    have hmem : e ∈ ofAuction k (s'.events.drop q) := by
      rw [hafter]
      exact List.mem_append_right _ he
    rw [← hrs] at hmem
    obtain ⟨-, ledger, hledger⟩ := mem_ofAuction.mp hmem
    obtain ⟨r, hr, hevent⟩ := List.mem_map.mp hledger
    exact ⟨r, hr, congrArg Prod.snd hevent⟩
  have hcount := count_of_slots hg hrecorded' (run_slots hrecorded hrecorded' hlog hmore ht)
  rw [hrs] at hw
  refine ⟨toListRow row', congrArg (Option.map toListRow) hrow', ?_⟩
  exact {
    status := by
      rw [hafter] at hw
      exact replayed_status hrecorded (hlog ▸ hrecorded') hsnap hw
    filledSlots := (hc row' hrow').trans hcount
    lotReclaimed := by
      rw [hafter] at hw
      rw [hlog] at hrecorded' ⊢
      exact replayed_lot_iff hrecorded hrecorded' hsnap hw
    outcome := by
      intro winner winningPrice he
      refine written_outcome hrecorded' (fun e he => ?_) hw he
      obtain ⟨hid, ledger, hmem⟩ := mem_ofAuction.mp he
      exact mem_ofAuction.mpr ⟨hid, ledger, List.mem_of_mem_drop hmem⟩ }

end Taken

section Reads
variable {view : ChainView} {s : State W}

theorem answers_missing_iff (hview : view.Answers strKey s) (k : ℕ) :
    view.Missing k ↔ s.auctions k = none := by
  rw [← enrich_missing_iff ⟨.empty, fun _ => none⟩, enrich_answers _ hview]
  cases s.auctions k <;> simp

theorem answers_readable_iff (hview : view.Answers strKey s) (cache : String → Option String)
    (k : ℕ) : view.Readable cache k ↔ (s.auctions k).isSome := by
  rw [← enrich_indexed_iff ⟨.empty, cache⟩, enrich_answers _ hview]
  cases s.auctions k <;> simp

end Reads

def Covered (backfillMaxId : ℕ) (moment : ℕ → State W) (k : ℕ) : Prop :=
  k ≤ backfillMaxId ∧ ∀ j, 1 ≤ j → j ≤ k → ((moment j).auctions j).isSome

theorem readInBackfill_iff {backfillMaxId : ℕ} {views : ℕ → ChainView} {moment : ℕ → State W}
    (hviews : ∀ j, (views j).Answers strKey (moment j)) (ix : IndexerState) (hk : 1 ≤ k) :
    ReadInBackfill backfillMaxId views ix k ↔ Covered backfillMaxId moment k := by
  constructor
  · intro hread
    obtain ⟨-, hcap, hthere, hreadable⟩ := hread
    refine ⟨hcap, fun j hj hjk => ?_⟩
    by_cases he : j = k
    · subst he
      exact (answers_readable_iff (hviews j) _ j).mp hreadable
    · have hstored := hthere j hj (by omega)
      rw [answers_missing_iff (hviews j)] at hstored
      exact Option.isSome_iff_ne_none.mpr hstored
  · intro hcovered
    obtain ⟨hcap, hstored⟩ := hcovered
    refine ⟨hk, hcap, fun j hj hjk hmissing => ?_, ?_⟩
    · have hsome := hstored j hj hjk.le
      rw [(answers_missing_iff (hviews j) j).mp hmissing] at hsome
      cases hsome
    · exact (answers_readable_iff (hviews k) _ k).mpr (hstored k hk (le_refl k))

/-- The indexer backfills while the contract runs, and then applies its log from point p on, each
event after it was published and with every read succeeding. -/
structure Replayed (h : Host W) (g : Genesis W) (actions : List (Action W)) (strKey : StrKey)
    (views : ℕ → ChainView) (moment : ℕ → ℕ) (p : ℕ) (readings : List Reading) : Prop where
  backfilled : ∀ j, (views j).Answers strKey (stateAt h g actions (moment j))
  start : ∀ j, p ≤ (stateAt h g actions (moment j)).events.length
  log : readings.map Reading.event = (runFrom h g actions).events.drop p
  reads : ∀ r ∈ readings, r.view.Answers strKey (stateAt h g actions r.moment)
  published : ∀ i r, readings[i]? = some r →
    p + i < (stateAt h g actions r.moment).events.length

inductive ReadAt (h : Host W) (g : Genesis W) (actions : List (Action W)) (backfillMaxId : ℕ)
    (moment : ℕ → ℕ) (readings : List Reading) (k : ℕ) : ℕ → Prop
  | backfill (covered : Covered backfillMaxId (fun j => stateAt h g actions (moment j)) k) :
      ReadAt h g actions backfillMaxId moment readings k (moment k)
  | created (uncovered : ¬Covered backfillMaxId (fun j => stateAt h g actions (moment j)) k)
      (r : Reading) (applied : r ∈ readings) (creation : r.event.2.isCreated)
      (about : r.event.2.auctionId = k) :
      ReadAt h g actions backfillMaxId moment readings k r.moment

section Honest

def honestView (strKey : StrKey) (s : State W) : ChainView where
  auction := fun k =>
    match s.auctions k with
    | some auction => .result (rawAuctionRecord strKey auction)
    | none => .error "Error(Contract, #1)"
  symbol := fun _ => .result (some "TKN")

theorem honestView_answers (strKey : StrKey) (s : State W) :
    (honestView strKey s).Answers strKey s where
  found := by
    intro k auction ha
    simp only [honestView, ha]
  missing := by
    intro k ha
    exact ⟨"Error(Contract, #1)", by simp only [honestView, ha], by decide⟩
  symbols := fun _ => ⟨"TKN", rfl⟩

theorem replayed_honest (g : Genesis W) (actions : List (Action W)) (strKey : StrKey) {n p : ℕ}
    (hp : p ≤ (stateAt h g actions n).events.length) :
    Replayed h g actions strKey (fun _ => honestView strKey (stateAt h g actions n)) (fun _ => n) p
      (((runFrom h g actions).events.drop p).map fun e =>
        ⟨actions.length, honestView strKey (runFrom h g actions), e⟩) where
  backfilled := fun _ => honestView_answers strKey _
  start := fun _ => hp
  log := by
    rw [List.map_map]
    exact List.map_id _
  reads := by
    intro r hr
    obtain ⟨e, -, rfl⟩ := List.mem_map.mp hr
    rw [stateAt, List.take_length]
    exact honestView_answers strKey _
  published := by
    intro i r hr
    rw [List.getElem?_map, List.getElem?_drop] at hr
    obtain ⟨e, he, rfl⟩ := Option.map_eq_some_iff.mp hr
    rw [stateAt, List.take_length]
    exact (List.getElem?_eq_some_iff.mp he).1

end Honest

section Refinement
variable {g : Genesis W} {actions : List (Action W)} {views : ℕ → ChainView} {moment : ℕ → ℕ}
  {p backfillMaxId : ℕ} {readings : List Reading} {cache : String → Option String} {auction : Auction}

theorem Replayed.genuine (hr : Replayed h g actions strKey views moment p readings) :
    Genuine strKey (runFrom h g actions).events
      (ingested strKey txHash backfillMaxId views cache readings).store := by
  have hreads : ∀ r ∈ readings, r.event ∈ (runFrom h g actions).events ∧ ∃ s : State W,
      r.view.Shows strKey s ∧ Recounted s ∧ s.events ⊆ (runFrom h g actions).events := by
    intro r hmem
    have hevent : r.event ∈ (runFrom h g actions).events.drop p := by
      rw [← hr.log]
      exact List.mem_map_of_mem hmem
    exact ⟨List.mem_of_mem_drop hevent, _, (hr.reads r hmem).shows, stateAt_recounted g actions _,
      (stateAt_events g actions _).subset⟩
  exact genuine_ingested (fun j => (hr.backfilled j).shows) (fun j => stateAt_recounted g actions _)
    (fun j => (stateAt_events g actions _).subset) hreads backfillMaxId cache

theorem Replayed.creation (hr : Replayed h g actions strKey views moment p readings)
    (ha : (runFrom h g actions).auctions k = some auction) {before after : List Reading} {r : Reading}
    (hsplit : readings = before ++ r :: after) (hcreated : r.event.2.isCreated)
    (hid : r.event.2.auctionId = k) : ∀ r' ∈ before, r'.event.2.auctionId ≠ k := by
  have hrecorded : Recorded (auctionLog (runFrom h g actions) k) auction :=
    (run_recounted g actions).stored k auction ha
  have hsuffix : ofAuction k (readings.map Reading.event) <:+ auctionLog (runFrom h g actions) k := by
    rw [hr.log, auctionLog]
    refine ⟨ofAuction k ((runFrom h g actions).events.take p), ?_⟩
    rw [← ofAuction_append, List.take_append_drop]
  have hlog : ofAuction k (readings.map Reading.event) =
      ofAuction k (before.map Reading.event) ++ r.event.2 :: ofAuction k (after.map Reading.event) := by
    subst hid
    rw [hsplit, List.map_append, ofAuction_append, List.map_cons, ofAuction_cons, ofAuction_single]
    rfl
  rw [hlog] at hsuffix
  have hnil := (hrecorded.created_first hsuffix hcreated).1
  intro r' hr' hk
  have hmem : r'.event.2 ∈ ofAuction k (before.map Reading.event) :=
    mem_ofAuction.mpr ⟨hk, r'.event.1, List.mem_map_of_mem hr'⟩
  rw [hnil] at hmem
  exact absurd hmem List.not_mem_nil

theorem Replayed.seen (hr : Replayed h g actions strKey views moment p readings) {i : ℕ} {r : Reading}
    (hi : readings[i]? = some r) : r.event ∈ (stateAt h g actions r.moment).events := by
  have hlt := hr.published i r hi
  have hget : (runFrom h g actions).events[p + i]? = some r.event := by
    rw [← List.getElem?_drop, ← hr.log, List.getElem?_map, hi, Option.map_some]
  obtain ⟨later, hlater⟩ := stateAt_events (h := h) g actions r.moment
  rw [← hlater, List.getElem?_append_left hlt] at hget
  exact List.mem_of_getElem? hget

theorem Replayed.backfilled_row (hr : Replayed h g actions strKey views moment p readings)
    (ha : (runFrom h g actions).auctions k = some auction)
    (hcovered : Covered backfillMaxId (fun j => stateAt h g actions (moment j)) k) :
    ∃ read, (stateAt h g actions (moment k)).auctions k = some read ∧
    ∃ row,
      (ingested strKey txHash backfillMaxId views cache readings).store.getById k = some row ∧
      ProjectedFrom strKey (auctionLog (runFrom h g actions) k)
        ((runFrom h g actions).events.drop p) k auction read row := by
  have hpos : 1 ≤ k := ((runFrom_valid g actions).stored k auction ha).1
  have hread := (readInBackfill_iff hr.backfilled ⟨.empty, cache⟩ hpos).mpr hcovered
  obtain ⟨read, hstored, htaken⟩ := backfill_taken (fun j => (hr.backfilled j).shows) hread
  exact ⟨read, hstored, taken_projected (stateAt_recounted g actions _) (run_recounted g actions)
    (stateAt_events g actions _) (hr.start k) hstored ha htaken hr.log hr.genuine⟩

theorem Replayed.created_row (hr : Replayed h g actions strKey views moment p readings)
    (ha : (runFrom h g actions).auctions k = some auction)
    (hunread : ¬ReadInBackfill backfillMaxId views ⟨.empty, cache⟩ k) {r : Reading}
    (hmem : r ∈ readings) (hcreated : r.event.2.isCreated) (hid : r.event.2.auctionId = k) :
    ∃ read, (stateAt h g actions r.moment).auctions k = some read ∧
    ∃ row,
      (ingested strKey txHash backfillMaxId views cache readings).store.getById k = some row ∧
      ProjectedFrom strKey (auctionLog (runFrom h g actions) k)
        ((runFrom h g actions).events.drop p) k auction read row := by
  subst hid
  obtain ⟨before, after, hsplit⟩ := List.append_of_mem hmem
  have hother := hr.creation ha hsplit hcreated rfl
  let ix := ingested strKey txHash backfillMaxId views cache before
  have hfresh : AuctionStore.empty.Agree ix.store r.event.2.auctionId :=
    (backfill_unread hunread).trans (run_agree hother)
  have hget : readings[before.length]? = some r := by
    rw [hsplit, List.getElem?_append_right (le_refl _), Nat.sub_self, List.getElem?_cons_zero]
  obtain ⟨-, seen, hseen⟩ := run_event_auction g _ (hr.seen hget)
  have hreadable : r.view.Readable ix.tokenSymbolCache r.event.2.auctionId :=
    (answers_readable_iff (hr.reads r hmem) _ _).mpr (Option.isSome_iff_exists.mpr ⟨seen, hseen⟩)
  obtain ⟨read, hstored, htaken⟩ :=
    enrich_taken (hr.reads r hmem).shows hreadable hfresh.row fun _ _ _ => hfresh.bids
  rw [← advance_created hfresh.row hcreated] at htaken
  have hrun : ingested strKey txHash backfillMaxId views cache readings =
      Runs.run (advance strKey txHash) (advance strKey txHash ix r) after := by
    rw [hsplit, ingested_split]
  have hafter : after.map Reading.event =
      (runFrom h g actions).events.drop (p + before.length + 1) := by
    have hdrop : readings.drop (before.length + 1) = after := by simp [hsplit]
    rw [← hdrop, List.map_drop, hr.log, List.drop_drop, Nat.add_assoc]
  have hgenuine : Genuine strKey (runFrom h g actions).events (Runs.run (advance strKey txHash)
      (advance strKey txHash ix r) after).store := hrun ▸ hr.genuine
  obtain ⟨row, hrow, hfrom⟩ := taken_projected (stateAt_recounted g actions _)
    (run_recounted g actions) (stateAt_events g actions _) (hr.published _ r hget) hstored ha htaken
    hafter hgenuine
  rw [← hrun] at hrow
  refine ⟨read, hstored, row, hrow, hfrom.status, hfrom.filledSlots, hfrom.lotReclaimed, ?_⟩
  -- a settlement comes after the creation, so it is among the events that the row takes up
  intro winner winningPrice he
  apply hfrom.outcome winner winningPrice
  rw [← hr.log] at he
  rw [← hafter]
  obtain ⟨-, ledger, hledger⟩ := mem_ofAuction.mp he
  obtain ⟨r', hr', hevent⟩ := List.mem_map.mp hledger
  have hid' : r'.event.2.auctionId = r.event.2.auctionId := by rw [hevent, Event.auctionId]
  rw [hsplit] at hr'
  cases List.mem_append.mp hr' with
  | inl hbefore => exact absurd hid' (hother r' hbefore)
  | inr hrest =>
    cases List.mem_cons.mp hrest with
    | inl hsame =>
      rw [← hsame, hevent] at hcreated
      cases hcreated
    | inr hlater =>
      exact mem_ofAuction.mpr ⟨rfl, ledger, List.mem_map.mpr ⟨r', hlater, hevent⟩⟩

theorem Replayed.read_of_row (hr : Replayed h g actions strKey views moment p readings) (hk : 1 ≤ k)
    {row : AuctionListRow} (hrow : (ingested strKey txHash backfillMaxId views cache
      readings).store.getById k = some row) :
    ∃ n, ReadAt h g actions backfillMaxId moment readings k n := by
  by_cases hcovered : Covered backfillMaxId (fun j => stateAt h g actions (moment j)) k
  · exact ⟨moment k, .backfill hcovered⟩
  · by_cases hcreated : ∃ r ∈ readings, r.event.2.auctionId = k ∧ r.event.2.isCreated
    · obtain ⟨r, hmem, hid, hcreated⟩ := hcreated
      exact ⟨r.moment, .created hcovered r hmem hcreated hid⟩
    · have hunread : ¬ReadInBackfill backfillMaxId views ⟨.empty, cache⟩ k :=
        fun hread => hcovered ((readInBackfill_iff hr.backfilled _ hk).mp hread)
      have hnone : (ingested strKey txHash backfillMaxId views cache
          readings).store.auctions.find k = none := by
        apply run_absent (backfill_unread hunread).row
        intro r hmem hid
        exact Bool.eq_false_iff.mpr fun h => hcreated ⟨r, hmem, hid, h⟩
      rw [AuctionStore.getById, hnone] at hrow
      cases hrow

/-- Every row is the projection of its auction exactly when each auction is read at all, and where a
refund returned the lot unannounced, after that refund. -/
theorem projected_iff (h : Host W) (g : Genesis W) (actions : List (Action W)) (strKey : StrKey)
    (txHash : ℕ × Event → Option String) (backfillMaxId : ℕ) (views : ℕ → ChainView)
    (cache : String → Option String) (moment : ℕ → ℕ) (p : ℕ) (readings : List Reading)
    (hr : Replayed h g actions strKey views moment p readings) (k : ℕ) (auction : Auction)
    (ha : (runFrom h g actions).auctions k = some auction) :
    (∃ row, (applyEvents (backfill backfillMaxId views ⟨.empty, cache⟩)
        (readings.map (Reading.applied strKey txHash))).store.getById k = some row ∧
      Projected strKey ((runFrom h g actions).events.drop p) k auction row) ↔
    ∃ n read, ReadAt h g actions backfillMaxId moment readings k n ∧
      (stateAt h g actions n).auctions k = some read ∧
      LotSeen (auctionLog (runFrom h g actions) k) auction read := by
  rw [applyEvents_ingested]
  have hpos : 1 ≤ k := ((runFrom_valid g actions).stored k auction ha).1
  have hread : ∀ n, ReadAt h g actions backfillMaxId moment readings k n →
      ∃ read, (stateAt h g actions n).auctions k = some read ∧
      ∃ row,
        (ingested strKey txHash backfillMaxId views cache readings).store.getById k = some row ∧
        ProjectedFrom strKey (auctionLog (runFrom h g actions) k)
          ((runFrom h g actions).events.drop p) k auction read row := by
    intro n hn
    cases hn with
    | backfill covered => exact hr.backfilled_row ha covered
    | created uncovered r applied creation about =>
      have hunread : ¬ReadInBackfill backfillMaxId views ⟨.empty, cache⟩ k :=
        fun hread => uncovered ((readInBackfill_iff hr.backfilled _ hpos).mp hread)
      exact hr.created_row ha hunread applied creation about
  constructor
  · intro hproj
    obtain ⟨row, hrow, hproj⟩ := hproj
    obtain ⟨n, hn⟩ := hr.read_of_row hpos hrow
    obtain ⟨read, hstored, row', hrow', hfrom⟩ := hread n hn
    rw [hrow] at hrow'
    cases hrow'
    exact ⟨n, read, hn, hstored, hfrom.lotReclaimed.mp hproj.lotReclaimed⟩
  · intro hseen
    obtain ⟨n, read, hn, hstored, hlot⟩ := hseen
    obtain ⟨read', hstored', row, hrow, hfrom⟩ := hread n hn
    rw [hstored] at hstored'
    cases hstored'
    exact ⟨row, hrow, hfrom.status, hfrom.filledSlots, hfrom.lotReclaimed.mpr hlot,
      fun _ => hfrom.outcome⟩

end Refinement

/-- The refund returns the lot, the backfill has read the auction while it was open, and no event
tells the row. -/
theorem refund_untold :
    let h := sacHost (.contract (keyOf 0)) (fun _ _ _ => none) firstInput
    let g : Genesis SacState := ⟨.contract (keyOf 1), evenTokens 100, 0, 1⟩
    let seller : Address := .account (keyOf 2)
    let args : CreateArgs := ⟨seller, .contract (keyOf 10), 7, .contract (keyOf 11), 5, 10, 3, 0,
      keyOf 9⟩
    let actions : List (Action SacState) :=
      [.call [seller] (.createAuction args), .closeLedger 13 2, .call [] (.refundAll 1)]
    let views := fun _ : ℕ => honestView sep23 (stateAt h g actions 1)
    let readings : List Reading := ((runFrom h g actions).events.drop 0).map fun e =>
      ⟨3, honestView sep23 (runFrom h g actions), e⟩
    Replayed h g actions sep23 views (fun _ => 1) 0 readings ∧
      ∃ auction, (runFrom h g actions).auctions 1 = some auction ∧ auction.lotReclaimed = true ∧
        ¬∃ row, (applyEvents (backfill 1000 views ⟨.empty, fun _ => none⟩)
            (readings.map (Reading.applied sep23 fun _ => none))).store.getById 1 = some row ∧
          Projected sep23 ((runFrom h g actions).events.drop 0) 1 auction row := by
  intro h g seller args actions views readings
  have hr : Replayed h g actions sep23 views (fun _ => 1) 0 readings :=
    replayed_honest g actions sep23 (Nat.zero_le _)
  have hcovered : Covered 1000 (fun _ => stateAt h g actions 1) 1 := by
    refine ⟨by decide, fun j hj hjk => ?_⟩
    have hone : j = 1 := by omega
    subst hone
    rfl
  refine ⟨hr, _, rfl, rfl, fun hproj => ?_⟩
  obtain ⟨row, hrow, hproj⟩ := hproj
  obtain ⟨read, hread, row', hrow', hfrom⟩ := hr.backfilled_row rfl hcovered
  rw [applyEvents_ingested, hrow'] at hrow
  cases hrow
  cases hread
  exact absurd (hfrom.lotReclaimed.mp hproj.lotReclaimed rfl (by decide)) (by decide)

/-- Backfilled after the refund, the row has its lot back. -/
theorem projected_iff_witness :
    let h := sacHost (.contract (keyOf 0)) (fun _ _ _ => none) firstInput
    let g : Genesis SacState := ⟨.contract (keyOf 1), evenTokens 100, 0, 1⟩
    let seller : Address := .account (keyOf 2)
    let args : CreateArgs := ⟨seller, .contract (keyOf 10), 7, .contract (keyOf 11), 5, 10, 3, 0,
      keyOf 9⟩
    let actions : List (Action SacState) :=
      [.call [seller] (.createAuction args), .closeLedger 13 2, .call [] (.refundAll 1)]
    let views := fun _ : ℕ => honestView sep23 (stateAt h g actions 3)
    let readings : List Reading := ((runFrom h g actions).events.drop 0).map fun e =>
      ⟨3, honestView sep23 (runFrom h g actions), e⟩
    ∃ auction row, (runFrom h g actions).auctions 1 = some auction ∧
      (applyEvents (backfill 1000 views ⟨.empty, fun _ => none⟩)
        (readings.map (Reading.applied sep23 fun _ => none))).store.getById 1 = some row ∧
      Projected sep23 ((runFrom h g actions).events.drop 0) 1 auction row := by
  intro h g seller args actions views readings
  have hr : Replayed h g actions sep23 views (fun _ => 3) 0 readings :=
    replayed_honest g actions sep23 (Nat.zero_le _)
  have hcovered : Covered 1000 (fun _ => stateAt h g actions 3) 1 := by
    refine ⟨by decide, fun j hj hjk => ?_⟩
    have hone : j = 1 := by omega
    subst hone
    rfl
  obtain ⟨row, hrow, hproj⟩ := (projected_iff h g actions sep23 (fun _ => none) 1000 views
    (fun _ => none) (fun _ => 3) 0 readings hr 1 _ rfl).mpr
      ⟨3, _, .backfill hcovered, rfl, fun _ _ => rfl⟩
  exact ⟨_, row, rfl, hrow, hproj⟩

end SealedStellar.Indexer
