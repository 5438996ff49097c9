import SealedStellar.IndexerRefinement
import SealedStellar.IndexerTicks

/-! What becomes of a read that fails. The backfill reads an auction once and a creation event reads
it once, the cursor moves on whatever came of it, and later events of the auction find no row. -/
namespace SealedStellar.Indexer
open LastWrite
variable {W : Type} {h : Host W} {strKey : StrKey} {txHash : ℕ × Event → Option String} {k : ℕ}

structure Reflected (strKey : StrKey) (readings : List Reading) (k : ℕ) (store : AuctionStore)
    (row : AuctionListRow) : Prop where
  filledSlots : row.filledSlots = store.bidCount k
  bids : ∀ r ∈ readings, r.event.2.auctionId = k → ∀ bid,
    Event.bidRow strKey r.event.2 = some bid → bid ∈ store.bidsOf k
  settled : ∀ r ∈ readings, ∀ winner winningPrice,
    r.event.2 = .AuctionSettled k winner winningPrice → row.status = .Settled ∧
      row.winner = some (strKey.encode winner) ∧ row.clearingPrice = some (toString winningPrice)

def HasReflected (strKey : StrKey) (readings : List Reading) (k : ℕ) (store : AuctionStore) : Prop :=
  ∃ row, store.getById k = some row ∧ Reflected strKey readings k store row

/-- One of the reads of auction k succeeds: that of the backfill, or that of an applied creation
event which the settlement, if it is applied at all, still follows. -/
def ReadOnce (strKey : StrKey) (txHash : ℕ × Event → Option String) (backfillMaxId : ℕ)
    (views : ℕ → ChainView) (cache : String → Option String) (readings : List Reading) (k : ℕ) :
    Prop :=
  ReadInBackfill backfillMaxId views ⟨.empty, cache⟩ k ∨
    ∃ before r after, readings = before ++ r :: after ∧ r.event.2.isCreated ∧
      r.event.2.auctionId = k ∧
      r.view.Readable (ingested strKey txHash backfillMaxId views cache before).tokenSymbolCache k ∧
      ∀ r' ∈ before, ∀ winner winningPrice, r'.event.2 = .AuctionSettled k winner winningPrice →
        ∃ r'' ∈ after, r''.event.2 = .AuctionSettled k winner winningPrice

theorem run_indexed {ix : IndexerState} {rs : List Reading} {row : AuctionDbRow}
    (hnone : ix.store.auctions.find k = none)
    (hrow : (Runs.run (advance strKey txHash) ix rs).store.auctions.find k = some row) :
    ∃ before r after, rs = before ++ r :: after ∧ r.event.2.isCreated ∧ r.event.2.auctionId = k ∧
      (Runs.run (advance strKey txHash) ix before).store.auctions.find k = none ∧
      r.view.Readable (Runs.run (advance strKey txHash) ix before).tokenSymbolCache k := by
  induction rs generalizing ix with
  | nil =>
    rw [Runs.run_nil, hnone] at hrow
    cases hrow
  | cons r rs ih =>
    cases hnext : (advance strKey txHash ix r).store.auctions.find k with
    | none =>
      obtain ⟨before, r', after, hsplit, hfound⟩ := ih hnext hrow
      refine ⟨r :: before, r', after, ?_, hfound⟩
      rw [hsplit, List.cons_append]
    | some first =>
      refine ⟨[], r, rs, rfl, ?_⟩
      by_cases hcreation : r.event.2.auctionId = k ∧ r.event.2.isCreated
      · obtain ⟨hid, hcreated⟩ := hcreation
        subst hid
        refine ⟨hcreated, rfl, hnone, ?_⟩
        by_contra hfail
        rw [advance_created hnone hcreated, enrich_unread ix hfail, hnone] at hnext
        cases hnext
      · rw [advance_absent hnone fun hid => Bool.eq_false_iff.mpr fun h => hcreation ⟨hid, h⟩] at hnext
        cases hnext

section Watch
variable {g : Genesis W} {actions : List (Action W)} {views : ℕ → ChainView} {moment : ℕ → ℕ}
  {backfillMaxId : ℕ} {cache : String → Option String} {readings : List Reading} {auction : Auction}

structure Watched (h : Host W) (g : Genesis W) (actions : List (Action W)) (strKey : StrKey)
    (views : ℕ → ChainView) (moment : ℕ → ℕ) (readings : List Reading) : Prop where
  backfilled : ∀ j, (views j).Shows strKey (stateAt h g actions (moment j))
  shown : ∀ r ∈ readings, r.Shown h g actions strKey
  later : ∀ r ∈ readings, ∀ j, moment j ≤ r.moment
  ordered : readings.Pairwise fun r r' => r.moment ≤ r'.moment

theorem Watched.published (hw : Watched h g actions strKey views moment readings) {r : Reading}
    (hr : r ∈ readings) : r.event ∈ (runFrom h g actions).events :=
  (stateAt_events g actions r.moment).subset (hw.shown r hr).published

theorem Watched.genuine (hw : Watched h g actions strKey views moment readings) {n : ℕ}
    {before : List Reading} (hsub : before ⊆ readings) (hn : ∀ r ∈ before, r.moment ≤ n)
    (hbackfill : ∀ j, moment j ≤ n) :
    Genuine strKey (stateAt h g actions n).events
      (ingested strKey txHash backfillMaxId views cache before).store := by
  have hreads : ∀ r ∈ before, r.event ∈ (stateAt h g actions n).events ∧ ∃ s : State W,
      r.view.Shows strKey s ∧ Recounted s ∧ s.events ⊆ (stateAt h g actions n).events := by
    intro r hr
    have hgrow := (stateAt_grow (h := h) g actions (hn r hr)).subset
    have hshown := hw.shown r (hsub hr)
    exact ⟨hgrow hshown.published, _, hshown.view, stateAt_recounted g actions _, hgrow⟩
  exact genuine_ingested hw.backfilled (fun j => stateAt_recounted g actions _)
    (fun j => (stateAt_grow g actions (hbackfill j)).subset) hreads backfillMaxId cache

theorem Watched.genuine_final (hw : Watched h g actions strKey views moment readings) :
    Genuine strKey (runFrom h g actions).events
      (ingested strKey txHash backfillMaxId views cache readings).store := by
  have hreads : ∀ r ∈ readings, r.event ∈ (runFrom h g actions).events ∧ ∃ s : State W,
      r.view.Shows strKey s ∧ Recounted s ∧ s.events ⊆ (runFrom h g actions).events :=
    fun r hr => ⟨hw.published hr, _, (hw.shown r hr).view, stateAt_recounted g actions _,
      (stateAt_events g actions _).subset⟩
  exact genuine_ingested hw.backfilled (fun j => stateAt_recounted g actions _)
    (fun j => (stateAt_events g actions _).subset) hreads backfillMaxId cache

theorem Watched.log_mem (hw : Watched h g actions strKey views moment readings) {r : Reading}
    (hr : r ∈ readings) (hid : r.event.2.auctionId = k) :
    r.event.2 ∈ auctionLog (runFrom h g actions) k :=
  mem_ofAuction.mpr ⟨hid, r.event.1, hw.published hr⟩

theorem Watched.log_subset (hw : Watched h g actions strKey views moment readings)
    {after : List Reading} (hafter : after ⊆ readings) (k : ℕ) :
    ofAuction k (after.map Reading.event) ⊆ auctionLog (runFrom h g actions) k := by
  intro e he
  obtain ⟨hid, ledger, hledger⟩ := mem_ofAuction.mp he
  obtain ⟨r, hr, hevent⟩ := List.mem_map.mp hledger
  have hpublished := hw.published (hafter hr)
  rw [hevent] at hpublished
  exact mem_ofAuction.mpr ⟨hid, ledger, hpublished⟩

theorem Watched.bid_recorded (hw : Watched h g actions strKey views moment readings)
    (ha : (runFrom h g actions).auctions k = some auction) {r : Reading} (hr : r ∈ readings)
    (hid : r.event.2.auctionId = k) {bid : BidRow} (hbid : Event.bidRow strKey r.event.2 = some bid) :
    bid ∈ (ingested strKey txHash backfillMaxId views cache readings).store.bidsOf k := by
  have hrecorded : Recorded (auctionLog (runFrom h g actions) k) auction :=
    (run_recounted g actions).stored k auction ha
  obtain ⟨slot, -, hslot⟩ := bidRow_eq_some.mp hbid
  have hkey : bid.key ∈
      (ingested strKey txHash backfillMaxId views cache readings).store.bids.rows.map BidRow.key :=
    run_key hr hbid
  obtain ⟨bid', hmem, hsame⟩ := List.mem_map.mp hkey
  have hid' : bid'.auctionId = k := by
    have hfirst : bid'.auctionId = bid.auctionId := congrArg Prod.fst hsame
    rw [hfirst, hslot, hid]
  have hof : BidOf strKey auction.bids k bid :=
    (bidOf_iff hrecorded).mpr ⟨_, hw.log_mem hr hid, hbid⟩
  have hof' := hw.genuine_final.bidOf hrecorded (mem_bidsOf.mpr ⟨hmem, hid'⟩)
  rw [hof.slot_inj hof' hsame.symm]
  exact mem_bidsOf.mpr ⟨hmem, hid'⟩

/-- The row of an auction that was read, after the events that are still to be applied then. -/
theorem Watched.reflected (hw : Watched h g actions strKey views moment readings)
    (ha : (runFrom h g actions).auctions k = some auction) {ix : IndexerState}
    {after : List Reading} {read : Auction} (ht : Taken strKey ix.store k read)
    (hafter : after ⊆ readings)
    (hrun : ingested strKey txHash backfillMaxId views cache readings =
      Runs.run (advance strKey txHash) ix after)
    (hsettled : ∀ r ∈ readings, ∀ winner winningPrice,
      r.event.2 = .AuctionSettled k winner winningPrice →
        ∃ r' ∈ after, r'.event.2 = .AuctionSettled k winner winningPrice) :
    HasReflected strKey readings k
      (ingested strKey txHash backfillMaxId views cache readings).store := by
  have hrecorded : Recorded (auctionLog (runFrom h g actions) k) auction :=
    (run_recounted g actions).stored k auction ha
  obtain ⟨row, hrow, -⟩ := ht.row
  obtain ⟨row', hrow', hwritten, hcounted⟩ := run_row strKey txHash after hrow ht.counted
  have hlog := hw.log_subset hafter k
  refine ⟨toListRow row', by rw [hrun, AuctionStore.getById, hrow', Option.map_some], ?_⟩
  exact {
    filledSlots := by
      rw [hrun]
      exact hcounted row' hrow'
    bids := fun r hr hid bid hbid => hw.bid_recorded ha hr hid hbid
    settled := by
      intro r hr winner winningPrice hevent
      obtain ⟨r', hr', hlater⟩ := hsettled r hr winner winningPrice hevent
      have he : .AuctionSettled k winner winningPrice ∈ ofAuction k (after.map Reading.event) :=
        mem_ofAuction.mpr ⟨rfl, r'.event.1, List.mem_map.mpr ⟨r', hr', by rw [← hlater]⟩⟩
      exact ⟨written_settled hrecorded hlog hwritten he, written_outcome hrecorded hlog hwritten he⟩ }

theorem Watched.taken_created (hw : Watched h g actions strKey views moment readings)
    {before after : List Reading} {r : Reading} (hsplit : readings = before ++ r :: after)
    (hcreated : r.event.2.isCreated)
    (hid : r.event.2.auctionId = k) (hnone :
      (ingested strKey txHash backfillMaxId views cache before).store.auctions.find k = none)
    (hread : r.view.Readable
      (ingested strKey txHash backfillMaxId views cache before).tokenSymbolCache k) :
    ∃ read, Taken strKey (advance strKey txHash
      (ingested strKey txHash backfillMaxId views cache before) r).store k read := by
  subst hid
  have hr : r ∈ readings := by
    rw [hsplit]
    exact List.mem_append_right before List.mem_cons_self
  have hsub : before ⊆ readings := by
    rw [hsplit]
    exact List.subset_append_left _ _
  have hearlier : ∀ r' ∈ before, r'.moment ≤ r.moment := by
    have hordered := hw.ordered
    rw [hsplit] at hordered
    exact fun r' hr' => (List.pairwise_append.mp hordered).2.2 r' hr' r List.mem_cons_self
  have hgenuine : Genuine strKey (stateAt h g actions r.moment).events
      (ingested strKey txHash backfillMaxId views cache before).store :=
    hw.genuine hsub hearlier (hw.later r hr)
  have hbids : ∀ read, (stateAt h g actions r.moment).auctions r.event.2.auctionId = some read →
      read.bids = [] → (ingested strKey txHash backfillMaxId views cache before).store.bidsOf
        r.event.2.auctionId = [] := by
    intro read hstored hnil
    refine List.eq_nil_iff_forall_not_mem.mpr fun bid hbid => ?_
    obtain ⟨i, b, hi, -⟩ := hgenuine.bidOf
      ((stateAt_recounted g actions r.moment).stored _ read hstored) hbid
    rw [hnil] at hi
    cases hi
  obtain ⟨read, -, htaken⟩ := enrich_taken (hw.shown r hr).view hread hnone hbids
  rw [← advance_created hnone hcreated] at htaken
  exact ⟨read, htaken⟩

/-- The first read that succeeds is as good as any later one. -/
theorem Watched.reflected_created (hw : Watched h g actions strKey views moment readings)
    (ha : (runFrom h g actions).auctions k = some auction) {before after : List Reading} {r : Reading}
    (hsplit : readings = before ++ r :: after) (hcreated : r.event.2.isCreated)
    (hid : r.event.2.auctionId = k) (hnone :
      (ingested strKey txHash backfillMaxId views cache before).store.auctions.find k = none)
    (hread : r.view.Readable
      (ingested strKey txHash backfillMaxId views cache before).tokenSymbolCache k)
    (hsettled : ∀ r' ∈ before, ∀ winner winningPrice,
      r'.event.2 = .AuctionSettled k winner winningPrice →
        ∃ r'' ∈ after, r''.event.2 = .AuctionSettled k winner winningPrice) :
    HasReflected strKey readings k
      (ingested strKey txHash backfillMaxId views cache readings).store := by
  obtain ⟨read, htaken⟩ := hw.taken_created hsplit hcreated hid hnone hread
  apply hw.reflected ha htaken
  · rw [hsplit]
    exact fun r' hr' => List.mem_append_right before (List.mem_cons_of_mem r hr')
  · rw [hsplit, ingested_split]
  · intro r' hr' winner winningPrice hevent
    rw [hsplit] at hr'
    cases List.mem_append.mp hr' with
    | inl hbefore => exact hsettled r' hbefore winner winningPrice hevent
    | inr hrest =>
      cases List.mem_cons.mp hrest with
      | inl hsame =>
        rw [← hsame, hevent] at hcreated
        cases hcreated
      | inr hafter => exact ⟨r', hafter, hevent⟩

theorem Watched.reflected_of_readOnce (hw : Watched h g actions strKey views moment readings)
    (ha : (runFrom h g actions).auctions k = some auction)
    (hread : ReadOnce strKey txHash backfillMaxId views cache readings k) :
    HasReflected strKey readings k
      (ingested strKey txHash backfillMaxId views cache readings).store := by
  by_cases hbackfill : ReadInBackfill backfillMaxId views ⟨.empty, cache⟩ k
  · obtain ⟨read, -, htaken⟩ := backfill_taken hw.backfilled hbackfill
    exact hw.reflected ha htaken (List.Subset.refl _) rfl
      fun r hr winner winningPrice hevent => ⟨r, hr, hevent⟩
  · cases hread with
    | inl hread => exact absurd hread hbackfill
    | inr hread =>
      obtain ⟨before, r, after, hsplit, hcreated, hid, hreadable, hsettled⟩ := hread
      cases hfind : (ingested strKey txHash backfillMaxId views cache
          before).store.auctions.find k with
      | none => exact hw.reflected_created ha hsplit hcreated hid hfind hreadable hsettled
      | some row =>
        obtain ⟨first, r', between, hbefore, hcreated', hid', hnone, hreadable'⟩ :=
          run_indexed (backfill_unread hbackfill).row hfind
        have hsplit' : readings = first ++ r' :: (between ++ r :: after) := by
          rw [hsplit, hbefore, List.append_assoc, List.cons_append]
        refine hw.reflected_created ha hsplit' hcreated' hid' hnone hreadable' ?_
        intro r₀ hr₀ winner winningPrice hevent
        have hmem : r₀ ∈ before := by
          rw [hbefore]
          exact List.mem_append_left _ hr₀
        obtain ⟨r'', hr'', hlater⟩ := hsettled r₀ hmem winner winningPrice hevent
        exact ⟨r'', List.mem_append_right between (List.mem_cons_of_mem r hr''), hlater⟩

theorem settlement_eq {e : Event} {o : Address × ℤ} (ho : e.settlement = some o) :
    e = .AuctionSettled e.auctionId o.1 o.2 := by
  cases e with
  | AuctionSettled j winner winningPrice =>
    cases ho
    rfl
  | AuctionCreated j seller maxPrice commitDeadline => cases ho
  | BidPlaced j slotIndex bidder commitment encryptedBid => cases ho
  | AuctionRefunded j refundedBids => cases ho
  | LotReturnFailed j seller lotAmount => cases ho
  | LotReclaimed j seller lotAmount => cases ho

theorem written_settlement {log processed : List Event} {row row' : AuctionDbRow}
    (hr : Recorded log auction) (hsub : processed ⊆ log) (hw : Written strKey processed row row')
    (hblank : row.clearingPrice = none) {winner : Address} {winningPrice : ℤ}
    (he : .AuctionSettled k winner winningPrice ∈ log) (hprice : row'.clearingPrice.isSome) :
    ∃ e ∈ processed, e = .AuctionSettled e.auctionId winner winningPrice := by
  by_contra hquiet
  have hkeep : (row'.clearingPrice, row'.winner) = (row.clearingPrice, row.winner) := by
    rw [hw.outcome]
    refine lastWrite_keep fun e hmem => ?_
    cases ho : e.settlement with
    | none => rfl
    | some o =>
      have hsame := settlement_unique hr he rfl (hsub hmem) ho
      have hevent := settlement_eq ho
      rw [hsame] at hevent
      exact absurd ⟨e, hmem, hevent⟩ hquiet
  have hsame : row'.clearingPrice = row.clearingPrice := congrArg Prod.fst hkeep
  rw [hsame, hblank] at hprice
  cases hprice

theorem Watched.readOnce_of_reflected (hw : Watched h g actions strKey views moment readings)
    (ha : (runFrom h g actions).auctions k = some auction) (hreflected : HasReflected strKey readings k
      (ingested strKey txHash backfillMaxId views cache readings).store) :
    ReadOnce strKey txHash backfillMaxId views cache readings k := by
  by_cases hbackfill : ReadInBackfill backfillMaxId views ⟨.empty, cache⟩ k
  · exact .inl hbackfill
  · obtain ⟨row, hrow, hreflected⟩ := hreflected
    obtain ⟨row', hfind, rfl⟩ := Option.map_eq_some_iff.mp hrow
    obtain ⟨before, r, after, hsplit, hcreated, hid, hnone, hreadable⟩ :=
      run_indexed (backfill_unread hbackfill).row hfind
    refine .inr ⟨before, r, after, hsplit, hcreated, hid, hreadable, ?_⟩
    intro r' hr' winner winningPrice hevent
    obtain ⟨read, htaken⟩ := hw.taken_created hsplit hcreated hid hnone hreadable
    obtain ⟨first, hfirst, hsnap⟩ := htaken.row
    obtain ⟨row'', hrow'', hwritten, -⟩ := run_row strKey txHash after hfirst htaken.counted
    rw [← ingested_split, ← hsplit, hfind] at hrow''
    cases hrow''
    have hr : r' ∈ readings := by
      rw [hsplit]
      exact List.mem_append_left _ hr'
    have hsub : after ⊆ readings := by
      rw [hsplit]
      exact fun r₀ hr₀ => List.mem_append_right before (List.mem_cons_of_mem r hr₀)
    have hsettled := hw.log_mem hr (congrArg Event.auctionId hevent)
    rw [hevent] at hsettled
    have hprice : row'.clearingPrice.isSome := by
      have hshown : row'.clearingPrice = some (toString winningPrice) :=
        (hreflected.settled r' hr winner winningPrice hevent).2.2
      rw [hshown]
      rfl
    obtain ⟨e, he, hsame⟩ := written_settlement ((run_recounted g actions).stored _ auction ha)
      (hw.log_subset hsub _) hwritten hsnap.clearingPrice hsettled hprice
    obtain ⟨hid', ledger, hledger⟩ := mem_ofAuction.mp he
    obtain ⟨r'', hr'', hlater⟩ := List.mem_map.mp hledger
    exact ⟨r'', hr'', by rw [hlater, hsame, hid']⟩

end Watch

theorem reflected_cursor {readings : List Reading} {ix : IndexerState} {row : AuctionListRow}
    (c : Option IngestCursor) : Reflected strKey readings k (ix.withCursor c).store row ↔
      Reflected strKey readings k ix.store row :=
  ⟨fun hr => ⟨hr.filledSlots, hr.bids, hr.settled⟩, fun hr => ⟨hr.filledSlots, hr.bids, hr.settled⟩⟩

/-- Whatever reads fail in the backfill and in the ticks: the auctions created up to the saved
ledger have their rows, with their applied bids and settlements, exactly when each of them was read
once. -/
theorem reflected_iff (h : Host W) (g : Genesis W) (actions : List (Action W)) (strKey : StrKey)
    (txHash : ℕ × Event → Option String) (backfillMaxId : ℕ) (views : ℕ → ChainView)
    (cache : String → Option String) (moment : ℕ → ℕ) (started : ℕ) (ticks : List Tick)
    (hviews : ∀ j, (views j).Shows strKey (stateAt h g actions (moment j)))
    (hmoment : ∀ j, moment j ≤ started)
    (hticks : Followed h g actions strKey txHash started ticks) :
    ∃ readings : List Reading,
      appliedBy (backfill backfillMaxId views ⟨.empty, cache⟩) ticks =
        readings.map (Reading.applied strKey txHash) ∧
      let store := (startIngestion backfillMaxId views ticks ⟨.empty, cache⟩).store
      ∀ saved, store.getCursor.lastLedger = some saved →
        ((∀ e ∈ (runFrom h g actions).events, e.2.isCreated → e.1 ≤ saved →
            ∃ row, store.getById e.2.auctionId = some row ∧
              Reflected strKey readings e.2.auctionId store row) ↔
          ∀ e ∈ (runFrom h g actions).events, e.2.isCreated → e.1 ≤ saved →
            ReadOnce strKey txHash backfillMaxId views cache readings e.2.auctionId) := by
  obtain ⟨readings, happlied, hreadings, hordered⟩ :=
    followed_readings hticks (backfill backfillMaxId views ⟨.empty, cache⟩)
  have hw : Watched h g actions strKey views moment readings :=
    { backfilled := hviews
      shown := fun r hr => (hreadings r hr).2
      later := fun r hr j => (hmoment j).trans (hreadings r hr).1
      ordered := hordered }
  obtain ⟨c, hc⟩ := ticks_run happlied
  have hpoint : ∀ e ∈ (runFrom h g actions).events,
      (∃ row, (startIngestion backfillMaxId views ticks ⟨.empty, cache⟩).store.getById
          e.2.auctionId = some row ∧ Reflected strKey readings e.2.auctionId
            (startIngestion backfillMaxId views ticks ⟨.empty, cache⟩).store row) ↔
        ReadOnce strKey txHash backfillMaxId views cache readings e.2.auctionId := by
    intro e he
    obtain ⟨-, auction, ha⟩ := run_event_auction g actions he
    rw [startIngestion, hc]
    simp only [reflected_cursor]
    exact ⟨fun hreflected => hw.readOnce_of_reflected ha hreflected,
      fun hread => hw.reflected_of_readOnce ha hread⟩
  refine ⟨readings, happlied, fun saved _ => ?_⟩
  constructor
  · exact fun hall e he hcreated hsaved => (hpoint e he).mp (hall e he hcreated hsaved)
  · exact fun hall e he hcreated hsaved => (hpoint e he).mpr (hall e he hcreated hsaved)

def silentView : ChainView := ⟨fun _ => .unreachable "timeout", fun _ => .unreachable "timeout"⟩

theorem silentView_shows (s : State W) : silentView.Shows strKey s where
  auction := by
    intro k record hrecord
    cases hrecord
  absent := by
    intro k text htext
    cases htext

/-- The one read of the auction fails, the tick saves its ledger, and the next tick, which meets no
failure, starts behind the creation. -/
theorem read_lost :
    let h := sacHost (.contract (keyOf 0)) (fun _ _ _ => none) firstInput
    let g : Genesis SacState := ⟨.contract (keyOf 1), evenTokens 100, 0, 1⟩
    let args : CreateArgs := ⟨.account (keyOf 2), .contract (keyOf 10), 7, .contract (keyOf 11), 5,
      10, 3, 0, keyOf 9⟩
    let actions : List (Action SacState) := [.call [.account (keyOf 2)] (.createAuction args)]
    let views := fun _ : ℕ => honestView sep23 (stateAt h g actions 0)
    let raw := rawEvent sep23 fun _ => none
    let log := (runFrom h g actions).events
    let honest := honestView sep23 (runFrom h g actions)
    let ticks : List Tick := [⟨.ok 50, onePage raw log 50, fun _ => silentView⟩,
      ⟨.ok 60, onePage raw log 60, fun _ => honest⟩]
    let store := (startIngestion 1000 views ticks ⟨.empty, fun _ => none⟩).store
    (∀ j, (views j).Answers sep23 (stateAt h g actions 0)) ∧
      Followed h g actions sep23 (fun _ => none) 0 ticks ∧
      store.getCursor.lastLedger = some 60 ∧
      ∃ e ∈ log, e.2.isCreated ∧ e.1 ≤ 60 ∧ store.getById e.2.auctionId = none := by
  intro h g args actions views raw log honest ticks store
  have hviews : ∀ j, (views j).Answers sep23 (stateAt h g actions 0) :=
    fun _ => honestView_answers sep23 _
  have hfollowed : Followed h g actions sep23 (fun _ => none) 0 ticks :=
    .cons 1 1 (fun _ => 1) (Nat.zero_le 1) (onePage_serves raw log 50)
      (fun _ => silentView_shows _) (fun _ => le_refl 1) monotone_const (fun _ => le_refl 1)
      (.cons 1 1 (fun _ => 1) (le_refl 1) (onePage_serves raw log 60)
        (fun _ => (honestView_answers sep23 _).shows) (fun _ => le_refl 1) monotone_const
        (fun _ => le_refl 1) (.nil 1))
  have hmissing : (views 1).Missing 1 := (answers_missing_iff (hviews 1) 1).mpr rfl
  have hbackfill : backfill 1000 views ⟨.empty, fun _ => none⟩ = ⟨.empty, fun _ => none⟩ :=
    backfillFrom_missing views hmissing 999 _
  have hfirst : syncEvents ⟨.empty, fun _ => none⟩ ⟨.ok 50, onePage raw log 50, fun _ => silentView⟩ =
      ⟨AuctionStore.empty.setCursor (some 50) none, fun _ => none⟩ := rfl
  have hstore : store = AuctionStore.empty.setCursor (some 60) none := by
    simp only [store, startIngestion, hbackfill, ticks, List.foldl_cons, List.foldl_nil, hfirst]
    rfl
  rw [hstore]
  exact ⟨hviews, hfollowed, rfl, _, List.mem_singleton.mpr rfl, rfl, by decide, rfl⟩

/-- Backfilled after its creation, the auction has a row whatever the ticks meet. -/
theorem reflected_iff_witness :
    let h := sacHost (.contract (keyOf 0)) (fun _ _ _ => none) firstInput
    let g : Genesis SacState := ⟨.contract (keyOf 1), evenTokens 100, 0, 1⟩
    let args : CreateArgs := ⟨.account (keyOf 2), .contract (keyOf 10), 7, .contract (keyOf 11), 5,
      10, 3, 0, keyOf 9⟩
    let actions : List (Action SacState) := [.call [.account (keyOf 2)] (.createAuction args)]
    let views := fun _ : ℕ => honestView sep23 (stateAt h g actions 1)
    let raw := rawEvent sep23 fun _ => none
    let log := (runFrom h g actions).events
    let ticks : List Tick := [⟨.ok 50, onePage raw log 50, fun _ => silentView⟩]
    let store := (startIngestion 1000 views ticks ⟨.empty, fun _ => none⟩).store
    ∃ readings row, store.getById 1 = some row ∧ Reflected sep23 readings 1 store row := by
  intro h g args actions views raw log ticks store
  have hviews : ∀ j, (views j).Answers sep23 (stateAt h g actions 1) :=
    fun _ => honestView_answers sep23 _
  have hfollowed : Followed h g actions sep23 (fun _ => none) 1 ticks :=
    .cons 1 1 (fun _ => 1) (le_refl 1) (onePage_serves raw log 50) (fun _ => silentView_shows _)
      (fun _ => le_refl 1) monotone_const (fun _ => le_refl 1) (.nil 1)
  obtain ⟨readings, -, hiff⟩ := reflected_iff h g actions sep23 (fun _ => none) 1000 views
    (fun _ => none) (fun _ => 1) 1 ticks (fun j => (hviews j).shows) (fun _ => le_refl 1) hfollowed
  have hcursor : store.getCursor.lastLedger = some 50 := rfl
  have hread : ReadInBackfill 1000 views ⟨.empty, fun _ => none⟩ 1 :=
    ⟨le_refl 1, by decide, fun j hj hj1 => absurd hj (by omega),
      (answers_readable_iff (hviews 1) _ 1).mpr rfl⟩
  have hlog : log = [(1, .AuctionCreated 1 (.account (keyOf 2)) 5 10)] := rfl
  have hreadOnce : ∀ e ∈ log, e.2.isCreated → e.1 ≤ 50 →
      ReadOnce sep23 (fun _ => none) 1000 views (fun _ => none) readings e.2.auctionId := by
    intro e he _ _
    rw [hlog] at he
    rw [List.mem_singleton.mp he]
    exact .inl hread
  have hcreation : (1, .AuctionCreated 1 (.account (keyOf 2)) 5 10) ∈ log :=
    hlog ▸ List.mem_singleton.mpr rfl
  obtain ⟨row, hrow, hreflected⟩ := (hiff 50 hcursor).mpr hreadOnce _ hcreation rfl (by decide)
  exact ⟨readings, row, hrow, hreflected⟩

end SealedStellar.Indexer
