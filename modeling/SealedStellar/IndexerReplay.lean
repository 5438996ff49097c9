import SealedStellar.IndexerRefinement

/-! Applying an end of the log again, after the whole of it, changes nothing in the store. Between
the two the flag of the lot may go back and forth; what counts is the last event that speaks of it. -/
namespace SealedStellar.Indexer
open LastWrite
variable {W : Type} {h : Host W} {strKey : StrKey} {txHash : ℕ × Event → Option String} {k : ℕ}

section Columns
variable {u v : List (ℕ × Event)} {row row' row'' : AuctionDbRow}

theorem lastWrite_again {ε β : Type} (f : ε → Option β) (x : β) (u v : List ε) :
    lastWrite f (lastWrite f x (u ++ v)) v = lastWrite f x (u ++ v) := by
  have hreplay : lastWrite f (lastWrite f x (u ++ v)) ((u ++ v).drop u.length ++ []) = _ :=
    lastWrite_replay x (u ++ v) [] u.length
  rwa [List.drop_left, List.append_nil, List.append_nil] at hreplay

theorem row_ext (hfixed : fixedColumns row' = fixedColumns row) (hstatus : row'.status = row.status)
    (hcount : row'.filledSlots = row.filledSlots) (hlot : row'.lotReclaimed = row.lotReclaimed)
    (houtcome : (row'.clearingPrice, row'.winner, row'.settleTx) =
      (row.clearingPrice, row.winner, row.settleTx)) : row' = row := by
  cases row
  cases row'
  simp only [fixedColumns, AuctionDbRow.mk.injEq, Prod.mk.injEq] at *
  grind

theorem Overwritten.again (hfirst : Overwritten strKey txHash (u ++ v) row row')
    (hagain : Overwritten strKey txHash v row' row'')
    (hcount : row''.filledSlots = row'.filledSlots) : row'' = row' := by
  apply row_ext hagain.fixed _ hcount
  · rw [hagain.lot, hfirst.lot, lastWrite_again]
  · rw [hagain.outcome, hfirst.outcome, lastWrite_again]
  · rw [hagain.status, hfirst.status, lastWrite_again]

end Columns

section Rows
variable {ix : IndexerState} {r : Reading} {rs : List Reading} {row : AuctionDbRow}

def logOf (rs : List Reading) : List (ℕ × Event) := rs.map Reading.event

theorem run_overwritten (rs : List Reading) (hrow : ix.store.auctions.find k = some row) :
    ∃ row', (Runs.run (advance strKey txHash) ix rs).store.auctions.find k = some row' ∧
      Overwritten strKey txHash (about k (logOf rs)) row row' := by
  induction rs generalizing ix row with
  | nil => exact ⟨row, hrow, .refl strKey txHash row⟩
  | cons r rs ih =>
    obtain ⟨row₁, hrow₁, hhead⟩ := advance_overwritten (r := r) hrow
    obtain ⟨row', hrow', htail⟩ := ih hrow₁
    refine ⟨row', hrow', ?_⟩
    have hsplit : about k (logOf (r :: rs)) = about k [r.event] ++ about k (logOf rs) :=
      about_append k [r.event] (logOf rs)
    rw [hsplit]
    exact hhead.trans htail

theorem run_counted (hrow : ix.store.auctions.find k = some row)
    (hbid : ∃ e ∈ about k (logOf rs), e.2.bid ≠ none) :
    (Runs.run (advance strKey txHash) ix rs).store.Counted k := by
  induction rs generalizing ix row with
  | nil =>
    obtain ⟨e, he, -⟩ := hbid
    exact absurd he List.not_mem_nil
  | cons r rs ih =>
    have hnext : ∃ row', (advance strKey txHash ix r).store.auctions.find k = some row' ∧
        Overwritten strKey txHash (about k [r.event]) row row' := advance_overwritten hrow
    obtain ⟨row₁, hrow₁, -⟩ := hnext
    by_cases hlater : ∃ e ∈ about k (logOf rs), e.2.bid ≠ none
    · exact ih hrow₁ hlater
    · obtain ⟨e, he, hne⟩ := hbid
      have hhead : e = r.event ∧ r.event.2.auctionId = k := by
        obtain ⟨hmem, hid⟩ := List.mem_filter.mp he
        cases List.mem_cons.mp hmem with
        | inl heq => exact ⟨heq, heq ▸ of_decide_eq_true hid⟩
        | inr htail => exact absurd ⟨e, List.mem_filter.mpr ⟨htail, hid⟩, hne⟩ hlater
      obtain ⟨rfl, hk⟩ := hhead
      have hcounted : (advance strKey txHash ix r).store.Counted k := by
        subst hk
        obtain ⟨moment, view, ledger, e⟩ := r
        rw [advance_eq]
        cases e with
        | BidPlaced j slotIndex bidder commitment encryptedBid =>
          exact counted_recordBid_self _ _ _
        | AuctionCreated j seller maxPrice commitDeadline => exact absurd rfl hne
        | AuctionSettled j winner winningPrice => exact absurd rfl hne
        | AuctionRefunded j refundedBids => exact absurd rfl hne
        | LotReturnFailed j seller lotAmount => exact absurd rfl hne
        | LotReclaimed j seller lotAmount => exact absurd rfl hne
      obtain ⟨-, -, -, hrun⟩ := run_row strKey txHash rs hrow₁ hcounted
      exact hrun

end Rows

section Standing
variable {ix ix' ix'' : IndexerState} {r : Reading} {rs : List Reading}

structure Standing (ix ix' : IndexerState) : Prop where
  ids : ix'.store.auctions.rows.map AuctionDbRow.id = ix.store.auctions.rows.map AuctionDbRow.id
  bids : ix'.store.bids = ix.store.bids
  cursor : ix'.store.ingestCursor = ix.store.ingestCursor
  cache : ix'.tokenSymbolCache = ix.tokenSymbolCache

theorem Standing.refl (ix : IndexerState) : Standing ix ix := ⟨rfl, rfl, rfl, rfl⟩

theorem Standing.trans (ha : Standing ix ix') (hb : Standing ix' ix'') : Standing ix ix'' :=
  ⟨hb.ids.trans ha.ids, hb.bids.trans ha.bids, hb.cursor.trans ha.cursor, hb.cache.trans ha.cache⟩

theorem Standing.eq (hs : Standing ix ix') (hauctions : ix'.store.auctions = ix.store.auctions) :
    ix' = ix := by
  obtain ⟨⟨auctions, bids, ingestCursor⟩, cache⟩ := ix
  obtain ⟨⟨auctions', bids', ingestCursor'⟩, cache'⟩ := ix'
  obtain ⟨-, hbids, hcursor, hcache⟩ := hs
  simp only at hauctions hbids hcursor hcache
  subst hauctions hbids hcursor hcache
  rfl

structure Known (strKey : StrKey) (ix : IndexerState) (e : Event) : Prop where
  row : e.isCreated → e.auctionId ∈ ix.store.auctions.rows.map AuctionDbRow.id
  bid : ∀ bid, Event.bidRow strKey e = some bid → bid.key ∈ ix.store.bids.rows.map BidRow.key

theorem Known.standing {e : Event} (hknown : Known strKey ix e) (hs : Standing ix ix') :
    Known strKey ix' e where
  row := by
    rw [hs.ids]
    exact hknown.row
  bid := by
    rw [hs.bids]
    exact hknown.bid

theorem updateAuction_standing (ix : IndexerState) (auctionId : ℕ) (f : AuctionDbRow → AuctionDbRow)
    (hf : ∀ row, (f row).id = row.id) :
    Standing ix { ix with store := ix.store.updateAuction auctionId f hf } :=
  ⟨Table.keys_update ix.store.auctions auctionId f hf, rfl, rfl, rfl⟩

theorem advance_standing (hknown : Known strKey ix r.event.2) :
    Standing ix (advance strKey txHash ix r) := by
  obtain ⟨moment, view, ledger, e⟩ := r
  rw [advance_eq]
  cases e with
  | AuctionCreated j seller maxPrice commitDeadline =>
    have hhas : ix.store.hasAuction j = true := Table.find_isSome.mpr (hknown.row rfl)
    dsimp only
    rw [if_pos hhas]
    exact .refl ix
  | BidPlaced j slotIndex bidder commitment encryptedBid =>
    have hkey := hknown.bid ⟨j, slotIndex, strKey.encode bidder⟩ rfl
    have hinsert : ix.store.insertBid j slotIndex (strKey.encode bidder) = ix.store := by
      rw [AuctionStore.insertBid, Table.insertOrIgnore_taken hkey]
    dsimp only
    rw [AuctionStore.recordBid, hinsert]
    exact updateAuction_standing ix j _ _
  | AuctionSettled j winner winningPrice => exact updateAuction_standing ix j _ _
  | AuctionRefunded j refundedBids => exact updateAuction_standing ix j _ _
  | LotReturnFailed j seller lotAmount => exact updateAuction_standing ix j _ _
  | LotReclaimed j seller lotAmount => exact updateAuction_standing ix j _ _

theorem run_standing (hknown : ∀ e ∈ logOf rs, Known strKey ix e.2) :
    Standing ix (Runs.run (advance strKey txHash) ix rs) := by
  induction rs generalizing ix with
  | nil => exact .refl ix
  | cons r rs ih =>
    have hhead : Standing ix (advance strKey txHash ix r) :=
      advance_standing (hknown r.event List.mem_cons_self)
    exact hhead.trans (ih fun e he => (hknown e (List.mem_cons_of_mem r.event he)).standing hhead)

end Standing

section First
variable {g : Genesis W} {actions : List (Action W)} {ix : IndexerState} {rs : List Reading}
  {r : Reading}

/-- The whole log of a run, each event applied after it was published, with every read
succeeding. -/
structure WholeLog (h : Host W) (g : Genesis W) (actions : List (Action W)) (strKey : StrKey)
    (rs : List Reading) : Prop where
  log : logOf rs = (runFrom h g actions).events
  reads : ∀ r ∈ rs, r.view.Answers strKey (stateAt h g actions r.moment)
  published : ∀ r ∈ rs, r.event ∈ (stateAt h g actions r.moment).events

theorem created_row {s : State W} (hview : r.view.Answers strKey s)
    (hthere : (s.auctions r.event.2.auctionId).isSome) (hcreated : r.event.2.isCreated) :
    ∃ row, (advance strKey txHash ix r).store.auctions.find r.event.2.auctionId = some row := by
  cases hrow : ix.store.auctions.find r.event.2.auctionId with
  | some row =>
    have hnext : ∃ row', (advance strKey txHash ix r).store.auctions.find r.event.2.auctionId =
        some row' ∧ Overwritten strKey txHash (about r.event.2.auctionId [r.event]) row row' :=
      advance_overwritten hrow
    obtain ⟨row', hrow', -⟩ := hnext
    exact ⟨row', hrow'⟩
  | none =>
    rw [advance_created hrow hcreated]
    have hindexed := enrich_answers ix hview r.event.2.auctionId
    rw [if_pos hthere] at hindexed
    cases enrich_cases ix hview.shows r.event.2.auctionId with
    | inl hread =>
      obtain ⟨auction, lotSymbol, paymentSymbol, -, -, hstore⟩ := hread
      rw [hstore]
      obtain ⟨row, hfind, -⟩ := indexAuction_find hrow
      exact ⟨row, hfind⟩
    | inr hskip => exact absurd hindexed hskip.1

theorem WholeLog.creation (hw : WholeLog h g actions strKey rs) (hk : about k (logOf rs) ≠ []) :
    ∃ before r after, rs = before ++ r :: after ∧ (∀ r' ∈ before, r'.event.2.auctionId ≠ k) ∧
      r.event.2.auctionId = k ∧ r.event.2.isCreated ∧
      about k (logOf rs) = r.event :: about k (logOf after) := by
  have hlog : auctionLog (runFrom h g actions) k = (about k (logOf rs)).map Prod.snd := by
    rw [auctionLog, ← hw.log, ofAuction_about]
  have hfirst : ∃ e rest, auctionLog (runFrom h g actions) k = e :: rest ∧ e.isCreated := by
    cases ha : (runFrom h g actions).auctions k with
    | none =>
      rw [(run_recounted g actions).absent k ha] at hlog
      exact absurd (List.map_eq_nil_iff.mp hlog.symm) hk
    | some auction =>
      obtain ⟨e, rest, he, hcreated, -⟩ := ((run_recounted g actions).stored k auction ha).created
      exact ⟨e, rest, he, hcreated⟩
  obtain ⟨e, rest, he, hcreated⟩ := hfirst
  have hmap : about k (logOf rs) =
      (rs.filter fun r => r.event.2.auctionId = k).map Reading.event := by
    rw [about, logOf, List.filter_map]
    rfl
  cases hreadings : rs.filter fun r => r.event.2.auctionId = k with
  | nil =>
    rw [hreadings] at hmap
    exact absurd hmap hk
  | cons r readings =>
    obtain ⟨before, after, rfl, hbefore, hr, hafter⟩ := List.filter_eq_cons_iff.mp hreadings
    rw [hreadings, List.map_cons] at hmap
    rw [hlog, hmap, List.map_cons, List.cons.injEq] at he
    refine ⟨before, r, after, rfl, fun r' hr' => by simpa using hbefore r' hr', by simpa using hr,
      he.1 ▸ hcreated, ?_⟩
    rw [hmap, ← hafter, about, logOf, List.filter_map]
    rfl

/-- What the whole log leaves of an auction that it is about. -/
theorem WholeLog.row (hw : WholeLog h g actions strKey rs)
    (txHash : ℕ × Event → Option String) (ix : IndexerState) (hk : about k (logOf rs) ≠ []) :
    ∃ row₁ row, (Runs.run (advance strKey txHash) ix rs).store.auctions.find k = some row ∧
      Overwritten strKey txHash (about k (logOf rs)) row₁ row ∧
      ((∃ e ∈ about k (logOf rs), e.2.bid ≠ none) →
        (Runs.run (advance strKey txHash) ix rs).store.Counted k) := by
  obtain ⟨before, r, after, hsplit, -, hid, hcreated, hlog⟩ := hw.creation hk
  have hr : r ∈ rs := by simp [hsplit]
  have hthere : ((stateAt h g actions r.moment).auctions r.event.2.auctionId).isSome := by
    obtain ⟨-, auction, ha⟩ := run_event_auction g (actions.take r.moment) (hw.published r hr)
    rw [stateAt, ha]
    rfl
  have hrow₁ : ∃ row, (advance strKey txHash (Runs.run (advance strKey txHash) ix before)
      r).store.auctions.find r.event.2.auctionId = some row :=
    created_row (hw.reads r hr) hthere hcreated
  obtain ⟨row₁, hrow₁⟩ := hrow₁
  rw [hid] at hrow₁
  have hsilent : Overwritten strKey txHash [r.event] row₁ row₁ := by
    obtain ⟨moment, view, ledger, e⟩ := r
    cases e with
    | AuctionCreated j seller maxPrice commitDeadline => exact ⟨rfl, fun _ => rfl, rfl, rfl, rfl⟩
    | BidPlaced j slotIndex bidder commitment encryptedBid => cases hcreated
    | AuctionSettled j winner winningPrice => cases hcreated
    | AuctionRefunded j refundedBids => cases hcreated
    | LotReturnFailed j seller lotAmount => cases hcreated
    | LotReclaimed j seller lotAmount => cases hcreated
  obtain ⟨row, hrow, hafter⟩ := run_overwritten after hrow₁
  rw [hlog]
  rw [hsplit, Runs.run_append, Runs.run_cons]
  refine ⟨row₁, row, hrow, hsilent.trans hafter, fun hbid => run_counted hrow₁ ?_⟩
  obtain ⟨e, he, hne⟩ := hbid
  cases List.mem_cons.mp he with
  | inl heq =>
    subst heq
    cases hevent : r.event.2 <;> simp_all [Event.isCreated, Event.bid]
  | inr hmem => exact ⟨e, hmem, hne⟩

theorem WholeLog.known (hw : WholeLog h g actions strKey rs) {e : ℕ × Event} (he : e ∈ logOf rs) :
    Known strKey (Runs.run (advance strKey txHash) ix rs) e.2 where
  row := by
    intro _
    have hne : about e.2.auctionId (logOf rs) ≠ [] :=
      List.ne_nil_of_mem (List.mem_filter.mpr ⟨he, by simp⟩)
    obtain ⟨-, row, hrow, -⟩ := hw.row txHash ix hne
    exact Table.find_isSome.mp (by rw [hrow]; rfl)
  bid := by
    intro bid hbid
    obtain ⟨r, hr, rfl⟩ := List.mem_map.mp he
    exact run_key hr hbid

end First

/-- Applying an end of the log again leaves the whole state of the indexer as it is, whatever the
chain answers meanwhile. -/
theorem replay_idempotent (h : Host W) (g : Genesis W) (actions : List (Action W)) (strKey : StrKey)
    (txHash : ℕ × Event → Option String) (ix : IndexerState) (first last again : List Reading)
    (hw : WholeLog h g actions strKey (first ++ last)) (hagain : logOf again = logOf last) :
    let ingested := applyEvents ix ((first ++ last).map (Reading.applied strKey txHash))
    applyEvents ingested (again.map (Reading.applied strKey txHash)) = ingested := by
  intro ingested
  have hrun : ingested = Runs.run (advance strKey txHash) ix (first ++ last) :=
    applyEvents_readings ix (first ++ last)
  have hlog : logOf (first ++ last) = logOf first ++ logOf last := List.map_append
  rw [applyEvents_readings]
  have hstanding : Standing ingested (Runs.run (advance strKey txHash) ingested again) := by
    refine run_standing fun e he => ?_
    rw [hagain] at he
    rw [hrun]
    exact hw.known (hlog ▸ List.mem_append_right _ he)
  have hrow : ∀ k, (Runs.run (advance strKey txHash) ingested again).store.auctions.find k =
      ingested.store.auctions.find k := by
    intro k
    by_cases hk : about k (logOf (first ++ last)) = []
    · have hnone : ∀ r ∈ again, r.event.2.auctionId ≠ k := by
        intro r hr hid
        have hmem : r.event ∈ logOf last := hagain ▸ List.mem_map_of_mem hr
        have habout : r.event ∈ about k (logOf (first ++ last)) :=
          List.mem_filter.mpr ⟨hlog ▸ List.mem_append_right _ hmem, by simpa using hid⟩
        rw [hk] at habout
        exact absurd habout List.not_mem_nil
      exact (run_agree hnone).row
    · obtain ⟨row₁, row, hrow, hfirst, hcounted⟩ := hw.row txHash ix hk
      rw [← hrun] at hrow hcounted
      obtain ⟨row', hrow', hlast⟩ := run_overwritten again hrow
      rw [hagain] at hlast
      rw [hlog, about_append] at hfirst
      have hcount : row'.filledSlots = row.filledSlots := by
        by_cases hbid : ∃ e ∈ about k (logOf last), e.2.bid ≠ none
        · have hbefore : ingested.store.Counted k := by
            obtain ⟨e, he, hne⟩ := hbid
            refine hcounted ⟨e, ?_, hne⟩
            rw [hlog, about_append]
            exact List.mem_append_right _ he
          have hafter : (Runs.run (advance strKey txHash) ingested again).store.Counted k :=
            run_counted hrow (hagain ▸ hbid)
          rw [hafter row' hrow', hbefore row hrow, AuctionStore.bidCount, hstanding.bids]
          rfl
        · refine hlast.count fun e he => ?_
          by_contra hne
          exact hbid ⟨e, he, hne⟩
      rw [hrow', hrow, hfirst.again hlast hcount]
  exact hstanding.eq (Table.ext_find hstanding.ids hrow)

theorem wholeLog_honest (h : Host W) (g : Genesis W) (actions : List (Action W)) (strKey : StrKey) :
    WholeLog h g actions strKey ((runFrom h g actions).events.map fun e =>
      ⟨actions.length, honestView strKey (runFrom h g actions), e⟩) where
  log := by
    rw [logOf, List.map_map]
    exact List.map_id _
  reads := by
    intro r hr
    obtain ⟨e, -, rfl⟩ := List.mem_map.mp hr
    rw [stateAt, List.take_length]
    exact honestView_answers strKey _
  published := by
    intro r hr
    obtain ⟨e, he, rfl⟩ := List.mem_map.mp hr
    rw [stateAt, List.take_length]
    exact he

/-- A refund that could not return the lot, and its reclaim, both applied twice. -/
theorem replay_idempotent_witness :
    let h := sacHost (.contract (keyOf 0)) (fun _ _ _ => none) firstInput
    let seller : Address := .account (keyOf 2)
    let frozen : SacState := ⟨fun _ _ => 100, fun _ dst => decide (dst = seller)⟩
    let g : Genesis SacState := ⟨.contract (keyOf 1), frozen, 0, 1⟩
    let args : CreateArgs := ⟨seller, .contract (keyOf 10), 7, .contract (keyOf 11), 5, 10, 3, 0,
      keyOf 9⟩
    let actions : List (Action SacState) := [.call [seller] (.createAuction args),
      .closeLedger 20 2, .call [] (.refundAll 1), .outside (evenTokens 100),
      .call [] (.reclaimLot 1)]
    ∃ first last : List Reading, WholeLog h g actions sep23 (first ++ last) ∧
      (logOf last).map (fun e => e.2.lot) = [some false, none, some true] ∧
      ∀ ix, let ingested := applyEvents ix ((first ++ last).map (Reading.applied sep23 fun _ => none))
        applyEvents ingested (last.map (Reading.applied sep23 fun _ => none)) = ingested := by
  intro h seller frozen g args actions
  have hw := wholeLog_honest h g actions sep23
  rw [← List.take_append_drop 1 (List.map _ _)] at hw
  refine ⟨_, _, hw, by decide, fun ix => ?_⟩
  exact replay_idempotent h g actions sep23 (fun _ => none) ix _ _ _ hw rfl

end SealedStellar.Indexer
