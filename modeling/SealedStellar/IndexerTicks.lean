import SealedStellar.IndexerCoverage
import SealedStellar.IndexerRows

/-! The ticks of the indexer as one run over the events that they apply: what happens between two
ticks only moves the cursor. -/
namespace SealedStellar.Indexer
variable {W : Type} {h : Host W} {strKey : StrKey} {txHash : ℕ × Event → Option String} {k : ℕ}

def Tick.appliedIn (tick : Tick) (ix : IndexerState) : List Applied :=
  match tick.fetched ix with
  | .error _ => []
  | .ok fetched => tick.applied fetched

def appliedBy : IndexerState → List Tick → List Applied
  | _, [] => []
  | ix, tick :: ticks => tick.appliedIn ix ++ appliedBy (syncEvents ix tick) ticks

section Cursor

def IndexerState.withCursor (ix : IndexerState) (ingestCursor : Option IngestCursor) : IndexerState :=
  { ix with store := { ix.store with ingestCursor := ingestCursor } }

variable (c : Option IngestCursor)

theorem recordBids_cursor (bids : List DecodedBid) (auctionId : ℕ) (store : AuctionStore) :
    recordBids bids auctionId { store with ingestCursor := c } =
      { recordBids bids auctionId store with ingestCursor := c } := by
  induction bids generalizing store with
  | nil => rfl
  | cons bid bids ih => exact ih (store.recordBid auctionId bid.slotIndex bid.bidder)

theorem enrich_cursor (view : ChainView) (auctionId : ℕ) (ix : IndexerState) :
    (enrichAndUpsert view auctionId (ix.withCursor c)).2 =
      (enrichAndUpsert view auctionId ix).2.withCursor c := by
  rw [enrichAndUpsert, enrichAndUpsert]
  cases getAuction view auctionId with
  | error e => rfl
  | ok auction =>
    dsimp only [IndexerState.withCursor]
    split
    · rw [indexAuction, indexAuction, ← recordBids_cursor]
      rfl
    · rfl

theorem advance_cursor (ix : IndexerState) (r : Reading) :
    advance strKey txHash (ix.withCursor c) r = (advance strKey txHash ix r).withCursor c := by
  obtain ⟨moment, view, ledger, e⟩ := r
  rw [advance_eq, advance_eq]
  cases e with
  | AuctionCreated j seller maxPrice commitDeadline =>
    have hhas : (ix.withCursor c).store.hasAuction j = ix.store.hasAuction j := rfl
    dsimp only
    rw [hhas]
    split
    · rfl
    · exact enrich_cursor c view j ix
  | BidPlaced j slotIndex bidder commitment encryptedBid => rfl
  | AuctionSettled j winner winningPrice => rfl
  | AuctionRefunded j refundedBids => rfl
  | LotReturnFailed j seller lotAmount => rfl
  | LotReclaimed j seller lotAmount => rfl

theorem run_cursor (ix : IndexerState) (rs : List Reading) :
    Runs.run (advance strKey txHash) (ix.withCursor c) rs =
      (Runs.run (advance strKey txHash) ix rs).withCursor c := by
  induction rs generalizing ix with
  | nil => rfl
  | cons r rs ih => rw [Runs.run_cons, advance_cursor, ih, Runs.run_cons]

end Cursor

section Ticks

theorem syncEvents_run {tick : Tick} {ix : IndexerState} {rs : List Reading}
    (happlied : tick.appliedIn ix = rs.map (Reading.applied strKey txHash)) :
    ∃ c, syncEvents ix tick = (Runs.run (advance strKey txHash) ix rs).withCursor c := by
  rw [Tick.appliedIn] at happlied
  rw [syncEvents]
  cases hf : tick.fetched ix with
  | error e =>
    rw [hf] at happlied
    rw [List.map_eq_nil_iff.mp happlied.symm]
    exact ⟨ix.store.ingestCursor, rfl⟩
  | ok fetched =>
    rw [hf] at happlied
    dsimp only at happlied ⊢
    rw [happlied, applyEvents_readings]
    exact ⟨some ⟨some fetched.latestLedger, none⟩, rfl⟩

theorem ticks_run {ticks : List Tick} {ix : IndexerState} {rs : List Reading}
    (happlied : appliedBy ix ticks = rs.map (Reading.applied strKey txHash)) :
    ∃ c, ticks.foldl syncEvents ix = (Runs.run (advance strKey txHash) ix rs).withCursor c := by
  induction ticks generalizing ix rs with
  | nil =>
    rw [List.map_eq_nil_iff.mp happlied.symm]
    exact ⟨ix.store.ingestCursor, rfl⟩
  | cons tick ticks ih =>
    obtain ⟨first, rest, rfl, hfirst, hrest⟩ := List.map_eq_append_iff.mp happlied.symm
    obtain ⟨c, hc⟩ := syncEvents_run hfirst.symm
    obtain ⟨c', hc'⟩ := ih hrest.symm
    rw [List.foldl_cons, hc', hc, run_cursor, Runs.run_append]
    exact ⟨c', rfl⟩

end Ticks

section Followed

/-- The event was published, and the views answer as the contract does, at the moment of the
reading. -/
structure Reading.Shown (h : Host W) (g : Genesis W) (actions : List (Action W)) (strKey : StrKey)
    (r : Reading) : Prop where
  view : r.view.Shows strKey (stateAt h g actions r.moment)
  published : r.event ∈ (stateAt h g actions r.moment).events

/-- The ticks come one after another from moment n of the run on. Each is served the log of one
moment, and applies its events at later and later ones. -/
inductive Followed (h : Host W) (g : Genesis W) (actions : List (Action W)) (strKey : StrKey)
    (txHash : ℕ × Event → Option String) : ℕ → List Tick → Prop
  | nil (n : ℕ) : Followed h g actions strKey txHash n []
  | cons {n : ℕ} (m next : ℕ) {tick : Tick} {ticks : List Tick} (moment : ℕ → ℕ) (started : n ≤ m)
      (serves : tick.server.Serves (rawEvent strKey txHash) (stateAt h g actions m).events)
      (reads : ∀ i, (tick.views i).Shows strKey (stateAt h g actions (moment i)))
      (later : ∀ i, m ≤ moment i) (ordered : Monotone moment) (ended : ∀ i, moment i ≤ next)
      (rest : Followed h g actions strKey txHash next ticks) :
      Followed h g actions strKey txHash n (tick :: ticks)

variable {g : Genesis W} {actions : List (Action W)}

theorem fetched_ok {tick : Tick} {ix : IndexerState} {fetched : Fetched}
    (hf : tick.fetched ix = .ok fetched) :
    ∃ start, fetchContractEvents tick.server start = .ok fetched := by
  obtain ⟨latest, -, hfetch⟩ := Checked.bind_eq_ok.mp hf
  exact ⟨_, hfetch⟩

theorem tick_readings {m next : ℕ} {tick : Tick} {moment : ℕ → ℕ}
    (hserves : tick.server.Serves (rawEvent strKey txHash) (stateAt h g actions m).events)
    (hreads : ∀ i, (tick.views i).Shows strKey (stateAt h g actions (moment i)))
    (hlater : ∀ i, m ≤ moment i) (hordered : Monotone moment) (hended : ∀ i, moment i ≤ next)
    (ix : IndexerState) : ∃ rs : List Reading,
      tick.appliedIn ix = rs.map (Reading.applied strKey txHash) ∧
      (∀ r ∈ rs, m ≤ r.moment ∧ r.moment ≤ next ∧ r.Shown h g actions strKey) ∧
      rs.Pairwise fun r r' => r.moment ≤ r'.moment := by
  rw [Tick.appliedIn]
  cases hf : tick.fetched ix with
  | error e => exact ⟨[], rfl, fun r hr => absurd hr List.not_mem_nil, List.Pairwise.nil⟩
  | ok fetched =>
    obtain ⟨start, hfetch⟩ := fetched_ok hf
    obtain ⟨responses, served, -, hpages, hevents, -⟩ := fetched_served hserves
      (fun e he => (run_event_auction g _ he).1) hfetch
    refine ⟨served.zipIdx.map fun e => ⟨moment e.2, tick.views e.2, e.1⟩, ?_, fun r hr => ?_, ?_⟩
    · dsimp only
      rw [Tick.applied, hevents, List.zipIdx_map, List.map_map, List.map_map]
      rfl
    · obtain ⟨e, he, rfl⟩ := List.mem_map.mp hr
      refine ⟨hlater e.2, hended e.2, hreads e.2, ?_⟩
      have hserved : e.1 ∈ (stateAt h g actions m).events :=
        List.mem_of_mem_filter (hpages.subset (List.fst_mem_of_mem_zipIdx he))
      exact (stateAt_grow g actions (hlater e.2)).subset hserved
    · have hindex : (served.zipIdx.map Prod.snd).Pairwise (· < ·) := by
        rw [List.zipIdx_map_snd]
        exact List.pairwise_lt_range'
      exact List.pairwise_map.mpr ((List.pairwise_map.mp hindex).imp fun hlt => hordered hlt.le)

theorem followed_readings {n : ℕ} {ticks : List Tick}
    (hf : Followed h g actions strKey txHash n ticks) (ix : IndexerState) : ∃ rs : List Reading,
      appliedBy ix ticks = rs.map (Reading.applied strKey txHash) ∧
      (∀ r ∈ rs, n ≤ r.moment ∧ r.Shown h g actions strKey) ∧
      rs.Pairwise fun r r' => r.moment ≤ r'.moment := by
  induction hf generalizing ix with
  | nil n => exact ⟨[], rfl, fun r hr => absurd hr List.not_mem_nil, List.Pairwise.nil⟩
  | cons m next moment started serves reads later ordered ended rest ih =>
    obtain ⟨rs, happlied, hrs, hsorted⟩ := tick_readings serves reads later ordered ended ix
    obtain ⟨rs', happlied', hrs', hsorted'⟩ := ih (syncEvents ix _)
    refine ⟨rs ++ rs', ?_, fun r hr => ?_, ?_⟩
    · rw [appliedBy, happlied, happlied', List.map_append]
    · cases List.mem_append.mp hr with
      | inl hmem =>
        obtain ⟨hm, -, hshown⟩ := hrs r hmem
        exact ⟨started.trans hm, hshown⟩
      | inr hmem =>
        obtain ⟨hnext, hshown⟩ := hrs' r hmem
        exact ⟨((started.trans (later 0)).trans (ended 0)).trans hnext, hshown⟩
    · refine List.pairwise_append.mpr ⟨hsorted, hsorted', fun r hr r' hr' => ?_⟩
      exact (hrs r hr).2.1.trans (hrs' r' hr').1

def onePage (raw : ℕ × Event → RawEvent) (log : List (ℕ × Event)) (tip : ℕ) : EventsServer :=
  fun _ request =>
    match request with
    | .startLedger ledger => .ok ⟨(log.filter fun e => ledger ≤ e.1).map raw, none, some tip⟩
    | .cursor _ => .error "not asked for"

theorem onePage_serves (raw : ℕ × Event → RawEvent) (log : List (ℕ × Event)) (tip : ℕ) :
    (onePage raw log tip).Serves raw log := by
  refine ⟨fun request => match request with
    | .startLedger ledger => log.filter fun e => ledger ≤ e.1
    | .cursor _ => [], fun _ => rfl, ?_⟩
  intro i request response hanswer
  cases request with
  | startLedger ledger =>
    cases hanswer
    exact ⟨_, [], tip, by rw [List.append_nil], rfl, rfl, fun _ h => absurd h List.not_mem_nil⟩
  | cursor pageCursor => cases hanswer

end Followed

end SealedStellar.Indexer
