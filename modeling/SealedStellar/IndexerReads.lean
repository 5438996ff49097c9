import SealedStellar.IndexerRows

/-! Which auctions the backfill and the creation events read, and what a read that succeeds leaves
in the store. -/
namespace SealedStellar.Indexer
open Checked
variable {W : Type} {h : Host W} {strKey : StrKey} {txHash : ℕ × Event → Option String} {k : ℕ}

def ChainView.Symbol (view : ChainView) (cache : String → Option String) (token : String) : Prop :=
  (cache token).isSome ∨ ∃ symbol, view.symbol token = .result (some symbol)

def ChainView.Readable (view : ChainView) (cache : String → Option String) (k : ℕ) : Prop :=
  ∃ decoded, getAuction view k = .ok decoded ∧ view.Symbol cache decoded.rwaToken ∧
    view.Symbol cache decoded.paymentToken

def ChainView.Missing (view : ChainView) (k : ℕ) : Prop :=
  getAuction view k = .error (.contract_error auctionNotFoundCode)

section Enrich
variable {view : ChainView} {cache : String → Option String} {token : String}

theorem getTokenSymbol_ok :
    (∃ symbol, (getTokenSymbol view cache token).1 = .ok symbol) ↔ view.Symbol cache token := by
  rw [getTokenSymbol, ChainView.Symbol]
  cases hcache : cache token with
  | some cached => exact iff_of_true ⟨cached, rfl⟩ (.inl rfl)
  | none =>
    simp only [← simulateView_eq_ok]
    cases simulateView (view.symbol token) with
    | error e => simp
    | ok symbol => cases symbol <;> simp

theorem symbol_cached (other : String) :
    view.Symbol (getTokenSymbol view cache token).2 other ↔ view.Symbol cache other := by
  rw [getTokenSymbol]
  cases hcache : cache token with
  | some cached => rfl
  | none =>
    cases hanswer : simulateView (view.symbol token) with
    | error e => rfl
    | ok symbol =>
      cases symbol with
      | none => rfl
      | some symbol =>
        by_cases hother : other = token
        · subst hother
          have hfound : view.symbol other = .result (some symbol) := simulateView_eq_ok.mp hanswer
          exact iff_of_true (.inr ⟨symbol, hfound⟩) (.inr ⟨symbol, hfound⟩)
        · simp only [ChainView.Symbol, Function.update_of_ne hother]

variable (ix : IndexerState)

theorem enrich_indexed_iff :
    (enrichAndUpsert view k ix).1 = .indexed ↔ view.Readable ix.tokenSymbolCache k := by
  rw [enrichAndUpsert, ChainView.Readable]
  cases getAuction view k with
  | error e =>
    dsimp only
    split <;> simp
  | ok decoded =>
    simp only [Except.ok.injEq, exists_eq_left']
    rw [← symbol_cached decoded.paymentToken, ← getTokenSymbol_ok, ← getTokenSymbol_ok]
    split
    case h_1 lotSymbol paymentSymbol hlot hpayment =>
      exact iff_of_true rfl ⟨⟨lotSymbol, hlot⟩, ⟨paymentSymbol, hpayment⟩⟩
    case h_2 hfail =>
      refine iff_of_false (by simp) fun hboth => ?_
      obtain ⟨⟨lotSymbol, hlot⟩, ⟨paymentSymbol, hpayment⟩⟩ := hboth
      exact hfail lotSymbol paymentSymbol hlot hpayment

theorem enrich_missing_iff :
    (enrichAndUpsert view k ix).1 = .not_found ↔ view.Missing k := by
  rw [enrichAndUpsert, ChainView.Missing]
  cases getAuction view k with
  | error e =>
    dsimp only
    split
    case isTrue he => exact iff_of_true rfl (congrArg _ he)
    case isFalse he => exact iff_of_false (by simp) fun h => he (Except.error.inj h)
  | ok decoded =>
    refine iff_of_false ?_ (by simp)
    dsimp only
    split <;> simp

theorem enrich_unread (hread : ¬view.Readable ix.tokenSymbolCache k) :
    (enrichAndUpsert view k ix).2.store = ix.store := by
  rw [← enrich_indexed_iff, enrichAndUpsert] at hread
  rw [enrichAndUpsert]
  cases hanswer : getAuction view k with
  | error e => rfl
  | ok decoded =>
    rw [hanswer] at hread
    dsimp only at hread ⊢
    split
    case h_1 hlot hpayment =>
      simp only [hlot, hpayment] at hread
      exact absurd trivial hread
    case h_2 => rfl

end Enrich

section Backfill
variable (views : ℕ → ChainView)

theorem backfillFrom_missing {auctionId : ℕ} (hmissing : (views auctionId).Missing auctionId)
    (n : ℕ) (ix : IndexerState) : backfillFrom views (n + 1) auctionId ix = ix := by
  have hread : enrichAndUpsert (views auctionId) auctionId ix = (.not_found, ix) := by
    rw [enrichAndUpsert, hmissing]
    rfl
  rw [backfillFrom, hread]

theorem backfillFrom_next {auctionId : ℕ} (hthere : ¬(views auctionId).Missing auctionId) (n : ℕ)
    (ix : IndexerState) : backfillFrom views (n + 1) auctionId ix =
      backfillFrom views n (auctionId + 1) (enrichAndUpsert (views auctionId) auctionId ix).2 := by
  rw [← enrich_missing_iff ix] at hthere
  rw [backfillFrom]
  split
  case h_1 hread => exact absurd (congrArg Prod.fst hread) hthere
  case h_2 hread => rw [hread]

theorem backfillFrom_agree (n : ℕ) {auctionId : ℕ} (ix : IndexerState)
    (hk : k < auctionId ∨ auctionId + n ≤ k) :
    ix.store.Agree (backfillFrom views n auctionId ix).store k := by
  induction n generalizing auctionId ix with
  | zero => exact .refl _ k
  | succ n ih =>
    by_cases hmissing : (views auctionId).Missing auctionId
    · rw [backfillFrom_missing views hmissing]
      exact .refl _ k
    · rw [backfillFrom_next views hmissing]
      have hne : k ≠ auctionId := by omega
      apply (enrich_agree (views auctionId) hne ix).trans
      apply ih
      omega

/-- An answer that there is no such auction keeps the backfill from all later ids. -/
theorem backfillFrom_stop (n : ℕ) {auctionId j : ℕ} (ix : IndexerState) (hj : auctionId ≤ j)
    (hjk : j < k) (hmissing : (views j).Missing j) :
    ix.store.Agree (backfillFrom views n auctionId ix).store k := by
  induction n generalizing auctionId ix with
  | zero => exact .refl _ k
  | succ n ih =>
    by_cases hfirst : (views auctionId).Missing auctionId
    · rw [backfillFrom_missing views hfirst]
      exact .refl _ k
    · have hne : auctionId ≠ j := by
        intro he
        subst he
        exact hfirst hmissing
      rw [backfillFrom_next views hfirst]
      apply (enrich_agree (views auctionId) (by omega : k ≠ auctionId) ix).trans
      apply ih
      omega

theorem backfillFrom_reach (n : ℕ) {auctionId : ℕ} (ix : IndexerState) (hk : auctionId ≤ k)
    (hkn : k < auctionId + n) (hthere : ∀ j, auctionId ≤ j → j < k → ¬(views j).Missing j) :
    (enrichAndUpsert (views k) k (backfillFrom views (k - auctionId) auctionId ix)).2.store.Agree
      (backfillFrom views n auctionId ix).store k := by
  induction n generalizing auctionId ix with
  | zero => omega
  | succ n ih =>
    by_cases he : auctionId = k
    · subst he
      rw [Nat.sub_self, backfillFrom]
      by_cases hmissing : (views auctionId).Missing auctionId
      · rw [backfillFrom_missing views hmissing, enrichAndUpsert, hmissing]
        exact .refl _ auctionId
      · rw [backfillFrom_next views hmissing]
        exact backfillFrom_agree views n _ (.inl (Nat.lt_succ_self auctionId))
    · have hfirst := hthere auctionId (le_refl _) (by omega)
      have hsub : k - auctionId = k - (auctionId + 1) + 1 := by omega
      rw [hsub, backfillFrom_next views hfirst, backfillFrom_next views hfirst]
      exact ih _ (by omega) (by omega) fun j hj => hthere j (by omega)

def ReadInBackfill (backfillMaxId : ℕ) (views : ℕ → ChainView) (ix : IndexerState) (k : ℕ) : Prop :=
  1 ≤ k ∧ k ≤ backfillMaxId ∧ (∀ j, 1 ≤ j → j < k → ¬(views j).Missing j) ∧
    (views k).Readable (backfill (k - 1) views ix).tokenSymbolCache k

variable {views} {backfillMaxId : ℕ} {ix : IndexerState}

theorem backfill_read (hread : ReadInBackfill backfillMaxId views ix k) :
    (enrichAndUpsert (views k) k (backfill (k - 1) views ix)).2.store.Agree
      (backfill backfillMaxId views ix).store k := by
  obtain ⟨hpos, hcap, hthere, -⟩ := hread
  exact backfillFrom_reach views backfillMaxId ix hpos (by omega) hthere

theorem backfill_unread (hread : ¬ReadInBackfill backfillMaxId views ix k) :
    ix.store.Agree (backfill backfillMaxId views ix).store k := by
  by_cases hrange : 1 ≤ k ∧ k ≤ backfillMaxId
  · by_cases hstop : ∃ j, 1 ≤ j ∧ j < k ∧ (views j).Missing j
    · obtain ⟨j, hj, hjk, hmissing⟩ := hstop
      exact backfillFrom_stop views backfillMaxId ix hj hjk hmissing
    · have hthere : ∀ j, 1 ≤ j → j < k → ¬(views j).Missing j :=
        fun j hj hjk hmissing => hstop ⟨j, hj, hjk, hmissing⟩
      have hfail : (enrichAndUpsert (views k) k (backfillFrom views (k - 1) 1 ix)).2.store =
          (backfillFrom views (k - 1) 1 ix).store :=
        enrich_unread _ fun h => hread ⟨hrange.1, hrange.2, hthere, h⟩
      have hreach := backfillFrom_reach views backfillMaxId ix hrange.1 (by omega) hthere
      rw [hfail] at hreach
      exact (backfillFrom_agree views (k - 1) ix (.inr (by omega))).trans hreach
  · exact backfillFrom_agree views backfillMaxId ix (by omega)

end Backfill

section Taken
variable {store store' : AuctionStore} {auction : Auction} {s : State W}

theorem key_bidsOf (store : AuctionStore) (k : ℕ) (i : ℤ) :
    (k, i) ∈ (store.bidsOf k).map BidRow.key ↔ (k, i) ∈ store.bids.rows.map BidRow.key := by
  constructor
  · intro hkey
    obtain ⟨bid, hbid, he⟩ := List.mem_map.mp hkey
    exact List.mem_map.mpr ⟨bid, (mem_bidsOf.mp hbid).1, he⟩
  · intro hkey
    obtain ⟨bid, hbid, he⟩ := List.mem_map.mp hkey
    have hid : bid.auctionId = k := congrArg Prod.fst he
    exact List.mem_map.mpr ⟨bid, mem_bidsOf.mpr ⟨hbid, hid⟩, he⟩

structure Taken (strKey : StrKey) (store : AuctionStore) (k : ℕ) (auction : Auction) : Prop where
  row : ∃ row, store.auctions.find k = some row ∧ Snapshot (decodedAuction strKey auction) row
  counted : store.Counted k
  slots : ∀ i : ℕ, i < auction.bids.length → (k, (i : ℤ)) ∈ (store.bidsOf k).map BidRow.key

theorem Taken.agree (ht : Taken strKey store k auction) (ha : store.Agree store' k) :
    Taken strKey store' k auction where
  row := by
    rw [ha.row]
    exact ht.row
  counted := ha.counted ht.counted
  slots := by
    rw [ha.bids]
    exact ht.slots

theorem enrich_taken {view : ChainView} {ix : IndexerState} (hview : view.Shows strKey s)
    (hread : view.Readable ix.tokenSymbolCache k) (hnone : ix.store.auctions.find k = none)
    (hbids : ∀ auction, s.auctions k = some auction → auction.bids = [] → ix.store.bidsOf k = []) :
    ∃ auction, s.auctions k = some auction ∧
      Taken strKey (enrichAndUpsert view k ix).2.store k auction := by
  cases enrich_cases ix hview k with
  | inl hindexed =>
    obtain ⟨auction, lotSymbol, paymentSymbol, ha, -, hstore⟩ := hindexed
    refine ⟨auction, ha, ?_⟩
    rw [hstore]
    refine ⟨indexAuction_find hnone, ?_, fun i hi => ?_⟩
    · exact indexAuction_counted hnone fun hnil => hbids auction ha (decodedBids_nil hnil)
    · obtain ⟨b, hb, hslot⟩ := decodedBids_slot (List.getElem?_eq_getElem hi)
      rw [key_bidsOf, ← hslot]
      exact indexAuction_key k b hb
  | inr hskip => exact absurd ((enrich_indexed_iff ix).mpr hread) hskip.1

theorem backfill_taken {views : ℕ → ChainView} {moment : ℕ → State W} {backfillMaxId : ℕ}
    {cache : String → Option String} (hviews : ∀ j, (views j).Shows strKey (moment j))
    (hread : ReadInBackfill backfillMaxId views ⟨.empty, cache⟩ k) :
    ∃ auction, (moment k).auctions k = some auction ∧
      Taken strKey (backfill backfillMaxId views ⟨.empty, cache⟩).store k auction := by
  have hpos := hread.1
  have hfresh : AuctionStore.empty.Agree (backfill (k - 1) views ⟨.empty, cache⟩).store k :=
    backfillFrom_agree views (k - 1) ⟨.empty, cache⟩ (.inr (by omega))
  obtain ⟨auction, ha, ht⟩ :=
    enrich_taken (hviews k) hread.2.2.2 hfresh.row fun _ _ _ => hfresh.bids
  exact ⟨auction, ha, ht.agree (backfill_read hread)⟩

end Taken

section Genuine
variable {log : List (ℕ × Event)} {s : State W} {auction : Auction} {bid bid' : BidRow}

theorem mem_ofAuction {e : Event} :
    e ∈ ofAuction k log ↔ e.auctionId = k ∧ ∃ ledger, (ledger, e) ∈ log := by
  rw [ofAuction, List.mem_filter, List.mem_map]
  simp only [Prod.exists, exists_eq_right, decide_eq_true_eq]
  exact and_comm

theorem bidRow_eq_some {e : Event} : Event.bidRow strKey e = some bid ↔
    ∃ slot, e.bid = some slot ∧ bid = ⟨e.auctionId, slot.1, strKey.encode slot.2⟩ := by
  rw [Event.bidRow, Option.map_eq_some_iff]
  exact exists_congr fun slot => and_congr_right fun _ => eq_comm

theorem bidOf_iff (hr : Recorded (ofAuction k log) auction) :
    BidOf strKey auction.bids k bid ↔
      ∃ e ∈ ofAuction k log, Event.bidRow strKey e = some bid := by
  have hslot : ∀ i bidder, (∃ e ∈ ofAuction k log, e.bid = some (i, bidder)) ↔
      ∃ b, auction.bids[i]? = some b ∧ b.bidder = bidder := by
    intro i bidder
    rw [← List.mem_filterMap, hr.bids, List.mem_map]
    constructor
    · intro hmem
      obtain ⟨slot, hslot, he⟩ := hmem
      cases he
      exact ⟨slot.1, List.mem_zipIdx_iff_getElem?.mp hslot, rfl⟩
    · intro hget
      obtain ⟨b, hb, rfl⟩ := hget
      exact ⟨(b, i), List.mem_zipIdx_iff_getElem?.mpr hb, rfl⟩
  constructor
  · intro hbid
    obtain ⟨i, b, hb, rfl⟩ := hbid
    obtain ⟨e, he, hplaced⟩ := (hslot i b.bidder).mpr ⟨b, hb, rfl⟩
    exact ⟨e, he, bidRow_eq_some.mpr ⟨_, hplaced, by rw [(mem_ofAuction.mp he).1]⟩⟩
  · intro hevent
    obtain ⟨e, he, hrow⟩ := hevent
    obtain ⟨slot, hplaced, rfl⟩ := bidRow_eq_some.mp hrow
    obtain ⟨b, hb, hbidder⟩ := (hslot slot.1 slot.2).mp ⟨e, he, hplaced⟩
    exact ⟨slot.1, b, hb, by rw [(mem_ofAuction.mp he).1, hbidder]⟩

theorem BidOf.slot_inj {bids : List Bid} (hb : BidOf strKey bids k bid)
    (hb' : BidOf strKey bids k bid') (hkey : bid.key = bid'.key) : bid = bid' := by
  obtain ⟨i, b, hi, rfl⟩ := hb
  obtain ⟨i', b', hi', rfl⟩ := hb'
  have hslot : (i : ℤ) = i' := congrArg Prod.snd hkey
  have he : i = i' := by exact_mod_cast hslot
  subst he
  rw [hi] at hi'
  cases hi'
  rfl

def Genuine (strKey : StrKey) (log : List (ℕ × Event)) (store : AuctionStore) : Prop :=
  ∀ bid ∈ store.bids.rows, ∃ e ∈ log, Event.bidRow strKey e.2 = some bid

theorem Genuine.bidOf {store : AuctionStore} (hg : Genuine strKey log store)
    (hr : Recorded (ofAuction k log) auction) (hbid : bid ∈ store.bidsOf k) :
    BidOf strKey auction.bids k bid := by
  obtain ⟨hmem, hid⟩ := mem_bidsOf.mp hbid
  obtain ⟨e, he, hrow⟩ := hg bid hmem
  obtain ⟨slot, -, hslot⟩ := bidRow_eq_some.mp hrow
  rw [hslot] at hid
  exact (bidOf_iff hr).mpr ⟨e.2, mem_ofAuction.mpr ⟨hid, e.1, he⟩, hrow⟩

theorem bidOf_event (hs : Recounted s) (ha : s.auctions k = some auction)
    (hbid : BidOf strKey auction.bids k bid) :
    ∃ e ∈ s.events, Event.bidRow strKey e.2 = some bid := by
  obtain ⟨e, he, hrow⟩ := (bidOf_iff (hs.stored k auction ha)).mp hbid
  obtain ⟨-, ledger, hmem⟩ := mem_ofAuction.mp he
  exact ⟨(ledger, e), hmem, hrow⟩

theorem genuine_enrich {view : ChainView} {ix : IndexerState} (hview : view.Shows strKey s)
    (hs : Recounted s) (hsub : s.events ⊆ log) (hg : Genuine strKey log ix.store) (k : ℕ) :
    Genuine strKey log (enrichAndUpsert view k ix).2.store := by
  cases enrich_cases ix hview k with
  | inl hindexed =>
    obtain ⟨auction, lotSymbol, paymentSymbol, ha, -, hstore⟩ := hindexed
    rw [hstore]
    intro bid hbid
    cases indexAuction_mem hbid with
    | inl hold => exact hg bid hold
    | inr hnew =>
      obtain ⟨b, hb, rfl⟩ := hnew
      obtain ⟨e, he, hrow⟩ := bidOf_event hs ha (mem_decodedBids hb k)
      exact ⟨e, hsub he, hrow⟩
  | inr hskip =>
    rw [hskip.2.1]
    exact hg

theorem genuine_backfill {views : ℕ → ChainView} {moment : ℕ → State W}
    (hviews : ∀ j, (views j).Shows strKey (moment j)) (hs : ∀ j, Recounted (moment j))
    (hsub : ∀ j, (moment j).events ⊆ log) (n : ℕ) {auctionId : ℕ} {ix : IndexerState}
    (hg : Genuine strKey log ix.store) :
    Genuine strKey log (backfillFrom views n auctionId ix).store := by
  induction n generalizing auctionId ix with
  | zero => exact hg
  | succ n ih =>
    by_cases hmissing : (views auctionId).Missing auctionId
    · rw [backfillFrom_missing views hmissing]
      exact hg
    · rw [backfillFrom_next views hmissing]
      exact ih (genuine_enrich (hviews auctionId) (hs auctionId) (hsub auctionId) hg auctionId)

theorem genuine_advance {ix : IndexerState} {r : Reading} (hview : r.view.Shows strKey s)
    (hs : Recounted s) (hsub : s.events ⊆ log) (hr : r.event ∈ log)
    (hg : Genuine strKey log ix.store) :
    Genuine strKey log (advance strKey txHash ix r).store := by
  intro bid hbid
  cases advance_mem hview hbid with
  | inl hold => exact hg bid hold
  | inr hnew =>
    cases hnew with
    | inl hplaced => exact ⟨r.event, hr, hplaced⟩
    | inr hread =>
      obtain ⟨j, auction, ha, hof⟩ := hread
      obtain ⟨e, he, hrow⟩ := bidOf_event hs ha hof
      exact ⟨e, hsub he, hrow⟩

theorem genuine_run {ix : IndexerState} {rs : List Reading} (hg : Genuine strKey log ix.store)
    (hrs : ∀ r ∈ rs, r.event ∈ log ∧
      ∃ s : State W, r.view.Shows strKey s ∧ Recounted s ∧ s.events ⊆ log) :
    Genuine strKey log (Runs.run (advance strKey txHash) ix rs).store := by
  induction rs generalizing ix with
  | nil => exact hg
  | cons r rs ih =>
    obtain ⟨hr, s, hview, hs, hsub⟩ := hrs r List.mem_cons_self
    exact ih (genuine_advance hview hs hsub hr hg) fun r' hr' => hrs r' (List.mem_cons_of_mem r hr')

theorem genuine_ingested {views : ℕ → ChainView} {moment : ℕ → State W} {rs : List Reading}
    (hviews : ∀ j, (views j).Shows strKey (moment j)) (hs : ∀ j, Recounted (moment j))
    (hsub : ∀ j, (moment j).events ⊆ log)
    (hrs : ∀ r ∈ rs, r.event ∈ log ∧
      ∃ s : State W, r.view.Shows strKey s ∧ Recounted s ∧ s.events ⊆ log)
    (backfillMaxId : ℕ) (cache : String → Option String) :
    Genuine strKey log (ingested strKey txHash backfillMaxId views cache rs).store := by
  have hempty : Genuine strKey log AuctionStore.empty :=
    fun bid hbid => absurd hbid List.not_mem_nil
  exact genuine_run (genuine_backfill hviews hs hsub backfillMaxId hempty) hrs

theorem count_of_slots {store : AuctionStore} (hg : Genuine strKey log store)
    (hr : Recorded (ofAuction k log) auction)
    (hslots : ∀ i : ℕ, i < auction.bids.length → (k, (i : ℤ)) ∈ (store.bidsOf k).map BidRow.key) :
    store.bidCount k = auction.bids.length := by
  have hnodup : ((store.bidsOf k).map BidRow.key).Nodup :=
    store.bids.keyed.sublist (List.filter_sublist.map BidRow.key)
  have hslotsNodup : ((List.range auction.bids.length).map fun i : ℕ => (k, (i : ℤ))).Nodup :=
    List.nodup_range.map fun i i' he => by simpa using he
  have hperm := (List.perm_ext_iff_of_nodup hnodup hslotsNodup).mpr fun key => by
    constructor
    · intro hkey
      obtain ⟨bid, hbid, rfl⟩ := List.mem_map.mp hkey
      obtain ⟨i, b, hi, rfl⟩ := hg.bidOf hr hbid
      exact List.mem_map.mpr ⟨i, List.mem_range.mpr (List.getElem?_eq_some_iff.mp hi).1, rfl⟩
    · intro hkey
      obtain ⟨i, hi, rfl⟩ := List.mem_map.mp hkey
      exact hslots i (List.mem_range.mp hi)
  have hlength := hperm.length_eq
  rw [List.length_map, List.length_map, List.length_range] at hlength
  exact hlength

end Genuine

end SealedStellar.Indexer
