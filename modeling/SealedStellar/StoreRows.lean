import SealedStellar.Ingest

/-! What the writes of the store change: the row of one auction, and the bids recorded for it. -/
namespace SealedStellar
open Indexer
variable (store : AuctionStore) {k : ℕ}

def AuctionStore.bidsOf (k : ℕ) : List BidRow :=
  store.bids.rows.filter fun bid => bid.auctionId = k

structure AuctionStore.Agree (store store' : AuctionStore) (k : ℕ) : Prop where
  row : store'.auctions.find k = store.auctions.find k
  bids : store'.bidsOf k = store.bidsOf k

def AuctionStore.Counted (k : ℕ) : Prop :=
  ∀ row, store.auctions.find k = some row → row.filledSlots = store.bidCount k

variable {store} {store' : AuctionStore}

theorem AuctionStore.Agree.refl (store : AuctionStore) (k : ℕ) : store.Agree store k := ⟨rfl, rfl⟩

theorem AuctionStore.Agree.trans {a b c : AuctionStore} (hab : a.Agree b k) (hbc : b.Agree c k) :
    a.Agree c k := ⟨hbc.row.trans hab.row, hbc.bids.trans hab.bids⟩

theorem AuctionStore.Agree.counted (ha : store.Agree store' k) (hc : store.Counted k) :
    store'.Counted k := by
  intro row hrow
  rw [ha.row] at hrow
  rw [hc row hrow]
  exact congrArg List.length ha.bids.symm

theorem mem_bidsOf {bid : BidRow} :
    bid ∈ store.bidsOf k ↔ bid ∈ store.bids.rows ∧ bid.auctionId = k := by
  simp [AuctionStore.bidsOf]

variable (store)

section Rows

theorem find_updateAuction (auctionId : ℕ) (f : AuctionDbRow → AuctionDbRow)
    (hf : ∀ row, (f row).id = row.id) (k : ℕ) :
    (store.updateAuction auctionId f hf).auctions.find k =
      if k = auctionId then (store.auctions.find k).map f else store.auctions.find k :=
  Table.find_update store.auctions auctionId f hf k

theorem updateAuction_agree {auctionId : ℕ} (hk : k ≠ auctionId) (f : AuctionDbRow → AuctionDbRow)
    (hf : ∀ row, (f row).id = row.id) : store.Agree (store.updateAuction auctionId f hf) k :=
  ⟨(find_updateAuction store auctionId f hf k).trans (if_neg hk), rfl⟩

theorem counted_updateAuction {store : AuctionStore} (hc : store.Counted k) (auctionId : ℕ)
    (f : AuctionDbRow → AuctionDbRow) (hf : ∀ row, (f row).id = row.id)
    (hcount : ∀ row, (f row).filledSlots = row.filledSlots) :
    (store.updateAuction auctionId f hf).Counted k := by
  intro row hrow
  rw [find_updateAuction] at hrow
  split at hrow
  · obtain ⟨row', hrow', rfl⟩ := Option.map_eq_some_iff.mp hrow
    rw [hcount]
    exact hc row' hrow'
  · exact hc row hrow

theorem find_upsertCore_new {core : AuctionCore} (hk : core.id = k)
    (hnone : store.auctions.find k = none) :
    (store.upsertCore core).auctions.find k = some core.inserted := by
  have hid : k = core.inserted.id := hk.symm
  refine (Table.find_upsert store.auctions core.inserted core.updated _ k).trans ?_
  rw [if_pos hid, hnone]
  rfl

theorem upsertCore_agree {core : AuctionCore} (hk : k ≠ core.id) :
    store.Agree (store.upsertCore core) k :=
  ⟨(Table.find_upsert store.auctions core.inserted core.updated _ k).trans (if_neg hk), rfl⟩

end Rows

section Bids
variable (slotIndex : ℤ) (bidder : String)

theorem find_recordBid (auctionId k : ℕ) :
    (store.recordBid auctionId slotIndex bidder).auctions.find k = if k = auctionId then
      (store.auctions.find k).map
        (.counted ((store.recordBid auctionId slotIndex bidder).bidCount auctionId))
      else store.auctions.find k :=
  find_updateAuction (store.insertBid auctionId slotIndex bidder) auctionId _ _ k

theorem recordBid_agree {auctionId : ℕ} (hk : k ≠ auctionId) :
    store.Agree (store.recordBid auctionId slotIndex bidder) k :=
  ⟨(find_recordBid store slotIndex bidder auctionId k).trans (if_neg hk),
    Table.filter_insertOrIgnore _ (by simpa using Ne.symm hk)⟩

theorem counted_recordBid_self : (store.recordBid k slotIndex bidder).Counted k := by
  intro row hrow
  rw [find_recordBid, if_pos rfl] at hrow
  obtain ⟨row', -, rfl⟩ := Option.map_eq_some_iff.mp hrow
  rfl

theorem counted_recordBid (hc : store.Counted k) (auctionId : ℕ) :
    (store.recordBid auctionId slotIndex bidder).Counted k := by
  by_cases hk : k = auctionId
  · subst hk
    exact counted_recordBid_self store slotIndex bidder
  · exact (recordBid_agree store slotIndex bidder hk).counted hc

theorem mem_recordBid {auctionId : ℕ} {bid : BidRow}
    (hb : bid ∈ (store.recordBid auctionId slotIndex bidder).bids.rows) :
    bid ∈ store.bids.rows ∨ bid = ⟨auctionId, slotIndex, bidder⟩ := Table.mem_insertOrIgnore hb

theorem recordBid_subset (auctionId : ℕ) :
    store.bids.rows ⊆ (store.recordBid auctionId slotIndex bidder).bids.rows :=
  Table.subset_insertOrIgnore ..

theorem recordBid_key (auctionId : ℕ) : (auctionId, slotIndex) ∈
    (store.recordBid auctionId slotIndex bidder).bids.rows.map BidRow.key :=
  Table.key_insertOrIgnore store.bids ⟨auctionId, slotIndex, bidder⟩

end Bids

section Loop
variable (bids : List DecodedBid)

theorem mem_recordBids {auctionId : ℕ} {bid : BidRow}
    (hb : bid ∈ (recordBids bids auctionId store).bids.rows) : bid ∈ store.bids.rows ∨
      ∃ b ∈ bids, bid = ⟨auctionId, b.slotIndex, b.bidder⟩ := by
  induction bids generalizing store with
  | nil => exact .inl hb
  | cons b bids ih =>
    cases ih _ hb with
    | inl hold =>
      cases mem_recordBid store _ _ hold with
      | inl hold => exact .inl hold
      | inr hnew => exact .inr ⟨b, List.mem_cons_self, hnew⟩
    | inr hnew =>
      obtain ⟨b', hb', he⟩ := hnew
      exact .inr ⟨b', List.mem_cons_of_mem b hb', he⟩

theorem recordBids_subset (auctionId : ℕ) :
    store.bids.rows ⊆ (recordBids bids auctionId store).bids.rows := by
  induction bids generalizing store with
  | nil => exact List.Subset.refl _
  | cons b bids ih => exact List.Subset.trans (recordBid_subset store _ _ _) (ih _)

theorem recordBids_key (auctionId : ℕ) : ∀ b ∈ bids, (auctionId, (b.slotIndex : ℤ)) ∈
    (recordBids bids auctionId store).bids.rows.map BidRow.key := by
  induction bids generalizing store with
  | nil => exact fun b hb => absurd hb List.not_mem_nil
  | cons b bids ih =>
    intro b' hb'
    cases List.mem_cons.mp hb' with
    | inl he =>
      subst he
      exact List.map_subset _ (recordBids_subset _ bids auctionId) (recordBid_key store _ _ _)
    | inr hmem => exact ih _ b' hmem

theorem counted_recordBids (hc : store.Counted k) (auctionId : ℕ) :
    (recordBids bids auctionId store).Counted k := by
  induction bids generalizing store with
  | nil => exact hc
  | cons b bids ih => exact ih _ (counted_recordBid store _ _ hc _)

theorem recordBids_agree {auctionId : ℕ} (hk : k ≠ auctionId) :
    store.Agree (recordBids bids auctionId store) k := by
  induction bids generalizing store with
  | nil => exact .refl store k
  | cons b bids ih => exact (recordBid_agree store _ _ hk).trans (ih _)

theorem find_recordBids {row : AuctionDbRow} (hrow : store.auctions.find k = some row) :
    ∃ filledSlots, (recordBids bids k store).auctions.find k = some (row.counted filledSlots) := by
  induction bids generalizing store row with
  | nil => exact ⟨row.filledSlots, hrow⟩
  | cons b bids ih =>
    have hnext := find_recordBid store b.slotIndex b.bidder k k
    rw [if_pos rfl, hrow, Option.map_some] at hnext
    obtain ⟨filledSlots, hfind⟩ := ih _ hnext
    exact ⟨filledSlots, hfind⟩

end Loop

section Read
variable {store} {decoded : DecodedAuction} {lotSymbol paymentSymbol : String}

theorem indexAuction_agree {auctionId : ℕ} (hk : k ≠ auctionId) :
    store.Agree (indexAuction auctionId decoded lotSymbol paymentSymbol store) k :=
  have hcore : k ≠ (auctionCore auctionId decoded lotSymbol paymentSymbol).id := hk
  (upsertCore_agree store hcore).trans (recordBids_agree _ decoded.bids hk)

structure Snapshot (decoded : DecodedAuction) (row : AuctionDbRow) : Prop where
  status : row.status = statusName decoded.status
  lot : row.lotReclaimed = if decoded.lotReclaimed then 1 else 0
  clearingPrice : row.clearingPrice = none
  winner : row.winner = none

theorem indexAuction_find (hnone : store.auctions.find k = none) :
    ∃ row, (indexAuction k decoded lotSymbol paymentSymbol store).auctions.find k = some row ∧
      Snapshot decoded row := by
  let core := auctionCore k decoded lotSymbol paymentSymbol
  have hinserted : (store.upsertCore core).auctions.find k = some core.inserted :=
    find_upsertCore_new store rfl hnone
  obtain ⟨filledSlots, hfind⟩ := find_recordBids _ decoded.bids hinserted
  exact ⟨core.inserted.counted filledSlots, hfind, rfl, rfl, rfl, rfl⟩

theorem indexAuction_counted (hnone : store.auctions.find k = none)
    (hbids : decoded.bids = [] → store.bidsOf k = []) :
    (indexAuction k decoded lotSymbol paymentSymbol store).Counted k := by
  let core := auctionCore k decoded lotSymbol paymentSymbol
  have hinserted : (store.upsertCore core).auctions.find k = some core.inserted :=
    find_upsertCore_new store rfl hnone
  rw [indexAuction]
  cases hlist : decoded.bids with
  | nil =>
    intro row hrow
    have hrow' := hinserted.symm.trans hrow
    cases hrow'
    exact (congrArg List.length (hbids hlist)).symm
  | cons b bids => exact counted_recordBids _ bids (counted_recordBid_self _ _ _) k

theorem indexAuction_mem {auctionId : ℕ} {bid : BidRow}
    (hb : bid ∈ (indexAuction auctionId decoded lotSymbol paymentSymbol store).bids.rows) :
    bid ∈ store.bids.rows ∨ ∃ b ∈ decoded.bids, bid = ⟨auctionId, b.slotIndex, b.bidder⟩ :=
  mem_recordBids (store.upsertCore _) decoded.bids hb

theorem indexAuction_subset (auctionId : ℕ) : store.bids.rows ⊆
    (indexAuction auctionId decoded lotSymbol paymentSymbol store).bids.rows :=
  recordBids_subset (store.upsertCore _) decoded.bids auctionId

theorem indexAuction_key (auctionId : ℕ) : ∀ b ∈ decoded.bids, (auctionId, (b.slotIndex : ℤ)) ∈
    (indexAuction auctionId decoded lotSymbol paymentSymbol store).bids.rows.map BidRow.key :=
  recordBids_key (store.upsertCore _) decoded.bids auctionId

theorem enrich_store (view : ChainView) (k : ℕ) (ix : IndexerState) :
    (enrichAndUpsert view k ix).2.store = ix.store ∨
      ∃ decoded lotSymbol paymentSymbol, (enrichAndUpsert view k ix).2.store =
        indexAuction k decoded lotSymbol paymentSymbol ix.store := by
  rw [enrichAndUpsert]
  cases Indexer.getAuction view k with
  | error e => exact .inl rfl
  | ok decoded =>
    dsimp only
    split
    · exact .inr ⟨decoded, _, _, rfl⟩
    · exact .inl rfl

theorem enrich_agree (view : ChainView) {auctionId : ℕ} (hk : k ≠ auctionId) (ix : IndexerState) :
    ix.store.Agree (enrichAndUpsert view auctionId ix).2.store k := by
  cases enrich_store view auctionId ix with
  | inl hsame =>
    rw [hsame]
    exact .refl _ k
  | inr hread =>
    obtain ⟨decoded, lotSymbol, paymentSymbol, hread⟩ := hread
    rw [hread]
    exact indexAuction_agree hk

theorem enrich_subset (view : ChainView) (auctionId : ℕ) (ix : IndexerState) :
    ix.store.bids.rows ⊆ (enrichAndUpsert view auctionId ix).2.store.bids.rows := by
  cases enrich_store view auctionId ix with
  | inl hsame =>
    rw [hsame]
    exact List.Subset.refl _
  | inr hread =>
    obtain ⟨decoded, lotSymbol, paymentSymbol, hread⟩ := hread
    rw [hread]
    exact indexAuction_subset auctionId

end Read

end SealedStellar
