import SealedStellar.IndexerEvents
import SealedStellar.StoreRows

/-! What the row of one auction is after a read of the auction and after the events that are
applied to it. -/
namespace SealedStellar.Indexer
open Checked LastWrite
variable {W : Type} {h : Host W} {strKey : StrKey} {txHash : ℕ × Event → Option String} {k : ℕ}

structure ChainView.Shows (view : ChainView) (strKey : StrKey) (s : State W) : Prop where
  auction : ∀ k record, view.auction k = .result record →
    ∃ auction, s.auctions k = some auction ∧ record = rawAuctionRecord strKey auction
  absent : ∀ k text, view.auction k = .error text →
    parseContractErrorCode text = some auctionNotFoundCode → s.auctions k = none

structure ChainView.Answers (view : ChainView) (strKey : StrKey) (s : State W) : Prop where
  found : ∀ k auction, s.auctions k = some auction →
    view.auction k = .result (rawAuctionRecord strKey auction)
  missing : ∀ k, s.auctions k = none → ∃ text, view.auction k = .error text ∧
    parseContractErrorCode text = some auctionNotFoundCode
  symbols : ∀ token, ∃ symbol, view.symbol token = .result (some symbol)

section Reads
variable {view : ChainView} {s : State W} (ix : IndexerState)

theorem ChainView.Answers.shows (ha : view.Answers strKey s) : view.Shows strKey s where
  auction := by
    intro k record hrecord
    cases hs : s.auctions k with
    | none =>
      obtain ⟨text, htext, -⟩ := ha.missing k hs
      rw [htext] at hrecord
      cases hrecord
    | some auction =>
      rw [ha.found k auction hs] at hrecord
      cases hrecord
      exact ⟨auction, rfl, rfl⟩
  absent := by
    intro k text htext _
    cases hs : s.auctions k with
    | none => rfl
    | some auction =>
      rw [ha.found k auction hs] at htext
      cases htext

theorem simulateView_eq_ok {α : Type} {simulation : Simulation α} {value : α} :
    simulateView simulation = .ok value ↔ simulation = .result value := by
  cases simulation with
  | result answer => simp [simulateView]
  | error text => cases hcode : parseContractErrorCode text <;> simp [simulateView, hcode]
  | unreachable detail => simp [simulateView]
  | noResult => simp [simulateView]

theorem getAuction_ok (hview : view.Shows strKey s) {decoded : DecodedAuction}
    (hread : getAuction view k = .ok decoded) :
    ∃ auction, s.auctions k = some auction ∧ decoded = decodedAuction strKey auction := by
  obtain ⟨record, hsim, hdecode⟩ := bind_eq_ok.mp hread
  obtain ⟨auction, ha, rfl⟩ := hview.auction k record (simulateView_eq_ok.mp hsim)
  rw [decodeAuction_raw] at hdecode
  cases hdecode
  exact ⟨auction, ha, rfl⟩

theorem getAuction_notFound (hview : view.Shows strKey s)
    (hread : getAuction view k = .error (.contract_error auctionNotFoundCode)) :
    s.auctions k = none := by
  rw [getAuction] at hread
  cases hanswer : view.auction k with
  | result record =>
    obtain ⟨auction, ha, rfl⟩ := hview.auction k record hanswer
    simp [hanswer, simulateView, bind, Except.bind, decodeAuction_raw] at hread
  | error text =>
    rw [hanswer, simulateView] at hread
    cases hcode : parseContractErrorCode text with
    | none =>
      rw [hcode] at hread
      cases hread
    | some code =>
      rw [hcode] at hread
      cases hread
      exact hview.absent k text hanswer hcode
  | unreachable detail =>
    rw [hanswer] at hread
    cases hread
  | noResult =>
    rw [hanswer] at hread
    cases hread

/-- A read indexes what the contract stores, or leaves the store as it is. -/
theorem enrich_cases (hview : view.Shows strKey s) (k : ℕ) :
    (∃ auction lotSymbol paymentSymbol, s.auctions k = some auction ∧
      (enrichAndUpsert view k ix).1 = .indexed ∧ (enrichAndUpsert view k ix).2.store =
        indexAuction k (decodedAuction strKey auction) lotSymbol paymentSymbol ix.store) ∨
    ((enrichAndUpsert view k ix).1 ≠ .indexed ∧
      (enrichAndUpsert view k ix).2.store = ix.store ∧
      ((enrichAndUpsert view k ix).1 = .not_found → s.auctions k = none)) := by
  rw [enrichAndUpsert]
  cases hread : getAuction view k with
  | error e =>
    right
    by_cases he : e = .contract_error auctionNotFoundCode
    · simp only [if_pos he]
      exact ⟨by simp, trivial, fun _ => getAuction_notFound hview (he ▸ hread)⟩
    · simp only [if_neg he]
      exact ⟨by simp, trivial, fun hskip => by cases hskip⟩
  | ok decoded =>
    obtain ⟨auction, ha, rfl⟩ := getAuction_ok hview hread
    dsimp only
    split
    case h_1 lotSymbol paymentSymbol _ _ =>
      exact .inl ⟨auction, lotSymbol, paymentSymbol, ha, rfl, rfl⟩
    case h_2 => exact .inr ⟨by simp, rfl, fun hskip => by cases hskip⟩

theorem getTokenSymbol_answers (hview : view.Answers strKey s) (cache : String → Option String)
    (token : String) : ∃ symbol, (getTokenSymbol view cache token).1 = .ok symbol := by
  rw [getTokenSymbol]
  cases cache token with
  | some cached => exact ⟨cached, rfl⟩
  | none =>
    obtain ⟨symbol, hsymbol⟩ := hview.symbols token
    rw [hsymbol]
    exact ⟨symbol, rfl⟩

theorem enrich_answers (hview : view.Answers strKey s) (k : ℕ) :
    (enrichAndUpsert view k ix).1 =
      if (s.auctions k).isSome then .indexed else .not_found := by
  rw [enrichAndUpsert]
  cases ha : s.auctions k with
  | none =>
    obtain ⟨text, htext, hcode⟩ := hview.missing k ha
    have hread : getAuction view k = .error (.contract_error auctionNotFoundCode) := by
      rw [getAuction, htext, simulateView, hcode]
      rfl
    rw [hread]
    rfl
  | some auction =>
    have hread : getAuction view k = .ok (decodedAuction strKey auction) := by
      rw [getAuction, hview.found k auction ha]
      exact decodeAuction_raw auction
    obtain ⟨lotSymbol, hlot⟩ := getTokenSymbol_answers hview ix.tokenSymbolCache
      (decodedAuction strKey auction).rwaToken
    obtain ⟨paymentSymbol, hpayment⟩ := getTokenSymbol_answers hview
      (getTokenSymbol view ix.tokenSymbolCache (decodedAuction strKey auction).rwaToken).2
      (decodedAuction strKey auction).paymentToken
    simp only [hread, hlot, hpayment]
    rfl

end Reads

/-- An event of the contract, with the moment of the run in which it is applied and what the views
answer meanwhile. -/
structure Reading where
  moment : ℕ
  view : ChainView
  event : ℕ × Event

def Reading.applied (strKey : StrKey) (txHash : ℕ × Event → Option String) (r : Reading) : Applied :=
  ⟨r.view, indexedEvent strKey txHash r.event⟩

def advance (strKey : StrKey) (txHash : ℕ × Event → Option String) (ix : IndexerState)
    (r : Reading) : IndexerState :=
  applyEvent r.view ix (indexedEvent strKey txHash r.event)

theorem applyEvents_readings (ix : IndexerState) (rs : List Reading) :
    applyEvents ix (rs.map (Reading.applied strKey txHash)) =
      Runs.run (advance strKey txHash) ix rs := List.foldl_map

def ingested (strKey : StrKey) (txHash : ℕ × Event → Option String) (backfillMaxId : ℕ)
    (views : ℕ → ChainView) (cache : String → Option String) (rs : List Reading) : IndexerState :=
  Runs.run (advance strKey txHash) (backfill backfillMaxId views ⟨.empty, cache⟩) rs

theorem applyEvents_ingested (backfillMaxId : ℕ) (views : ℕ → ChainView)
    (cache : String → Option String) (rs : List Reading) :
    applyEvents (backfill backfillMaxId views ⟨.empty, cache⟩)
        (rs.map (Reading.applied strKey txHash)) =
      ingested strKey txHash backfillMaxId views cache rs := applyEvents_readings _ rs

theorem ingested_split (backfillMaxId : ℕ) (views : ℕ → ChainView)
    (cache : String → Option String) (before : List Reading) (r : Reading) (after : List Reading) :
    ingested strKey txHash backfillMaxId views cache (before ++ r :: after) =
      Runs.run (advance strKey txHash)
        (advance strKey txHash (ingested strKey txHash backfillMaxId views cache before) r) after := by
  rw [ingested, Runs.run_append, Runs.run_cons, ingested]

section Advance

theorem ofAuction_single (e : ℕ × Event) : ofAuction e.2.auctionId [e] = [e.2] := by
  simp [ofAuction]

structure Written (strKey : StrKey) (log : List Event) (row row' : AuctionDbRow) : Prop where
  status : row'.status = lastWrite (fun e => e.status.map statusName) row.status log
  lot : row'.lotReclaimed =
    lastWrite (fun e => e.lot.map fun b => if b then 1 else 0) row.lotReclaimed log
  outcome : (row'.clearingPrice, row'.winner) =
    lastWrite (fun e => e.settlement.map fun o => (some (toString o.2), some (strKey.encode o.1)))
      (row.clearingPrice, row.winner) log

theorem Written.refl (strKey : StrKey) (row : AuctionDbRow) : Written strKey [] row row :=
  ⟨rfl, rfl, rfl⟩

theorem Written.trans {log log' : List Event} {a b c : AuctionDbRow}
    (hab : Written strKey log a b) (hbc : Written strKey log' b c) :
    Written strKey (log ++ log') a c where
  status := by rw [hbc.status, hab.status, lastWrite_append]
  lot := by rw [hbc.lot, hab.lot, lastWrite_append]
  outcome := by rw [hbc.outcome, hab.outcome, lastWrite_append]

def about (k : ℕ) (log : List (ℕ × Event)) : List (ℕ × Event) :=
  log.filter fun e => e.2.auctionId = k

theorem about_append (k : ℕ) (u v : List (ℕ × Event)) : about k (u ++ v) = about k u ++ about k v :=
  List.filter_append u v

theorem ofAuction_about (k : ℕ) (log : List (ℕ × Event)) :
    ofAuction k log = (about k log).map Prod.snd := by
  rw [ofAuction, List.filter_map, about]
  rfl

def fixedColumns (row : AuctionDbRow) : AuctionDbRow :=
  { row with
    status := ""
    filledSlots := 0
    lotReclaimed := 0
    clearingPrice := none
    winner := none
    settleTx := none }

def outcomeWrite (strKey : StrKey) (txHash : ℕ × Event → Option String) (e : ℕ × Event) :
    Option (Option String × Option String × Option String) :=
  e.2.settlement.map fun o => (some (toString o.2), some (strKey.encode o.1), txHash e)

structure Overwritten (strKey : StrKey) (txHash : ℕ × Event → Option String)
    (log : List (ℕ × Event)) (row row' : AuctionDbRow) : Prop where
  fixed : fixedColumns row' = fixedColumns row
  count : (∀ e ∈ log, e.2.bid = none) → row'.filledSlots = row.filledSlots
  status : row'.status = lastWrite (fun e => e.2.status.map statusName) row.status log
  lot : row'.lotReclaimed =
    lastWrite (fun e => e.2.lot.map fun b => if b then 1 else 0) row.lotReclaimed log
  outcome : (row'.clearingPrice, row'.winner, row'.settleTx) =
    lastWrite (outcomeWrite strKey txHash) (row.clearingPrice, row.winner, row.settleTx) log

theorem Overwritten.refl (strKey : StrKey) (txHash : ℕ × Event → Option String)
    (row : AuctionDbRow) : Overwritten strKey txHash [] row row :=
  ⟨rfl, fun _ => rfl, rfl, rfl, rfl⟩

theorem Overwritten.trans {log log' : List (ℕ × Event)} {a b c : AuctionDbRow}
    (hab : Overwritten strKey txHash log a b) (hbc : Overwritten strKey txHash log' b c) :
    Overwritten strKey txHash (log ++ log') a c where
  fixed := hbc.fixed.trans hab.fixed
  count := by
    intro hnone
    rw [hbc.count fun e he => hnone e (List.mem_append_right log he),
      hab.count fun e he => hnone e (List.mem_append_left log' he)]
  status := by rw [hbc.status, hab.status, lastWrite_append]
  lot := by rw [hbc.lot, hab.lot, lastWrite_append]
  outcome := by rw [hbc.outcome, hab.outcome, lastWrite_append]

theorem Overwritten.written {log : List (ℕ × Event)} {row row' : AuctionDbRow}
    (ho : Overwritten strKey txHash log row row') : Written strKey (log.map Prod.snd) row row' where
  status := by rw [lastWrite_log_map, ho.status]
  lot := by rw [lastWrite_log_map, ho.lot]
  outcome := by
    have hpair := lastWrite_map (f := outcomeWrite strKey txHash) (fun o => (o.1, o.2.1))
      (row.clearingPrice, row.winner, row.settleTx) log
    rw [← ho.outcome] at hpair
    simp only [outcomeWrite, Option.map_map] at hpair
    rw [lastWrite_log_map]
    exact hpair.symm

variable (ix : IndexerState) (r : Reading)

theorem advance_eq : advance strKey txHash ix r =
    match r.event.2 with
    | .AuctionCreated j _ _ _ =>
      if ix.store.hasAuction j then ix else (enrichAndUpsert r.view j ix).2
    | .BidPlaced j slotIndex bidder _ _ =>
      { ix with store := ix.store.recordBid j slotIndex (strKey.encode bidder) }
    | .AuctionSettled j winner winningPrice =>
      let clearingPrice := toString winningPrice
      { ix with store :=
          ix.store.markSettled j clearingPrice (strKey.encode winner) (txHash r.event) }
    | .AuctionRefunded j _ => { ix with store := ix.store.markRefunded j }
    | .LotReturnFailed j _ _ => { ix with store := ix.store.setLotReclaimed j false }
    | .LotReclaimed j _ _ => { ix with store := ix.store.setLotReclaimed j true } :=
  applyEvent_indexed r.view ix r.event

variable {ix r}

theorem advance_agree (hk : r.event.2.auctionId ≠ k) :
    ix.store.Agree (advance strKey txHash ix r).store k := by
  obtain ⟨moment, view, ledger, e⟩ := r
  have hne : k ≠ e.auctionId := Ne.symm hk
  rw [advance_eq]
  cases e with
  | AuctionCreated j seller maxPrice commitDeadline =>
    dsimp only
    split
    · exact .refl _ k
    · exact enrich_agree view hne ix
  | BidPlaced j slotIndex bidder commitment encryptedBid => exact recordBid_agree ix.store _ _ hne
  | AuctionSettled j winner winningPrice => exact updateAuction_agree ix.store hne _ _
  | AuctionRefunded j refundedBids => exact updateAuction_agree ix.store hne _ _
  | LotReturnFailed j seller lotAmount => exact updateAuction_agree ix.store hne _ _
  | LotReclaimed j seller lotAmount => exact updateAuction_agree ix.store hne _ _

theorem run_agree {ix : IndexerState} {rs : List Reading}
    (hk : ∀ r ∈ rs, r.event.2.auctionId ≠ k) :
    ix.store.Agree (Runs.run (advance strKey txHash) ix rs).store k := by
  induction rs generalizing ix with
  | nil => exact .refl _ k
  | cons r rs ih =>
    have hhead : ix.store.Agree (advance strKey txHash ix r).store k :=
      advance_agree (hk r List.mem_cons_self)
    exact hhead.trans (ih fun r' hr' => hk r' (List.mem_cons_of_mem r hr'))

theorem about_single (e : ℕ × Event) : about e.2.auctionId [e] = [e] := by simp [about]

theorem about_single_other {e : ℕ × Event} (hk : e.2.auctionId ≠ k) : about k [e] = [] := by
  simp [about, hk]

theorem advance_overwritten {row : AuctionDbRow} (hrow : ix.store.auctions.find k = some row) :
    ∃ row', (advance strKey txHash ix r).store.auctions.find k = some row' ∧
      Overwritten strKey txHash (about k [r.event]) row row' := by
  by_cases hk : r.event.2.auctionId = k
  · subst hk
    rw [about_single, advance_eq]
    obtain ⟨moment, view, ledger, e⟩ := r
    have hupdate : ∀ (f : AuctionDbRow → AuctionDbRow) (hf : ∀ row, (f row).id = row.id),
        (ix.store.updateAuction e.auctionId f hf).auctions.find e.auctionId = some (f row) := by
      intro f hf
      rw [find_updateAuction, if_pos rfl, hrow, Option.map_some]
    cases e with
    | AuctionCreated j seller maxPrice commitDeadline =>
      have hhas : ix.store.hasAuction j = true := by
        rw [AuctionStore.hasAuction]
        exact Option.isSome_iff_exists.mpr ⟨row, hrow⟩
      dsimp only
      rw [if_pos hhas]
      exact ⟨row, hrow, rfl, fun _ => rfl, rfl, rfl, rfl⟩
    | BidPlaced j slotIndex bidder commitment encryptedBid =>
      have hfind := find_recordBid ix.store slotIndex (strKey.encode bidder) j j
      have hrow' : ix.store.auctions.find j = some row := hrow
      rw [if_pos rfl, hrow', Option.map_some] at hfind
      exact ⟨_, hfind, rfl, fun hnone => (by cases hnone _ List.mem_cons_self), rfl, rfl, rfl⟩
    | AuctionSettled j winner winningPrice =>
      exact ⟨_, hupdate _ _, rfl, fun _ => rfl, rfl, rfl, rfl⟩
    | AuctionRefunded j refundedBids => exact ⟨_, hupdate _ _, rfl, fun _ => rfl, rfl, rfl, rfl⟩
    | LotReturnFailed j seller lotAmount =>
      exact ⟨_, hupdate _ _, rfl, fun _ => rfl, rfl, rfl, rfl⟩
    | LotReclaimed j seller lotAmount => exact ⟨_, hupdate _ _, rfl, fun _ => rfl, rfl, rfl, rfl⟩
  · rw [about_single_other hk, (advance_agree hk).row]
    exact ⟨row, hrow, .refl strKey txHash row⟩

theorem advance_row {row : AuctionDbRow} (hrow : ix.store.auctions.find k = some row) :
    ∃ row', (advance strKey txHash ix r).store.auctions.find k = some row' ∧
      Written strKey (ofAuction k [r.event]) row row' := by
  obtain ⟨row', hrow', ho⟩ := advance_overwritten (r := r) hrow
  exact ⟨row', hrow', ofAuction_about k [r.event] ▸ ho.written⟩

theorem advance_counted {row : AuctionDbRow} (hrow : ix.store.auctions.find k = some row)
    (hc : ix.store.Counted k) : (advance strKey txHash ix r).store.Counted k := by
  obtain ⟨moment, view, ledger, e⟩ := r
  rw [advance_eq]
  cases e with
  | AuctionCreated j seller maxPrice commitDeadline =>
    dsimp only
    split
    · exact hc
    case isFalse hhas =>
      have hne : k ≠ j := by
        intro he
        subst he
        rw [AuctionStore.hasAuction, hrow] at hhas
        exact hhas rfl
      exact (enrich_agree view hne ix).counted hc
  | BidPlaced j slotIndex bidder commitment encryptedBid => exact counted_recordBid _ _ _ hc _
  | AuctionSettled j winner winningPrice => exact counted_updateAuction hc _ _ _ fun _ => rfl
  | AuctionRefunded j refundedBids => exact counted_updateAuction hc _ _ _ fun _ => rfl
  | LotReturnFailed j seller lotAmount => exact counted_updateAuction hc _ _ _ fun _ => rfl
  | LotReclaimed j seller lotAmount => exact counted_updateAuction hc _ _ _ fun _ => rfl

theorem ofAuction_cons (k : ℕ) (e : ℕ × Event) (log : List (ℕ × Event)) :
    ofAuction k (e :: log) = ofAuction k [e] ++ ofAuction k log := ofAuction_append k [e] log

/-- The row of an indexed auction over a run of the loop. -/
theorem run_row (strKey : StrKey) (txHash : ℕ × Event → Option String) {ix : IndexerState}
    (rs : List Reading) {row : AuctionDbRow} (hrow : ix.store.auctions.find k = some row)
    (hc : ix.store.Counted k) :
    ∃ row', (Runs.run (advance strKey txHash) ix rs).store.auctions.find k = some row' ∧
      Written strKey (ofAuction k (rs.map Reading.event)) row row' ∧
      (Runs.run (advance strKey txHash) ix rs).store.Counted k := by
  induction rs generalizing ix row with
  | nil => exact ⟨row, hrow, .refl strKey row, hc⟩
  | cons r rs ih =>
    obtain ⟨row₁, hrow₁, hwritten⟩ := advance_row (r := r) hrow
    obtain ⟨row', hrow', hwritten', hc'⟩ := ih hrow₁ (advance_counted hrow hc)
    refine ⟨row', hrow', ?_, hc'⟩
    rw [List.map_cons, ofAuction_cons]
    exact hwritten.trans hwritten'

end Advance

section Unread
variable {ix : IndexerState} {r : Reading} {rs : List Reading}

/-- Only the creation event of an auction can give it a row. -/
theorem advance_absent (hnone : ix.store.auctions.find k = none)
    (hk : r.event.2.auctionId = k → r.event.2.isCreated = false) :
    (advance strKey txHash ix r).store.auctions.find k = none := by
  by_cases hid : r.event.2.auctionId = k
  · have hother := hk hid
    subst hid
    rw [advance_eq]
    obtain ⟨moment, view, ledger, e⟩ := r
    have hupdate : ∀ (f : AuctionDbRow → AuctionDbRow) (hf : ∀ row, (f row).id = row.id),
        (ix.store.updateAuction e.auctionId f hf).auctions.find e.auctionId = none := by
      intro f hf
      rw [find_updateAuction, if_pos rfl, hnone, Option.map_none]
    cases e with
    | AuctionCreated j seller maxPrice commitDeadline => cases hother
    | BidPlaced j slotIndex bidder commitment encryptedBid =>
      have hfind := find_recordBid ix.store slotIndex (strKey.encode bidder) j j
      have hnone' : ix.store.auctions.find j = none := hnone
      rwa [if_pos rfl, hnone', Option.map_none] at hfind
    | AuctionSettled j winner winningPrice => exact hupdate _ _
    | AuctionRefunded j refundedBids => exact hupdate _ _
    | LotReturnFailed j seller lotAmount => exact hupdate _ _
    | LotReclaimed j seller lotAmount => exact hupdate _ _
  · rw [(advance_agree hid).row, hnone]

theorem run_absent (hnone : ix.store.auctions.find k = none)
    (hk : ∀ r ∈ rs, r.event.2.auctionId = k → r.event.2.isCreated = false) :
    (Runs.run (advance strKey txHash) ix rs).store.auctions.find k = none := by
  induction rs generalizing ix with
  | nil => exact hnone
  | cons r rs ih =>
    exact ih (advance_absent hnone (hk r List.mem_cons_self))
      fun r' hr' => hk r' (List.mem_cons_of_mem r hr')

theorem advance_created (hnone : ix.store.auctions.find r.event.2.auctionId = none)
    (hcreated : r.event.2.isCreated) :
    advance strKey txHash ix r = (enrichAndUpsert r.view r.event.2.auctionId ix).2 := by
  obtain ⟨moment, view, ledger, e⟩ := r
  cases e with
  | AuctionCreated j seller maxPrice commitDeadline =>
    have hhas : ¬ix.store.hasAuction j := by
      rw [AuctionStore.hasAuction, Option.not_isSome_iff_eq_none]
      exact hnone
    rw [advance_eq]
    exact if_neg hhas
  | BidPlaced j slotIndex bidder commitment encryptedBid => cases hcreated
  | AuctionSettled j winner winningPrice => cases hcreated
  | AuctionRefunded j refundedBids => cases hcreated
  | LotReturnFailed j seller lotAmount => cases hcreated
  | LotReclaimed j seller lotAmount => cases hcreated

end Unread

section Bids
variable {ix : IndexerState} {r : Reading} {rs : List Reading}

def Event.bidRow (strKey : StrKey) (e : Event) : Option BidRow :=
  e.bid.map fun b => ⟨e.auctionId, b.1, strKey.encode b.2⟩

def BidOf (strKey : StrKey) (bids : List Bid) (k : ℕ) (row : BidRow) : Prop :=
  ∃ (i : ℕ) (bid : Bid), bids[i]? = some bid ∧ row = ⟨k, i, strKey.encode bid.bidder⟩

theorem mem_decodedBids {auction : Auction} {b : DecodedBid}
    (hb : b ∈ (decodedAuction strKey auction).bids) (k : ℕ) :
    BidOf strKey auction.bids k ⟨k, b.slotIndex, b.bidder⟩ := by
  obtain ⟨slot, hslot, rfl⟩ := List.mem_map.mp hb
  have hget := List.mem_zipIdx_iff_getElem?.mp hslot
  rw [rawBids, List.getElem?_map] at hget
  obtain ⟨bid, hbid, he⟩ := Option.map_eq_some_iff.mp hget
  exact ⟨slot.2, bid, hbid, by rw [← he]⟩

theorem decodedBids_slot {auction : Auction} {i : ℕ} {bid : Bid}
    (hi : auction.bids[i]? = some bid) :
    ∃ b ∈ (decodedAuction strKey auction).bids, b.slotIndex = i := by
  refine ⟨⟨i, strKey.encode bid.bidder⟩, List.mem_map.mpr ⟨(strKey.encode bid.bidder, i), ?_, rfl⟩,
    rfl⟩
  rw [List.mem_zipIdx_iff_getElem?, rawBids, List.getElem?_map, hi, Option.map_some]

theorem decodedBids_nil {auction : Auction} (h : (decodedAuction strKey auction).bids = []) :
    auction.bids = [] := by
  have hlength := congrArg List.length h
  simpa [decodedAuction, rawBids] using hlength

theorem advance_subset : ix.store.bids.rows ⊆ (advance strKey txHash ix r).store.bids.rows := by
  obtain ⟨moment, view, ledger, e⟩ := r
  rw [advance_eq]
  cases e with
  | AuctionCreated j seller maxPrice commitDeadline =>
    dsimp only
    split
    · exact List.Subset.refl _
    · exact enrich_subset view j ix
  | BidPlaced j slotIndex bidder commitment encryptedBid => exact recordBid_subset _ _ _ _
  | AuctionSettled j winner winningPrice => exact List.Subset.refl _
  | AuctionRefunded j refundedBids => exact List.Subset.refl _
  | LotReturnFailed j seller lotAmount => exact List.Subset.refl _
  | LotReclaimed j seller lotAmount => exact List.Subset.refl _

theorem run_subset :
    ix.store.bids.rows ⊆ (Runs.run (advance strKey txHash) ix rs).store.bids.rows := by
  induction rs generalizing ix with
  | nil => exact List.Subset.refl _
  | cons r rs ih => exact List.Subset.trans advance_subset ih

theorem advance_key {bid : BidRow} (hbid : Event.bidRow strKey r.event.2 = some bid) :
    bid.key ∈ (advance strKey txHash ix r).store.bids.rows.map BidRow.key := by
  obtain ⟨moment, view, ledger, e⟩ := r
  rw [advance_eq]
  cases e with
  | BidPlaced j slotIndex bidder commitment encryptedBid =>
    cases hbid
    exact recordBid_key ix.store _ _ j
  | AuctionCreated j seller maxPrice commitDeadline => cases hbid
  | AuctionSettled j winner winningPrice => cases hbid
  | AuctionRefunded j refundedBids => cases hbid
  | LotReturnFailed j seller lotAmount => cases hbid
  | LotReclaimed j seller lotAmount => cases hbid

theorem run_key {bid : BidRow} (hr : r ∈ rs) (hbid : Event.bidRow strKey r.event.2 = some bid) :
    bid.key ∈ (Runs.run (advance strKey txHash) ix rs).store.bids.rows.map BidRow.key := by
  induction rs generalizing ix with
  | nil => exact absurd hr List.not_mem_nil
  | cons r' rs ih =>
    cases List.mem_cons.mp hr with
    | inl he =>
      rw [he] at hbid
      have hlater : (advance strKey txHash ix r').store.bids.rows ⊆
          (Runs.run (advance strKey txHash) (advance strKey txHash ix r') rs).store.bids.rows :=
        run_subset
      exact List.map_subset _ hlater (advance_key hbid)
    | inr hmem => exact ih hmem

/-- Where a recorded bid comes from: it was there, an event placed it, or a read found it. -/
theorem advance_mem {s : State W} (hview : r.view.Shows strKey s) {bid : BidRow}
    (hb : bid ∈ (advance strKey txHash ix r).store.bids.rows) :
    bid ∈ ix.store.bids.rows ∨ Event.bidRow strKey r.event.2 = some bid ∨
      ∃ j auction, s.auctions j = some auction ∧ BidOf strKey auction.bids j bid := by
  obtain ⟨moment, view, ledger, e⟩ := r
  rw [advance_eq] at hb
  cases e with
  | AuctionCreated j seller maxPrice commitDeadline =>
    dsimp only at hb
    split at hb
    · exact .inl hb
    · cases enrich_cases ix hview j with
      | inl hread =>
        obtain ⟨auction, lotSymbol, paymentSymbol, ha, -, hstore⟩ := hread
        rw [hstore] at hb
        cases indexAuction_mem hb with
        | inl hold => exact .inl hold
        | inr hnew =>
          obtain ⟨b, hb', rfl⟩ := hnew
          exact .inr (.inr ⟨j, auction, ha, mem_decodedBids hb' j⟩)
      | inr hskip =>
        rw [hskip.2.1] at hb
        exact .inl hb
  | BidPlaced j slotIndex bidder commitment encryptedBid =>
    cases mem_recordBid ix.store _ _ hb with
    | inl hold => exact .inl hold
    | inr hnew => exact .inr (.inl (congrArg some hnew.symm))
  | AuctionSettled j winner winningPrice => exact .inl hb
  | AuctionRefunded j refundedBids => exact .inl hb
  | LotReturnFailed j seller lotAmount => exact .inl hb
  | LotReclaimed j seller lotAmount => exact .inl hb

end Bids

end SealedStellar.Indexer
