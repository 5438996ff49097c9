import SealedStellar.Reveal
import SealedStellar.Sac
import Mathlib.Data.List.Sort

/-! Which bids a reveal response lists. The endpoint reads the bids from the event log through a
window and at most 30 pages; the auction stores them in its record. -/
namespace SealedStellar
open Checked BigIntText
variable {W : Type} {h : Host W} {strKey : StrKey} {nacl : Nacl} {env : Environment} {rpc : Rpc}

def auctionRecord (auction : Auction) : AuctionRecord :=
  ⟨some (statusName auction.status), some auction.commitDeadline, some auction.whitelistRoot.toNat⟩

/-- The server reads state s: records as stored, and the bid events of an auction from a ledger
on, in order, in pages chained by their cursors. Any call may fail. -/
structure Rpc.Shows (rpc : Rpc) (s : State W) : Prop where
  auction : ∀ k record, rpc.getAuction k = .result record →
    ∃ auction, s.auctions k = some auction ∧ record = auctionRecord auction
  events : ∀ k, ∃ feed : EventsRequest → List EventValue,
    (∀ ledger, feed (.startLedger ledger) =
      ((bidLog s k).filter fun r => decide (ledger ≤ r.ledger)).map .bidPlaced) ∧
    ∀ request page, rpc.getEvents k request = .ok page → feed request = page.events ++
      match page.next with
      | none => []
      | some pageCursor => feed (.cursor pageCursor)

inductive Rpc.Serves (rpc : Rpc) (k : ℕ) : ℕ → EventsRequest → List EventsPage → Prop
  | stop (request : EventsRequest) : Serves rpc k 0 request []
  | last {n : ℕ} {request : EventsRequest} {page : EventsPage}
      (answer : rpc.getEvents k request = .ok page) (final : page.next = none) :
      Serves rpc k (n + 1) request [page]
  | more {n : ℕ} {request : EventsRequest} {page : EventsPage} {pageCursor : String}
      {pages : List EventsPage} (answer : rpc.getEvents k request = .ok page)
      (chained : page.next = some pageCursor) (rest : Serves rpc k n (.cursor pageCursor) pages) :
      Serves rpc k (n + 1) request (page :: pages)

theorem fetchPages_eq_ok {k n : ℕ} {request : EventsRequest} {found : List EventValue} :
    fetchPages rpc k n request = .ok found ↔
      ∃ pages, rpc.Serves k n request pages ∧ pages.flatMap EventsPage.events = found := by
  induction n generalizing request found with
  | zero =>
    constructor
    · intro he
      cases he
      exact ⟨[], .stop request, rfl⟩
    · rintro ⟨pages, hs, he⟩
      cases hs with
      | stop => exact congrArg Except.ok he
  | succ n ih =>
    rw [fetchPages, bind_eq_ok]
    constructor
    · rintro ⟨page, hpage, hrest⟩
      cases hcursor : page.next with
      | none =>
        rw [hcursor] at hrest
        cases hrest
        exact ⟨[page], .last hpage hcursor, by simp⟩
      | some pageCursor =>
        simp only [hcursor, bind_eq_ok, pure_eq_ok, ih] at hrest
        obtain ⟨_, ⟨pages, hs, rfl⟩, rfl⟩ := hrest
        exact ⟨page :: pages, .more hpage hcursor hs, by simp⟩
    · rintro ⟨pages, hs, he⟩
      cases hs with
      | @last _ _ page hpage hcursor =>
        refine ⟨page, hpage, ?_⟩
        rw [hcursor, ← he]
        simp [pure, Except.pure]
      | @more _ _ page pageCursor pages hpage hcursor hs =>
        refine ⟨page, hpage, ?_⟩
        simp only [hcursor, bind_eq_ok, pure_eq_ok, ih]
        exact ⟨_, ⟨pages, hs, rfl⟩, by rw [← he, List.flatMap_cons]⟩

theorem serves_prefix {k n : ℕ} {request : EventsRequest} {pages : List EventsPage}
    {feed : EventsRequest → List EventValue}
    (hfeed : ∀ request page, rpc.getEvents k request = .ok page → feed request = page.events ++
      match page.next with
      | none => []
      | some pageCursor => feed (.cursor pageCursor))
    (hs : rpc.Serves k n request pages) :
    pages.flatMap EventsPage.events <+: feed request := by
  induction hs with
  | stop => exact List.nil_prefix
  | last hpage hcursor =>
    rw [hfeed _ _ hpage, hcursor]
    simp
  | more hpage hcursor _ ih =>
    rw [hfeed _ _ hpage, hcursor, List.flatMap_cons]
    exact (List.prefix_append_right_inj _).mpr ih

theorem Rpc.Shows.served {s : State W} (hrpc : rpc.Shows s) {k n ledger : ℕ}
    {pages : List EventsPage} (hs : rpc.Serves k n (.startLedger ledger) pages) :
    ∃ served : List BidRecord, pages.flatMap EventsPage.events = served.map .bidPlaced ∧
      served.Sublist (bidLog s k) := by
  obtain ⟨feed, hstart, hpage⟩ := hrpc.events k
  have hprefix := serves_prefix hpage hs
  rw [hstart] at hprefix
  obtain ⟨served, hserved, he⟩ := List.prefix_map_iff.mp hprefix
  exact ⟨served, he, hserved.sublist.trans List.filter_sublist⟩

def bidEventOf (strKey : StrKey) (r : BidRecord) : BidEvent :=
  ⟨r.slotIndex, strKey.encode r.bidder, r.commitment.toNat, r.encryptedBid⟩

theorem decode_bidPlaced (served : List BidRecord) :
    (served.map EventValue.bidPlaced).filterMap (decodeEvent strKey) =
      served.map (bidEventOf strKey) := by
  rw [List.filterMap_map, ← List.filterMap_eq_map]
  rfl

section Run
variable (g : Genesis W) (actions : List (Action W)) (k : ℕ)

theorem bidLog_slots : (bidLog (runFrom h g actions) k).Pairwise fun r r' =>
    r.slotIndex < r'.slotIndex := by
  have hslots : (bidLog (runFrom h g actions) k).map BidRecord.slotIndex =
      List.range' 0 (storedBids (runFrom h g actions) k).length := by
    have hstored := congrArg (List.map Prod.snd) (bidLog_stored (h := h) g actions k)
    rw [List.map_map, List.zipIdx_map_snd] at hstored
    exact hstored
  have hpair : ((bidLog (runFrom h g actions) k).map BidRecord.slotIndex).Pairwise (· < ·) := by
    rw [hslots]
    exact List.pairwise_lt_range'
  exact List.pairwise_map.mp hpair

theorem bidLog_nodup : (bidLog (runFrom h g actions) k).Nodup :=
  (bidLog_slots g actions k).imp fun hlt he => by
    rw [he] at hlt
    exact absurd hlt (lt_irrefl _)

variable {g actions k}

theorem served_all {served : List BidRecord}
    (hsub : served.Sublist (bidLog (runFrom h g actions) k))
    (hall : bidLog (runFrom h g actions) k ⊆ served) : served = bidLog (runFrom h g actions) k :=
  hsub.eq_of_length_le (List.subperm_of_subset (bidLog_nodup g actions k) hall).length_le

/-- The walk ends with the bid events it was served, already in slot order. -/
theorem fetchBidEvents_shows (hrpc : rpc.Shows (runFrom h g actions)) {events : List BidEvent} :
    fetchBidEvents strKey rpc k = .ok events ↔ ∃ latest pages, ∃ served : List BidRecord,
      rpc.getLatestLedger = .ok latest ∧
      rpc.Serves k maxEventPages (.startLedger (startLedger latest)) pages ∧
      pages.flatMap EventsPage.events = served.map .bidPlaced ∧
      served.Sublist (bidLog (runFrom h g actions) k) ∧ events = served.map (bidEventOf strKey) := by
  have hsorted : ∀ served : List BidRecord, served.Sublist (bidLog (runFrom h g actions) k) →
      (served.map (bidEventOf strKey)).insertionSort
        (fun first second => first.slotIndex ≤ second.slotIndex) =
      served.map (bidEventOf strKey) := by
    intro served hsub
    refine List.Pairwise.insertionSort_eq (List.pairwise_map.mpr ?_)
    exact ((bidLog_slots g actions k).sublist hsub).imp fun hlt => hlt.le
  simp only [fetchBidEvents_eq_ok, fetchPages_eq_ok]
  constructor
  · rintro ⟨latest, _, hlatest, ⟨pages, hpages, hfound⟩, he⟩
    obtain ⟨served, hserved, hsub⟩ := hrpc.served hpages
    rw [← hfound, hserved, decode_bidPlaced, hsorted served hsub] at he
    exact ⟨latest, pages, served, hlatest, hpages, hserved, hsub, he.symm⟩
  · rintro ⟨latest, pages, served, hlatest, hpages, hserved, hsub, he⟩
    exact ⟨latest, _, hlatest, ⟨pages, hpages, rfl⟩, by
      rw [hserved, decode_bidPlaced, hsorted served hsub, he]⟩

end Run

/-- One entry for every slot, with the stored bidder and commitment, in slot order. -/
def ListsStored (strKey : StrKey) (auction : Auction) (bids : List RevealedBid) : Prop :=
  bids.map (fun b => (b.slotIndex, b.bidder, b.commitment)) =
    auction.bids.zipIdx.map fun slot =>
      ((slot.2 : ℤ), strKey.encode slot.1.bidder, toString slot.1.commitment.toNat)

theorem revealed_entries {boxSecret : List UInt8} {served : List BidRecord}
    {bids : List RevealedBid}
    (hb : List.Forall₂ (fun e b => revealBid nacl boxSecret e = .ok b)
      (served.map (bidEventOf strKey)) bids) :
    bids.map (fun b => (b.slotIndex, b.bidder, b.commitment)) =
      (served.map BidRecord.stored).map fun slot =>
        ((slot.2 : ℤ), strKey.encode slot.1.bidder, toString slot.1.commitment.toNat) := by
  induction served generalizing bids with
  | nil =>
    cases hb
    rfl
  | cons r served ih =>
    cases hb with
    | cons hfirst hrest =>
      obtain ⟨price, salt, -, he⟩ := revealBid_eq_ok.mp hfirst
      rw [List.map_cons, ih hrest, he]
      rfl

theorem revealed_exists (strKey : StrKey) {boxSecret : List UInt8} {served : List BidRecord}
    (hopen : ∀ r ∈ served, decryptBid nacl r.encryptedBid boxSecret ≠ none) :
    ∃ bids, List.Forall₂ (fun e b => revealBid nacl boxSecret e = .ok b)
      (served.map (bidEventOf strKey)) bids := by
  induction served with
  | nil => exact ⟨[], .nil⟩
  | cons r served ih =>
    obtain ⟨bids, hbids⟩ := ih fun q hq => hopen q (List.mem_cons_of_mem r hq)
    cases hr : decryptBid nacl r.encryptedBid boxSecret with
    | none => exact absurd hr (hopen r List.mem_cons_self)
    | some opened =>
      have hfirst : revealBid nacl boxSecret (bidEventOf strKey r) = .ok _ :=
        revealBid_eq_ok.mpr ⟨opened.1, opened.2, hr, rfl⟩
      exact ⟨_ :: bids, .cons hfirst hbids⟩

theorem revealed_opens {boxSecret : List UInt8} {served : List BidRecord}
    {bids : List RevealedBid}
    (hb : List.Forall₂ (fun e b => revealBid nacl boxSecret e = .ok b)
      (served.map (bidEventOf strKey)) bids) :
    ∀ r ∈ served, decryptBid nacl r.encryptedBid boxSecret ≠ none := by
  intro r hr hshut
  obtain ⟨b, -, hopened⟩ := result_of_mem hb (List.mem_map_of_mem hr)
  obtain ⟨price, salt, hopen, -⟩ := revealBid_eq_ok.mp hopened
  exact absurd (hshut.symm.trans hopen) (by simp)

/-- The pages served to one request hold no bid event, or one that the secret does not open, or
all bid events of the auction. -/
def AllOrRefused (nacl : Nacl) (s : State W) (k : ℕ) (boxSecret : List UInt8)
    (pages : List EventsPage) : Prop :=
  pages.flatMap EventsPage.events = [] ∨
  (∃ r, .bidPlaced r ∈ pages.flatMap EventsPage.events ∧
    decryptBid nacl r.encryptedBid boxSecret = none) ∨
  ∀ r ∈ bidLog s k, .bidPlaced r ∈ pages.flatMap EventsPage.events

section Response
variable {g : Genesis W} {actions : List (Action W)} {k : ℕ} {auction : Auction}

theorem getAuctionState_shows (hrpc : rpc.Shows (runFrom h g actions))
    (ha : (runFrom h g actions).auctions k = some auction) (isOpen : auction.status = .Open)
    {record : AuctionRecord} (hrecord : rpc.getAuction k = .result record) :
    getAuctionState rpc k = .ok ⟨"Open", auction.commitDeadline, auction.whitelistRoot.toNat⟩ := by
  obtain ⟨found, hfound, hrec⟩ := hrpc.auction k record hrecord
  rw [ha] at hfound
  cases hfound
  refine getAuctionState_eq_ok.mpr ⟨record, hrecord, ?_⟩
  rw [hrec, auctionRecord, isOpen]
  exact ⟨rfl, rfl, rfl⟩

theorem handler_reveals (hrpc : rpc.Shows (runFrom h g actions))
    (ha : (runFrom h g actions).auctions k = some auction) (isOpen : auction.status = .Open)
    {now : ℕ} (due : auction.commitDeadline ≤ now) {record : AuctionRecord}
    (hrecord : rpc.getAuction k = .result record) {served : List BidRecord}
    (hevents : fetchBidEvents strKey rpc k = .ok (served.map (bidEventOf strKey)))
    (hne : served ≠ []) {boxSecret : List UInt8} (hsecret : loadBoxSecret env = .ok boxSecret)
    {bids : List RevealedBid} (hbids : List.Forall₂ (fun e b => revealBid nacl boxSecret e = .ok b)
      (served.map (bidEventOf strKey)) bids) :
    handler strKey nacl env rpc now ⟨"POST", some k⟩ =
      ⟨200, .revealed k (toString auction.whitelistRoot.toNat)
        (getRegistryMembers rpc auction.whitelistRoot.toNat) bids⟩ := by
  have hstate := getAuctionState_shows hrpc ha isOpen hrecord
  have hsome : served.map (bidEventOf strKey) ≠ [] := fun he => hne (List.map_eq_nil_iff.mp he)
  apply handler_revealed_iff.mpr
  exact ⟨rfl, rfl, boxSecret, _, _, hsecret, hstate, rfl, due, hevents, hsome, hbids, rfl, rfl⟩

/-- The list is complete exactly when every bid event was served. -/
theorem listsStored_iff (ha : (runFrom h g actions).auctions k = some auction)
    {served : List BidRecord} (hsub : served.Sublist (bidLog (runFrom h g actions) k))
    {boxSecret : List UInt8} {bids : List RevealedBid}
    (hbids : List.Forall₂ (fun e b => revealBid nacl boxSecret e = .ok b)
      (served.map (bidEventOf strKey)) bids) :
    ListsStored strKey auction bids ↔ served = bidLog (runFrom h g actions) k := by
  have hlog := bidLog_stored (h := h) g actions k
  rw [storedBids_some ha] at hlog
  rw [ListsStored, revealed_entries hbids]
  constructor
  · intro hentries
    have hcount := congrArg List.length hentries
    have hcount' := congrArg List.length hlog
    simp only [List.length_map] at hcount hcount'
    exact hsub.eq_of_length (by omega)
  · intro hall
    rw [hall, hlog]

end Response

/-- Reveal completeness: a response with bids lists exactly the stored ones if and only if what
the server still serves is all or nothing. -/
theorem reveal_exact_iff (h : Host W) (strKey : StrKey) (nacl : Nacl) (g : Genesis W)
    (actions : List (Action W)) (k : ℕ) (auction : Auction)
    (ha : (runFrom h g actions).auctions k = some auction) (isOpen : auction.status = .Open)
    (env : Environment) (rpc : Rpc) (hrpc : rpc.Shows (runFrom h g actions)) (now : ℕ)
    (due : auction.commitDeadline ≤ now) :
    (∀ root members bids, handler strKey nacl env rpc now ⟨"POST", some k⟩ =
      ⟨200, .revealed k root members bids⟩ → ListsStored strKey auction bids) ↔
    ∀ boxSecret record latest pages, loadBoxSecret env = .ok boxSecret →
      rpc.getAuction k = .result record → rpc.getLatestLedger = .ok latest →
      rpc.Serves k maxEventPages (.startLedger (startLedger latest)) pages →
      AllOrRefused nacl (runFrom h g actions) k boxSecret pages := by
  have hmem : ∀ {r : BidRecord} {served : List BidRecord},
      EventValue.bidPlaced r ∈ served.map EventValue.bidPlaced ↔ r ∈ served := by
    intro r served
    simp
  constructor
  · intro hexact boxSecret record latest pages hsecret hrecord hlatest hpages
    obtain ⟨served, hserved, hsub⟩ := hrpc.served hpages
    rw [AllOrRefused, hserved]
    by_cases hempty : served = []
    · left
      rw [hempty, List.map_nil]
    right
    by_cases hopen : ∀ r ∈ served, decryptBid nacl r.encryptedBid boxSecret ≠ none
    · right
      obtain ⟨bids, hbids⟩ := revealed_exists strKey hopen
      have hevents : fetchBidEvents strKey rpc k = .ok (served.map (bidEventOf strKey)) := by
        apply (fetchBidEvents_shows hrpc).mpr
        exact ⟨latest, pages, served, hlatest, hpages, hserved, hsub, rfl⟩
      have hlists := hexact _ _ bids
        (handler_reveals hrpc ha isOpen due hrecord hevents hempty hsecret hbids)
      rw [← (listsStored_iff ha hsub hbids).mp hlists]
      exact fun r hr => hmem.mpr hr
    · left
      simp only [not_forall, not_not] at hopen
      obtain ⟨r, hr, hshut⟩ := hopen
      exact ⟨r, hmem.mpr hr, hshut⟩
  · intro hcond root members bids hresponse
    obtain ⟨-, -, boxSecret, state, events, hsecret, hstate, -, -, hevents, hne, hbids, -, -⟩ :=
      handler_revealed_iff.mp hresponse
    obtain ⟨record, hrecord, -⟩ := getAuctionState_eq_ok.mp hstate
    obtain ⟨latest, pages, served, hlatest, hpages, hserved, hsub, rfl⟩ :=
      (fetchBidEvents_shows hrpc).mp hevents
    have hall := hcond boxSecret record latest pages hsecret hrecord hlatest hpages
    rw [AllOrRefused, hserved] at hall
    apply (listsStored_iff ha hsub hbids).mpr
    obtain hempty | ⟨r, hr, hshut⟩ | hall := hall
    · exact absurd (List.map_eq_nil_iff.mpr (List.map_eq_nil_iff.mp hempty)) hne
    · exact absurd hshut (revealed_opens hbids r (hmem.mp hr))
    · exact served_all hsub fun r hr => hmem.mp (hall r hr)

section Paging
variable {α : Type}

/-- The ledger asked for and the events served since; a cursor holds the two as one number. -/
def EventsRequest.place : EventsRequest → ℕ × ℕ
  | .startLedger ledger => (ledger, 0)
  | .cursor pageCursor => Nat.unpair ((parse pageCursor).getD 0).toNat

theorem place_cursor (ledger served : ℕ) :
    (EventsRequest.cursor (toString ((Nat.pair ledger served : ℕ) : ℤ))).place = (ledger, served) := by
  rw [EventsRequest.place, parse_toString, Option.getD_some, Int.toNat_natCast, Nat.unpair_pair]

def pending (due : ℕ → List α) (request : EventsRequest) : List α :=
  (due request.place.1).drop request.place.2

def onward (due : ℕ → List α) (request : EventsRequest) : Option String :=
  if (pending due request).length ≤ 1 then none
  else some (toString ((Nat.pair request.place.1 (request.place.2 + 1) : ℕ) : ℤ))

variable {due : ℕ → List α} {request : EventsRequest}

theorem onward_eq_some {pageCursor : String} (ho : onward due request = some pageCursor) :
    pageCursor ≠ "" ∧ pending due (.cursor pageCursor) = (pending due request).drop 1 := by
  rw [onward] at ho
  split at ho
  · cases ho
  · cases ho
    constructor
    · intro hempty
      exact repr_ne_nil _ (congrArg String.toList hempty)
    · rw [pending, place_cursor, pending, List.drop_drop]

theorem onward_filter : (onward due request).filter (fun pageCursor => pageCursor ≠ "") =
    onward due request := by
  cases ho : onward due request with
  | none => rfl
  | some pageCursor => simp [(onward_eq_some ho).1]

theorem pending_onward : pending due request = (pending due request).take 1 ++
    match onward due request with
    | none => []
    | some pageCursor => pending due (.cursor pageCursor) := by
  cases ho : onward due request with
  | none =>
    have hlast : (pending due request).length ≤ 1 := by
      by_contra hmore
      rw [onward, if_neg hmore] at ho
      cases ho
    simp [List.take_of_length_le hlast]
  | some pageCursor => simp only [(onward_eq_some ho).2, List.take_append_drop]

/-- A walk that follows the cursors finds all that is pending, if it may read as many pages. -/
theorem walk_pending {walk : ℕ → EventsRequest → Except String (List α)}
    (hstop : ∀ request, walk 0 request = .ok [])
    (hlast : ∀ n request, onward due request = none →
      walk (n + 1) request = .ok ((pending due request).take 1))
    (hmore : ∀ n request pageCursor rest, onward due request = some pageCursor →
      walk n (.cursor pageCursor) = .ok rest →
        walk (n + 1) request = .ok ((pending due request).take 1 ++ rest)) {n : ℕ}
    (hn : (pending due request).length ≤ n) : walk n request = .ok (pending due request) := by
  induction n generalizing request with
  | zero => rw [List.eq_nil_of_length_eq_zero (Nat.le_zero.mp hn), hstop]
  | succ n ih =>
    have hrest : pending due request = (pending due request).take 1 ++
        match onward due request with
        | none => []
        | some pageCursor => pending due (.cursor pageCursor) := pending_onward
    cases ho : onward due request with
    | none =>
      rw [ho, List.append_nil] at hrest
      rw [hlast n request ho, ← hrest]
    | some pageCursor =>
      rw [ho] at hrest
      have hfew : (pending due (.cursor pageCursor)).length ≤ n := by
        rw [(onward_eq_some ho).2, List.length_drop]
        omega
      rw [hmore n request pageCursor _ ho (ih hfew), ← hrest]

end Paging

def bidsDue (s : State W) (k ledger : ℕ) : List EventValue :=
  ((bidLog s k).filter fun r => decide (ledger ≤ r.ledger)).map .bidPlaced

/-- A server that reads state s, with an empty registry, and serves one event a page. -/
def snapshotRpc (s : State W) : Rpc where
  getAuction k :=
    match s.auctions k with
    | some auction => .result (auctionRecord auction)
    | none => .simulationError
  getMembers _ := .result none
  getLatestLedger := .ok s.sequence
  getEvents k request :=
    .ok ⟨(pending (bidsDue s k) request).take 1, onward (bidsDue s k) request⟩

theorem snapshotRpc_shows (s : State W) : (snapshotRpc s).Shows s where
  auction := by
    intro k record hrecord
    simp only [snapshotRpc] at hrecord
    cases ha : s.auctions k with
    | none =>
      rw [ha] at hrecord
      cases hrecord
    | some auction =>
      rw [ha] at hrecord
      cases hrecord
      exact ⟨auction, rfl, rfl⟩
  events := by
    intro k
    refine ⟨pending (bidsDue s k), fun _ => rfl, fun request page hpage => ?_⟩
    cases hpage
    simp only [EventsPage.next, onward_filter]
    exact pending_onward

theorem fetchPages_snapshot {s : State W} {rpc : Rpc}
    (hrpc : rpc.getEvents = (snapshotRpc s).getEvents) {k n : ℕ} {request : EventsRequest}
    (hn : (pending (bidsDue s k) request).length ≤ n) :
    fetchPages rpc k n request = .ok (pending (bidsDue s k) request) := by
  let page (request : EventsRequest) : EventsPage :=
    ⟨(pending (bidsDue s k) request).take 1, onward (bidsDue s k) request⟩
  have hpage : ∀ request, rpc.getEvents k request = .ok (page request) := fun request => by
    rw [hrpc]
    rfl
  have hnext : ∀ request, (page request).next = onward (bidsDue s k) request := fun _ => onward_filter
  refine walk_pending (fun _ => rfl) ?_ ?_ hn
  · intro n request ho
    rw [fetchPages, bind_eq_ok]
    exact ⟨_, hpage request, by rw [hnext, ho]; rfl⟩
  · intro n request pageCursor rest ho hrest
    rw [fetchPages, bind_eq_ok]
    refine ⟨_, hpage request, ?_⟩
    rw [hnext, ho]
    simp only [hrest, bind_eq_ok]
    exact ⟨_, rfl, rfl⟩

section Snapshot
variable {g : Genesis W} {actions : List (Action W)} {k : ℕ} {auction : Auction}

theorem bidLog_length (ha : (runFrom h g actions).auctions k = some auction) :
    (bidLog (runFrom h g actions) k).length = auction.bids.length := by
  have hstored := congrArg List.length (bidLog_stored (h := h) g actions k)
  rwa [List.length_map, List.length_zipIdx, storedBids_some ha] at hstored

theorem bidsDue_length (ha : (runFrom h g actions).auctions k = some auction) (ledger : ℕ) :
    (pending (bidsDue (runFrom h g actions) k) (.startLedger ledger)).length ≤ maxEventPages := by
  have hslots := ((runFrom_valid (h := h) g actions).stored k auction ha).2.2.slots
  calc (pending (bidsDue (runFrom h g actions) k) (.startLedger ledger)).length
      ≤ (bidLog (runFrom h g actions) k).length := by
        simp only [pending, EventsRequest.place, List.drop_zero, bidsDue, List.length_map]
        exact List.length_filter_le _ _
    _ ≤ maxBidSlots := (bidLog_length ha).trans_le hslots
    _ ≤ maxEventPages := by decide

theorem snapshotRpc_serves (ha : (runFrom h g actions).auctions k = some auction) {ledger : ℕ}
    {pages : List EventsPage} (hs : (snapshotRpc (runFrom h g actions)).Serves k maxEventPages
      (.startLedger ledger) pages) :
    pages.flatMap EventsPage.events = bidsDue (runFrom h g actions) k ledger := by
  have hall := fetchPages_snapshot rfl (bidsDue_length ha ledger)
  have hserved := fetchPages_eq_ok.mpr ⟨pages, hs, rfl⟩
  rw [hall, Except.ok.injEq] at hserved
  exact hserved.symm

def inWindow (s : State W) (k : ℕ) : List BidRecord :=
  (bidLog s k).filter fun r => decide (startLedger s.sequence ≤ r.ledger)

theorem fetchBidEvents_snapshot (strKey : StrKey)
    (ha : (runFrom h g actions).auctions k = some auction) :
    fetchBidEvents strKey (snapshotRpc (runFrom h g actions)) k =
      .ok ((inWindow (runFrom h g actions) k).map (bidEventOf strKey)) := by
  have hall := fetchPages_snapshot rfl (bidsDue_length ha (startLedger (runFrom h g actions).sequence))
  obtain ⟨pages, hpages, hfound⟩ := fetchPages_eq_ok.mp hall
  apply (fetchBidEvents_shows (snapshotRpc_shows _)).mpr
  exact ⟨_, pages, _, rfl, hpages, hfound, List.filter_sublist, rfl⟩

end Snapshot

theorem handler_snapshot {g : Genesis W} {actions : List (Action W)} {k now : ℕ}
    {auction : Auction} {boxSecret : List UInt8} {served : List BidRecord}
    {bids : List RevealedBid} (ha : (runFrom h g actions).auctions k = some auction)
    (isOpen : auction.status = .Open) (due : auction.commitDeadline ≤ now)
    (hserved : inWindow (runFrom h g actions) k = served) (hne : served ≠ [])
    (hsecret : loadBoxSecret env = .ok boxSecret)
    (hbids : List.Forall₂ (fun e b => revealBid nacl boxSecret e = .ok b)
      (served.map (bidEventOf strKey)) bids) {root : String}
    (hroot : root = toString auction.whitelistRoot.toNat) :
    handler strKey nacl env (snapshotRpc (runFrom h g actions)) now ⟨"POST", some k⟩ =
      ⟨200, .revealed k root [] bids⟩ := by
  have hrecord : (snapshotRpc (runFrom h g actions)).getAuction k =
      .result (auctionRecord auction) := by
    simp only [snapshotRpc, ha]
  have hevents := fetchBidEvents_snapshot strKey ha
  rw [hserved] at hevents
  rw [hroot]
  exact handler_reveals (snapshotRpc_shows _) ha isOpen due hrecord hevents hne hsecret hbids

section Samples

def operatorSecretHex : String :=
  "0909090909090909090909090909090909090909090909090909090909090909"

theorem loadBoxSecret_sample :
    loadBoxSecret ⟨none, some operatorSecretHex⟩ = .ok (List.replicate 32 9) := by
  have hurl : "testnet".toList <:+: (Environment.rpcUrl ⟨none, some operatorSecretHex⟩).toList :=
    ⟨"https://soroban-".toList, ".stellar.org".toList, by decide⟩
  have hhex : secretHex operatorSecretHex = some operatorSecretHex.toList := by decide
  have hbytes : hexToBytes operatorSecretHex.toList = List.replicate 32 9 := by decide
  simp only [loadBoxSecret, bind_eq_ok, ensure_eq_ok, okOr_eq_ok, pure_eq_ok]
  exact ⟨(), hurl, _, hhex, hbytes⟩

def sampleRandomness (b : UInt8) : SealRandomness :=
  ⟨List.replicate saltBytes b, List.replicate nonceBytes b, List.replicate 32 b⟩

theorem sampleRandomness_wellFormed (b : UInt8) : (sampleRandomness b).WellFormed :=
  ⟨List.length_replicate, List.length_replicate, List.length_replicate⟩

def sampleCiphertext (b : UInt8) (price auctionId : ℕ) : List UInt8 :=
  (sealBid tagBox (poseidonHasher firstInput) (sampleRandomness b) price auctionId
    (keyOf 10).toList).encryptedBid

def sampleSalt (b : UInt8) : String := toString (fromBeBytes (List.replicate saltBytes b))

theorem revealBid_sample (slotIndex commitment auctionId : ℕ) (bidder : String) (b : UInt8)
    {price : ℕ} (hp : price < 2 ^ 64) :
    revealBid tagBox (List.replicate 32 9)
        ⟨slotIndex, bidder, commitment, sampleCiphertext b price auctionId⟩ =
      .ok ⟨slotIndex, bidder, toString commitment, toString price, sampleSalt b⟩ := by
  have hkey : (keyOf 10).toList = tagBox.publicKey (List.replicate 32 9) := rfl
  apply revealBid_eq_ok.mpr
  refine ⟨price, fromBeBytes (sampleRandomness b).salt, ?_, rfl⟩
  rw [sampleCiphertext, hkey]
  exact decryptBid_sealBid tagBox (poseidonHasher firstInput) tagBox_lawful _
    (sampleRandomness_wellFormed b) hp auctionId List.length_replicate

end Samples

/-- Two bids in the window are revealed as they are stored. -/
theorem reveal_exact_iff_witness :
    let h := sacHost (.contract (keyOf 0)) (fun _ _ _ => none) firstInput
    let g : Genesis SacState := ⟨.contract (keyOf 1), evenTokens 100, 0, 1⟩
    let first : Address := .account (keyOf 3)
    let second : Address := .account (keyOf 4)
    let args : CreateArgs := ⟨.account (keyOf 2), .contract (keyOf 10), 7, .contract (keyOf 11), 5,
      10, 3, 0, keyOf 10⟩
    let actions : List (Action SacState) := [.call [.account (keyOf 2)] (.createAuction args),
      .call [first] (.placeBid 1 first 4 (sampleCiphertext 1 4 1)),
      .call [second] (.placeBid 1 second 2 (sampleCiphertext 2 2 1)), .closeLedger 10 100]
    let auction : Auction := { newAuction args with bids := [⟨first, 4⟩, ⟨second, 2⟩] }
    let bids : List RevealedBid := [⟨0, sep23.encode first, "4", "4", sampleSalt 1⟩,
      ⟨1, sep23.encode second, "2", "2", sampleSalt 2⟩]
    handler sep23 tagBox ⟨none, some operatorSecretHex⟩ (snapshotRpc (runFrom h g actions)) 10
        ⟨"POST", some 1⟩ = ⟨200, .revealed 1 "0" [] bids⟩ ∧
      ListsStored sep23 auction bids := by
  intro h g first second args actions auction bids
  have ha : (runFrom h g actions).auctions 1 = some auction := by decide +kernel
  have hroot : "0" = toString auction.whitelistRoot.toNat := by decide
  have hserved : inWindow (runFrom h g actions) 1 =
      [⟨1, 0, first, 4, sampleCiphertext 1 4 1⟩, ⟨1, 1, second, 2, sampleCiphertext 2 2 1⟩] := by
    decide +kernel
  have hfirst : revealBid tagBox (List.replicate 32 9)
      ⟨0, sep23.encode first, 4, sampleCiphertext 1 4 1⟩ =
        .ok ⟨0, sep23.encode first, "4", "4", sampleSalt 1⟩ :=
    revealBid_sample 0 4 1 _ 1 (by norm_num)
  have hsecond : revealBid tagBox (List.replicate 32 9)
      ⟨1, sep23.encode second, 2, sampleCiphertext 2 2 1⟩ =
        .ok ⟨1, sep23.encode second, "2", "2", sampleSalt 2⟩ :=
    revealBid_sample 1 2 1 _ 2 (by norm_num)
  have hresponse : handler sep23 tagBox ⟨none, some operatorSecretHex⟩
      (snapshotRpc (runFrom h g actions)) 10 ⟨"POST", some 1⟩ =
        ⟨200, .revealed 1 "0" [] bids⟩ :=
    handler_snapshot ha rfl (le_refl 10) hserved (List.cons_ne_nil _ _) loadBoxSecret_sample
      (.cons hfirst (.cons hsecond .nil)) hroot
  have hwindow : inWindow (runFrom h g actions) 1 = bidLog (runFrom h g actions) 1 := by
    decide +kernel
  refine ⟨hresponse, (reveal_exact_iff h sep23 tagBox g actions 1 auction ha rfl _ _
    (snapshotRpc_shows _) 10 (by decide)).mpr ?_ _ _ _ hresponse⟩
  intro boxSecret record latest pages _ _ hlatest hpages
  have hledger : (runFrom h g actions).sequence = latest := Except.ok.inj hlatest
  rw [← hledger] at hpages
  refine .inr (.inr fun r hr => ?_)
  rw [← hwindow] at hr
  rw [snapshotRpc_serves ha hpages]
  exact List.mem_map_of_mem hr

/-- The first bid is 100099 ledgers old when the endpoint asks for the events: the response is
a success that lists the second bid only. -/
theorem reveal_partial :
    let h := sacHost (.contract (keyOf 0)) (fun _ _ _ => none) firstInput
    let g : Genesis SacState := ⟨.contract (keyOf 1), evenTokens 100, 0, 1⟩
    let first : Address := .account (keyOf 3)
    let second : Address := .account (keyOf 4)
    let args : CreateArgs := ⟨.account (keyOf 2), .contract (keyOf 10), 7, .contract (keyOf 11), 5,
      600000, 3, 0, keyOf 10⟩
    let actions : List (Action SacState) := [.call [.account (keyOf 2)] (.createAuction args),
      .call [first] (.placeBid 1 first 4 (sampleCiphertext 1 4 1)), .closeLedger 500000 100050,
      .call [second] (.placeBid 1 second 2 (sampleCiphertext 2 2 1)), .closeLedger 600000 100100]
    let auction : Auction := { newAuction args with bids := [⟨first, 4⟩, ⟨second, 2⟩] }
    let bids : List RevealedBid := [⟨1, sep23.encode second, "2", "2", sampleSalt 2⟩]
    (runFrom h g actions).auctions 1 = some auction ∧ auction.status = .Open ∧
      auction.commitDeadline ≤ 600000 ∧ (snapshotRpc (runFrom h g actions)).Shows
        (runFrom h g actions) ∧
      handler sep23 tagBox ⟨none, some operatorSecretHex⟩ (snapshotRpc (runFrom h g actions)) 600000
        ⟨"POST", some 1⟩ = ⟨200, .revealed 1 "0" [] bids⟩ ∧
      ¬ListsStored sep23 auction bids := by
  intro h g first second args actions auction bids
  have ha : (runFrom h g actions).auctions 1 = some auction := by decide +kernel
  have hroot : "0" = toString auction.whitelistRoot.toNat := by decide
  have hserved : inWindow (runFrom h g actions) 1 =
      [⟨100050, 1, second, 2, sampleCiphertext 2 2 1⟩] := by decide +kernel
  have hsecond : revealBid tagBox (List.replicate 32 9)
      ⟨1, sep23.encode second, 2, sampleCiphertext 2 2 1⟩ =
        .ok ⟨1, sep23.encode second, "2", "2", sampleSalt 2⟩ :=
    revealBid_sample 1 2 1 _ 2 (by norm_num)
  have hresponse : handler sep23 tagBox ⟨none, some operatorSecretHex⟩
      (snapshotRpc (runFrom h g actions)) 600000 ⟨"POST", some 1⟩ =
        ⟨200, .revealed 1 "0" [] bids⟩ :=
    handler_snapshot ha rfl (le_refl 600000) hserved (List.cons_ne_nil _ _) loadBoxSecret_sample
      (.cons hsecond .nil) hroot
  have hpartial : ¬ListsStored sep23 auction bids := by
    intro hlists
    have hcount := congrArg List.length hlists
    exact absurd hcount (by decide)
  exact ⟨ha, rfl, le_refl _, snapshotRpc_shows (runFrom h g actions), hresponse, hpartial⟩

end SealedStellar
