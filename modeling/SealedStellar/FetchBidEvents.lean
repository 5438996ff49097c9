import SealedStellar.SettleAgreement
import SealedStellar.RevealedBids
import SealedStellar.IndexerEvents

/-! prover/fetch-bid-events.js, and the way of the scripts from the chain to the circuit input beside
the way through the reveal endpoint. -/
namespace SealedStellar
open Checked BigIntText

inductive Topic where
  | text (s : String)
  | bigint (n : ℤ)
  | other

/-- A contract event; the value is none where its fields are not those of a bid. -/
structure ChainEvent where
  topic : List Topic
  value : Option BidEvent

structure ChainPage where
  events : List ChainEvent
  cursor : Option String

/-- The answers to getEvents with the contract as its only filter. -/
abbrev EventServer := EventsRequest → Except String ChainPage

structure FetchOptions where
  startLedger : ℕ
  auctionId : String

def bidPlacedTopic : String := "bid_placed"
def scriptEventPages : ℕ := 30

section Script

/-- `BigInt(topic)`, which throws on an object. -/
def Topic.toBigInt : Topic → Except String ℤ
  | .text s => SealedStellar.toBigInt s
  | .bigint n => .ok n
  | .other => .error "Cannot convert [object Object] to a BigInt"

/-- The empty cursor is falsy. -/
def ChainPage.next (response : ChainPage) : Option String :=
  response.cursor.filter fun pageCursor => pageCursor ≠ ""

def fetchAllEvents (server : EventServer) : ℕ → EventsRequest → Except String (List ChainEvent)
  | 0, _ => .ok []
  | n + 1, request => do
    let response ← server request
    match response.next with
    | none => return response.events
    | some pageCursor =>
      let rest ← fetchAllEvents server n (.cursor pageCursor)
      return response.events ++ rest

def readBid (wantedAuctionId : ℤ) (rawEvent : ChainEvent) : Except String (Option EventBid) :=
  match rawEvent.topic with
  | .text name :: auctionId :: _ =>
    if name ≠ bidPlacedTopic then .ok none
    else do
      let eventAuctionId ← auctionId.toBigInt
      if eventAuctionId ≠ wantedAuctionId then return none
      else do
        let eventData ← okOr rawEvent.value "Cannot convert undefined to a BigInt"
        return some {
          slotIndex := eventData.slotIndex
          bidder := eventData.bidder
          commitmentDecimal := toString eventData.commitment
          encryptedBidHex := hexText eventData.encryptedBid }
  | _ => .ok none

/-- `main` of fetch-bid-events.js, up to the file it writes. -/
def fetchBidEventsFile (server : EventServer) (options : FetchOptions) :
    Except String EventsDocument := do
  let wantedAuctionId ← toBigInt options.auctionId
  let rawEvents ← fetchAllEvents server scriptEventPages (.startLedger options.startLedger)
  let bids ← rawEvents.mapM (readBid wantedAuctionId)
  return {
    auctionId := toString wantedAuctionId
    bids := (bids.filterMap id).insertionSort fun first second => first.slotIndex ≤ second.slotIndex }

end Script

section Chain
variable {W : Type} {h : Host W} (strKey : StrKey)

def chainEvent (e : ℕ × Event) : ChainEvent where
  topic := [.text (Indexer.Event.data strKey e.2).1, .bigint e.2.auctionId]
  value :=
    match e.2 with
    | .BidPlaced _ slotIndex bidder commitment encryptedBid =>
      some ⟨slotIndex, strKey.encode bidder, commitment.toNat, encryptedBid⟩
    | _ => none

def EventServer.Shows (server : EventServer) (s : State W) : Prop :=
  ∃ feed : EventsRequest → List ChainEvent,
    (∀ ledger, feed (.startLedger ledger) =
      (s.events.filter fun e => decide (ledger ≤ e.1)).map (chainEvent strKey)) ∧
    ∀ request page, server request = .ok page → feed request = page.events ++
      match page.next with
      | none => []
      | some pageCursor => feed (.cursor pageCursor)

def eventBid (r : BidRecord) : EventBid :=
  ⟨r.slotIndex, strKey.encode r.bidder, toString r.commitment.toNat, hexText r.encryptedBid⟩

variable {strKey} {server : EventServer}

theorem fetchAllEvents_prefix {feed : EventsRequest → List ChainEvent}
    (hfeed : ∀ request page, server request = .ok page → feed request = page.events ++
      match page.next with
      | none => []
      | some pageCursor => feed (.cursor pageCursor))
    {n : ℕ} {request : EventsRequest} {found : List ChainEvent}
    (hfetch : fetchAllEvents server n request = .ok found) : found <+: feed request := by
  induction n generalizing request found with
  | zero =>
    cases hfetch
    exact List.nil_prefix
  | succ n ih =>
    rw [fetchAllEvents, bind_eq_ok] at hfetch
    obtain ⟨page, hpage, hrest⟩ := hfetch
    rw [hfeed request page hpage]
    cases hnext : page.next with
    | none =>
      rw [hnext] at hrest
      cases hrest
      exact List.prefix_append _ _
    | some pageCursor =>
      simp only [hnext, bind_eq_ok, pure_eq_ok] at hrest
      obtain ⟨rest, hrest, rfl⟩ := hrest
      exact (List.prefix_append_right_inj _).mpr (ih hrest)

theorem readBid_chainEvent (k : ℕ) (e : ℕ × Event) :
    readBid k (chainEvent strKey e) = .ok ((bidRecord k e).map (eventBid strKey)) := by
  obtain ⟨ledger, e⟩ := e
  cases e with
  | BidPlaced auctionId slotIndex bidder commitment encryptedBid =>
    by_cases hk : auctionId = k
    · simp [readBid, chainEvent, Indexer.Event.data, bidPlacedTopic, Topic.toBigInt, Event.auctionId,
        bidRecord, eventBid, hk, okOr, bind, Except.bind, pure, Except.pure]
    · simp [readBid, chainEvent, Indexer.Event.data, bidPlacedTopic, Topic.toBigInt, Event.auctionId,
        bidRecord, hk, bind, Except.bind, pure, Except.pure]
  | _ => simp [readBid, chainEvent, Indexer.Event.data, bidPlacedTopic, bidRecord]

theorem readBids_chainEvents (k : ℕ) (es : List (ℕ × Event)) :
    (es.map (chainEvent strKey)).mapM (readBid k) =
      .ok (es.map fun e => (bidRecord k e).map (eventBid strKey)) := by
  have hread : readBid (k : ℤ) ∘ chainEvent strKey =
      fun e => (.ok ((bidRecord k e).map (eventBid strKey)) : Except String (Option EventBid)) :=
    funext (readBid_chainEvent k)
  rw [List.mapM_map, hread]
  exact List.mapM_pure

section Run
variable {g : Genesis W} {actions : List (Action W)} {k : ℕ} {options : FetchOptions}
  {document : EventsDocument}

theorem eventBids_sorted {es : List (ℕ × Event)}
    (hsub : (es.filterMap (bidRecord k)).Sublist (bidLog (runFrom h g actions) k)) :
    (((es.map fun e => (bidRecord k e).map (eventBid strKey)).filterMap id).insertionSort
      fun first second => first.slotIndex ≤ second.slotIndex) =
        (es.filterMap (bidRecord k)).map (eventBid strKey) := by
  have hread : (es.map fun e => (bidRecord k e).map (eventBid strKey)).filterMap id =
      (es.filterMap (bidRecord k)).map (eventBid strKey) := by
    rw [List.filterMap_map, List.map_filterMap]
    rfl
  have hsorted : ((es.filterMap (bidRecord k)).map (eventBid strKey)).Pairwise
      fun first second => first.slotIndex ≤ second.slotIndex :=
    List.pairwise_map.mpr (((bidLog_slots g actions k).sublist hsub).imp fun hlt => hlt.le)
  rw [hread, hsorted.insertionSort_eq]

/-- However the server pages its events, the file holds bid events of the auction, in slot order. -/
theorem fetchBidEventsFile_shows (hserver : server.Shows strKey (runFrom h g actions))
    (htext : parse options.auctionId = some (k : ℤ))
    (hfetch : fetchBidEventsFile server options = .ok document) :
    ∃ served : List BidRecord, served.Sublist (bidLog (runFrom h g actions) k) ∧
      document = ⟨toString (k : ℤ), served.map (eventBid strKey)⟩ := by
  obtain ⟨feed, hstart, hpage⟩ := hserver
  simp only [fetchBidEventsFile, bind_eq_ok, toBigInt_eq_ok, htext, Option.some.injEq,
    exists_eq_left', pure_eq_ok] at hfetch
  obtain ⟨found, hfound, bids, hbids, rfl⟩ := hfetch
  have hprefix := fetchAllEvents_prefix hpage hfound
  rw [hstart] at hprefix
  obtain ⟨es, hes, rfl⟩ := List.prefix_map_iff.mp hprefix
  rw [readBids_chainEvents] at hbids
  cases hbids
  have hsub : (es.filterMap (bidRecord k)).Sublist (bidLog (runFrom h g actions) k) :=
    (hes.sublist.trans List.filter_sublist).filterMap _
  exact ⟨_, hsub, by rw [eventBids_sorted hsub]⟩

end Run

end Chain

section Decrypt
variable {nacl : Nacl} {hash : List ℤ → ℤ} {strKey : StrKey} {secretKeyHex : String} {k : ℕ}

structure OpensTo (nacl : Nacl) (hash : List ℤ → ℤ) (secretKey : List UInt8) (k : ℕ) (r : BidRecord)
    (price salt : ℕ) : Prop where
  opened : decryptBid nacl r.encryptedBid secretKey = some (price, salt)
  committed : hash [(price : ℤ), (salt : ℤ), (k : ℤ)] = (r.commitment.toNat : ℤ)

theorem openEventBid_eventBid {r : BidRecord} {opened : OpenedBid} :
    openEventBid nacl hash (Hex.decode secretKeyHex.toList) k (eventBid strKey r) = .ok opened ↔
      ∃ price salt, OpensTo nacl hash (Hex.decode secretKeyHex.toList) k r price salt ∧
        opened = ⟨r.slotIndex, strKey.encode r.bidder, toString r.commitment.toNat, toString price,
          toString salt⟩ := by
  have hdecrypt : ∀ bid, decryptOneBid nacl (eventBid strKey r).encryptedBidHex
      (Hex.decode secretKeyHex.toList) = .ok bid ↔
        decryptBid nacl r.encryptedBid (Hex.decode secretKeyHex.toList) =
          some (bid.price, bid.saltValue) := by
    intro bid
    rw [decryptOneBid_eq_ok, eventBid, decode_hexText]
  rw [openEventBid]
  cases hbid : decryptOneBid nacl (eventBid strKey r).encryptedBidHex
      (Hex.decode secretKeyHex.toList) with
  | error reason =>
    constructor
    · intro hopen
      cases hopen
    · rintro ⟨price, salt, hopens, -⟩
      cases hbid.symm.trans ((hdecrypt ⟨price, salt⟩).mpr hopens.opened)
  | ok bid =>
    have hopened := (hdecrypt bid).mp hbid
    simp only [bind_eq_ok, Except.ok.injEq, exists_eq_left', pure_eq_ok, computeBidCommitment]
    constructor
    · rintro ⟨_, hcheck, rfl⟩
      exact ⟨bid.price, bid.saltValue, ⟨hopened, toString_inj.mp (ensure_eq_ok.mp hcheck)⟩, rfl⟩
    · rintro ⟨price, salt, hopens, rfl⟩
      cases hopens.opened.symm.trans hopened
      exact ⟨(), ensure_eq_ok.mpr (toString_inj.mpr hopens.committed), rfl⟩

theorem operatorDecrypt_eventBids {served : List BidRecord} {decrypted : DecryptedDocument} :
    operatorDecrypt nacl hash secretKeyHex ⟨toString (k : ℤ), served.map (eventBid strKey)⟩ =
        .ok decrypted ↔
      decrypted.auctionId = toString (k : ℤ) ∧ List.Forall₂ (fun r opened => ∃ price salt,
        OpensTo nacl hash (Hex.decode secretKeyHex.toList) k r price salt ∧
        opened = ⟨r.slotIndex, strKey.encode r.bidder, toString r.commitment.toNat, toString price,
          toString salt⟩) served decrypted.bids := by
  simp only [operatorDecrypt, bind_eq_ok, toBigInt_toString, Except.ok.injEq, exists_eq_left',
    mapM_eq_ok, List.forall₂_map_left_iff, openEventBid_eventBid, pure_eq_ok]
  constructor
  · rintro ⟨opened, hopened, rfl⟩
    exact ⟨rfl, hopened⟩
  · rintro ⟨hid, hopened⟩
    exact ⟨_, hopened, by rw [← hid]⟩

theorem operatorDecrypt_opens_iff {served : List BidRecord} :
    (∃ decrypted, operatorDecrypt nacl hash secretKeyHex
      ⟨toString (k : ℤ), served.map (eventBid strKey)⟩ = .ok decrypted) ↔
      ∀ r ∈ served, ∃ price salt,
        OpensTo nacl hash (Hex.decode secretKeyHex.toList) k r price salt := by
  have hone : ∀ r : BidRecord, (∃ opened, openEventBid nacl hash (Hex.decode secretKeyHex.toList) k
      (eventBid strKey r) = .ok opened) ↔ ∃ price salt,
        OpensTo nacl hash (Hex.decode secretKeyHex.toList) k r price salt := by
    intro r
    simp only [openEventBid_eventBid]
    constructor
    · rintro ⟨opened, price, salt, hopens, -⟩
      exact ⟨price, salt, hopens⟩
    · rintro ⟨price, salt, hopens⟩
      exact ⟨_, price, salt, hopens, rfl⟩
  have hall := exists_mapM_eq_ok (f := openEventBid nacl hash (Hex.decode secretKeyHex.toList) k)
    (l := served.map (eventBid strKey))
  rw [List.forall_mem_map] at hall
  simp only [hone] at hall
  rw [← hall]
  simp only [operatorDecrypt, bind_eq_ok, toBigInt_toString, Except.ok.injEq, exists_eq_left',
    pure_eq_ok]
  constructor
  · rintro ⟨_, opened, hopened, -⟩
    exact ⟨opened, hopened⟩
  · rintro ⟨opened, hopened⟩
    exact ⟨_, opened, hopened, rfl⟩

end Decrypt

section Paths
variable {W : Type} {h : Host W} {strKey : StrKey} {nacl : Nacl} {hash : List ℤ → ℤ}
  {g : Genesis W} {actions : List (Action W)} {k : ℕ} {auction : Auction} {secretKeyHex : String}

def decryptedOf (strKey : StrKey) (nacl : Nacl) (secretKey : List UInt8) (r : BidRecord) : Decrypted :=
  (eventBid strKey r,
    match decryptBid nacl r.encryptedBid secretKey with
    | some (price, salt) => ⟨price, salt⟩
    | none => ⟨0, 0⟩)

theorem revealed_decrypted {secretKey : List UInt8} {log : List BidRecord} {bids : List RevealedBid}
    (hb : List.Forall₂ (fun e b => revealBid nacl secretKey e = .ok b)
      (log.map (bidEventOf strKey)) bids) :
    bids = (log.map (decryptedOf strKey nacl secretKey)).map revealedBid := by
  induction log generalizing bids with
  | nil =>
    cases hb
    rfl
  | cons r log ih =>
    cases hb with
    | cons hfirst hrest =>
      obtain ⟨price, salt, hopen, rfl⟩ := revealBid_eq_ok.mp hfirst
      have hopen' : decryptBid nacl r.encryptedBid secretKey = some (price, salt) := hopen
      rw [List.map_cons, List.map_cons, ← ih hrest, decryptedOf, hopen']
      rfl

theorem log_distinct (ha : (runFrom h g actions).auctions k = some auction)
    (hopens : ∀ r ∈ bidLog (runFrom h g actions) k,
      decryptBid nacl r.encryptedBid (Hex.decode secretKeyHex.toList) ≠ none) :
    DistinctBids nacl secretKeyHex ((bidLog (runFrom h g actions) k).map
      (decryptedOf strKey nacl (Hex.decode secretKeyHex.toList))) where
  opens := by
    intro b hb
    obtain ⟨r, hr, rfl⟩ := List.mem_map.mp hb
    obtain ⟨opened, hopened⟩ := Option.ne_none_iff_exists'.mp (hopens r hr)
    rw [decryptOneBid_eq_ok]
    simp only [decryptedOf, eventBid, decode_hexText, hopened]
  slots := by
    rw [List.map_map]
    exact (List.pairwise_map.mpr ((bidLog_slots g actions k).imp fun hlt => hlt.ne))
  range := by
    intro b hb
    obtain ⟨r, hr, rfl⟩ := List.mem_map.mp hb
    have hslot := List.mk_mem_zipIdx_iff_getElem?.mp (bidLog_mem_stored ha hr)
    have hslots := ((runFrom_valid (h := h) g actions).stored k auction ha).2.2.slots
    exact lt_of_lt_of_le (List.getElem?_eq_some_iff.mp hslot).1 hslots
  canonical := by
    intro b hb
    obtain ⟨r, hr, rfl⟩ := List.mem_map.mp hb
    exact ⟨(r.commitment.toNat : ℤ), rfl⟩

def eventsDue (strKey : StrKey) (s : State W) (ledger : ℕ) : List ChainEvent :=
  (s.events.filter fun e => decide (ledger ≤ e.1)).map (chainEvent strKey)

def snapshotServer (strKey : StrKey) (s : State W) : EventServer := fun request =>
  .ok ⟨(pending (eventsDue strKey s) request).take 1, onward (eventsDue strKey s) request⟩

theorem snapshotServer_shows (s : State W) : (snapshotServer strKey s).Shows strKey s := by
  refine ⟨pending (eventsDue strKey s), fun _ => rfl, fun request page hpage => ?_⟩
  cases hpage
  simp only [ChainPage.next, onward_filter]
  exact pending_onward

theorem fetchAllEvents_snapshot {s : State W} {n : ℕ} {request : EventsRequest}
    (hn : (pending (eventsDue strKey s) request).length ≤ n) :
    fetchAllEvents (snapshotServer strKey s) n request =
      .ok (pending (eventsDue strKey s) request) := by
  let page (request : EventsRequest) : ChainPage :=
    ⟨(pending (eventsDue strKey s) request).take 1, onward (eventsDue strKey s) request⟩
  have hpage : ∀ request, snapshotServer strKey s request = .ok (page request) := fun _ => rfl
  have hnext : ∀ request, (page request).next = onward (eventsDue strKey s) request :=
    fun _ => onward_filter
  refine walk_pending (fun _ => rfl) ?_ ?_ hn
  · intro n request ho
    rw [fetchAllEvents, bind_eq_ok]
    exact ⟨_, hpage request, by rw [hnext, ho]; rfl⟩
  · intro n request pageCursor rest ho hrest
    rw [fetchAllEvents, bind_eq_ok]
    refine ⟨_, hpage request, ?_⟩
    rw [hnext, ho]
    simp only [hrest, bind_eq_ok]
    exact ⟨_, rfl, rfl⟩

theorem fetch_snapshot (h : Host W) (strKey : StrKey) (g : Genesis W) (actions : List (Action W))
    (options : FetchOptions) {k : ℕ} (htext : parse options.auctionId = some (k : ℤ))
    (hfew : (runFrom h g actions).events.length ≤ scriptEventPages) :
    fetchBidEventsFile (snapshotServer strKey (runFrom h g actions)) options =
      .ok ⟨toString (k : ℤ), (((runFrom h g actions).events.filter fun e =>
        decide (options.startLedger ≤ e.1)).filterMap (bidRecord k)).map (eventBid strKey)⟩ := by
  have hdue : pending (eventsDue strKey (runFrom h g actions)) (.startLedger options.startLedger) =
      ((runFrom h g actions).events.filter fun e =>
        decide (options.startLedger ≤ e.1)).map (chainEvent strKey) := rfl
  have hcount : (pending (eventsDue strKey (runFrom h g actions))
      (.startLedger options.startLedger)).length ≤ scriptEventPages := by
    rw [hdue, List.length_map]
    exact (List.length_filter_le _ _).trans hfew
  have hpages := fetchAllEvents_snapshot hcount
  rw [hdue] at hpages
  simp only [fetchBidEventsFile, bind_eq_ok, toBigInt_eq_ok, htext, Option.some.injEq,
    exists_eq_left', hpages, Except.ok.injEq, readBids_chainEvents, pure_eq_ok]
  rw [eventBids_sorted (List.filter_sublist.filterMap _)]

end Paths

/-- What fetch-bid-events writes for an auction is a part of its stored bids, each with the slot,
bidder and commitment of the record, and operator-decrypt opens all of it or fails. -/
theorem fetched_bids_open {W : Type} (h : Host W) (strKey : StrKey) (nacl : Nacl)
    (hash : List ℤ → ℤ) (g : Genesis W) (actions : List (Action W)) (k : ℕ) (auction : Auction)
    (ha : (runFrom h g actions).auctions k = some auction) (server : EventServer)
    (hserver : server.Shows strKey (runFrom h g actions)) (options : FetchOptions)
    (htext : parse options.auctionId = some (k : ℤ)) (document : EventsDocument)
    (hfetch : fetchBidEventsFile server options = .ok document) (secretKeyHex : String) :
    ∃ served : List BidRecord, served.Sublist (bidLog (runFrom h g actions) k) ∧
      document.bids = served.map (eventBid strKey) ∧
      (∀ r ∈ served, auction.bids[r.slotIndex]? = some ⟨r.bidder, r.commitment⟩) ∧
      (document.bids.length = auction.bids.length → served = bidLog (runFrom h g actions) k) ∧
      ((∃ decrypted, operatorDecrypt nacl hash secretKeyHex document = .ok decrypted) ↔
        ∀ r ∈ served, ∃ price salt,
          OpensTo nacl hash (Hex.decode secretKeyHex.toList) k r price salt) ∧
      ∀ decrypted, operatorDecrypt nacl hash secretKeyHex document = .ok decrypted →
        List.Forall₂ (fun r opened => ∃ price salt,
          OpensTo nacl hash (Hex.decode secretKeyHex.toList) k r price salt ∧
          opened = ⟨r.slotIndex, strKey.encode r.bidder, toString r.commitment.toNat,
            toString price, toString salt⟩) served decrypted.bids := by
  obtain ⟨served, hsub, rfl⟩ := fetchBidEventsFile_shows hserver htext hfetch
  refine ⟨served, hsub, rfl, fun r hr => ?_, fun hcount => ?_, ?_, fun decrypted hdecrypted => ?_⟩
  · exact List.mk_mem_zipIdx_iff_getElem?.mp (bidLog_mem_stored ha (hsub.subset hr))
  · rw [List.length_map, ← bidLog_length ha] at hcount
    exact hsub.eq_of_length hcount
  · exact operatorDecrypt_opens_iff
  · exact (operatorDecrypt_eventBids.mp hdecrypted).2

theorem opensTo_sample {r : BidRecord} {b : UInt8} {price k : ℕ} (hp : price < 2 ^ 64)
    (hcipher : r.encryptedBid = sampleCiphertext b price k) (hcommit : r.commitment.toNat = price) :
    OpensTo tagBox (poseidonHasher firstInput) (List.replicate 32 9) k r price
      (fromBeBytes (List.replicate saltBytes b)) where
  opened := by
    have hkey : (keyOf 10).toList = tagBox.publicKey (List.replicate 32 9) := rfl
    rw [hcipher, sampleCiphertext, hkey]
    exact decryptBid_sealBid tagBox (poseidonHasher firstInput) tagBox_lawful _
      (sampleRandomness_wellFormed b) hp k List.length_replicate
  committed := by
    simp only [poseidonHasher, firstInput, List.map_cons, Int.cast_natCast, List.map_nil,
      List.headD_eq_head?_getD, List.head?_cons, Option.getD_some, ZMod.val_natCast,
      Int.natCast_emod, Nat.cast_ofNat, hcommit]
    omega

/-- Two bids, served one event a page. -/
theorem fetched_bids_open_at :
    let h := sacHost (.contract (keyOf 0)) (fun _ _ _ => none) firstInput
    let g : Genesis SacState := ⟨.contract (keyOf 1), evenTokens 100, 0, 1⟩
    let first : Address := .account (keyOf 3)
    let second : Address := .account (keyOf 4)
    let args : CreateArgs := ⟨.account (keyOf 2), .contract (keyOf 10), 7, .contract (keyOf 11), 5,
      10, 3, 0, keyOf 10⟩
    let actions : List (Action SacState) := [.call [.account (keyOf 2)] (.createAuction args),
      .call [first] (.placeBid 1 first 4 (sampleCiphertext 1 4 1)),
      .call [second] (.placeBid 1 second 2 (sampleCiphertext 2 2 1)), .closeLedger 10 2]
    ∃ document decrypted,
      fetchBidEventsFile (snapshotServer sep23 (runFrom h g actions)) ⟨1, "1"⟩ = .ok document ∧
      operatorDecrypt tagBox (poseidonHasher firstInput) operatorSecretHex document =
        .ok decrypted := by
  intro h g first second args actions
  let auction : Auction := { newAuction args with bids := [⟨first, 4⟩, ⟨second, 2⟩] }
  have ha : (runFrom h g actions).auctions 1 = some auction := by decide +kernel
  have hlog : bidLog (runFrom h g actions) 1 = [⟨1, 0, first, 4, sampleCiphertext 1 4 1⟩,
      ⟨1, 1, second, 2, sampleCiphertext 2 2 1⟩] := by decide +kernel
  have hsecret : Hex.decode operatorSecretHex.toList = List.replicate 32 9 := by decide
  have hfetch := fetch_snapshot h sep23 g actions ⟨1, "1"⟩ (parse_toString 1) (by decide +kernel)
  obtain ⟨served, hsub, -, -, -, hopens, -⟩ := fetched_bids_open h sep23 tagBox
    (poseidonHasher firstInput) g actions 1 auction ha _ (snapshotServer_shows _) ⟨1, "1"⟩
    (parse_toString 1) _ hfetch operatorSecretHex
  rw [hlog] at hsub
  rw [hsecret] at hopens
  have hall : ∀ r ∈ [(⟨1, 0, first, 4, sampleCiphertext 1 4 1⟩ : BidRecord),
      ⟨1, 1, second, 2, sampleCiphertext 2 2 1⟩], ∃ price salt,
        OpensTo tagBox (poseidonHasher firstInput) (List.replicate 32 9) 1 r price salt :=
    List.forall_mem_cons.mpr ⟨⟨4, _, opensTo_sample (by norm_num) rfl rfl⟩,
      List.forall_mem_cons.mpr ⟨⟨2, _, opensTo_sample (by norm_num) rfl rfl⟩, nofun⟩⟩
  obtain ⟨decrypted, hdecrypted⟩ := hopens.mpr fun r hr => hall r (hsub.subset hr)
  exact ⟨_, decrypted, hfetch, hdecrypted⟩

/-- The reveal endpoint and the page, or the scripts from fetch-bid-events to build-input: from
complete lists of the bids of one auction both ways settle, or neither does, with the same
arguments and the same public signals. -/
theorem operator_paths_agree {W : Type} (h : Host W) (strKey : StrKey) (nacl : Nacl)
    (hash : List ℤ → ℤ) (g : Genesis W) (actions : List (Action W)) (k : ℕ) (auction : Auction)
    (ha : (runFrom h g actions).auctions k = some auction) (env : Environment)
    (secretKeyHex : String) (hload : loadBoxSecret env = .ok (Hex.decode secretKeyHex.toList))
    (rpc : Rpc) (hrpc : rpc.Shows (runFrom h g actions)) (now : ℕ) (req : RevealRequest)
    (whitelistRoot : String) (members : List String) (bids : List RevealedBid)
    (hresponse : handler strKey nacl env rpc now req =
      ⟨200, .revealed k whitelistRoot members bids⟩)
    (hbids : bids.length = auction.bids.length) (server : EventServer)
    (hserver : server.Shows strKey (runFrom h g actions)) (options : FetchOptions)
    (htext : parse options.auctionId = some (k : ℤ)) (document : EventsDocument)
    (hfetch : fetchBidEventsFile server options = .ok document)
    (hcount : document.bids.length = auction.bids.length) (addresses : String)
    (hm : ValidMembers strKey (splitAddresses addresses)) (root : ℤ) :
    let page := prepareSettle strKey hash ⟨k, root⟩ bids (splitAddresses addresses)
    let scripts := settleFromFiles strKey nacl hash addresses secretKeyHex document
    ((∃ out, page = .ok out) ↔ (∃ out, scripts = .ok out) ∧
      (memberTree strKey hash (splitAddresses addresses)).root = root) ∧
    ∀ input arguments written settleMeta, page = .ok (input, arguments) →
      scripts = .ok (written, settleMeta) →
        settleMeta.winnerIndex = arguments.winnerIndex ∧
        settleMeta.winningPrice = toString arguments.winningPrice ∧
        settleMeta.winnerAddress = arguments.winnerAddress ∧
        written.publicTexts = input.publicValues.map toString := by
  obtain ⟨served, hsub, rfl⟩ := fetchBidEventsFile_shows hserver htext hfetch
  rw [List.length_map, ← bidLog_length ha] at hcount
  have hserved : served = bidLog (runFrom h g actions) k := hsub.eq_of_length hcount
  subst hserved
  obtain ⟨-, -, boxSecret, state, events, hload', -, -, -, hevents, -, hrevealed, -, -⟩ :=
    handler_revealed_iff.mp hresponse
  cases hload.symm.trans hload'
  obtain ⟨_, _, found, -, -, -, hfound, rfl⟩ := (fetchBidEvents_shows hrpc).mp hevents
  have hlength := hrevealed.length_eq
  rw [List.length_map, hbids, ← bidLog_length ha] at hlength
  have hsame : found = bidLog (runFrom h g actions) k := hfound.eq_of_length hlength
  subst hsame
  have hb : DistinctBids nacl secretKeyHex ((bidLog (runFrom h g actions) k).map
      (decryptedOf strKey nacl (Hex.decode secretKeyHex.toList))) :=
    log_distinct ha (revealed_opens hrevealed)
  rw [revealed_decrypted hrevealed]
  have hfirst : (bidLog (runFrom h g actions) k).map (eventBid strKey) =
      ((bidLog (runFrom h g actions) k).map
        (decryptedOf strKey nacl (Hex.decode secretKeyHex.toList))).map Prod.fst := by
    rw [List.map_map]
    rfl
  rw [hfirst]
  intro page scripts
  constructor
  · constructor
    · rintro ⟨⟨input, arguments⟩, hpage⟩
      obtain ⟨winner, hs, hroot, -⟩ := page_sound hb hm hpage
      exact ⟨scripts_complete hb hm (parse_toString _) hs, hroot⟩
    · rintro ⟨⟨⟨input, settleMeta⟩, hscripts⟩, hroot⟩
      obtain ⟨winner, hs, -⟩ := scripts_sound hb hm (parse_toString _) hscripts
      exact page_complete hb hm hs hroot
  · intro input arguments written settleMeta hpage hscripts
    obtain ⟨winner, hs, -, hpublic, hindex, hprice, haddress⟩ := page_sound hb hm hpage
    obtain ⟨winner', hs', hpublic', hindex', hprice', haddress'⟩ :=
      scripts_sound hb hm (parse_toString _) hscripts
    have hwinner : winner' = winner := Option.some.inj (hs'.holder.symm.trans hs.holder)
    subst hwinner
    exact ⟨hindex'.trans hindex.symm, by rw [hprice', hprice], by rw [haddress', haddress],
      by rw [hpublic', hpublic]⟩

/-- Bids of 4 and 2, revealed by the endpoint and fetched by the script, one event a page. -/
theorem operator_paths_agree_at :
    let leaf : U256 := 0x03030303030303030303030303030303
    let h := sacHost (.contract (keyOf 0)) (fun _ _ _ => none) firstInput
    let g : Genesis SacState := ⟨.contract (keyOf 1), evenTokens 100, 0, 1⟩
    let first : Address := .account (keyOf 3)
    let second : Address := .account (keyOf 4)
    let args : CreateArgs := ⟨.account (keyOf 2), .contract (keyOf 10), 7, .contract (keyOf 11), 5,
      10, 3, leaf, keyOf 10⟩
    let actions : List (Action SacState) := [.call [.account (keyOf 2)] (.createAuction args),
      .call [first] (.placeBid 1 first 4 (sampleCiphertext 1 4 1)),
      .call [second] (.placeBid 1 second 2 (sampleCiphertext 2 2 1)), .closeLedger 10 2]
    let addresses := sep23.encode first ++ "," ++ sep23.encode second
    ∃ bids root document input arguments written settleMeta,
      handler sep23 tagBox ⟨none, some operatorSecretHex⟩ (snapshotRpc (runFrom h g actions)) 10
        ⟨"POST", some 1⟩ = ⟨200, .revealed 1 root [] bids⟩ ∧
      fetchBidEventsFile (snapshotServer sep23 (runFrom h g actions)) ⟨1, "1"⟩ = .ok document ∧
      prepareSettle sep23 (poseidonHasher firstInput) ⟨1, leaf.toNat⟩ bids
        (splitAddresses addresses) = .ok (input, arguments) ∧
      settleFromFiles sep23 tagBox (poseidonHasher firstInput) addresses operatorSecretHex document =
        .ok (written, settleMeta) ∧
      written.publicTexts = input.publicValues.map toString := by
  intro leaf h g first second args actions addresses
  let auction : Auction := { newAuction args with bids := [⟨first, 4⟩, ⟨second, 2⟩] }
  let bids : List RevealedBid := [⟨0, sep23.encode first, "4", "4", sampleSalt 1⟩,
    ⟨1, sep23.encode second, "2", "2", sampleSalt 2⟩]
  have ha : (runFrom h g actions).auctions 1 = some auction := by decide +kernel
  have hsecret : Hex.decode operatorSecretHex.toList = List.replicate 32 9 := by decide
  have hload : loadBoxSecret ⟨none, some operatorSecretHex⟩ =
      .ok (Hex.decode operatorSecretHex.toList) := by
    rw [hsecret]
    exact loadBoxSecret_sample
  have hserved : inWindow (runFrom h g actions) 1 =
      [⟨1, 0, first, 4, sampleCiphertext 1 4 1⟩, ⟨1, 1, second, 2, sampleCiphertext 2 2 1⟩] := by
    decide +kernel
  have hresponse : handler sep23 tagBox ⟨none, some operatorSecretHex⟩
      (snapshotRpc (runFrom h g actions)) 10 ⟨"POST", some 1⟩ =
        ⟨200, .revealed 1 (toString auction.whitelistRoot.toNat) [] bids⟩ :=
    handler_snapshot ha rfl (le_refl 10) hserved (List.cons_ne_nil _ _) loadBoxSecret_sample
      (.cons (revealBid_sample 0 4 1 _ 1 (by norm_num))
        (.cons (revealBid_sample 1 2 1 _ 2 (by norm_num)) .nil)) rfl
  have hfetch := fetch_snapshot h sep23 g actions ⟨1, "1"⟩ (parse_toString 1) (by decide +kernel)
  have hkept : ((runFrom h g actions).events.filter fun e => decide (1 ≤ e.1)).filterMap (bidRecord 1) =
      [⟨1, 0, first, 4, sampleCiphertext 1 4 1⟩, ⟨1, 1, second, 2, sampleCiphertext 2 2 1⟩] := by
    decide +kernel
  rw [hkept] at hfetch
  have hsplit : splitAddresses addresses = [sep23.encode first, sep23.encode second] := by
    decide +kernel
  have hm : ValidMembers sep23 (splitAddresses addresses) := by
    rw [hsplit]
    exact ⟨by simp, by decide, by decide +kernel⟩
  have hok : (prepareSettle sep23 (poseidonHasher firstInput) ⟨1, leaf.toNat⟩ bids
      [sep23.encode first, sep23.encode second]).isOk = true := by decide +kernel
  obtain ⟨hiff, hsame⟩ := operator_paths_agree h sep23 tagBox (poseidonHasher firstInput) g actions 1
    auction ha _ operatorSecretHex hload _ (snapshotRpc_shows _) 10 _ _ [] bids hresponse rfl _
    (snapshotServer_shows _) ⟨1, "1"⟩ (parse_toString 1) _ hfetch rfl addresses hm leaf.toNat
  rw [hsplit] at hiff hsame
  cases hpage : prepareSettle sep23 (poseidonHasher firstInput) ⟨1, leaf.toNat⟩ bids
      [sep23.encode first, sep23.encode second] with
  | error e =>
    rw [hpage] at hok
    exact absurd hok Bool.false_ne_true
  | ok out =>
    obtain ⟨⟨⟨written, settleMeta⟩, hscripts⟩, -⟩ := hiff.mp ⟨out, hpage⟩
    obtain ⟨-, -, -, htexts⟩ := hsame out.1 out.2 written settleMeta hpage hscripts
    refine ⟨bids, _, _, out.1, out.2, written, settleMeta, hresponse, hfetch, ?_, hscripts, htexts⟩
    rw [hsplit]
    exact hpage

end SealedStellar
