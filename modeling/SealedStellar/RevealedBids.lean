import SealedStellar.RevealCompleteness
import SealedStellar.ProverCompleteness

/-! A reveal response as what the page hands to its prover. -/
namespace SealedStellar
open Checked BigIntText
variable {W : Type} {h : Host W} {strKey : StrKey} {nacl : Nacl} {env : Environment} {rpc : Rpc}

theorem parse_natToString (n : ℕ) : parse (toString n) = some (n : ℤ) := parse_toString (n : ℤ)

section Run
variable {g : Genesis W} {actions : List (Action W)} {k : ℕ} {auction : Auction}

theorem bidLog_mem_stored (ha : (runFrom h g actions).auctions k = some auction) {r : BidRecord}
    (hr : r ∈ bidLog (runFrom h g actions) k) : r.stored ∈ auction.bids.zipIdx := by
  have hlog := bidLog_stored (h := h) g actions k
  rw [storedBids_some ha] at hlog
  rw [← hlog]
  exact List.mem_map_of_mem hr

theorem revealBid_repeats (ha : (runFrom h g actions).auctions k = some auction) {r : BidRecord}
    (hr : r ∈ bidLog (runFrom h g actions) k) {boxSecret : List UInt8} {b : RevealedBid}
    (hb : revealBid nacl boxSecret (bidEventOf strKey r) = .ok b) : Repeats strKey auction b := by
  obtain ⟨price, salt, hopen, rfl⟩ := revealBid_eq_ok.mp hb
  obtain ⟨hprice, hsalt⟩ := decryptBid_bounds nacl hopen
  have hstored := List.mk_mem_zipIdx_iff_getElem?.mp (bidLog_mem_stored ha hr)
  exact ⟨r.slotIndex, _, price, salt, hstored, rfl, rfl, parse_natToString _, parse_natToString _,
    hprice, parse_natToString _, hsalt⟩

theorem handler_repeats (ha : (runFrom h g actions).auctions k = some auction)
    (hrpc : rpc.Shows (runFrom h g actions)) {now : ℕ} {req : RevealRequest} {root : String}
    {members : List String} {bids : List RevealedBid}
    (hresponse : handler strKey nacl env rpc now req = ⟨200, .revealed k root members bids⟩) :
    ∀ b ∈ bids, Repeats strKey auction b := by
  obtain ⟨-, -, boxSecret, _, events, -, -, -, -, hevents, -, hbids, -, -⟩ :=
    handler_revealed_iff.mp hresponse
  obtain ⟨_, _, served, -, -, -, hsub, rfl⟩ := (fetchBidEvents_shows hrpc).mp hevents
  intro b hb
  obtain ⟨e, he, hopened⟩ := source_of_mem hbids hb
  obtain ⟨r, hr, rfl⟩ := List.mem_map.mp he
  exact revealBid_repeats ha (hsub.subset hr) hopened

theorem ListsStored.complete {bids : List RevealedBid} (hlists : ListsStored strKey auction bids)
    {i : ℕ} (hi : i < auction.bids.length) : ∃ b ∈ bids, b.slotIndex = i := by
  have hslot : (auction.bids[i], i) ∈ auction.bids.zipIdx :=
    List.mk_mem_zipIdx_iff_getElem?.mpr (List.getElem?_eq_getElem hi)
  have hentry : ((i : ℤ), strKey.encode auction.bids[i].bidder,
      toString auction.bids[i].commitment.toNat) ∈
        bids.map (fun b => (b.slotIndex, b.bidder, b.commitment)) := by
    rw [hlists]
    exact List.mem_map_of_mem hslot
  obtain ⟨b, hb, he⟩ := List.mem_map.mp hentry
  exact ⟨b, hb, congrArg Prod.fst he⟩

theorem bidLog_slot_inj (g : Genesis W) (actions : List (Action W)) (k : ℕ) {r r' : BidRecord}
    (hr : r ∈ bidLog (runFrom h g actions) k) (hr' : r' ∈ bidLog (runFrom h g actions) k)
    (he : r.slotIndex = r'.slotIndex) : r = r' := by
  have hnodup : ((bidLog (runFrom h g actions) k).map BidRecord.slotIndex).Nodup := by
    rw [List.nodup_iff_pairwise_ne, List.pairwise_map]
    exact (bidLog_slots g actions k).imp fun hlt => hlt.ne
  exact List.inj_on_of_nodup_map hnodup hr hr' he

theorem coincides_iff_listsStored (ha : (runFrom h g actions).auctions k = some auction)
    (hrpc : rpc.Shows (runFrom h g actions)) {now : ℕ} {req : RevealRequest} {root : String}
    {members : List String} {bids : List RevealedBid}
    (hresponse : handler strKey nacl env rpc now req = ⟨200, .revealed k root members bids⟩) :
    Coincides strKey auction bids ↔ ListsStored strKey auction bids := by
  constructor
  · intro hbids
    obtain ⟨-, -, boxSecret, _, events, -, -, -, -, hevents, -, hrevealed, -, -⟩ :=
      handler_revealed_iff.mp hresponse
    obtain ⟨_, _, served, -, -, -, hsub, rfl⟩ := (fetchBidEvents_shows hrpc).mp hevents
    apply (listsStored_iff ha hsub hrevealed).mpr
    apply served_all hsub
    intro r hr
    have hslot : r.stored ∈ auction.bids.zipIdx := bidLog_mem_stored ha hr
    obtain ⟨hlt, -⟩ := List.getElem?_eq_some_iff.mp (List.mk_mem_zipIdx_iff_getElem?.mp hslot)
    obtain ⟨b, hb, hindex⟩ := hbids.complete r.slotIndex hlt
    obtain ⟨e, he, hopened⟩ := source_of_mem hrevealed hb
    obtain ⟨r', hr', rfl⟩ := List.mem_map.mp he
    obtain ⟨_, _, -, rfl⟩ := revealBid_eq_ok.mp hopened
    have hsame : r'.slotIndex = r.slotIndex := Int.ofNat_inj.mp hindex
    rw [← bidLog_slot_inj g actions k (hsub.subset hr') hr hsame]
    exact hr'
  · intro hlists
    exact ⟨handler_repeats ha hrpc hresponse, fun i hi => hlists.complete hi⟩

end Run
end SealedStellar
