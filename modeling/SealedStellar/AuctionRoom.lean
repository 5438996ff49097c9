import SealedStellar.SettlementInfo
import SealedStellar.BidDialog
import SealedStellar.ClosedAuctions

/-! AuctionRoomRoute.tsx: which slot the room shows as the winner's. -/
namespace SealedStellar.Web
open Checked Indexer

section Room

structure SettleResult where
  winnerIndex : ℕ
  winningPrice : ℤ
  winnerAddress : String
  txHash : String

variable (localSettlement : Option SettleResult) (settlementInfo : Option SettlementInfo)

/-- The event does not name a slot, so the room looks for the address. -/
def roomWinnerIndex (bids : List BidView) : Option ℕ :=
  match localSettlement with
  | some result => some result.winnerIndex
  | none => settlementInfo.bind fun info =>
      bids.findIdx? fun bid => decide (Native.text bid.bidder = info.winner)

def roomClearingPrice : Option Native :=
  (localSettlement.map fun result => .bigint result.winningPrice).or
    (settlementInfo.map SettlementInfo.winningPrice)

def roomWinnerAddress : Option Native :=
  (localSettlement.map fun result => .text result.winnerAddress).or
    (settlementInfo.map SettlementInfo.winner)

end Room

variable {W : Type} {h : Host W} {strKey : StrKey} {g : Genesis W} {before after : List (Action W)}
  {k i : ℕ} {price : ℤ} {winner : Address} {proof : VerifierProof} {signers : List Address}
  {s' : State W}

/-- What a settlement leaves in the contract, whatever comes later. -/
theorem settled_kept (he : exec h signers (.settle k i price winner proof) (runFrom h g before) =
      .ok s') (after : List (Action W)) :
    let s := runFrom h g (before ++ .call signers (.settle k i price winner proof) :: after)
    ∃ auction, s.auctions k = some auction ∧ auction.bids[i]?.map Bid.bidder = some winner ∧
      ∃ ledger, (ledger, .AuctionSettled k winner price) ∈ s.events := by
  intro s
  have hafter : runFrom h g (before ++ [.call signers (.settle k i price winner proof)]) = s' := by
    rw [runFrom_append, Runs.run_cons, Runs.run_nil, step_call_ok he]
  have hlater : s = runFrom h g
      ((before ++ [.call signers (.settle k i price winner proof)]) ++ after) := by
    rw [List.append_assoc, List.singleton_append]
  obtain ⟨auction, bid, -, -, hbid, hwinner, -, hp⟩ := settle_progress he
  have hnew : (runFrom h g (before ++ [.call signers (.settle k i price winner proof)])).auctions k =
      some (closed auction .Settled) := by
    rw [hafter]
    exact hp.auction_at
  obtain ⟨current, hsome, hlead⟩ := (followed_run g _ after hnew).record
  have hgrow := run_events_grow (h := h) g
    (before ++ [.call signers (.settle k i price winner proof)]) after
  obtain ⟨rest, hrest⟩ := hlead.bids
  refine ⟨current, by rw [hlater, hsome], ?_, ?_⟩
  · have hold : (closed auction .Settled).bids[i]? = some bid := hbid
    rw [← hrest, List.getElem?_append_left (List.getElem?_eq_some_iff.mp hold).1, hold,
      Option.map_some, hwinner]
  · obtain ⟨_, _, _, _, _, _, _, _, _, _, _, _, _, s₁, _, hs⟩ :=
      (settle_eq_ok h k i price winner proof _ _).mp he
    refine ⟨s₁.sequence, ?_⟩
    rw [hlater]
    refine hgrow.subset ?_
    rw [hafter, ← hs, State.publish]
    exact List.mem_append_right _ (List.mem_singleton.mpr rfl)

theorem findIdx_bidder (hinj : Function.Injective strKey.encode) {bids : List Bid} {slot : ℕ} :
    (bids.map fun b => (⟨strKey.encode b.bidder, b.commitment.toNat⟩ : BidView)).findIdx?
      (fun bid => decide (Native.text bid.bidder = .text (strKey.encode winner))) = some slot ↔
        bids[slot]?.map Bid.bidder = some winner ∧
          ∀ j < slot, bids[j]?.map Bid.bidder ≠ some winner := by
  have hsame : ∀ {j : ℕ} (hj : j < bids.length),
      Native.text (strKey.encode bids[j].bidder) = .text (strKey.encode winner) ↔
        bids[j]?.map Bid.bidder = some winner := by
    intro j hj
    rw [List.getElem?_eq_getElem hj, Option.map_some, Option.some.injEq, Native.text.injEq,
      hinj.eq_iff]
  rw [List.findIdx?_eq_some_iff_getElem]
  simp only [List.length_map, List.getElem_map, decide_eq_true_eq]
  constructor
  · rintro ⟨hlt, hslot, hearlier⟩
    exact ⟨(hsame hlt).mp hslot, fun j hj hbid => hearlier j hj ((hsame (by omega)).mpr hbid)⟩
  · rintro ⟨hslot, hearlier⟩
    have hlt : slot < bids.length := by
      by_contra hge
      rw [List.getElem?_eq_none (by omega)] at hslot
      cases hslot
    exact ⟨hlt, (hsame hlt).mpr hslot, fun j hj hbid => hearlier j hj ((hsame (by omega)).mp hbid)⟩

/-- After a settlement, what getSettlementInfo ever finds of it makes the room show its price and the
address of its winner, on a slot that this address bid in; and it is the slot that won exactly when
the winner bid in no slot before it. -/
theorem room_shows_winner {W : Type} (h : Host W) (strKey : StrKey)
    (hinj : Function.Injective strKey.encode) (txHash : ℕ × Event → Option String) (g : Genesis W)
    (before : List (Action W)) (signers : List Address) (k i : ℕ) (price : ℤ) (winner : Address)
    (proof : VerifierProof) (s' : State W)
    (he : exec h signers (.settle k i price winner proof) (runFrom h g before) = .ok s')
    (after : List (Action W)) :
    let s := runFrom h g (before ++ .call signers (.settle k i price winner proof) :: after)
    ∃ auction, s.auctions k = some auction ∧
      (∀ steps, (∀ a ∈ steps, SessionStep.Serves strKey txHash s a) →
        ∀ lookup ∈ (sessionAfter steps).lookups, lookup.auctionId = k → ∀ info,
          lookup.answer = some (.ok (some info)) → SettledAs strKey txHash s k info) ∧
      ∀ info, SettledAs strKey txHash s k info →
      ∀ (chainView : ChainView) cache fetched, chainView.Answers strKey s →
        (getAuction chainView cache k).1 = .ok fetched →
      roomClearingPrice none (some info) = some (.bigint price) ∧
      roomWinnerAddress none (some info) = some (.text (strKey.encode winner)) ∧
      (∃ slot ≤ i, roomWinnerIndex none (some info) fetched.bids = some slot ∧
        fetched.bids[slot]?.map BidView.bidder = some (strKey.encode winner)) ∧
      (roomWinnerIndex none (some info) fetched.bids = some i ↔
        ∀ j < i, auction.bids[j]?.map Bid.bidder ≠ some winner) := by
  intro s
  obtain ⟨auction, ha, hslot, ledger, hevent⟩ := settled_kept he after
  refine ⟨auction, ha, ?_, fun info hinfo chainView cache fetched hview hfetch => ?_⟩
  · rintro steps hsteps lookup hlookup rfl info hanswer
    exact lookup_settledAs hsteps hlookup hanswer
  have htold : SettledAs strKey txHash s k (settlementInfo strKey txHash ledger k winner price) :=
    ⟨ledger, winner, price, hevent, rfl⟩
  have hunique := SettledAs.unique (run_recounted g _) hinfo htold
  subst hunique
  have hbids := getAuction_bids hview ha hfetch
  have hfind : ∀ slot, roomWinnerIndex none (some (settlementInfo strKey txHash ledger k winner price))
      fetched.bids = some slot ↔ auction.bids[slot]?.map Bid.bidder = some winner ∧
        ∀ j < slot, auction.bids[j]?.map Bid.bidder ≠ some winner := by
    intro slot
    rw [hbids]
    exact findIdx_bidder hinj
  classical
  refine ⟨rfl, rfl, ?_, ?_⟩
  · have hexists : ∃ slot, auction.bids[slot]?.map Bid.bidder = some winner := ⟨i, hslot⟩
    have hfirst := Nat.find_spec hexists
    refine ⟨Nat.find hexists, Nat.find_min' hexists hslot,
      (hfind _).mpr ⟨hfirst, fun j hj => Nat.find_min hexists hj⟩, ?_⟩
    rw [hbids, List.getElem?_map, Option.map_map]
    obtain ⟨bid, hbid, hwinner⟩ := Option.map_eq_some_iff.mp hfirst
    rw [hbid, Option.map_some, Function.comp_apply, hwinner]
  · rw [hfind]
    exact and_iff_right hslot

/-- One account bids in the first two slots and wins with the second; the room shows the first. -/
theorem room_shows_winner_at :
    let bidder : Address := .account (keyOf 3)
    let before : List (Action SacState) := sampleActions ++
      [.call [bidder] (.placeBid 1 bidder 4 []), .call [bidder] (.placeBid 1 bidder 2 []),
        .closeLedger 10 2]
    let proof : VerifierProof := ⟨Vector.replicate 64 0, Vector.replicate 128 0, Vector.replicate 64 0⟩
    let s := runFrom sampleHost sampleGenesis (before ++ [.call [] (.settle 1 1 2 bidder proof)])
    ∃ rpc info fetched, (sessionAfter [.call 1 rpc, .answered 0]).lookups.map Lookup.answer =
        [some (.ok (some info))] ∧
      (getAuction (stateView sep23 s fun _ => .result (some "RWA")) (fun _ => none) 1).1 =
        .ok fetched ∧
      roomClearingPrice none (some info) = some (.bigint 2) ∧
      roomWinnerIndex none (some info) fetched.bids ≠ some 1 := by
  intro bidder before proof s
  have he := exec_of_isOk (h := sampleHost) (s := runFrom sampleHost sampleGenesis before)
    (show (exec sampleHost [] (.settle 1 1 2 bidder proof) _).isOk = true by decide +kernel)
  obtain ⟨auction, ha, hlooked, hshown⟩ :=
    room_shows_winner sampleHost sep23 sep23_injective (fun _ => none)
    sampleGenesis before [] 1 1 2 bidder proof _ he []
  obtain ⟨-, -, -, ledger, hevent⟩ := settled_kept he []
  have hstored : auction.bids[0]?.map Bid.bidder = some bidder := by
    have hrecord : (s.auctions 1).bind (fun a => a.bids[0]?.map Bid.bidder) = some bidder := by
      decide +kernel
    rwa [ha] at hrecord
  have hview : (stateView sep23 s fun _ => .result (some "RWA")).Answers sep23 s :=
    stateView_answers fun _ _ => nofun
  have hread : Readable (stateView sep23 s fun _ => .result (some "RWA")) (fun _ => none) sep23
      auction := ⟨.inr ⟨"RWA", rfl⟩, .inr ⟨"RWA", rfl⟩⟩
  obtain ⟨fetched, hfetched, -⟩ := fetched_readable hview ha hread
  have hfetch := (getAuction_spec 1).1.trans hfetched
  let record := settledRecord sep23 (fun _ => none) (ledger, .AuctionSettled 1 bidder 2)
  let rpc : SettlementRpc := ⟨.ok 2, fun _ k _ => .ok ⟨if k = 1 then [record] else [], none⟩⟩
  have hrpc : ∀ a ∈ [SessionStep.call 1 rpc, .answered 0],
      SessionStep.Serves sep23 (fun _ => none) s a := by
    refine List.forall_mem_cons.mpr ⟨?_, List.forall_mem_singleton.mpr trivial⟩
    intro pageIndex k request response hresponse
    cases hresponse
    dsimp only
    split
    case isTrue hone =>
      subst hone
      exact List.forall_mem_singleton.mpr ⟨ledger, bidder, 2, hevent, rfl⟩
    case isFalse => exact List.forall_mem_nil _
  have hinfo := hlooked _ hrpc _ List.mem_cons_self rfl _ rfl
  obtain ⟨hprice, -, -, hiff⟩ := hshown _ hinfo _ _ fetched hview hfetch
  exact ⟨rpc, _, fetched, rfl, hfetch, hprice,
    fun hsecond => hiff.mp hsecond 0 (by norm_num) hstored⟩

end SealedStellar.Web
