import SealedStellar.SubmissionRuns
import SealedStellar.AuctionProbes
import SealedStellar.RevealedBids
import SealedStellar.SealedBidCodecs

/-! PlaceBidDialog.tsx: from the amount that is typed to the slot that is confirmed. -/
namespace SealedStellar.Web
open Checked Indexer

section Amounts

/-- A whole number above zero, with white space around it and commas in it; the two messages are of
the form that asks. -/
def parsePositive (notWhole notPositive : String) (amountText : String) : Except String ℤ := do
  let trimmedText := (BigIntText.trim amountText.toList).filter fun c => decide (c ≠ ',')
  ensure (trimmedText ≠ [] ∧ trimmedText.all Char.isDigit) notWhole
  let parsedValue ← toBigInt (.ofList trimmedText)
  ensure (0 < parsedValue) notPositive
  return parsedValue

def parseAmount (amountText : String) : Except String ℤ :=
  parsePositive "Enter a whole number of token units" "Your bid must be above zero" amountText

def grouped : List Char → List Char
  | a :: b :: c :: d :: rest => a :: b :: c :: ',' :: grouped (d :: rest)
  | short => short

/-- Intl.NumberFormat of en-US on a bigint. -/
def formatTokenAmount (rawAmount : ℤ) : String :=
  (if rawAmount < 0 then "-" else "") ++
    .ofList (grouped rawAmount.natAbs.repr.toList.reverse).reverse

theorem grouped_filter {cs : List Char} (hcs : ∀ c ∈ cs, c.isDigit) :
    (grouped cs).filter (fun c => decide (c ≠ ',')) = cs := by
  have hdigit : ∀ {c : Char}, c.isDigit → c ≠ ',' := by
    intro c hc he
    subst he
    exact absurd hc (by decide)
  induction cs using grouped.induct with
  | case1 a b c d rest ih =>
    have hrest : ∀ x ∈ d :: rest, x.isDigit := fun x hx => hcs x (by simp_all)
    rw [grouped, List.filter_cons_of_pos (by simpa using hdigit (hcs a (by simp))),
      List.filter_cons_of_pos (by simpa using hdigit (hcs b (by simp))),
      List.filter_cons_of_pos (by simpa using hdigit (hcs c (by simp))),
      List.filter_cons_of_neg (by simp), ih hrest]
  | case2 short hshort =>
    rw [grouped.eq_2 short hshort]
    exact List.filter_eq_self.mpr fun c hc => by simpa using hdigit (hcs c hc)

theorem grouped_space {cs : List Char} (hcs : ∀ c ∈ cs, c.isDigit) :
    ∀ c ∈ grouped cs, BigIntText.isWhiteSpace c = false := by
  induction cs using grouped.induct with
  | case1 a b c d rest ih =>
    intro x hx
    simp only [grouped, List.mem_cons] at hx
    obtain rfl | rfl | rfl | rfl | hx := hx
    · exact BigIntText.not_isWhiteSpace (.inl (hcs x (by simp)))
    · exact BigIntText.not_isWhiteSpace (.inl (hcs x (by simp)))
    · exact BigIntText.not_isWhiteSpace (.inl (hcs x (by simp)))
    · decide
    · exact ih (fun y hy => hcs y (by simp_all)) x hx
  | case2 short hshort =>
    rw [grouped.eq_2 short hshort]
    exact fun c hc => BigIntText.not_isWhiteSpace (.inl (hcs c hc))

theorem parsePositive_format (notWhole notPositive : String) {n : ℤ} (hn : 0 < n) :
    parsePositive notWhole notPositive (formatTokenAmount n) = .ok n := by
  have hdigits : ∀ c ∈ n.natAbs.repr.toList.reverse, c.isDigit :=
    fun c hc => BigIntText.repr_digits _ c (List.mem_reverse.mp hc)
  have htext : (formatTokenAmount n).toList = (grouped n.natAbs.repr.toList.reverse).reverse := by
    rw [formatTokenAmount, if_neg (by omega)]
    simp
  have hspace : ∀ c ∈ (grouped n.natAbs.repr.toList.reverse).reverse,
      BigIntText.isWhiteSpace c = false :=
    fun c hc => grouped_space hdigits c (List.mem_reverse.mp hc)
  have hplain : (BigIntText.trim (formatTokenAmount n).toList).filter (fun c => decide (c ≠ ',')) =
      n.natAbs.repr.toList := by
    rw [htext, BigIntText.trim_eq_self hspace, List.filter_reverse, grouped_filter hdigits,
      List.reverse_reverse]
  have hvalue : BigIntText.parse (.ofList n.natAbs.repr.toList) = some n := by
    have htoString : String.ofList n.natAbs.repr.toList = toString n := by
      obtain ⟨m, rfl⟩ := Int.eq_ofNat_of_zero_le hn.le
      rw [String.ofList_toList]
      rfl
    rw [htoString, BigIntText.parse_toString]
  simp only [parsePositive, hplain, bind_eq_ok, ensure_eq_ok, toBigInt_eq_ok, pure_eq_ok]
  exact ⟨(), ⟨BigIntText.repr_ne_nil _, List.all_eq_true.mpr (BigIntText.repr_digits _)⟩, n, hvalue, (),
    hn, rfl⟩

end Amounts

section Dialog

inductive WalletState where
  | disconnected
  | missing
  | connecting
  | connected (address : String)
  deriving DecidableEq

inductive DialogStage where
  | amount (validationMessage : Option String)
  | sealing (completedSteps : ℕ)
  | sealed (slotNumber : Option ℕ) (commitment : ℤ) (txHash : String)
  | failed (failure : BidFailure)
  deriving DecidableEq

structure PlaceBidArgs where
  auctionId : ℕ
  bidderAddress : String
  commitment : ℤ
  encryptedBid : List UInt8
  deriving DecidableEq

def depositText (auction : AuctionView) : String :=
  formatTokenAmount auction.maxPrice ++ " " ++ auction.paymentSymbol

/-- runSealAndPlace up to submitPlaceBid: the stage it stops in, none where it returns at once. The
library of the hash may fail to load. -/
def sealForAuction (nacl : Nacl) (poseidon : Except String (List ℤ → ℤ)) (r : SealRandomness)
    (wallet : WalletState) (amountText : String) (auction : AuctionView) :
    Except (Option DialogStage) PlaceBidArgs :=
  match wallet with
  | .connected bidderAddress =>
    match parseAmount amountText with
    | .error message => .error (some (.amount (some message)))
    | .ok parsedAmount =>
      if auction.maxPrice < parsedAmount then
        .error (some (.amount (some ("Above the max price of " ++ depositText auction))))
      else
        match poseidon with
        | .error detail => .error (some (.failed (.sealing_failed detail)))
        | .ok hash =>
          let sealed := sealBid nacl hash r parsedAmount.toNat auction.id auction.operatorEncPubkey
          .ok ⟨auction.id, bidderAddress, sealed.commitment, sealed.encryptedBid⟩
  | _ => .error none

/-- nativeToScVal throws on what is no account or no u256. -/
def PlaceBidArgs.submission (strKey : StrKey) (args : PlaceBidArgs) : Option Submission := do
  let bidder ← strKey.decodeEd25519PublicKey args.bidderAddress
  if 0 ≤ args.commitment ∧ args.commitment < 2 ^ 256 then
    some (.placeBid args.auctionId (.account bidder) (.ofInt 256 args.commitment) args.encryptedBid)
  else none

def confirmedStage (args : PlaceBidArgs) (submitted : Except InvocationFailure String)
    (refreshed : Except ChainError AuctionView) : DialogStage :=
  match submitted with
  | .error failure => .failed (mapInvocationToBidFailure failure)
  | .ok txHash =>
    let slotIndex :=
      match refreshed with
      | .ok auction => auction.bids.findIdx? fun placedBid : BidView =>
          decide ((placedBid.commitment : ℤ) = args.commitment)
      | .error _ => none
    .sealed (slotIndex.map (· + 1)) args.commitment txHash

end Dialog

section Placed
variable {W : Type} {h : Host W} {strKey : StrKey} {nacl : Nacl} {poseidon : Poseidon}
  {r : SealRandomness} {address amountText : String} {view : AuctionView} {args : PlaceBidArgs}
  {g : Genesis W} {k : ℕ}

theorem sealForAuction_eq_ok {hash : List ℤ → ℤ} {wallet : WalletState} :
    sealForAuction nacl (.ok hash) r wallet amountText view = .ok args ↔
      ∃ bidderAddress amount, wallet = .connected bidderAddress ∧ parseAmount amountText = .ok amount ∧
        amount ≤ view.maxPrice ∧
        args = ⟨view.id, bidderAddress,
          (sealBid nacl hash r amount.toNat view.id view.operatorEncPubkey).commitment,
          (sealBid nacl hash r amount.toNat view.id view.operatorEncPubkey).encryptedBid⟩ := by
  rw [sealForAuction.eq_def]
  cases wallet with
  | connected bidderAddress =>
    dsimp only
    cases hparse : parseAmount amountText with
    | error message => simp
    | ok amount =>
      dsimp only
      split_ifs with habove
      · simp only [WalletState.connected.injEq, Except.ok.injEq, false_iff]
        rintro ⟨-, _, -, rfl, hle, -⟩
        omega
      · constructor
        · intro hargs
          cases hargs
          exact ⟨bidderAddress, amount, rfl, rfl, not_lt.mp habove, rfl⟩
        · rintro ⟨_, _, hwallet, hamount, -, rfl⟩
          cases hwallet
          cases hamount
          rfl
  | _ => simp

theorem parseAmount_pos {amount : ℤ} (hparse : parseAmount amountText = .ok amount) : 0 < amount := by
  simp only [parseAmount, parsePositive, bind_eq_ok, ensure_eq_ok, pure_eq_ok] at hparse
  obtain ⟨-, -, _, -, -, hpos, rfl⟩ := hparse
  exact hpos

/-- The first entry with the commitment is the slot of the bid, since no other bid has it. -/
theorem findIdx_slot {bids : List Bid} {slot : ℕ} {bid : Bid}
    (hnodup : (bids.map Bid.commitment).Nodup) (hslot : bids[slot]? = some bid) :
    (bids.map fun b => (⟨strKey.encode b.bidder, b.commitment.toNat⟩ : BidView)).findIdx?
      (fun placedBid => decide ((placedBid.commitment : ℤ) = (bid.commitment.toNat : ℤ))) =
        some slot := by
  rw [List.findIdx?_eq_some_iff_getElem]
  obtain ⟨hlt, hget⟩ := List.getElem?_eq_some_iff.mp hslot
  refine ⟨by simpa using hlt, by simp [hget], fun j hj => ?_⟩
  have hjlt : j < bids.length := by omega
  intro hsame
  have hcommit : bids[j].commitment = bids[slot].commitment := by
    simpa [hget, BitVec.toNat_inj] using hsame
  have hleft : j < (bids.map Bid.commitment).length := by simpa using hjlt
  have hright : slot < (bids.map Bid.commitment).length := by simpa using hlt
  have hmapped : (bids.map Bid.commitment)[j] = (bids.map Bid.commitment)[slot] := by
    simpa using hcommit
  have hindex := hnodup.getElem_inj_iff.mp hmapped
  omega

theorem submission_eq_some {submission : Submission} :
    args.submission strKey = some submission ↔ ∃ key,
      strKey.decodeEd25519PublicKey args.bidderAddress = some key ∧
      (0 ≤ args.commitment ∧ args.commitment < 2 ^ 256) ∧
      submission = .placeBid args.auctionId (.account key) (.ofInt 256 args.commitment)
        args.encryptedBid := by
  rw [PlaceBidArgs.submission]
  cases strKey.decodeEd25519PublicKey args.bidderAddress with
  | none => simp
  | some key =>
    by_cases hrange : 0 ≤ args.commitment ∧ args.commitment < 2 ^ 256
    · simp [hrange, eq_comm]
    · simp only [Option.bind_eq_bind, Option.bind_some, hrange, if_false, false_and, and_false,
        exists_false, reduceCtorEq]

theorem commitment_word {commitment : ℤ} (hrange : 0 ≤ commitment ∧ commitment < 2 ^ 256) :
    ((BitVec.ofInt 256 commitment).toNat : ℤ) = commitment := by
  rw [BitVec.toNat_ofInt, Int.toNat_of_nonneg (Int.emod_nonneg _ (by norm_num))]
  exact Int.emod_eq_of_lt hrange.1 (by exact_mod_cast hrange.2)

theorem getAuction_bids {s : State W} {chainView : ChainView} {cache : String → Option String}
    {auction : Auction} {fetched : AuctionView} (hview : chainView.Answers strKey s)
    (ha : s.auctions k = some auction) (hfetch : (getAuction chainView cache k).1 = .ok fetched) :
    fetched.bids = auction.bids.map fun b => ⟨strKey.encode b.bidder, b.commitment.toNat⟩ := by
  rw [(getAuction_spec k).1] at hfetch
  simp only [fetchedAuction, readRecord_found hview ha, bind_eq_ok, Except.ok.injEq, pure_eq_ok,
    exists_eq_left'] at hfetch
  obtain ⟨lotSymbol, -, paymentSymbol, -, rfl⟩ := hfetch
  rfl

/-- What a bid that was taken leaves in the contract, whatever comes later. -/
theorem placed_kept {bidder : Address} {commitment : U256} {encryptedBid : List UInt8}
    {earlier : List (Action W)} {after : State W}
    (he : exec h [bidder] (.placeBid k bidder commitment encryptedBid) (runFrom h g earlier) =
      .ok after) :
    ∃ slot, ∀ later, let s := runFrom h g (earlier ++ .call [bidder]
        (.placeBid k bidder commitment encryptedBid) :: later)
      (∃ auction, s.auctions k = some auction ∧ auction.bids[slot]? = some ⟨bidder, commitment⟩) ∧
      ⟨(runFrom h g earlier).sequence, slot, bidder, commitment, encryptedBid⟩ ∈ bidLog s k := by
  obtain ⟨auction, ha, hp⟩ := placeBid_progress he
  refine ⟨auction.bids.length, fun later => ?_⟩
  have hafter : runFrom h g (earlier ++ [.call [bidder]
      (.placeBid k bidder commitment encryptedBid)]) = after := by
    rw [runFrom_append, Runs.run_cons, Runs.run_nil, step_call_ok he]
  have hnew : (runFrom h g (earlier ++ [.call [bidder]
      (.placeBid k bidder commitment encryptedBid)])).auctions k =
        some (addBid auction ⟨bidder, commitment⟩) := by
    rw [hafter]
    exact hp.auction_at
  have hlater : earlier ++ .call [bidder] (.placeBid k bidder commitment encryptedBid) :: later =
      (earlier ++ [.call [bidder] (.placeBid k bidder commitment encryptedBid)]) ++ later := by
    rw [List.append_assoc, List.singleton_append]
  intro s
  constructor
  · obtain ⟨current, hsome, hlead⟩ := (followed_run g _ later hnew).record
    obtain ⟨rest, hrest⟩ := hlead.bids
    refine ⟨current, by simp only [s, hlater, hsome], ?_⟩
    rw [← hrest, addBid]
    simp
  · have hgrow := run_events_grow (h := h) g (earlier ++ [.call [bidder]
      (.placeBid k bidder commitment encryptedBid)]) later
    have hlog := placeBid_bidLog ha he k
    simp only [s, hlater]
    refine (hgrow.filterMap (bidRecord k)).subset ?_
    change _ ∈ bidLog (runFrom h g (earlier ++ [_])) k
    rw [hafter, hlog]
    simp

/-- The dialog's promise in state s: the slot holds the bid, a record read from s gives the slot's
number, and what the endpoint reveals for the slot with the operator's secret is the amount. -/
structure BidStands (strKey : StrKey) (nacl : Nacl) (operatorKey : List UInt8) (s : State W)
    (args : PlaceBidArgs) (bidder : Address) (slot amount : ℕ) (txHash : String) : Prop where
  stored : ∃ auction, s.auctions args.auctionId = some auction ∧
    auction.bids[slot]? = some ⟨bidder, .ofInt 256 args.commitment⟩
  confirmed : ∀ (chainView : ChainView) cache fetched, chainView.Answers strKey s →
    (getAuction chainView cache args.auctionId).1 = .ok fetched →
      confirmedStage args (.ok txHash) (.ok fetched) =
        .sealed (some (slot + 1)) args.commitment txHash
  revealed : ∀ env secretKey (rpc : Rpc) now req root members bids,
    loadBoxSecret env = .ok secretKey → operatorKey = nacl.publicKey secretKey →
    rpc.Shows s → handler strKey nacl env rpc now req =
      ⟨200, .revealed args.auctionId root members bids⟩ → ∀ b ∈ bids, b.slotIndex = (slot : ℤ) →
        b.bidder = strKey.encode bidder ∧ b.commitment = toString args.commitment ∧
          b.price = toString amount

theorem confirmed_slot {s : State W} (hv : s.Valid) {bidder : Address} {slot : ℕ} {txHash : String}
    {auction : Auction} (ha : s.auctions args.auctionId = some auction)
    (hslot : auction.bids[slot]? = some ⟨bidder, .ofInt 256 args.commitment⟩)
    (hrange : 0 ≤ args.commitment ∧ args.commitment < 2 ^ 256) {chainView : ChainView}
    {cache : String → Option String} {fetched : AuctionView} (hview : chainView.Answers strKey s)
    (hfetch : (getAuction chainView cache args.auctionId).1 = .ok fetched) :
    confirmedStage args (.ok txHash) (.ok fetched) =
      .sealed (some (slot + 1)) args.commitment txHash := by
  have hfind := @findIdx_slot strKey _ _ _ (hv.stored _ _ ha).2.2.distinct hslot
  rw [commitment_word hrange] at hfind
  simp only [confirmedStage, getAuction_bids hview ha hfetch, hfind, Option.map_some]

theorem revealed_price {actions : List (Action W)} {record : BidRecord} {secretKey : List UInt8}
    {price salt : ℕ} (hrecord : record ∈ bidLog (runFrom h g actions) k)
    (hopen : decryptBid nacl record.encryptedBid secretKey = some (price, salt))
    {env : Environment} {rpc : Rpc} {now : ℕ} {req : RevealRequest} {root : String}
    {members : List String} {bids : List RevealedBid} (hload : loadBoxSecret env = .ok secretKey)
    (hrpc : rpc.Shows (runFrom h g actions)) (hresponse : handler strKey nacl env rpc now req =
      ⟨200, .revealed k root members bids⟩) {b : RevealedBid} (hb : b ∈ bids)
    (hslot : b.slotIndex = (record.slotIndex : ℤ)) :
    b.bidder = strKey.encode record.bidder ∧ b.commitment = toString record.commitment.toNat ∧
      b.price = toString price := by
  obtain ⟨-, -, boxSecret, _, events, hload', -, -, -, hevents, -, hbids, -, -⟩ :=
    handler_revealed_iff.mp hresponse
  cases hload.symm.trans hload'
  obtain ⟨_, _, served, -, -, -, hsub, rfl⟩ := (fetchBidEvents_shows hrpc).mp hevents
  obtain ⟨e, he, hopened⟩ := source_of_mem hbids hb
  obtain ⟨found, hfound, rfl⟩ := List.mem_map.mp he
  obtain ⟨price', salt', hopen', rfl⟩ := revealBid_eq_ok.mp hopened
  have hindex : found.slotIndex = record.slotIndex := Int.ofNat_inj.mp hslot
  have hsame := bidLog_slot_inj g actions k (hsub.subset hfound) hrecord hindex
  subst hsame
  have hopen'' : decryptBid nacl found.encryptedBid secretKey = some (price', salt') := hopen'
  rw [hopen] at hopen''
  cases hopen''
  exact ⟨rfl, rfl, rfl⟩

theorem sealForAuction_opens (hn : nacl.Lawful) (hr : r.WellFormed) {record : Auction}
    (hv : record.Valid) {hash : List ℤ → ℤ} {lotSymbol paymentSymbol : String}
    (hargs : sealForAuction nacl (.ok hash) r (.connected address) amountText
      (viewOf k (rawRecord strKey record) record.status lotSymbol paymentSymbol) = .ok args) :
    args.auctionId = k ∧ ∃ amount : ℕ, parseAmount amountText = .ok (amount : ℤ) ∧
      ∀ secretKey : List UInt8, secretKey.length = 32 →
        record.operatorEncPubkey.toList = nacl.publicKey secretKey →
          decryptBid nacl args.encryptedBid secretKey = some (amount, fromBeBytes r.salt) := by
  obtain ⟨_, price, -, hparse, hcap, rfl⟩ := sealForAuction_eq_ok.mp hargs
  obtain ⟨amount, rfl⟩ := Int.eq_ofNat_of_zero_le (parseAmount_pos hparse).le
  have hcapped : amount < 2 ^ 64 := by
    have hfits := hv.fits
    have hle : (amount : ℤ) ≤ record.maxPrice := hcap
    have hmax : (u64Max : ℤ) = 2 ^ 64 - 1 := by norm_num [u64Max]
    omega
  refine ⟨rfl, amount, hparse, fun secretKey hsecret hkey => ?_⟩
  have hopen := decryptBid_sealBid nacl hash hn r hr hcapped k hsecret
  rw [← hkey] at hopen
  exact hopen

theorem placed_stands {operatorKey : List UInt8} {amount salt : ℕ}
    (hopen : ∀ secretKey : List UInt8, secretKey.length = 32 →
      operatorKey = nacl.publicKey secretKey →
        decryptBid nacl args.encryptedBid secretKey = some (amount, salt))
    (hrange : 0 ≤ args.commitment ∧ args.commitment < 2 ^ 256) {bidder : Address}
    {earlier : List (Action W)} {after : State W}
    (he : exec h [bidder] (.placeBid args.auctionId bidder (.ofInt 256 args.commitment)
      args.encryptedBid) (runFrom h g earlier) = .ok after) (txHash : String) :
    ∃ slot, ∀ later, BidStands strKey nacl operatorKey (runFrom h g (earlier ++ .call [bidder]
      (.placeBid args.auctionId bidder (.ofInt 256 args.commitment) args.encryptedBid) :: later))
        args bidder slot amount txHash := by
  obtain ⟨slot, hslot⟩ := placed_kept he
  refine ⟨slot, fun later => ?_⟩
  obtain ⟨⟨auction, ha, hbid⟩, hlogged⟩ := hslot later
  exact {
    stored := ⟨auction, ha, hbid⟩
    confirmed := fun _ _ _ hview hfetch =>
      confirmed_slot (runFrom_valid g _) ha hbid hrange hview hfetch
    revealed := by
      intro env secretKey rpc now req root members bids hload hkey hrpc hresponse b hb hindex
      have hsecret := hopen secretKey (loadBoxSecret_length hload) hkey
      obtain ⟨hbidder, hcommitment, hprice⟩ :=
        revealed_price hlogged hsecret hload hrpc hresponse hb hindex
      refine ⟨hbidder, ?_, hprice⟩
      rw [hcommitment]
      exact congrArg (toString : ℤ → String) (commitment_word hrange) }

end Placed

/-- When the dialog confirms a bid, the bid stays in one slot of the contract whatever anyone does
later, the number shown is that slot's, and the price revealed for it is the amount typed. -/
theorem sealed_bid_stands {W : Type} (h : Host W) (strKey : StrKey) (nacl : Nacl) (hn : nacl.Lawful)
    (hash : List ℤ → ℤ) (r : SealRandomness) (hr : r.WellFormed) (g : Genesis W)
    (before : List (Action W)) (k : ℕ) (record : Auction)
    (hrecord : (runFrom h g before).auctions k = some record)
    (lotSymbol paymentSymbol address amountText : String)
    (args : PlaceBidArgs) (hargs : sealForAuction nacl (.ok hash) r (.connected address) amountText
      (viewOf k (rawRecord strKey record) record.status lotSymbol paymentSymbol) = .ok args)
    (submission : Submission) (hsubmission : args.submission strKey = some submission)
    (sequenceOf : Address → ℕ) (steps : List (NetworkStep W)) (attempt : Attempt W)
    (hattempt : attempt ∈
      (Runs.run (networkStep h) (startNetwork h g before sequenceOf) steps).attempts)
    (hsame : attempt.submission = submission) (txHash : String)
    (hreceipt : attempt.stage = .returned (.ok txHash)) :
    ∃ (slot amount : ℕ) (actions : List (Action W)), parseAmount amountText = .ok (amount : ℤ) ∧
      args.auctionId = k ∧
      (Runs.run (networkStep h) (startNetwork h g before sequenceOf) steps).chain =
        runFrom h g actions ∧
      ∀ later, BidStands strKey nacl record.operatorEncPubkey.toList
        (runFrom h g (actions ++ later)) args submission.sourceAddress slot amount txHash := by
  obtain ⟨hid, amount, hparse, hopen⟩ := sealForAuction_opens hn hr
    ((runFrom_valid (h := h) g before).stored k record hrecord).2.2 hargs
  obtain ⟨key, -, hrange, rfl⟩ := submission_eq_some.mp hsubmission
  have hkept : ∀ steps, (Runs.run (networkStep h) (startNetwork h g before sequenceOf) steps).Kept h :=
    fun steps => Runs.run_invariant' networkStep_kept (startNetwork_kept g before sequenceOf) steps
  obtain ⟨more, hran⟩ := network_ran (hkept []) (startNetwork_ran g before sequenceOf) steps
  obtain ⟨earlier, rest, after, hactions, he⟩ := receipt_called (hkept steps) hran hattempt hreceipt
  rw [hsame] at hactions he
  obtain ⟨slot, hslot⟩ := @placed_stands W h strKey nacl args g _ _ _ hopen hrange _ _ _ he
    txHash
  refine ⟨slot, amount, before ++ more, hparse, hid, hran.chain, fun later => ?_⟩
  have hstands := hslot (rest ++ later)
  rw [hactions, List.append_assoc, List.cons_append]
  exact hstands

section Sample

def dialogActions : List (Action SacState) :=
  [.call [.account (keyOf 2)] (.createAuction ⟨.account (keyOf 2), .contract (keyOf 10), 7,
    .contract (keyOf 11), 5, 10, 3, 2, keyOf 10⟩)]

def dialogSteps (submission : Submission) : List (NetworkStep SacState) :=
  [.submit submission, .answered 0 (.account (.ok 0) 0), .answered 0 (.prepared (.ok ())),
    .answered 0 (.signed true), .carried 0 .delivered, .executed 0 true,
    .answered 0 (.sent (some ⟨"PENDING", "ab"⟩)), .answered 0 (.polled (.ok "SUCCESS"))]

end Sample

set_option maxRecDepth 4000 in
/-- Typed as " 0,004 ", confirmed in the first slot. -/
theorem sealed_bid_stands_at :
    let record : Auction := newAuction ⟨.account (keyOf 2), .contract (keyOf 10), 7,
      .contract (keyOf 11), 5, 10, 3, 2, keyOf 10⟩
    let view := viewOf 1 (rawRecord sep23 record) .Open "tBENJI" "tUSDC"
    ∃ args submission slot actions, sealForAuction tagBox (.ok (poseidonHasher firstInput))
        (sampleRandomness 1) (.connected (sep23.encode bidder)) " 0,004 " view = .ok args ∧
      args.submission sep23 = some submission ∧
      (Runs.run (networkStep markHost) (startNetwork markHost markGenesis dialogActions fun _ => 0)
        (dialogSteps submission)).chain = runFrom markHost markGenesis actions ∧
      BidStands sep23 tagBox (keyOf 10).toList (runFrom markHost markGenesis actions) args bidder
        slot 4 "ab" := by
  intro record view
  let args : PlaceBidArgs := ⟨1, sep23.encode bidder, 4, sampleCiphertext 1 4 1⟩
  let submission : Submission := .placeBid 1 bidder 4 (sampleCiphertext 1 4 1)
  have hargs : sealForAuction tagBox (.ok (poseidonHasher firstInput)) (sampleRandomness 1)
      (.connected (sep23.encode bidder)) " 0,004 " view = .ok args := by decide +kernel
  have hsubmission : args.submission sep23 = some submission := by
    refine submission_eq_some.mpr ⟨keyOf 3, by decide +kernel, by decide, rfl⟩
  obtain ⟨slot, amount, actions, hparse, -, hchain, hstands⟩ := sealed_bid_stands markHost sep23 tagBox
    tagBox_lawful (poseidonHasher firstInput) (sampleRandomness 1) (sampleRandomness_wellFormed 1)
    markGenesis dialogActions 1 record rfl "tBENJI" "tUSDC"
    (sep23.encode bidder) " 0,004 " args hargs submission hsubmission (fun _ => 0)
    (dialogSteps submission) _ (List.mem_singleton.mpr rfl) rfl "ab" rfl
  have hamount : parseAmount " 0,004 " = .ok 4 := by decide +kernel
  rw [hamount] at hparse
  have hfour : amount = 4 := (Int.ofNat_inj.mp (Except.ok.inj hparse)).symm
  have hnow := hstands []
  rw [List.append_nil, hfour] at hnow
  exact ⟨args, submission, slot, actions, hargs, hsubmission, hchain, hnow⟩

end SealedStellar.Web
