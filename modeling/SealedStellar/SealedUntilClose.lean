import SealedStellar.RevealCompleteness

/-! Whether a sealed bid can leave the operator before its auction closes. One operator secret
opens the ciphertexts of all auctions, and the endpoint looks at one deadline at a time. -/
namespace SealedStellar
open Checked
variable {W : Type} {h : Host W} {strKey : StrKey} {nacl : Nacl} {hash : List ℤ → ℤ}

/-- Commitment and ciphertext are what sealBid makes of one price for auction k. -/
def HonestlySealed (nacl : Nacl) (hash : List ℤ → ℤ) (operatorKey : Key) (k : ℕ)
    (commitment : U256) (encryptedBid : List UInt8) : Prop :=
  ∃ r price, SealRandomness.WellFormed r ∧ price < 2 ^ 64 ∧
    (sealBid nacl hash r price k operatorKey.toList).commitment = (commitment.toNat : ℤ) ∧
    (sealBid nacl hash r price k operatorKey.toList).encryptedBid = encryptedBid

/-- An honestly sealed bid with this ciphertext sits in an open auction that closes after t. -/
def SealedOpen (nacl : Nacl) (hash : List ℤ → ℤ) (s : State W) (t : ℕ)
    (encryptedBid : List UInt8) : Prop :=
  ∃ j auction r, s.auctions j = some auction ∧ auction.status = .Open ∧
    t < auction.commitDeadline ∧ r ∈ bidLog s j ∧ r.encryptedBid = encryptedBid ∧
    HonestlySealed nacl hash auction.operatorEncPubkey j r.commitment encryptedBid

/-- The response to the request lists the price and the salt found in this ciphertext. -/
def Opened (strKey : StrKey) (nacl : Nacl) (env : Environment) (rpc : Rpc) (now : ℕ)
    (req : RevealRequest) (encryptedBid : List UInt8) : Prop :=
  ∃ k root members bids events boxSecret e b,
    handler strKey nacl env rpc now req = ⟨200, .revealed k root members bids⟩ ∧
    fetchBidEvents strKey rpc k = .ok events ∧ loadBoxSecret env = .ok boxSecret ∧
    (e, b) ∈ events.zip bids ∧ e.encryptedBid = encryptedBid ∧
    revealBid nacl boxSecret e = .ok b

/-- Whoever else holds the ciphertext of an honestly sealed bid closes no earlier. -/
def Separated (nacl : Nacl) (hash : List ℤ → ℤ) (s : State W) : Prop :=
  ∀ j k auction auction' r r', s.auctions j = some auction → s.auctions k = some auction' →
    r ∈ bidLog s j → r' ∈ bidLog s k → r'.encryptedBid = r.encryptedBid →
    HonestlySealed nacl hash auction.operatorEncPubkey j r.commitment r.encryptedBid →
    auction.commitDeadline ≤ auction'.commitDeadline

/-- A bid is not placed with a ciphertext that another auction holds, unless the one that holds
it honestly sealed closes no later. -/
def NoReplay (nacl : Nacl) (hash : List ℤ → ℤ) (s : State W) : Action W → Prop
  | .call _ (.placeBid k _ commitment encryptedBid) =>
    ∀ auction, s.auctions k = some auction → ∀ j auction' r, s.auctions j = some auction' →
      r ∈ bidLog s j → r.encryptedBid = encryptedBid →
      (HonestlySealed nacl hash auction'.operatorEncPubkey j r.commitment encryptedBid →
        auction'.commitDeadline ≤ auction.commitDeadline) ∧
      (HonestlySealed nacl hash auction.operatorEncPubkey k commitment encryptedBid →
        auction.commitDeadline ≤ auction'.commitDeadline)
  | _ => True

theorem mem_bidLog_step {s : State W} {a : Action W} {k : ℕ} {r : BidRecord}
    (hr : r ∈ bidLog (step h s a) k) : r ∈ bidLog s k ∨
      ∃ signers bidder commitment encryptedBid auction,
        a = .call signers (.placeBid k bidder commitment encryptedBid) ∧
        s.auctions k = some auction ∧ r.commitment = commitment ∧ r.encryptedBid = encryptedBid := by
  cases step_bidLog (h := h) k a with
  | inl hlog =>
    rw [hlog] at hr
    exact .inl hr
  | inr hlog =>
    obtain ⟨signers, bidder, commitment, encryptedBid, auction, ha, -, hsome, hlog⟩ := hlog
    rw [hlog] at hr
    cases List.mem_append.mp hr with
    | inl hold => exact .inl hold
    | inr hnew =>
      rw [List.mem_singleton.mp hnew]
      exact .inr ⟨signers, bidder, commitment, encryptedBid, auction, ha, hsome, rfl, rfl⟩

theorem step_kept {s : State W} {a : Action W} {k : ℕ} {old new : Auction} (hs : s.Valid)
    (hold : s.auctions k = some old) (hnew : (step h s a).auctions k = some new) :
    new.commitDeadline = old.commitDeadline ∧ new.operatorEncPubkey = old.operatorEncPubkey := by
  obtain ⟨kept, hkept, hterms⟩ := step_terms (h := h) k a hs hold
  rw [hnew] at hkept
  cases hkept
  exact hterms

theorem separated_step (s : State W) (a : Action W)
    (hP : (s.Valid ∧ Logged s) ∧ Separated nacl hash s) (hok : NoReplay nacl hash s a) :
    ((step h s a).Valid ∧ Logged (step h s a)) ∧ Separated nacl hash (step h s a) := by
  refine ⟨logged_step s a hP.1, ?_⟩
  intro j k auction auction' r r' ha ha' hr hr' hcipher hhonest
  cases mem_bidLog_step hr with
  | inl hold =>
    obtain ⟨old, hj⟩ := hP.1.2.auction hold
    obtain ⟨hdeadline, hkey⟩ := step_kept hP.1.1 hj ha
    rw [hkey] at hhonest
    rw [hdeadline]
    cases mem_bidLog_step hr' with
    | inl hold' =>
      obtain ⟨old', hk⟩ := hP.1.2.auction hold'
      rw [(step_kept hP.1.1 hk ha').1]
      exact hP.2 j k old old' r r' hj hk hold hold' hcipher hhonest
    | inr hnew' =>
      obtain ⟨signers, bidder, commitment, encryptedBid, old', rfl, hk, -, he'⟩ := hnew'
      rw [(step_kept hP.1.1 hk ha').1]
      have hx : r.encryptedBid = encryptedBid := hcipher.symm.trans he'
      rw [hx] at hhonest
      exact (hok old' hk j old r hj hold hx).1 hhonest
  | inr hnew =>
    obtain ⟨signers, bidder, commitment, encryptedBid, old, rfl, hj, hc, he⟩ := hnew
    obtain ⟨hdeadline, hkey⟩ := step_kept hP.1.1 hj ha
    rw [hkey, hc, he] at hhonest
    rw [hdeadline]
    cases mem_bidLog_step hr' with
    | inl hold' =>
      obtain ⟨old', hk⟩ := hP.1.2.auction hold'
      rw [(step_kept hP.1.1 hk ha').1]
      exact (hok old hj k old' r' hk hold' (hcipher.trans he)).2 hhonest
    | inr hnew' =>
      obtain ⟨_, _, _, _, old', heq, hk, -, -⟩ := hnew'
      cases heq
      rw [hj] at hk
      cases hk
      rw [(step_kept hP.1.1 hj ha').1]

/-- The ciphertexts behind a response are bid events of an auction whose deadline has passed. -/
theorem Opened.source {g : Genesis W} {actions : List (Action W)} {env : Environment} {rpc : Rpc}
    (hrpc : rpc.Shows (runFrom h g actions)) {now : ℕ} {req : RevealRequest}
    {encryptedBid : List UInt8} (ho : Opened strKey nacl env rpc now req encryptedBid) :
    ∃ k auction r, (runFrom h g actions).auctions k = some auction ∧
      auction.commitDeadline ≤ now ∧ r ∈ bidLog (runFrom h g actions) k ∧
      r.encryptedBid = encryptedBid := by
  obtain ⟨k, root, members, bids, events, boxSecret, e, b, hresponse, hevents, -, hmem, he, -⟩ := ho
  obtain ⟨-, -, _, state, _, -, hstate, -, due, -, -, -, -, -⟩ := handler_revealed_iff.mp hresponse
  obtain ⟨record, hrecord, -, hdeadline, -⟩ := getAuctionState_eq_ok.mp hstate
  obtain ⟨auction, ha, hrec⟩ := hrpc.auction k record hrecord
  obtain ⟨latest, pages, served, -, -, -, hsub, rfl⟩ := (fetchBidEvents_shows hrpc).mp hevents
  obtain ⟨r, hr, hre⟩ := List.mem_map.mp (List.of_mem_zip hmem).1
  rw [hrec, auctionRecord, Option.some.injEq] at hdeadline
  refine ⟨k, auction, r, ha, by omega, hsub.subset hr, ?_⟩
  rw [← he, ← hre]
  rfl

/-- An accepted bid keeps the auctions separated exactly when it is no replay. -/
theorem placeBid_separated {s s' : State W} (hP : (s.Valid ∧ Logged s) ∧ Separated nacl hash s)
    {signers : List Address} {k : ℕ} {bidder : Address} {commitment : U256}
    {encryptedBid : List UInt8}
    (he : exec h signers (.placeBid k bidder commitment encryptedBid) s = .ok s') :
    Separated nacl hash s' ↔
      NoReplay nacl hash s (.call signers (.placeBid k bidder commitment encryptedBid)) := by
  constructor
  · intro hsep auction ha j auction' r ha' hr hx
    obtain ⟨kept, hkept, hdeadline, hkey⟩ := step_terms (h := h) k
      (.call signers (.placeBid k bidder commitment encryptedBid)) hP.1.1 ha
    obtain ⟨kept', hkept', hdeadline', hkey'⟩ := step_terms (h := h) j
      (.call signers (.placeBid k bidder commitment encryptedBid)) hP.1.1 ha'
    rw [step_call_ok he] at hkept hkept'
    have hlog := placeBid_bidLog ha he k
    rw [if_pos rfl] at hlog
    have hnew : (⟨s.sequence, auction.bids.length, bidder, commitment, encryptedBid⟩ : BidRecord) ∈
        bidLog s' k := by
      rw [hlog]
      exact List.mem_append_right _ (List.mem_singleton.mpr rfl)
    have hold : r ∈ bidLog s' j := by
      rw [placeBid_bidLog ha he j]
      exact List.mem_append_left _ hr
    constructor
    · intro hhonest
      have hle := hsep j k kept' kept r _ hkept' hkept hold hnew hx.symm
        (by rw [hkey', hx]; exact hhonest)
      rwa [hdeadline, hdeadline'] at hle
    · intro hhonest
      have hle := hsep k j kept kept' _ r hkept hkept' hnew hold hx (by rw [hkey]; exact hhonest)
      rwa [hdeadline, hdeadline'] at hle
  · intro hno
    have hstep := separated_step (h := h) s _ hP hno
    rw [step_call_ok he] at hstep
    exact hstep.2

/-- No response discloses a bid of an open window, in every run without replays; and a replay
is what breaks the invariant. -/
theorem sealed_until_close (h : Host W) (strKey : StrKey) (nacl : Nacl) (g : Genesis W)
    (actions : List (Action W))
    (hok : Runs.Along (step h) (NoReplay nacl (poseidonHasher h.poseidon)) (g.state h) actions) :
    Separated nacl (poseidonHasher h.poseidon) (runFrom h g actions) ∧
    (∀ rpc, Rpc.Shows rpc (runFrom h g actions) → ∀ env now req encryptedBid,
      Opened strKey nacl env rpc now req encryptedBid →
        ¬SealedOpen nacl (poseidonHasher h.poseidon) (runFrom h g actions) now encryptedBid) ∧
    ∀ signers k bidder commitment encryptedBid s',
      exec h signers (.placeBid k bidder commitment encryptedBid) (runFrom h g actions) = .ok s' →
      (Separated nacl (poseidonHasher h.poseidon) s' ↔
        NoReplay nacl (poseidonHasher h.poseidon) (runFrom h g actions)
          (.call signers (.placeBid k bidder commitment encryptedBid))) := by
  have hgenesis : Separated nacl (poseidonHasher h.poseidon) (g.state h) := by
    intro j k auction auction' r r' ha
    cases ha
  have hP : ((runFrom h g actions).Valid ∧ Logged (runFrom h g actions)) ∧
      Separated nacl (poseidonHasher h.poseidon) (runFrom h g actions) :=
    Runs.run_invariant separated_step ⟨⟨genesis_valid g, genesis_logged g⟩, hgenesis⟩ hok
  refine ⟨hP.2, ?_, fun signers k bidder commitment encryptedBid s' he => placeBid_separated hP he⟩
  intro rpc hrpc env now req encryptedBid hopened hsealed
  obtain ⟨k, auction', r', ha', due, hr', he'⟩ := hopened.source hrpc
  obtain ⟨j, auction, r, ha, -, early, hr, he, hhonest⟩ := hsealed
  rw [← he] at hhonest
  have hle := hP.2 j k auction auction' r r' ha ha' hr hr' (he'.trans he.symm) hhonest
  omega

def Event.ciphertext : Event → Option (List UInt8)
  | .BidPlaced _ _ _ _ encryptedBid => some encryptedBid
  | _ => none

theorem noReplay_of_fresh {s : State W} {signers : List Address} {k : ℕ} {bidder : Address}
    {commitment : U256} {encryptedBid : List UInt8}
    (hfresh : some encryptedBid ∉ s.events.map fun e => e.2.ciphertext) :
    NoReplay nacl hash s (.call signers (.placeBid k bidder commitment encryptedBid)) := by
  intro auction _ j auction' r _ hr he
  obtain ⟨⟨ledger, e⟩, hmem, hrecord⟩ := List.mem_filterMap.mp hr
  refine absurd (List.mem_map.mpr ⟨(ledger, e), hmem, ?_⟩) hfresh
  cases e with
  | BidPlaced auctionId slotIndex bidder' commitment' encryptedBid' =>
    rw [bidRecord] at hrecord
    split at hrecord
    · cases hrecord
      exact congrArg some he
    · cases hrecord
  | _ => cases hrecord

/-- Two bids with ciphertexts of their own: revealing the first auction leaves the second, still
open one sealed. -/
theorem sealed_until_close_witness :
    let h := sacHost (.contract (keyOf 0)) (fun _ _ _ => none) firstInput
    let g : Genesis SacState := ⟨.contract (keyOf 1), evenTokens 100, 0, 1⟩
    let seller : Address := .account (keyOf 2)
    let bidder : Address := .account (keyOf 3)
    let early : CreateArgs := ⟨seller, .contract (keyOf 10), 7, .contract (keyOf 11), 5, 10, 3, 0,
      keyOf 10⟩
    let late : CreateArgs := ⟨seller, .contract (keyOf 10), 7, .contract (keyOf 11), 5, 1000, 3, 0,
      keyOf 10⟩
    let actions : List (Action SacState) := [.call [seller] (.createAuction early),
      .call [seller] (.createAuction late),
      .call [bidder] (.placeBid 1 bidder 4 (sampleCiphertext 1 4 1)),
      .call [bidder] (.placeBid 2 bidder 2 (sampleCiphertext 2 2 2)), .closeLedger 10 100]
    Opened sep23 tagBox ⟨none, some operatorSecretHex⟩ (snapshotRpc (runFrom h g actions)) 10
        ⟨"POST", some 1⟩ (sampleCiphertext 1 4 1) ∧
      ¬SealedOpen tagBox (poseidonHasher firstInput) (runFrom h g actions) 10
        (sampleCiphertext 1 4 1) := by
  intro h g seller bidder early late actions
  have hok : Runs.Along (step h) (NoReplay tagBox (poseidonHasher h.poseidon)) (g.state h)
      actions :=
    ⟨trivial, trivial, noReplay_of_fresh (by decide +kernel), noReplay_of_fresh (by decide +kernel),
      trivial, trivial⟩
  have hopened : Opened sep23 tagBox ⟨none, some operatorSecretHex⟩
      (snapshotRpc (runFrom h g actions)) 10 ⟨"POST", some 1⟩ (sampleCiphertext 1 4 1) := by
    have ha : (runFrom h g actions).auctions 1 =
        some { newAuction early with bids := [⟨bidder, 4⟩] } := by decide +kernel
    have hserved : inWindow (runFrom h g actions) 1 =
        [⟨1, 0, bidder, 4, sampleCiphertext 1 4 1⟩] := by decide +kernel
    have hevents := fetchBidEvents_snapshot sep23 ha
    rw [hserved] at hevents
    have hbid : revealBid tagBox (List.replicate 32 9)
        ⟨0, sep23.encode bidder, 4, sampleCiphertext 1 4 1⟩ =
          .ok ⟨0, sep23.encode bidder, "4", "4", sampleSalt 1⟩ :=
      revealBid_sample 0 4 1 _ 1 (by norm_num)
    have hresponse : handler sep23 tagBox ⟨none, some operatorSecretHex⟩
        (snapshotRpc (runFrom h g actions)) 10 ⟨"POST", some 1⟩ =
          ⟨200, .revealed 1 _ [] [⟨0, sep23.encode bidder, "4", "4", sampleSalt 1⟩]⟩ :=
      handler_snapshot ha rfl (le_refl 10) hserved (List.cons_ne_nil _ _) loadBoxSecret_sample
        (.cons hbid .nil) rfl
    exact ⟨_, _, _, _, _, _, _, _, hresponse, hevents, loadBoxSecret_sample, List.mem_cons_self,
      rfl, hbid⟩
  exact ⟨hopened, (sealed_until_close h sep23 tagBox g actions hok).2.1 _
    (snapshotRpc_shows (runFrom h g actions)) _ _ _ _ hopened⟩

/-- The ciphertext of a bid in auction 1, which is open until 1000, is copied into auction 2,
which closes at 10: the endpoint then opens it at 10. -/
theorem sealed_bid_disclosed :
    let h := sacHost (.contract (keyOf 0)) (fun _ _ _ => none) firstInput
    let g : Genesis SacState := ⟨.contract (keyOf 1), evenTokens 100, 0, 1⟩
    let seller : Address := .account (keyOf 2)
    let bidder : Address := .account (keyOf 3)
    let copier : Address := .account (keyOf 4)
    let late : CreateArgs := ⟨seller, .contract (keyOf 10), 7, .contract (keyOf 11), 5, 1000, 3, 0,
      keyOf 10⟩
    let early : CreateArgs := ⟨copier, .contract (keyOf 10), 7, .contract (keyOf 11), 5, 10, 3, 0,
      keyOf 10⟩
    let sealedBid := sampleCiphertext 1 4 1
    let actions : List (Action SacState) := [.call [seller] (.createAuction late),
      .call [copier] (.createAuction early), .call [bidder] (.placeBid 1 bidder 4 sealedBid),
      .call [copier] (.placeBid 2 copier 7 sealedBid), .closeLedger 10 100]
    handler sep23 tagBox ⟨none, some operatorSecretHex⟩ (snapshotRpc (runFrom h g actions)) 10
        ⟨"POST", some 2⟩ =
      ⟨200, .revealed 2 "0" [] [⟨0, sep23.encode copier, "7", "4", sampleSalt 1⟩]⟩ ∧
    Rpc.Shows (snapshotRpc (runFrom h g actions)) (runFrom h g actions) ∧
    Opened sep23 tagBox ⟨none, some operatorSecretHex⟩ (snapshotRpc (runFrom h g actions)) 10
        ⟨"POST", some 2⟩ sealedBid ∧
      SealedOpen tagBox (poseidonHasher firstInput) (runFrom h g actions) 10 sealedBid := by
  intro h g seller bidder copier late early sealedBid actions
  have ha : (runFrom h g actions).auctions 2 =
      some { newAuction early with bids := [⟨copier, 7⟩] } := by decide +kernel
  have hserved : inWindow (runFrom h g actions) 2 = [⟨1, 0, copier, 7, sealedBid⟩] := by
    decide +kernel
  have hevents := fetchBidEvents_snapshot sep23 ha
  rw [hserved] at hevents
  have hbid : revealBid tagBox (List.replicate 32 9) ⟨0, sep23.encode copier, 7, sealedBid⟩ =
      .ok ⟨0, sep23.encode copier, "7", "4", sampleSalt 1⟩ :=
    revealBid_sample 0 7 1 _ 1 (by norm_num)
  have hroot : "0" = toString (newAuction early).whitelistRoot.toNat := by decide
  have hresponse : handler sep23 tagBox ⟨none, some operatorSecretHex⟩
      (snapshotRpc (runFrom h g actions)) 10 ⟨"POST", some 2⟩ =
        ⟨200, .revealed 2 "0" [] [⟨0, sep23.encode copier, "7", "4", sampleSalt 1⟩]⟩ :=
    handler_snapshot ha rfl (le_refl 10) hserved (List.cons_ne_nil _ _) loadBoxSecret_sample
      (.cons hbid .nil) hroot
  have hauction : (runFrom h g actions).auctions 1 =
      some { newAuction late with bids := [⟨bidder, 4⟩] } := by decide +kernel
  have hlog : bidLog (runFrom h g actions) 1 = [⟨1, 0, bidder, 4, sealedBid⟩] := by decide +kernel
  have hhonest : HonestlySealed tagBox (poseidonHasher firstInput) (keyOf 10) 1 4 sealedBid :=
    ⟨sampleRandomness 1, 4, sampleRandomness_wellFormed 1, by norm_num, by decide, rfl⟩
  refine ⟨hresponse, snapshotRpc_shows (runFrom h g actions),
    ⟨_, _, _, _, _, _, _, _, hresponse, hevents, loadBoxSecret_sample, List.mem_cons_self, rfl, hbid⟩,
    1, _, ⟨1, 0, bidder, 4, sealedBid⟩, hauction, rfl, by decide, ?_, rfl, hhonest⟩
  rw [hlog]
  exact List.mem_cons_self

end SealedStellar
