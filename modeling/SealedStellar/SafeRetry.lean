import SealedStellar.SubmissionSafety
import SealedStellar.AddressLeaf
import Mathlib.Tactic.Ring

/-! What a user who retries after rpc_unreachable ends with. -/
namespace SealedStellar.Web

section Gains
variable {W : Type} (h : Host W) (measure : State W → ℤ)

def Attempt.landed (attempt : Attempt W) : Option (State W × State W) :=
  match attempt.sent with
  | some ⟨_, .executed before (.ok after)⟩ => some (before, after)
  | _ => none

def Network.landed (network : Network W) : List (State W × State W) :=
  network.attempts.filterMap Attempt.landed

def Attempt.gain (attempt : Attempt W) : ℤ :=
  match attempt.landed with
  | some (before, after) => measure after - measure before
  | none => 0

def Network.gained (network : Network W) : ℤ := (network.attempts.map (Attempt.gain measure)).sum

def elsewhereGain (network : Network W) : NetworkStep W → ℤ
  | .elsewhere a => measure (step h network.chain a) - measure network.chain
  | _ => 0

variable {h} {measure} {network network' : Network W} {attempt : Attempt W}

theorem sum_map_set {α : Type*} (f : α → ℤ) {l : List α} {i : ℕ} {a : α} (b : α)
    (hi : l[i]? = some a) : ((l.set i b).map f).sum = (l.map f).sum - f a + f b := by
  induction l generalizing i with
  | nil => simp at hi
  | cons x l ih =>
    cases i with
    | zero =>
      cases hi
      simp only [List.set_cons_zero, List.map_cons, List.sum_cons]
      ring
    | succ i =>
      simp only [List.set_cons_succ, List.map_cons, List.sum_cons, ih hi]
      ring

theorem gained_setAttempt {index : ℕ} {attempt' : Attempt W}
    (hindex : network.attempts[index]? = some attempt)
    (hgain : attempt'.gain measure = attempt.gain measure) :
    (network.setAttempt index attempt').gained measure = network.gained measure := by
  rw [Network.gained, Network.setAttempt, sum_map_set (Attempt.gain measure) attempt' hindex, hgain,
    Network.gained]
  ring

theorem answered_gain (hk : attempt.Kept h network) (answer : Answer) :
    (attempt.answered answer).gain measure = attempt.gain measure := by
  rw [Attempt.gain, Attempt.gain, Attempt.landed, Attempt.landed]
  obtain hsame | ⟨tx, hstage, -, hnew⟩ := answered_sent attempt answer
  · rw [hsame]
  · have hunsent := hk.stage
    rw [hstage] at hunsent
    rw [hnew, hunsent.1]

theorem carried_gain {tx : Transaction} {delivery : Delivery W} (fate : Fate)
    (hsent : attempt.sent = some ⟨tx, delivery⟩) :
    Attempt.gain measure { attempt with sent := some ⟨tx, delivery.carried fate⟩ } =
      attempt.gain measure := by
  rw [Attempt.gain, Attempt.gain, Attempt.landed, Attempt.landed, hsent]
  cases delivery with
  | executed before result => rfl
  | _ => cases fate <;> rfl

theorem gained_step (a : NetworkStep W) (hk : network.Kept h) :
    measure (networkStep h network a).chain - (networkStep h network a).gained measure =
      measure network.chain - network.gained measure + elsewhereGain h measure network a := by
  have hc := networkStep_change (h := h) network a
  generalize networkStep h network a = network' at hc
  have hnow : ∀ {index : ℕ} {attempt : Attempt W}, network.attempts[index]? = some attempt →
      attempt.Kept h network := fun hindex => hk.attempts _ (List.mem_of_getElem? hindex)
  cases hc with
  | ignored a hmine =>
    cases a with
    | elsewhere a => exact absurd rfl (hmine a)
    | _ => simp [elsewhereGain]
  | elsewhere a =>
    simp only [elsewhereGain, Network.gained]
    ring
  | spent account sequence hle => simp [elsewhereGain, Network.gained]
  | submit submission =>
    simp [elsewhereGain, Network.gained, Attempt.gain, Attempt.landed, Submission.call]
  | answered index attempt answer hindex hanswer =>
    rw [gained_setAttempt hindex (answered_gain (hnow hindex) answer)]
    simp [elsewhereGain, Network.setAttempt]
  | carried index attempt tx delivery fate hindex hsent =>
    rw [gained_setAttempt hindex (carried_gain fate hsent)]
    simp [elsewhereGain, Network.setAttempt]
  | executed index attempt tx fits hindex hsent hincludes =>
    simp only [Network.gained, Network.setAttempt, Network.apply, elsewhereGain,
      sum_map_set (Attempt.gain measure) _ hindex, Attempt.gain, Attempt.landed, hsent]
    cases network.execution h tx fits with
    | error e => simp
    | ok after =>
      dsimp only
      ring

/-- The run lemma: what the chain has is what it had, what came from elsewhere, and the gains. -/
theorem gained_run (hk : network.Kept h) (hnone : network.attempts = [])
    (steps : List (NetworkStep W)) :
    measure (Runs.run (networkStep h) network steps).chain =
      measure network.chain +
        Runs.total (networkStep h) (elsewhereGain h measure) network steps +
        (Runs.run (networkStep h) network steps).gained measure := by
  have hstart : network.gained measure = 0 := by simp [Network.gained, hnone]
  have hstep : ∀ (n : Network W) (a : NetworkStep W) (t : ℤ), (n.Kept h ∧
      measure n.chain - n.gained measure = measure network.chain + t) →
      (networkStep h n a).Kept h ∧
        measure (networkStep h n a).chain - (networkStep h n a).gained measure =
          measure network.chain + (t + elsewhereGain h measure n a) := by
    intro n a t hn
    refine ⟨networkStep_kept n a hn.1, ?_⟩
    rw [gained_step a hn.1, hn.2]
    ring
  have hrun := Runs.total_invariant (P := fun (n : Network W) t => n.Kept h ∧
    measure n.chain - n.gained measure = measure network.chain + t) hstep (n := 0)
    ⟨hk, by rw [hstart]; ring⟩ steps
  have htotal := hrun.2
  linarith

end Gains

section Outcome
variable {W : Type} (h : Host W)

def bidsOf (auctionId : ℕ) (bidder : Address) (s : State W) : ℤ :=
  ((storedBids s auctionId).filter fun bid => bid.bidder = bidder).length

def auctionsOf (seller : Address) (s : State W) : ℤ :=
  ((List.range (s.nextAuctionId.getD 1)).filter fun k =>
    (s.auctions k).any fun auction => auction.seller = seller).length

def paidIn (account : Address) (s : State W) : ℤ :=
  ((executed s.activity).filter fun m => m.src = account ∧ m.dst = h.self).length

def TakesSlot (auctionId : ℕ) (bidder : Address) (before after : State W) : Prop :=
  ∃ auction commitment, before.auctions auctionId = some auction ∧
    storedBids after auctionId = storedBids before auctionId ++ [⟨bidder, commitment⟩] ∧
    executed after.activity =
      executed before.activity ++ [depositIn h auction ⟨bidder, commitment⟩]

def OpensAuction (seller : Address) (before after : State W) : Prop :=
  ∃ params, params.seller = seller ∧
    after.nextAuctionId = some (before.nextAuctionId.getD 1 + 1) ∧
    after.auctions =
      Function.update before.auctions (before.nextAuctionId.getD 1) (some (newAuction params)) ∧
    executed after.activity = executed before.activity ++ [lotIn h (newAuction params)]

def Submission.BidsOn (auctionId : ℕ) (bidder : Address) (submission : Submission) : Prop :=
  ∃ commitment encryptedBid, submission = .placeBid auctionId bidder commitment encryptedBid

def Submission.SellsFor (seller : Address) (submission : Submission) : Prop :=
  ∃ params, params.seller = seller ∧ submission = .createAuction params

/-- The last call succeeded; each before it returned rpc_unreachable, or sent nothing. -/
def Network.Retried (network : Network W) : Prop :=
  ∃ earlier last txHash, network.attempts = earlier ++ [last] ∧
    last.stage = .returned (.ok txHash) ∧
    ∀ attempt ∈ earlier, attempt.Unreachable ∨ attempt.sent = none

def AddsOne (start : Network W) (steps : List (NetworkStep W)) (measure : State W → ℤ) : Prop :=
  measure (Runs.run (networkStep h) start steps).chain =
    measure start.chain + Runs.total (networkStep h) (elsewhereGain h measure) start steps + 1

/-- One transaction of the calls succeeded, and it counts for one, paid for once by the account. -/
structure EndsWithOne (start : Network W) (steps : List (NetworkStep W))
    (does : State W → State W → Prop) (measure : State W → ℤ) (account : Address) : Prop where
  landed : ∃ before after, (Runs.run (networkStep h) start steps).landed = [(before, after)] ∧
    does before after
  counted : AddsOne h start steps measure
  paid : AddsOne h start steps (paidIn h account)

variable {h} {network : Network W} {attempt : Attempt W} {before after : State W}

theorem landed_none (hne : ∀ tx before result, attempt.sent ≠ some ⟨tx, .executed before result⟩) :
    attempt.landed = none := by
  rw [Attempt.landed]
  split
  case h_1 tx before after hsent => exact absurd hsent (hne tx before _)
  case h_2 => rfl

theorem landed_receipt {txHash : String} (hk : attempt.Kept h network)
    (hr : attempt.stage = .returned (.ok txHash)) :
    ∃ before after, attempt.landed = some (before, after) ∧ before.Valid ∧
      exec h [attempt.submission.sourceAddress] attempt.submission.operation before =
        .ok after := by
  have hstage := hk.stage
  rw [hr] at hstage
  obtain ⟨tx, delivery, hsent, hsucceeded⟩ := hstage
  have hkept := (hk.sent tx delivery hsent).2
  match delivery, hsucceeded with
  | .executed before (.ok after), _ => exact ⟨before, after, by rw [Attempt.landed, hsent], hkept⟩

/-- The retries together execute one transaction. -/
theorem retried_landed (hk : network.Kept h) (hsafe : Safe h network) (hr : network.Retried) :
    ∃ attempt ∈ network.attempts, ∃ before after, network.landed = [(before, after)] ∧
      (∀ measure, network.gained measure = measure after - measure before) ∧ before.Valid ∧
      exec h [attempt.submission.sourceAddress] attempt.submission.operation before =
        .ok after := by
  obtain ⟨earlier, last, txHash, hattempts, hreceipt, hearlier⟩ := hr
  have hmem : last ∈ network.attempts := by simp [hattempts]
  obtain ⟨before, after, hlanded, hvalid, he⟩ := landed_receipt (hk.attempts last hmem) hreceipt
  have hnone : ∀ attempt ∈ earlier, attempt.landed = none := by
    intro attempt hattempt
    apply landed_none
    intro tx before result
    cases hearlier attempt hattempt with
    | inl hu =>
      obtain ⟨index, hindex⟩ := List.getElem?_of_mem
        (show attempt ∈ network.attempts by simp [hattempts, hattempt])
      exact hsafe index attempt hindex hu [] attempt hindex tx before result
    | inr hunsent => simp [hunsent]
  refine ⟨last, hmem, before, after, ?_, fun measure => ?_, hvalid, he⟩
  · rw [Network.landed, hattempts, List.filterMap_append, List.filterMap_eq_nil_iff.mpr hnone]
    simp [hlanded]
  · have hzero : ∀ attempt ∈ earlier, attempt.gain measure = 0 :=
      fun attempt hattempt => by rw [Attempt.gain, hnone attempt hattempt]
    rw [Network.gained, hattempts, List.map_append, List.map_congr_left hzero]
    simp [Attempt.gain, hlanded]

theorem placeBid_takesSlot {auctionId : ℕ} {bidder : Address} {commitment : U256}
    {encryptedBid : List UInt8} {signers : List Address}
    (he : exec h signers (.placeBid auctionId bidder commitment encryptedBid) before = .ok after) :
    TakesSlot h auctionId bidder before after := by
  obtain ⟨auction, ha, hp⟩ := placeBid_progress he
  obtain ⟨acts, hlog, hactivity⟩ := hp.books
  refine ⟨auction, commitment, ha, ?_, by rw [hactivity, executed_append, hlog.moved]⟩
  have hnew : after.auctions auctionId = some (addBid auction ⟨bidder, commitment⟩) := hp.auction_at
  rw [storedBids_some hnew, storedBids_some ha]
  rfl

theorem createAuction_opensAuction {params : CreateArgs} {signers : List Address}
    (hv : before.Valid) (he : exec h signers (.createAuction params) before = .ok after) :
    OpensAuction h params.seller before after := by
  have hp := createAuction_progress hv he
  obtain ⟨acts, hlog, hactivity⟩ := hp.books
  refine ⟨params, rfl, ?_, hp.auctions, by rw [hactivity, executed_append, hlog.moved]⟩
  obtain ⟨-, hnext, -⟩ | ⟨⟨old, hold⟩, -⟩ := hp.counter
  · exact hnext
  · exact absurd (hv.fresh.symm.trans hold) (by simp)

theorem TakesSlot.bids {auctionId : ℕ} {bidder : Address}
    (ht : TakesSlot h auctionId bidder before after) :
    bidsOf auctionId bidder after = bidsOf auctionId bidder before + 1 := by
  obtain ⟨auction, commitment, -, hbids, -⟩ := ht
  simp [bidsOf, hbids]

theorem TakesSlot.paid {auctionId : ℕ} {bidder : Address}
    (ht : TakesSlot h auctionId bidder before after) :
    paidIn h bidder after = paidIn h bidder before + 1 := by
  obtain ⟨auction, commitment, -, -, hmoves⟩ := ht
  simp [paidIn, hmoves, depositIn]

theorem OpensAuction.auctions {seller : Address} (ho : OpensAuction h seller before after) :
    auctionsOf seller after = auctionsOf seller before + 1 := by
  obtain ⟨params, rfl, hnext, hauctions, -⟩ := ho
  have hold : ∀ k ∈ List.range (before.nextAuctionId.getD 1),
      (after.auctions k).any (fun auction => auction.seller = params.seller) =
        (before.auctions k).any fun auction => auction.seller = params.seller := by
    intro k hk
    rw [hauctions, Function.update_of_ne (List.mem_range.mp hk).ne]
  rw [auctionsOf, hnext, Option.getD_some, List.range_succ, List.filter_append,
    List.filter_congr hold, auctionsOf]
  simp [hauctions, newAuction]

theorem OpensAuction.paid {seller : Address} (ho : OpensAuction h seller before after) :
    paidIn h seller after = paidIn h seller before + 1 := by
  obtain ⟨params, rfl, -, -, hmoves⟩ := ho
  simp [paidIn, hmoves, lotIn, newAuction]

theorem addsOne (hk : network.Kept h) (hnone : network.attempts = []) {steps : List (NetworkStep W)}
    {measure : State W → ℤ}
    (hgained : (Runs.run (networkStep h) network steps).gained measure =
      measure after - measure before)
    (hone : measure after = measure before + 1) : AddsOne h network steps measure := by
  have hrun := @gained_run W h measure network hk hnone steps
  rw [hgained, hone] at hrun
  rw [AddsOne, hrun]
  ring

/-- Exactly the runs in which sendTransaction never throws over a transaction that can still be
executed are safe to retry in, and there the retries of a bid take one slot for one deposit, and
those of an auction open one auction for one lot. -/
theorem safe_to_retry (g : Genesis W) (actions : List (Action W)) (sequenceOf : Address → ℕ)
    (steps : List (NetworkStep W)) :
    let start := startNetwork h g actions sequenceOf
    let final := Runs.run (networkStep h) start steps
    (Runs.Along (networkStep h) (fun network a => Safe h (networkStep h network a)) start steps ↔
      Runs.Along (networkStep h) ThrowsDoomed start steps) ∧
    (Runs.Along (networkStep h) ThrowsDoomed start steps → final.Retried →
      (∀ auctionId bidder,
        (∀ attempt ∈ final.attempts, attempt.submission.BidsOn auctionId bidder) →
          EndsWithOne h start steps (TakesSlot h auctionId bidder) (bidsOf auctionId bidder)
            bidder) ∧
      ∀ seller, (∀ attempt ∈ final.attempts, attempt.submission.SellsFor seller) →
        EndsWithOne h start steps (OpensAuction h seller) (auctionsOf seller) seller) := by
  intro start final
  have hstart : start.Kept h := startNetwork_kept g actions sequenceOf
  have hsafe : Safe h start := safe_start g actions sequenceOf
  refine ⟨safe_run hstart hsafe steps, fun hthrows hretried => ?_⟩
  have hfinal := Runs.run_invariant (P := fun (n : Network W) => n.Kept h ∧ Safe h n)
    (fun n a hn hu => ⟨networkStep_kept n a hn.1, safe_of_throwsDoomed hn.1 hn.2 hu⟩)
    ⟨hstart, hsafe⟩ hthrows
  obtain ⟨attempt, hattempt, before, after, hlanded, hgained, hvalid, he⟩ :=
    retried_landed hfinal.1 hfinal.2 hretried
  constructor
  · intro auctionId bidder hbids
    obtain ⟨commitment, encryptedBid, hsubmission⟩ := hbids attempt hattempt
    rw [hsubmission] at he
    have htakes : TakesSlot h auctionId bidder before after := placeBid_takesSlot he
    exact ⟨⟨before, after, hlanded, htakes⟩, addsOne hstart rfl (hgained _) htakes.bids,
      addsOne hstart rfl (hgained _) htakes.paid⟩
  · intro seller hsells
    obtain ⟨params, rfl, hsubmission⟩ := hsells attempt hattempt
    rw [hsubmission] at he
    have hopens := createAuction_opensAuction hvalid he
    exact ⟨⟨before, after, hlanded, hopens⟩, addsOne hstart rfl (hgained _) hopens.auctions,
      addsOne hstart rfl (hgained _) hopens.paid⟩

end Outcome

section Alone
variable {W : Type} {h : Host W} {account : Address} {s : State W} {network : Network W}

def SignedBy (account : Address) : Action W → Prop
  | .call signers _ => account ∈ signers
  | _ => False

theorem step_bidsOf (auctionId : ℕ) {a : Action W} (hv : s.Valid) (hother : ¬SignedBy account a) :
    bidsOf auctionId account (step h s a) = bidsOf auctionId account s := by
  obtain hsame | ⟨signers, bidder, commitment, encryptedBid, auction, rfl, he, ha, -, -, hbids⟩ :=
    step_bids (h := h) auctionId a hv
  · rw [bidsOf, hsame, bidsOf]
  · obtain ⟨hsigned, -⟩ := (placeBid_eq_ok h signers auctionId bidder commitment encryptedBid s _).mp he
    have hne : bidder ≠ account := fun heq => hother (heq ▸ hsigned)
    rw [bidsOf, hbids, bidsOf, storedBids_some ha]
    simp [hne]

theorem step_paidIn {a : Action W} (hv : s.Valid) (hself : account ≠ h.self)
    (hother : ¬SignedBy account a) : paidIn h account (step h s a) = paidIn h account s := by
  cases a with
  | call signers c =>
    cases he : exec h signers c s with
    | error e => rw [step_call_error he]
    | ok s' =>
      obtain ⟨moves, auction, hp⟩ := exec_progress hv he
      obtain ⟨acts, hlog, hactivity⟩ := hp.books
      have hnone : ∀ m ∈ moves, m.src = account → m.dst ≠ h.self := by
        intro m hm hpays
        cases hp.evolves.payer m hm with
        | inl hsigned => exact absurd (hpays ▸ hsigned) hother
        | inr hown => exact absurd (hpays.symm.trans hown) hself
      simpa [step_call_ok he, paidIn, hactivity, hlog.moved] using hnone
  | closeLedger timestamp sequence =>
    rw [step]
    split <;> rfl
  | outside tokens => simp [paidIn, step, State.record, executed]

theorem step_auctionsOf {a : Action W} (hv : s.Valid) (hother : ¬SignedBy account a) :
    auctionsOf account (step h s a) = auctionsOf account s := by
  cases a with
  | call signers c =>
    cases he : exec h signers c s with
    | error e => rw [step_call_error he]
    | ok s' =>
      rw [step_call_ok he]
      obtain ⟨moves, auction, hp⟩ := exec_progress hv he
      obtain ⟨hid, hnext, -⟩ | ⟨⟨old, hold⟩, hnext⟩ := hp.counter
      · have hseller : auction.seller ≠ account := by
          have hevolves := hp.evolves
          rw [hid, hv.fresh] at hevolves
          cases hevolves with
          | create args signed => exact fun heq => hother (heq ▸ signed)
        have hrest : ∀ k ∈ List.range (s.nextAuctionId.getD 1),
            (s'.auctions k).any (fun auction => auction.seller = account) =
              (s.auctions k).any fun auction => auction.seller = account := by
          intro k hk
          rw [hp.other (hid ▸ (List.mem_range.mp hk).ne)]
        rw [auctionsOf, hnext, Option.getD_some, List.range_succ, List.filter_append,
          List.filter_congr hrest, auctionsOf]
        simp [hp.auctions, hid, hseller]
      · have hsame : ∀ k, (s'.auctions k).any (fun auction => auction.seller = account) =
            (s.auctions k).any fun auction => auction.seller = account := by
          intro k
          by_cases hk : k = c.auctionId s
          · have hevolves := hp.evolves
            rw [hold] at hevolves
            rw [hk, hp.auction_at, hold, Option.any_some, Option.any_some, hevolves.seller]
          · rw [hp.other hk]
        simp only [auctionsOf, hnext, hsame]
  | closeLedger timestamp sequence =>
    rw [step]
    split <;> rfl
  | outside tokens => rfl

theorem AddsOne.alone {steps : List (NetworkStep W)} {measure : State W → ℤ}
    (hone : AddsOne h network steps measure) (hk : network.Kept h)
    (hother : ∀ a, NetworkStep.elsewhere a ∈ steps → ¬SignedBy account a)
    (hsame : ∀ s a, s.Valid → ¬SignedBy account a → measure (step h s a) = measure s) :
    measure (Runs.run (networkStep h) network steps).chain = measure network.chain + 1 := by
  have hzero : Runs.total (networkStep h) (elsewhereGain h measure) network steps = 0 := by
    apply Runs.total_eq_zero (P := fun (n : Network W) => n.Kept h) networkStep_kept
    · intro n a hn ha
      cases a with
      | elsewhere a => simp [elsewhereGain, hsame n.chain a hn.valid (hother a ha)]
      | _ => rfl
    · exact hk
  rw [hone, hzero, add_zero]

theorem alone_ends_with_one {steps : List (NetworkStep W)} (hk : network.Kept h)
    (hself : account ≠ h.self)
    (hother : ∀ a, NetworkStep.elsewhere a ∈ steps → ¬SignedBy account a) :
    (∀ auctionId, AddsOne h network steps (bidsOf auctionId account) →
      bidsOf auctionId account (Runs.run (networkStep h) network steps).chain =
        bidsOf auctionId account network.chain + 1) ∧
    (AddsOne h network steps (auctionsOf account) →
      auctionsOf account (Runs.run (networkStep h) network steps).chain =
        auctionsOf account network.chain + 1) ∧
    (AddsOne h network steps (paidIn h account) →
      paidIn h account (Runs.run (networkStep h) network steps).chain =
        paidIn h account network.chain + 1) := by
  refine ⟨fun auctionId hone => ?_, fun hone => ?_, fun hone => ?_⟩
  · exact hone.alone hk hother fun _ _ hv ha => step_bidsOf auctionId hv ha
  · exact hone.alone hk hother fun _ _ hv ha => step_auctionsOf hv ha
  · exact hone.alone hk hother fun _ _ hv ha => step_paidIn hv hself ha

end Alone

section Fixture

def openActions : List (Action SacState) :=
  [.call [.account (keyOf 2)] (.createAuction ⟨.account (keyOf 2), .contract (keyOf 10), 7,
    .contract (keyOf 11), 5, 10, 3, 2, keyOf 9⟩)]

def bidder : Address := .account (keyOf 3)

def signedBid (index accountSequence : ℕ) (commitment : U256) : List (NetworkStep SacState) :=
  [.submit (.placeBid 1 bidder commitment []), .answered index (.account (.ok accountSequence) 0),
    .answered index (.prepared (.ok ())), .answered index (.signed true)]

def confirmedBid (index : ℕ) : List (NetworkStep SacState) :=
  [.carried index .delivered, .executed index true,
    .answered index (.sent (some ⟨"PENDING", "ab"⟩)), .answered index (.polled (.ok "SUCCESS"))]

def bidNetwork (steps : List (NetworkStep SacState)) : Network SacState :=
  Runs.run (networkStep markHost) (startNetwork markHost markGenesis openActions fun _ => 0) steps

def lostSteps : List (NetworkStep SacState) :=
  signedBid 0 0 4 ++ [.carried 0 .lost, .answered 0 (.sent none)] ++ signedBid 1 0 2 ++
    confirmedBid 1

def throwSteps : List (NetworkStep SacState) :=
  signedBid 0 0 4 ++ [.carried 0 .delivered, .executed 0 true, .answered 0 (.sent none)]

def deliveredSteps : List (NetworkStep SacState) := throwSteps ++ signedBid 1 1 2 ++ confirmedBid 1

end Fixture

theorem safe_to_retry_witness :
    (∃ before after, (bidNetwork lostSteps).landed = [(before, after)] ∧
        TakesSlot markHost 1 bidder before after) ∧
      bidsOf 1 bidder (bidNetwork lostSteps).chain = 1 ∧
      paidIn markHost bidder (bidNetwork lostSteps).chain = 1 := by
  have hthrows : Runs.Along (networkStep markHost) ThrowsDoomed
      (startNetwork markHost markGenesis openActions fun _ => 0) lostSteps := by
    refine ⟨trivial, trivial, trivial, trivial, trivial, ?_, trivial, trivial, trivial, trivial,
      trivial, trivial, trivial, trivial, trivial⟩
    intro attempt hindex hsending tx delivery hsent
    cases hindex
    cases hsent
    trivial
  have hretried : (bidNetwork lostSteps).Retried := by
    exact ⟨(bidNetwork lostSteps).attempts.take 1,
      (bidNetwork lostSteps).attempts.get ⟨1, by decide⟩, "ab", rfl, rfl,
      List.forall_mem_singleton.mpr (.inl (unreachable_iff.mpr rfl))⟩
  have hsubmissions : (bidNetwork lostSteps).attempts.map Attempt.submission =
      [.placeBid 1 bidder 4 [], .placeBid 1 bidder 2 []] := rfl
  have hbids : ∀ attempt ∈ (bidNetwork lostSteps).attempts, attempt.submission.BidsOn 1 bidder := by
    intro attempt hattempt
    have hmem := List.mem_map_of_mem (f := Attempt.submission) hattempt
    rw [hsubmissions] at hmem
    simp only [List.mem_cons, List.not_mem_nil, or_false] at hmem
    exact hmem.elim (fun he => ⟨4, [], he⟩) fun he => ⟨2, [], he⟩
  have hone := ((safe_to_retry markGenesis openActions (fun _ => 0) lostSteps).2 hthrows
    hretried).1 1 bidder hbids
  exact ⟨hone.landed, hone.counted, hone.paid⟩

/-- The first deposit is taken though the user is told that a retry is safe, and the retry's too. -/
theorem unsafe_to_retry :
    ¬Safe markHost (bidNetwork throwSteps) ∧ (bidNetwork deliveredSteps).Retried ∧
      bidsOf 1 bidder (bidNetwork deliveredSteps).chain = 2 ∧
      paidIn markHost bidder (bidNetwork deliveredSteps).chain = 2 := by
  refine ⟨?_, ?_, by decide +kernel, by decide +kernel⟩
  · intro hsafe
    exact hsafe 0 _ rfl (unreachable_iff.mpr rfl) [] _ rfl _ _ _ rfl
  · exact ⟨(bidNetwork deliveredSteps).attempts.take 1,
      (bidNetwork deliveredSteps).attempts.get ⟨1, by decide⟩, "ab", rfl, rfl,
      List.forall_mem_singleton.mpr (.inl (unreachable_iff.mpr rfl))⟩

end SealedStellar.Web
