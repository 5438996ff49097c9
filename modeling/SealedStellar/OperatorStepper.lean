import SealedStellar.AuctionRoom
import SealedStellar.ProofBytes
import SealedStellar.Registration
import SealedStellar.ProverCompleteness
import SealedStellar.RefusalMessages

/-! OperatorStepper.tsx: the settlement of an auction from the page, on the network of submitInvocation,
and what the auction room is told of it. -/
namespace SealedStellar.Web
open Checked

section RevealClient

/-- web/src/lib/reveal.ts -/
inductive RevealResult where
  | revealed (bids : List RevealedBid) (members : List String) (whitelistRoot : String)
  | already_settled

/-- The object in a response of the endpoint; none is absent or of another type. -/
structure RevealResponseBody where
  ok : Bool
  alreadySettled : Bool
  whitelistRoot : Option String
  members : Option (List (Option String))
  bids : Option (List (Option RevealedBid))
  errorMessage : Option String

def parseRevealedBids (rawBids : Option (List (Option RevealedBid))) : Option (List RevealedBid) :=
  rawBids.bind fun bids => bids.mapM id

def parseMembers (rawMembers : Option (List (Option String))) : Option (List String) :=
  rawMembers.bind fun members => members.mapM id

def requestReveal : Except String (ℕ × Option RevealResponseBody) → Except String RevealResult
  | .error networkError => .error networkError
  | .ok (status, none) => .error s!"reveal returned a non-JSON response ({status})"
  | .ok (status, some payload) =>
    if 200 ≤ status ∧ status < 300 ∧ payload.ok then
      if payload.alreadySettled then .ok .already_settled
      else
        match parseRevealedBids payload.bids, parseMembers payload.members, payload.whitelistRoot with
        | some bids, some members, some whitelistRoot => .ok (.revealed bids members whitelistRoot)
        | _, _, _ => .error "reveal returned an unexpected shape"
    else .error (payload.errorMessage.getD s!"reveal failed ({status})")

def payload : RevealBody → RevealResponseBody
  | .error e => ⟨false, false, none, none, none, some e.message⟩
  | .alreadySettled _ => ⟨true, true, none, none, none, none⟩
  | .revealed _ whitelistRoot members bids =>
    ⟨true, false, some whitelistRoot, some (members.map some), some (bids.map some), none⟩

end RevealClient

section Bundle

def pasted (bundle : SettleBundle) : PastedBundle where
  auctionId := bundle.auctionId
  winnerIndex := bundle.winnerIndex
  winningPrice := bundle.winningPrice
  winnerAddress := bundle.winnerAddress
  proof := ⟨bundle.proof.a.toList, bundle.proof.b.toList, bundle.proof.c.toList⟩

def bytesN (n : ℕ) (bytes : List UInt8) : Option (Vector UInt8 n) :=
  if hlen : bytes.length = n then some ⟨bytes.toArray, by simpa using hlen⟩ else none

/-- buildProofScVal, as the contract decodes it. -/
def buildProof (proof : ProofBytes) : Option VerifierProof := do
  let a ← bytesN 64 proof.a
  let b ← bytesN 128 proof.b
  let c ← bytesN 64 proof.c
  return ⟨a, b, c⟩

/-- The call of submitSettle; the conversions throw on what does not fit its type. -/
def settleOperation (strKey : StrKey) (bundle : PastedBundle) : Option Call := do
  let winner ← strKey.decodeEd25519PublicKey bundle.winnerAddress
  let proof ← buildProof bundle.proof
  if 0 ≤ bundle.auctionId ∧ bundle.auctionId ≤ u64Max ∧ 0 ≤ bundle.winnerIndex ∧
      bundle.winnerIndex < 2 ^ 32 ∧ -2 ^ 127 ≤ bundle.winningPrice ∧ bundle.winningPrice < 2 ^ 127 then
    some (.settle bundle.auctionId.toNat bundle.winnerIndex.toNat bundle.winningPrice
      (.account winner) proof)
  else none

def settleResult (bundle : PastedBundle) (txHash : String) : SettleResult where
  winnerIndex := bundle.winnerIndex.toNat
  winningPrice := bundle.winningPrice
  winnerAddress := bundle.winnerAddress
  txHash := txHash

end Bundle

section Stepper
variable (strKey : StrKey) (hash : List ℤ → ℤ) (auctionId : ℕ)

inductive OperatorPhase where
  | fetching | decrypting | building | proving | done

inductive SettlePhase where
  | idle | settling | failed
  deriving DecidableEq

inductive RevealRun where
  | idle
  | fetching (auction : SealedStellar.AuctionView)
  | proving (auction : SealedStellar.AuctionView) (bids : List RevealedBid)
      (whitelistMembers : List String)

structure Stepper where
  provePhase : Option OperatorPhase
  proveError : Option String
  alreadySettled : Bool
  bundle : Option PastedBundle
  pasteError : Option String
  settlePhase : SettlePhase
  settleError : Option SettleFailure
  reveal : RevealRun
  awaited : Option ℕ

def newStepper : Stepper where
  provePhase := none
  proveError := none
  alreadySettled := false
  bundle := none
  pasteError := none
  settlePhase := .idle
  settleError := none
  reveal := .idle
  awaited := none

inductive StepperStep where
  | runReveal (whitelistRoot : ℤ)
  | revealed (fetched : Except String (ℕ × Option RevealResponseBody))
  | phase (phase : OperatorPhase)
  | proved (proveCircuit : CircuitInput → Except String VerifierProof)
  | loadPastedBundle (pasteText : Pasted)
  | unsent (detail : String)

def Stepper.isRevealing (stepper : Stepper) : Bool :=
  stepper.provePhase.isSome && stepper.bundle.isNone

def Stepper.step (stepper : Stepper) : StepperStep → Stepper
  -- the button is there without a bundle, and enabled unless a reveal runs
  | .runReveal whitelistRoot =>
    if stepper.bundle.isNone ∧ !stepper.isRevealing then
      { stepper with proveError := none, alreadySettled := false, provePhase := some .fetching
                     reveal := .fetching ⟨auctionId, whitelistRoot⟩ }
    else stepper
  | .revealed fetched =>
    match stepper.reveal with
    | .fetching auction =>
      match requestReveal fetched with
      | .error message =>
        { stepper with proveError := some message, provePhase := none, reveal := .idle }
      | .ok .already_settled =>
        { stepper with alreadySettled := true, provePhase := none, reveal := .idle }
      | .ok (.revealed bids members _) =>
        { stepper with provePhase := some .decrypting
                       reveal := .proving auction bids (pageMembers members) }
    | _ => stepper
  | .phase phase =>
    match stepper.reveal with
    | .proving .. => { stepper with provePhase := some phase }
    | _ => stepper
  | .proved proveCircuit =>
    match stepper.reveal with
    | .proving auction bids whitelistMembers =>
      match proveSettleFromRevealedBids strKey hash proveCircuit auction bids whitelistMembers with
      | .error message =>
        { stepper with proveError := some message, provePhase := none, reveal := .idle }
      | .ok bundle => { stepper with bundle := some (pasted bundle), reveal := .idle }
    | _ => stepper
  | .loadPastedBundle pasteText =>
    match parseSettleBundle strKey pasteText auctionId with
    | .error message => { stepper with pasteError := some message }
    | .ok bundle => { stepper with pasteError := none, bundle := some bundle }
  -- submitSettle ended before there was a transaction
  | .unsent detail =>
    if stepper.settlePhase = .settling ∧ stepper.awaited.isNone then
      { stepper with settlePhase := .failed, settleError := some (.submission_failed detail) }
    else stepper

end Stepper

section Page
variable {W : Type} (h : Host W) (g : Genesis W) (strKey : StrKey) (hash : List ℤ → ℤ)
  (auctionId : ℕ)

/-- submitInvocation of any call: only the transaction that it builds depends on the call. -/
def submitInvocation (source : Address) (operation : Call) : Stage → Answer → Stage
  | .lookup, .account (.ok accountSequence) nowSeconds =>
    .preparing ⟨source, accountSequence + 1, nowSeconds + txTimeoutSeconds, operation⟩
  | stage, answer => (Submission.placeBid 0 source 0 []).resume stage answer

structure SettleRun (W : Type) where
  bundle : PastedBundle
  settler : Address
  operation : Call
  stage : Stage
  sent : Option (SentTransaction W)

def SettleRun.answered (run : SettleRun W) (answer : Answer) : SettleRun W :=
  { run with
    stage := submitInvocation run.settler run.operation run.stage answer
    sent :=
      match run.stage, answer with
      | .signing preparedTransaction, .signed true => some ⟨preparedTransaction, .inFlight⟩
      | _, _ => run.sent }

def SettleRun.chainStatus (run : SettleRun W) : String :=
  match run.sent with
  | some ⟨_, .executed _ (.ok _)⟩ => "SUCCESS"
  | some ⟨_, .executed _ (.error _)⟩ => "FAILED"
  | _ => "NOT_FOUND"

def SettleRun.Answers (run : SettleRun W) : Answer → Prop
  | .sent (some _) => run.sent.any fun sent => sent.delivery.arrived
  | .polled (.ok status) => status = "SUCCESS" ∨ status = "FAILED" → status = run.chainStatus
  | _ => True

instance (run : SettleRun W) (answer : Answer) : Decidable (run.Answers answer) :=
  match answer with
  | .sent (some _) => inferInstanceAs (Decidable (_ = true))
  | .polled (.ok _) => inferInstanceAs (Decidable (_ → _ = _))
  | .account _ _ | .prepared _ | .signed _ | .sent none | .polled (.error _) => isTrue trivial

/-- The calls of everybody that the contract has had, the stepper, its settlements and what onSettled
was told. -/
structure OperatorPage (W : Type) where
  calls : List (Action W)
  stepper : Stepper
  runs : List (SettleRun W)
  settled : List SettleResult

def openPage (before : List (Action W)) : OperatorPage W := ⟨before, newStepper, [], []⟩

inductive OperatorStep (W : Type) where
  | elsewhere (a : Action W)
  | stepper (a : StepperStep)
  | remount
  | runSettle (settlerAddress : Address)
  | answered (index : ℕ) (answer : Answer)
  | carried (index : ℕ) (fate : Fate)
  | executed (index : ℕ) (fits : Bool)

def OperatorPage.chain (page : OperatorPage W) : State W := runFrom h g page.calls

def OperatorPage.runSettle (page : OperatorPage W) (settlerAddress : Address) : OperatorPage W :=
  match page.stepper.bundle with
  | some bundle =>
    if page.stepper.settlePhase = .settling then page
    else
      let settling := { page.stepper with settlePhase := .settling, settleError := none }
      match settleOperation strKey bundle with
      | some operation =>
        { page with stepper := { settling with awaited := some page.runs.length }
                    runs := page.runs ++ [⟨bundle, settlerAddress, operation, .lookup, none⟩] }
      | none => { page with stepper := { settling with awaited := none } }
  | none => page

def returnsNow (before after : Stage) : Option (Except InvocationFailure String) :=
  match before, after with
  | .returned _, _ => none
  | _, .returned outcome => some outcome
  | _, _ => none

/-- runSettle after submitSettle returned. The room hears of a success also from a stepper that is no
longer there. -/
def OperatorPage.settledWith (page : OperatorPage W) (index : ℕ) (bundle : PastedBundle) :
    Option (Except InvocationFailure String) → OperatorPage W
  | some (.ok txHash) => { page with settled := page.settled ++ [settleResult bundle txHash] }
  | some (.error failure) =>
    if page.stepper.awaited = some index then
      { page with stepper := { page.stepper with settlePhase := .failed, awaited := none
                                                 settleError :=
                                                   some (mapInvocationToSettleFailure failure) } }
    else page
  | none => page

def OperatorPage.setRun (page : OperatorPage W) (index : ℕ) (run : SettleRun W) : OperatorPage W :=
  { page with runs := page.runs.set index run }

def operatorStep (page : OperatorPage W) : OperatorStep W → OperatorPage W
  | .elsewhere a => { page with calls := page.calls ++ [a] }
  | .stepper a => { page with stepper := page.stepper.step strKey hash auctionId a }
  | .remount => { page with stepper := newStepper }
  | .runSettle settlerAddress => page.runSettle strKey settlerAddress
  | .answered index answer =>
    match page.runs[index]? with
    | some run =>
      if run.Answers answer then
        let answered := run.answered answer
        (page.setRun index answered).settledWith index run.bundle
          (returnsNow run.stage answered.stage)
      else page
    | none => page
  | .carried index fate =>
    match page.runs[index]? with
    | some run => page.setRun index
        { run with sent := run.sent.map fun sent => ⟨sent.tx, sent.delivery.carried fate⟩ }
    | none => page
  | .executed index fits =>
    match page.runs[index]? with
    | some run =>
      match run.sent with
      | some ⟨tx, .pooled⟩ =>
        let before := page.chain h g
        let result := if fits then exec h [tx.source] tx.operation before else .error .trap
        { page.setRun index { run with sent := some ⟨tx, .executed before result⟩ } with
          calls := page.calls ++
            if result.isOk then [.call [tx.source] tx.operation] else [] }
      | _ => page
    | none => page

end Page

section Client

theorem requestReveal_payload (body : RevealBody) (status : ℕ)
    (hstatus : (200 ≤ status ∧ status < 300) ↔ ∀ e, body ≠ .error e) :
    requestReveal (.ok (status, some (payload body))) =
      match body with
      | .error e => .error e.message
      | .alreadySettled _ => .ok .already_settled
      | .revealed _ whitelistRoot members bids => .ok (.revealed bids members whitelistRoot) := by
  cases body with
  | error e =>
    simp [requestReveal, payload]
  | alreadySettled k =>
    have hok := hstatus.mpr nofun
    simp [requestReveal, payload, hok]
  | revealed k whitelistRoot members bids =>
    have hok := hstatus.mpr nofun
    have hwritten : ∀ {α : Type} (l : List α), (l.map some).mapM id = some l :=
      fun l => mapM_of_map (List.map_id _)
    simp [requestReveal, payload, hok, parseRevealedBids, parseMembers, hwritten]

end Client

section Bundles
variable {strKey : StrKey} {hash : List ℤ → ℤ} {auctionId : ℕ} {bundle : PastedBundle}

structure BundleFor (strKey : StrKey) (auctionId : ℕ) (bundle : PastedBundle) : Prop where
  auction : bundle.auctionId = auctionId
  price : 0 < bundle.winningPrice
  winner : (strKey.decodeEd25519PublicKey bundle.winnerAddress).isSome

theorem parseSettleBundle_for {pasteText : Pasted}
    (hparse : parseSettleBundle strKey pasteText auctionId = .ok bundle) :
    BundleFor strKey auctionId bundle := by
  simp only [parseSettleBundle, bind_eq_ok, pure_eq_ok, okOr_eq_ok, ensure_eq_ok, exists_const]
    at hparse
  obtain ⟨_, -, _, -, hid, _, -, -, winnerAddress, -, hwinner, price, -, hprice, _, -, _, -, _, -, _, -,
    rfl⟩ := hparse
  exact ⟨hid, not_le.mp hprice, hwinner⟩

theorem prepareSettle_for {auction : SealedStellar.AuctionView} {bids : List RevealedBid}
    {members : List String} {input : CircuitInput} {arguments : SettleArguments}
    (he : prepareSettle strKey hash auction bids members = .ok (input, arguments))
    (proof : VerifierProof) :
    BundleFor strKey auction.id (pasted { arguments with proof := proof }) := by
  simp only [prepareSettle, bind_eq_ok] at he
  obtain ⟨-, -, slots, -, hassemble⟩ := he
  obtain ⟨leaves, w, m, -, ha⟩ := assemble_ok hassemble
  obtain ⟨-, key, hkey, -⟩ := ha.member
  obtain ⟨hid, -, hprice⟩ := ha.arguments_eq
  exact ⟨by rw [pasted, hid], by rw [pasted, hprice]; exact ha.positive, by rw [pasted, hkey]; rfl⟩

theorem prove_for {proveCircuit : CircuitInput → Except String VerifierProof}
    {auction : SealedStellar.AuctionView} {bids : List RevealedBid} {members : List String}
    {settleBundle : SettleBundle}
    (he : proveSettleFromRevealedBids strKey hash proveCircuit auction bids members =
      .ok settleBundle) : BundleFor strKey auction.id (pasted settleBundle) := by
  simp only [proveSettleFromRevealedBids, bind_eq_ok] at he
  obtain ⟨⟨input, arguments⟩, hprepare, hproof⟩ := he
  cases hproved : proveCircuit input with
  | ok proof =>
    simp only [hproved] at hproof
    cases hproof
    exact prepareSettle_for hprepare proof
  | error detail =>
    simp only [hproved] at hproof
    cases hproof

theorem settleOperation_eq_some {operation : Call} (hb : BundleFor strKey auctionId bundle)
    (ho : settleOperation strKey bundle = some operation) : ∃ winner proof,
      strKey.decodeEd25519PublicKey bundle.winnerAddress = some winner ∧
      operation = .settle auctionId bundle.winnerIndex.toNat bundle.winningPrice (.account winner)
        proof := by
  simp only [settleOperation, Option.bind_eq_bind, Option.bind_eq_some_iff] at ho
  obtain ⟨winner, hwinner, proof, -, ho⟩ := ho
  split at ho
  · cases ho
    rw [hb.auction, Int.toNat_natCast]
    exact ⟨winner, proof, hwinner, rfl⟩
  · cases ho

structure Stepper.Kept (strKey : StrKey) (auctionId : ℕ) (stepper : Stepper) : Prop where
  bundle : ∀ bundle, stepper.bundle = some bundle → BundleFor strKey auctionId bundle
  reveal : match stepper.reveal with
    | .idle => True
    | .fetching auction | .proving auction _ _ => auction.id = auctionId ∧ stepper.provePhase.isSome

theorem newStepper_kept : newStepper.Kept strKey auctionId := ⟨nofun, trivial⟩

theorem Stepper.Kept.step {stepper : Stepper} (hk : stepper.Kept strKey auctionId) (a : StepperStep) :
    (stepper.step strKey hash auctionId a).Kept strKey auctionId := by
  have hreveal := hk.reveal
  cases a with
  | runReveal whitelistRoot =>
    simp only [Stepper.step]
    split
    · exact ⟨hk.bundle, rfl, rfl⟩
    · exact hk
  | revealed fetched =>
    simp only [Stepper.step]
    split
    · rename_i auction hfetching
      rw [hfetching] at hreveal
      split
      · exact ⟨hk.bundle, trivial⟩
      · exact ⟨hk.bundle, trivial⟩
      · exact ⟨hk.bundle, hreveal.1, rfl⟩
    · exact hk
  | phase phase =>
    simp only [Stepper.step]
    split
    · rename_i auction bids members hproving
      rw [hproving] at hreveal
      refine ⟨hk.bundle, ?_⟩
      simp only [hproving]
      exact ⟨hreveal.1, rfl⟩
    · exact hk
  | proved proveCircuit =>
    simp only [Stepper.step]
    split
    · rename_i auction bids members hproving
      rw [hproving] at hreveal
      split
      · exact ⟨hk.bundle, trivial⟩
      · rename_i settleBundle hproved
        refine ⟨fun bundle hbundle => ?_, trivial⟩
        cases hbundle
        rw [← hreveal.1]
        exact prove_for hproved
    · exact hk
  | loadPastedBundle pasteText =>
    simp only [Stepper.step]
    split
    · exact ⟨hk.bundle, hreveal⟩
    · rename_i parsed hparse
      refine ⟨fun bundle hbundle => ?_, hreveal⟩
      cases hbundle
      exact parseSettleBundle_for hparse
  | unsent detail =>
    simp only [Stepper.step]
    split
    · exact ⟨hk.bundle, hreveal⟩
    · exact hk

theorem Stepper.Kept.reveal_idle {stepper : Stepper} (hk : stepper.Kept strKey auctionId)
    (hready : stepper.bundle.isNone ∧ !stepper.isRevealing) : stepper.reveal = .idle := by
  have hreveal := hk.reveal
  obtain ⟨hnone, hready⟩ := hready
  cases hrun : stepper.reveal with
  | idle => rfl
  | _ =>
    rw [hrun] at hreveal
    simp [Stepper.isRevealing, hnone, hreveal.2] at hready

end Bundles

section Runs
variable {W : Type} {h : Host W} {g : Genesis W} {strKey : StrKey} {hash : List ℤ → ℤ} {auctionId : ℕ}
  {before calls : List (Action W)} {run : SettleRun W}

theorem submitInvocation_cases (source : Address) (operation : Call) (stage : Stage)
    (answer : Answer) :
    (∃ accountSequence nowSeconds, stage = .lookup ∧
      answer = .account (.ok accountSequence) nowSeconds) ∨
    submitInvocation source operation stage answer =
      (Submission.placeBid 0 source 0 []).resume stage answer := by
  rw [submitInvocation.eq_def]
  split
  · exact .inl ⟨_, _, rfl, rfl⟩
  · exact .inr rfl

theorem submission_resume (submission : Submission) (stage : Stage) (answer : Answer) :
    submission.resume stage answer =
      submitInvocation submission.sourceAddress submission.operation stage answer := by
  rw [submitInvocation.eq_def]
  split
  · rfl
  · rename_i hother
    rw [Submission.resume.eq_def, Submission.resume.eq_def]
    split
    case h_2 accountSequence nowSeconds => exact (hother accountSequence nowSeconds rfl rfl).elim
    all_goals simp_all

def SettleRun.action (run : SettleRun W) : Action W := .call [run.settler] run.operation

/-- The sent transaction is one of the calls that the contract has had since the page was opened, and
it ended well. -/
def SettleRun.Executed (h : Host W) (g : Genesis W) (before calls : List (Action W))
    (run : SettleRun W) : Prop :=
  ∃ tx earlier later after, run.sent = some ⟨tx, .executed (runFrom h g earlier) (.ok after)⟩ ∧
    before <+: earlier ∧ calls = earlier ++ run.action :: later ∧
    exec h [run.settler] run.operation (runFrom h g earlier) = .ok after

def SettleRun.Succeeded (run : SettleRun W) : Prop :=
  ∃ tx delivery, run.sent = some ⟨tx, delivery⟩ ∧ delivery.Succeeded

def Transaction.Carries (tx : Transaction) (run : SettleRun W) : Prop :=
  tx.source = run.settler ∧ tx.operation = run.operation

structure SettleRun.Kept (h : Host W) (g : Genesis W) (strKey : StrKey) (auctionId : ℕ)
    (before calls : List (Action W)) (run : SettleRun W) : Prop where
  bundle : BundleFor strKey auctionId run.bundle
  operation : settleOperation strKey run.bundle = some run.operation
  stage : match run.stage with
    | .preparing tx | .signing tx => tx.Carries run
    | .returned (.ok _) => run.Succeeded
    | _ => True
  sent : ∀ tx delivery, run.sent = some ⟨tx, delivery⟩ → tx.Carries run
  executed : run.Succeeded → run.Executed h g before calls

theorem SettleRun.Kept.signing {tx : Transaction} (hk : run.Kept h g strKey auctionId before calls)
    (hstage : run.stage = .signing tx) : tx.Carries run := by
  have hkept := hk.stage
  rw [hstage] at hkept
  exact hkept

theorem SettleRun.Kept.succeeded {txHash : String} (hk : run.Kept h g strKey auctionId before calls)
    (hstage : run.stage = .returned (.ok txHash)) : run.Succeeded := by
  have hkept := hk.stage
  rw [hstage] at hkept
  exact hkept

theorem SettleRun.Executed.more (he : run.Executed h g before calls) (later : List (Action W)) :
    run.Executed h g before (calls ++ later) := by
  obtain ⟨tx, earlier, rest, after, hsent, hopened, hcalls, hexec⟩ := he
  refine ⟨tx, earlier, rest ++ later, after, hsent, hopened, ?_, hexec⟩
  rw [hcalls, List.append_assoc, List.cons_append]

theorem SettleRun.Kept.more (hk : run.Kept h g strKey auctionId before calls)
    (later : List (Action W)) :
    run.Kept h g strKey auctionId before (calls ++ later) :=
  ⟨hk.bundle, hk.operation, hk.stage, hk.sent, fun hs => (hk.executed hs).more later⟩

theorem chainStatus_succeeded (hs : run.chainStatus = "SUCCESS") : run.Succeeded := by
  rw [SettleRun.chainStatus] at hs
  split at hs
  case h_1 tx before after hsent => exact ⟨tx, _, hsent, trivial⟩
  all_goals simp at hs

theorem answered_stage {answer : Answer} (hk : run.Kept h g strKey auctionId before calls)
    (ha : run.Answers answer) :
    match submitInvocation run.settler run.operation run.stage answer with
    | .preparing tx | .signing tx => tx.Carries run
    | .returned (.ok _) => run.Succeeded
    | _ => True := by
  obtain ⟨bundle, settler, operation, stage, sent⟩ := run
  have hstage := hk.stage
  obtain ⟨accountSequence, nowSeconds, rfl, rfl⟩ | hrest :=
    submitInvocation_cases settler operation stage answer
  · exact ⟨rfl, rfl⟩
  · dsimp only at hstage hrest ⊢
    have hadvance := resume_advance (.placeBid 0 settler 0 []) stage answer
    rw [hrest]
    generalize (Submission.placeBid 0 settler 0 []).resume stage answer = stage' at hadvance hrest
    cases hadvance with
    | ignored => exact hstage
    | built accountSequence nowSeconds =>
      rw [submitInvocation] at hrest
      cases hrest
      exact ⟨rfl, rfl⟩
    | prepared tx => exact hstage
    | confirmed txHash pollIndex fails => exact chainStatus_succeeded (ha (.inl rfl)).symm
    | _ => trivial

theorem answered_handed (run : SettleRun W) (answer : Answer) :
    (run.answered answer).sent = run.sent ∨
      ∃ tx, run.stage = .signing tx ∧ (run.answered answer).sent = some ⟨tx, .inFlight⟩ := by
  rw [SettleRun.answered.eq_def]
  dsimp only
  split
  case h_1 tx hstage => exact .inr ⟨tx, hstage, rfl⟩
  case h_2 => exact .inl rfl

theorem answered_kept_sent {answer : Answer} (hs : (run.answered answer).Succeeded) :
    (run.answered answer).sent = run.sent := by
  obtain ⟨tx, delivery, hsent, hd⟩ := hs
  refine (answered_handed run answer).resolve_right ?_
  rintro ⟨tx', -, hnew⟩
  rw [hnew] at hsent
  cases hsent
  exact hd

theorem answered_succeeded {answer : Answer} (hs : (run.answered answer).Succeeded) :
    run.Succeeded := by
  have hsame := answered_kept_sent hs
  obtain ⟨tx, delivery, hsent, hd⟩ := hs
  exact ⟨tx, delivery, hsame ▸ hsent, hd⟩

theorem SettleRun.Kept.answered {answer : Answer} (hk : run.Kept h g strKey auctionId before calls)
    (ha : run.Answers answer) : (run.answered answer).Kept h g strKey auctionId before calls := by
  have hstage := answered_stage hk ha
  refine ⟨hk.bundle, hk.operation, ?_, ?_, fun hs => ?_⟩
  · obtain hsame | ⟨tx, hsigning, -⟩ := answered_handed run answer
    · generalize hnext : submitInvocation run.settler run.operation run.stage answer = next at hstage
      have hanswered : (run.answered answer).stage = next := hnext
      rw [hanswered]
      cases next with
      | returned outcome =>
        cases outcome with
        | ok txHash =>
          obtain ⟨tx, delivery, hsent, hd⟩ := hstage
          exact ⟨tx, delivery, hsame.trans hsent, hd⟩
        | error failure => trivial
      | _ => exact hstage
    · have hanswered : (run.answered answer).stage =
          submitInvocation run.settler run.operation (.signing tx) answer := by
        rw [← hsigning]
        rfl
      have hcarries : tx.Carries run := hk.signing hsigning
      rw [hanswered]
      cases answer with
      | signed isOk =>
        cases isOk with
        | true => trivial
        | false => trivial
      | _ => exact hcarries
  · intro tx delivery hsent
    obtain hsame | ⟨tx', hsigning, hnew⟩ := answered_handed run answer
    · exact hk.sent tx delivery (hsame ▸ hsent)
    · rw [hnew] at hsent
      cases hsent
      exact hk.signing hsigning
  · obtain ⟨tx, earlier, later, after, hsent, hrest⟩ := hk.executed (answered_succeeded hs)
    exact ⟨tx, earlier, later, after, (answered_kept_sent hs).trans hsent, hrest⟩

theorem SettleRun.Kept.moved {tx : Transaction} {delivery delivery' : Delivery W}
    (hk : run.Kept h g strKey auctionId before calls) (hsent : run.sent = some ⟨tx, delivery⟩)
    (hs : delivery.Succeeded → delivery'.Succeeded)
    (he : delivery'.Succeeded →
      SettleRun.Executed h g before calls { run with sent := some ⟨tx, delivery'⟩ }) :
    SettleRun.Kept h g strKey auctionId before calls { run with sent := some ⟨tx, delivery'⟩ } := by
  refine ⟨hk.bundle, hk.operation, ?_, ?_, ?_⟩
  · have hstage := hk.stage
    obtain ⟨bundle, settler, operation, stage, sent⟩ := run
    cases stage with
    | returned outcome =>
      cases outcome with
      | ok txHash =>
        obtain ⟨tx', delivery'', heq, hd⟩ := hstage
        cases hsent.symm.trans heq
        exact ⟨tx, delivery', rfl, hs hd⟩
      | error failure => trivial
    | _ => exact hstage
  · intro tx' delivery'' heq
    cases heq
    exact hk.sent tx delivery hsent
  · rintro ⟨tx', delivery'', heq, hd⟩
    cases heq
    exact he hd

theorem settled_status {k i : ℕ} {price : ℤ} {winner : Address} {proof : VerifierProof}
    {signers : List Address} {earlier : List (Action W)} {after : State W}
    (he : exec h signers (.settle k i price winner proof) (runFrom h g earlier) = .ok after)
    (later : List (Action W)) :
    ∃ auction, (runFrom h g (earlier ++ .call signers (.settle k i price winner proof) ::
      later)).auctions k = some auction ∧ auction.status = .Settled := by
  have hafter : runFrom h g (earlier ++ [.call signers (.settle k i price winner proof)]) = after := by
    rw [runFrom_append, Runs.run_cons, Runs.run_nil, step_call_ok he]
  have hsplit : earlier ++ .call signers (.settle k i price winner proof) :: later =
      (earlier ++ [.call signers (.settle k i price winner proof)]) ++ later := by
    rw [List.append_assoc, List.singleton_append]
  obtain ⟨auction, bid, -, -, -, -, -, hp⟩ := settle_progress he
  have hnew : (runFrom h g (earlier ++ [.call signers (.settle k i price winner proof)])).auctions k =
      some (closed auction .Settled) := by
    rw [hafter]
    exact hp.auction_at
  obtain ⟨current, hsome, hlead⟩ := (followed_run g _ later hnew).record
  refine ⟨current, by rw [hsplit, hsome], ?_⟩
  by_contra hne
  have hopen := hlead.status hne
  cases hopen

/-- Once a run succeeded, no settlement of the auction does. -/
theorem SettleRun.Kept.last {other : SettleRun W} {after : State W}
    (hk : run.Kept h g strKey auctionId before calls) (hs : run.Succeeded)
    (ho : other.Kept h g strKey auctionId before calls) :
    exec h [other.settler] other.operation (runFrom h g calls) ≠ .ok after := by
  obtain ⟨winner, proof, -, hoperation⟩ := settleOperation_eq_some hk.bundle hk.operation
  obtain ⟨winner', proof', -, hoperation'⟩ := settleOperation_eq_some ho.bundle ho.operation
  obtain ⟨-, earlier, later, after', -, -, hcalls, he⟩ := hk.executed hs
  rw [hoperation] at he
  obtain ⟨auction, ha, hsettled⟩ := settled_status he later
  intro hother
  rw [hoperation'] at hother
  obtain ⟨current, -, hcurrent, hopen, -⟩ := settle_progress hother
  rw [SettleRun.action, hoperation] at hcalls
  rw [hcalls, ha] at hcurrent
  cases hcurrent
  rw [hopen] at hsettled
  cases hsettled

end Runs

def Canonical (strKey : StrKey) : Prop :=
  ∀ text key, strKey.decodeEd25519PublicKey text = some key → strKey.encode (.account key) = text

section Safety
variable {W : Type} {h : Host W} {g : Genesis W} {strKey : StrKey} {hash : List ℤ → ℤ} {auctionId : ℕ}
  {before : List (Action W)} {page : OperatorPage W} {run run' : SettleRun W} {index : ℕ}

/-- What stays true of the page: the runs are for its auction, at most one succeeded, and the room was
told of nothing else, and only once. -/
structure OperatorPage.Kept (h : Host W) (g : Genesis W) (strKey : StrKey) (auctionId : ℕ)
    (before : List (Action W)) (page : OperatorPage W) : Prop where
  opened : before <+: page.calls
  stepper : page.stepper.Kept strKey auctionId
  runs : ∀ run ∈ page.runs, run.Kept h g strKey auctionId before page.calls
  once : ∀ (i j : ℕ) (run other : SettleRun W), page.runs[i]? = some run →
    page.runs[j]? = some other → run.Succeeded → other.Succeeded → i = j
  told : ∀ result ∈ page.settled, ∃ (i : ℕ) (run : SettleRun W), page.runs[i]? = some run ∧
    run.stage = .returned (.ok result.txHash) ∧ result = settleResult run.bundle result.txHash
  one : page.settled.length ≤ 1

theorem openPage_kept (h : Host W) (g : Genesis W) (strKey : StrKey) (auctionId : ℕ)
    (before : List (Action W)) : (openPage before).Kept h g strKey auctionId before where
  opened := List.prefix_rfl
  stepper := newStepper_kept
  runs := List.forall_mem_nil _
  once := fun i j run other hrun => by cases hrun
  told := List.forall_mem_nil _
  one := Nat.zero_le _

theorem OperatorPage.Kept.run_at (hk : page.Kept h g strKey auctionId before)
    (hindex : page.runs[index]? = some run) : run.Kept h g strKey auctionId before page.calls :=
  hk.runs run (List.mem_of_getElem? hindex)

theorem OperatorPage.Kept.more (hk : page.Kept h g strKey auctionId before)
    (later : List (Action W)) :
    OperatorPage.Kept h g strKey auctionId before { page with calls := page.calls ++ later } where
  opened := hk.opened.trans (List.prefix_append _ _)
  stepper := hk.stepper
  runs := fun run hrun => (hk.runs run hrun).more later
  once := hk.once
  told := hk.told
  one := hk.one

theorem OperatorPage.Kept.withStepper (hk : page.Kept h g strKey auctionId before) {stepper : Stepper}
    (hs : stepper.Kept strKey auctionId) :
    OperatorPage.Kept h g strKey auctionId before { page with stepper := stepper } :=
  ⟨hk.opened, hs, hk.runs, hk.once, hk.told, hk.one⟩

theorem set_cases {α : Type} {l : List α} {i j : ℕ} {a b : α} (hset : (l.set i a)[j]? = some b) :
    (j = i ∧ b = a) ∨ (j ≠ i ∧ l[j]? = some b) := by
  by_cases hji : j = i
  · subst hji
    obtain ⟨hlt, hget⟩ := List.getElem?_eq_some_iff.mp hset
    rw [List.getElem_set_self] at hget
    exact .inl ⟨rfl, hget.symm⟩
  · rw [List.getElem?_set_ne (Ne.symm hji)] at hset
    exact .inr ⟨hji, hset⟩

theorem OperatorPage.Kept.setRun (hk : page.Kept h g strKey auctionId before)
    (hindex : page.runs[index]? = some run) (hk' : run'.Kept h g strKey auctionId before page.calls)
    (hsame : ∀ outcome, run.stage = .returned outcome →
      run'.stage = run.stage ∧ run'.bundle = run.bundle)
    (hfirst : run'.Succeeded → ∀ (j : ℕ) (other : SettleRun W), page.runs[j]? = some other →
      other.Succeeded → j = index) :
    (page.setRun index run').Kept h g strKey auctionId before := by
  refine ⟨hk.opened, hk.stepper, forall_set hk.runs hk', ?_, ?_, hk.one⟩
  · intro i j first second hi hj hs hs'
    obtain ⟨rfl, rfl⟩ | ⟨-, hold⟩ := set_cases hi
    · obtain ⟨rfl, -⟩ | ⟨-, hold'⟩ := set_cases hj
      · rfl
      · exact (hfirst hs j second hold' hs').symm
    · obtain ⟨rfl, rfl⟩ | ⟨-, hold'⟩ := set_cases hj
      · exact hfirst hs' i first hold hs
      · exact hk.once i j first second hold hold' hs hs'
  · intro result hresult
    obtain ⟨i, settledRun, hi, hstage, hshown⟩ := hk.told result hresult
    by_cases hii : i = index
    · subst hii
      rw [hindex, Option.some.injEq] at hi
      subst hi
      obtain ⟨hstage', hbundle⟩ := hsame _ hstage
      refine ⟨i, run', List.getElem?_set_self (List.getElem?_eq_some_iff.mp hindex).1,
        hstage'.trans hstage, ?_⟩
      rw [hbundle]
      exact hshown
    · refine ⟨i, settledRun, ?_, hstage, hshown⟩
      rw [OperatorPage.setRun, List.getElem?_set_ne (Ne.symm hii)]
      exact hi

theorem returned_stays (source : Address) (operation : Call)
    (outcome : Except InvocationFailure String) (answer : Answer) :
    submitInvocation source operation (.returned outcome) answer = .returned outcome := by
  cases answer <;> rfl

theorem OperatorPage.Kept.answered {answer : Answer} (hk : page.Kept h g strKey auctionId before)
    (hindex : page.runs[index]? = some run) (ha : run.Answers answer) :
    (page.setRun index (run.answered answer)).Kept h g strKey auctionId before := by
  refine hk.setRun hindex ((hk.run_at hindex).answered ha) (fun outcome hreturned => ?_) ?_
  · refine ⟨?_, rfl⟩
    change submitInvocation run.settler run.operation run.stage answer = run.stage
    rw [hreturned, returned_stays]
  · intro hs j other hj ho
    exact hk.once j index other run hj hindex ho (answered_succeeded hs)

theorem returnsNow_eq_some {stage stage' : Stage} {outcome : Except InvocationFailure String}
    (hnow : returnsNow stage stage' = some outcome) :
    (∀ earlier, stage ≠ .returned earlier) ∧ stage' = .returned outcome := by
  cases stage with
  | returned earlier => cases hnow
  | _ =>
    cases stage' with
    | returned outcome' =>
      cases hnow
      exact ⟨nofun, rfl⟩
    | _ => cases hnow

/-- The room is told of the first success, and there is no second. -/
theorem OperatorPage.Kept.told_first {answer : Answer} {txHash : String}
    (hk : page.Kept h g strKey auctionId before) (hindex : page.runs[index]? = some run)
    (ha : run.Answers answer)
    (hnow : returnsNow run.stage (run.answered answer).stage = some (.ok txHash)) :
    page.settled = [] := by
  obtain ⟨hwaited, hreturned⟩ := returnsNow_eq_some hnow
  have hs : run.Succeeded :=
    answered_succeeded (((hk.run_at hindex).answered ha).succeeded hreturned)
  refine List.eq_nil_iff_forall_not_mem.mpr fun result hresult => ?_
  obtain ⟨i, earlier, hi, hstage, -⟩ := hk.told result hresult
  have hearlier : earlier.Succeeded := (hk.run_at hi).succeeded hstage
  have hii := hk.once i index earlier run hi hindex hearlier hs
  subst hii
  rw [hindex, Option.some.injEq] at hi
  subst hi
  exact hwaited _ hstage

theorem OperatorPage.Kept.settledWith {answer : Answer} (hk : page.Kept h g strKey auctionId before)
    (hindex : page.runs[index]? = some run) (ha : run.Answers answer) :
    ((page.setRun index (run.answered answer)).settledWith index run.bundle
      (returnsNow run.stage (run.answered answer).stage)).Kept h g strKey auctionId before := by
  have hset := hk.answered hindex ha
  cases hnow : returnsNow run.stage (run.answered answer).stage with
  | none => exact hset
  | some outcome =>
    cases outcome with
    | error failure =>
      simp only [OperatorPage.settledWith]
      split
      · exact hset.withStepper ⟨hset.stepper.bundle, hset.stepper.reveal⟩
      · exact hset
    | ok txHash =>
      have hnone := hk.told_first hindex ha hnow
      have hreturned := (returnsNow_eq_some hnow).2
      refine ⟨hset.opened, hset.stepper, hset.runs, hset.once, fun result hresult => ?_, ?_⟩
      · simp only [OperatorPage.settledWith, OperatorPage.setRun, hnone, List.nil_append,
          List.mem_singleton] at hresult
        subst hresult
        exact ⟨index, run.answered answer,
          List.getElem?_set_self (List.getElem?_eq_some_iff.mp hindex).1, hreturned, rfl⟩
      · simp [OperatorPage.settledWith, OperatorPage.setRun, hnone]

theorem carried_succeeded_iff {delivery : Delivery W} {fate : Fate} :
    (delivery.carried fate).Succeeded ↔ delivery.Succeeded := by
  cases delivery with
  | executed before result => rfl
  | _ => cases fate <;> rfl

theorem OperatorPage.Kept.carried (hk : page.Kept h g strKey auctionId before)
    (hindex : page.runs[index]? = some run) (fate : Fate) :
    (page.setRun index { run with sent := run.sent.map fun sent =>
      ⟨sent.tx, sent.delivery.carried fate⟩ }).Kept h g strKey auctionId before := by
  have hrun := hk.run_at hindex
  cases hsent : run.sent with
  | none =>
    have hsame : { run with sent := none } = run := by rw [← hsent]
    rw [Option.map_none, hsame]
    exact hk.setRun hindex hrun (fun _ _ => ⟨rfl, rfl⟩) fun hs j other hj ho =>
      hk.once j index other run hj hindex ho hs
  | some sent =>
    obtain ⟨tx, delivery⟩ := sent
    have hback : (delivery.carried fate).Succeeded → run.Succeeded := fun hs =>
      ⟨tx, delivery, hsent, carried_succeeded_iff.mp hs⟩
    have hcarried : (delivery.carried fate).Succeeded → SettleRun.Executed h g before page.calls
        { run with sent := some ⟨tx, delivery.carried fate⟩ } := by
      intro hs
      have hsame : delivery.carried fate = delivery := by
        cases delivery with
        | executed before result => rfl
        | _ => cases fate <;> exact hs.elim
      rw [hsame, ← hsent]
      exact hrun.executed (hback hs)
    refine hk.setRun hindex (hrun.moved hsent carried_succeeded_iff.mpr hcarried)
      (fun _ _ => ⟨rfl, rfl⟩) ?_
    rintro ⟨tx', delivery', heq, hs⟩ j other hj ho
    cases heq
    exact hk.once j index other run hj hindex ho (hback hs)

theorem OperatorPage.Kept.executed {tx : Transaction} (hk : page.Kept h g strKey auctionId before)
    (hindex : page.runs[index]? = some run) (hsent : run.sent = some ⟨tx, .pooled⟩)
    {result : Except Failure (State W)}
    (hresult : ∀ after, result = .ok after → exec h [tx.source] tx.operation (page.chain h g) =
      .ok after) :
    OperatorPage.Kept h g strKey auctionId before
      { page.setRun index { run with sent := some ⟨tx, .executed (page.chain h g) result⟩ } with
        calls := page.calls ++ if result.isOk then [.call [tx.source] tx.operation] else [] } := by
  have hrun := hk.run_at hindex
  cases result with
  | error failure =>
    have hmoved : SettleRun.Kept h g strKey auctionId before (page.calls ++ [])
        { run with sent := some ⟨tx, .executed (page.chain h g) (.error failure)⟩ } :=
      ((hk.more []).run_at hindex).moved hsent (fun hs => hs.elim) fun hs => hs.elim
    refine (hk.more []).setRun hindex hmoved (fun _ _ => ⟨rfl, rfl⟩) ?_
    rintro ⟨tx', delivery', heq, hs⟩
    cases heq
    exact hs.elim
  | ok after =>
    obtain ⟨hsource, hoperation⟩ := hrun.sent tx .pooled hsent
    have he := hresult after rfl
    rw [hsource, hoperation] at he
    have haction : (.call [tx.source] tx.operation : Action W) = run.action := by
      rw [SettleRun.action, hsource, hoperation]
    have hmoved : SettleRun.Kept h g strKey auctionId before
        (page.calls ++ [.call [tx.source] tx.operation])
        { run with sent := some ⟨tx, .executed (page.chain h g) (.ok after)⟩ } :=
      ((hk.more [.call [tx.source] tx.operation]).run_at hindex).moved hsent (fun hs => hs.elim)
        fun _ => ⟨tx, page.calls, [], after, rfl, hk.opened, by rw [haction]; rfl, he⟩
    refine (hk.more [.call [tx.source] tx.operation]).setRun hindex hmoved (fun _ _ => ⟨rfl, rfl⟩) ?_
    intro _ j other hj ho
    exact absurd he ((hk.run_at hj).last ho hrun)

theorem OperatorPage.Kept.begun (hk : page.Kept h g strKey auctionId before)
    (hrun : run.Kept h g strKey auctionId before page.calls) (hunsent : run.sent = none) :
    OperatorPage.Kept h g strKey auctionId before { page with runs := page.runs ++ [run] } := by
  have hold : ∀ {i : ℕ} {other : SettleRun W}, (page.runs ++ [run])[i]? = some other →
      other.Succeeded → page.runs[i]? = some other := by
    intro i other hi ho
    rw [List.getElem?_append] at hi
    split at hi
    · exact hi
    · have hnew := List.mem_singleton.mp (List.mem_of_getElem? hi)
      obtain ⟨tx, delivery, hsent, -⟩ := ho
      rw [hnew, hunsent] at hsent
      cases hsent
  refine ⟨hk.opened, hk.stepper, List.forall_mem_append.mpr ⟨hk.runs, ?_⟩, ?_, ?_, hk.one⟩
  · exact List.forall_mem_singleton.mpr hrun
  · intro i j first second hi hj hs hs'
    exact hk.once i j first second (hold hi hs) (hold hj hs') hs hs'
  · intro result hresult
    obtain ⟨i, earlier, hi, hshown⟩ := hk.told result hresult
    exact ⟨i, earlier, (List.getElem?_append_left (List.getElem?_eq_some_iff.mp hi).1).trans hi, hshown⟩

theorem OperatorPage.Kept.runSettle (hk : page.Kept h g strKey auctionId before)
    (settlerAddress : Address) :
    (page.runSettle strKey settlerAddress).Kept h g strKey auctionId before := by
  have hs : ∀ settlePhase settleError awaited, Stepper.Kept strKey auctionId
      { page.stepper with settlePhase := settlePhase, settleError := settleError
                          awaited := awaited } :=
    fun _ _ _ => ⟨hk.stepper.bundle, hk.stepper.reveal⟩
  rw [OperatorPage.runSettle.eq_def]
  split
  · rename_i bundle hbundle
    split
    · exact hk
    · dsimp only
      split
      · rename_i operation hoperation
        have hrun : SettleRun.Kept h g strKey auctionId before page.calls
            ⟨bundle, settlerAddress, operation, .lookup, none⟩ := by
          refine ⟨hk.stepper.bundle bundle hbundle, hoperation, trivial, ?_, ?_⟩
          · intro tx delivery hsent
            cases hsent
          · intro hsucceeded
            obtain ⟨tx, delivery, hsent, -⟩ := hsucceeded
            cases hsent
        exact (hk.withStepper (hs .settling none (some page.runs.length))).begun hrun rfl
      · exact hk.withStepper (hs _ _ _)
  · exact hk

theorem operatorStep_kept (page : OperatorPage W) (a : OperatorStep W)
    (hk : page.Kept h g strKey auctionId before) :
    (operatorStep h g strKey hash auctionId page a).Kept h g strKey auctionId before := by
  cases a with
  | elsewhere a => exact hk.more [a]
  | stepper a => exact hk.withStepper (hk.stepper.step a)
  | remount => exact hk.withStepper newStepper_kept
  | runSettle settlerAddress => exact hk.runSettle settlerAddress
  | answered index answer =>
    simp only [operatorStep]
    split
    · rename_i run hindex
      split
      · rename_i ha
        exact hk.settledWith hindex ha
      · exact hk
    · exact hk
  | carried index fate =>
    simp only [operatorStep]
    split
    · rename_i run hindex
      exact hk.carried hindex fate
    · exact hk
  | executed index fits =>
    simp only [operatorStep]
    split
    · rename_i run hindex
      split
      · rename_i tx hsent
        refine hk.executed hindex hsent fun after hafter => ?_
        cases fits with
        | false => cases hafter
        | true => exact hafter
      · exact hk
    · exact hk

theorem operatorPage_kept (h : Host W) (g : Genesis W) (strKey : StrKey) (hash : List ℤ → ℤ)
    (auctionId : ℕ) (before : List (Action W)) (steps : List (OperatorStep W)) :
    (Runs.run (operatorStep h g strKey hash auctionId) (openPage before) steps).Kept h g strKey
      auctionId before :=
  Runs.run_invariant' operatorStep_kept (openPage_kept h g strKey auctionId before) steps

theorem settlement_shown (hcanon : Canonical strKey) {result : SettleResult} {key : Key}
    {proof : VerifierProof} {settler : Address} {earlier : List (Action W)} {after : State W}
    (hkey : strKey.decodeEd25519PublicKey result.winnerAddress = some key)
    (he : exec h [settler] (.settle auctionId result.winnerIndex result.winningPrice (.account key)
      proof) (runFrom h g earlier) = .ok after) (later : List (Action W)) :
    let s := runFrom h g (earlier ++ .call [settler] (.settle auctionId result.winnerIndex
      result.winningPrice (.account key) proof) :: later)
    ∃ auction, s.auctions auctionId = some auction ∧ auction.status = .Settled ∧
      auction.bids[result.winnerIndex]?.map Bid.bidder = some (.account key) ∧
      ∀ txHash info, SettledAs strKey txHash s auctionId info →
        roomClearingPrice (some result) none = roomClearingPrice none (some info) ∧
        roomWinnerAddress (some result) none = roomWinnerAddress none (some info) := by
  intro s
  obtain ⟨auction, ha, hbid, ledger, hevent⟩ := settled_kept he later
  obtain ⟨current, hcurrent, hsettled⟩ := settled_status he later
  rw [ha, Option.some.injEq] at hcurrent
  subst hcurrent
  refine ⟨auction, ha, hsettled, hbid, fun txHash info hinfo => ?_⟩
  have hunique := SettledAs.unique (run_recounted g _) hinfo ⟨ledger, _, _, hevent, rfl⟩
  subst hunique
  refine ⟨rfl, ?_⟩
  rw [roomWinnerAddress, roomWinnerAddress, Option.map_some, ← hcanon _ _ hkey]
  rfl

end Safety

/-- However often the operator reveals, pastes, settles and leaves the stepper, whatever the endpoint,
the prover, the network and other callers do: the room is told of one settlement at most, and that is
a run of this page whose transaction the contract executed. From then on the auction is settled, the
slot shown is one that the winner bid in, and price and winner are those of the contract's event. -/
theorem own_settlement_shown {W : Type} (h : Host W) (g : Genesis W) (strKey : StrKey)
    (hcanon : Canonical strKey) (hash : List ℤ → ℤ) (auctionId : ℕ) (before : List (Action W))
    (steps : List (OperatorStep W)) :
    let page := Runs.run (operatorStep h g strKey hash auctionId) (openPage before) steps
    page.settled.length ≤ 1 ∧ ∀ result ∈ page.settled, ∃ run ∈ page.runs,
      (run.stage = .returned (.ok result.txHash) ∧ result = settleResult run.bundle result.txHash) ∧
      ∃ tx earlier later winner proof after,
        run.sent = some ⟨tx, .executed (runFrom h g earlier) (.ok after)⟩ ∧
        (tx.source = run.settler ∧ tx.operation = .settle auctionId result.winnerIndex
          result.winningPrice winner proof) ∧
        before <+: earlier ∧ page.calls = earlier ++ .call [tx.source] tx.operation :: later ∧
        exec h [tx.source] tx.operation (runFrom h g earlier) = .ok after ∧
        ∀ more, let s := runFrom h g (page.calls ++ more)
          ∃ auction, s.auctions auctionId = some auction ∧ auction.status = .Settled ∧
            auction.bids[result.winnerIndex]?.map Bid.bidder = some winner ∧
            ∀ txHash info, SettledAs strKey txHash s auctionId info →
              roomClearingPrice (some result) none = roomClearingPrice none (some info) ∧
              roomWinnerAddress (some result) none = roomWinnerAddress none (some info) := by
  intro page
  have hk : page.Kept h g strKey auctionId before :=
    operatorPage_kept h g strKey hash auctionId before steps
  refine ⟨hk.one, fun result hresult => ?_⟩
  obtain ⟨i, run, hi, hstage, hshown⟩ := hk.told result hresult
  have hrun := hk.run_at hi
  obtain ⟨key, proof, hkey, hoperation⟩ := settleOperation_eq_some hrun.bundle hrun.operation
  obtain ⟨tx, earlier, later, after, hsent, hopened, hcalls, he⟩ :=
    hrun.executed (hrun.succeeded hstage)
  obtain ⟨hsource, hcarried⟩ := hrun.sent tx _ hsent
  have hnamed : run.operation = .settle auctionId result.winnerIndex result.winningPrice
      (.account key) proof := by
    rw [hshown]
    exact hoperation
  have hwinner : strKey.decodeEd25519PublicKey result.winnerAddress = some key := by
    rw [hshown]
    exact hkey
  rw [SettleRun.action, ← hsource, ← hcarried] at hcalls
  rw [← hsource, ← hcarried] at he
  rw [← hcarried] at hnamed
  refine ⟨run, List.mem_of_getElem? hi, ⟨hstage, hshown⟩, tx, earlier, later, .account key, proof, after,
    hsent, ⟨hsource, hnamed⟩, hopened, hcalls, he, fun more => ?_⟩
  rw [hnamed] at hcalls he
  rw [hcalls, List.append_assoc, List.cons_append]
  exact settlement_shown hcanon hwinner he (later ++ more)

theorem sep23_canonical : Canonical sep23 := by
  intro text key hkey
  simp only [sep23, Option.ite_none_right_eq_some] at hkey
  obtain ⟨htext, hsame⟩ := hkey
  rw [Option.some.injEq] at hsame
  rw [hsame] at htext
  exact htext.symm

def zeroHex (bytes : ℕ) : Field := .text (.ofList (List.replicate (2 * bytes) '0'))

def settleSteps : List (OperatorStep SacState) := [
  .stepper (.loadPastedBundle (.record ⟨.number 1, .number 0, .text "2",
    .text (sep23.encode (.account (keyOf 3))), some ⟨zeroHex 64, zeroHex 128, zeroHex 64⟩⟩)),
  .runSettle (.account (keyOf 5)), .answered 0 (.account (.ok 7) 0), .answered 0 (.prepared (.ok ())),
  .answered 0 (.signed true), .carried 0 .delivered, .executed 0 true,
  .answered 0 (.sent (some ⟨"PENDING", "ab"⟩)), .answered 0 (.polled (.ok "SUCCESS"))]

theorem settleSteps_told :
    (Runs.run (operatorStep markHost markGenesis sep23 (poseidonHasher markHost.poseidon) 1)
      (openPage (markActions (.account (keyOf 3)))) settleSteps).settled.map
        SettleResult.winningPrice = [2] := by
  decide +kernel

theorem own_settlement_shown_at : ∃ (page : OperatorPage SacState) (result : SettleResult),
    page = Runs.run (operatorStep markHost markGenesis sep23 (poseidonHasher markHost.poseidon) 1)
      (openPage (markActions (.account (keyOf 3)))) settleSteps ∧
    page.settled = [result] ∧ result.winningPrice = 2 ∧ (∃ run, run ∈ page.runs) ∧
    ∃ auction, (runFrom markHost markGenesis page.calls).auctions 1 = some auction ∧
      auction.status = .Settled := by
  obtain ⟨-, hshown⟩ := own_settlement_shown markHost markGenesis sep23 sep23_canonical
    (poseidonHasher markHost.poseidon) 1 (markActions (.account (keyOf 3))) settleSteps
  have htold := settleSteps_told
  generalize hpage : Runs.run (operatorStep markHost markGenesis sep23
    (poseidonHasher markHost.poseidon) 1) (openPage (markActions (.account (keyOf 3)))) settleSteps =
      page at hshown htold
  obtain ⟨result, hsettled, hprice⟩ := List.map_eq_singleton_iff.mp htold
  have hmem : result ∈ page.settled := hsettled ▸ List.mem_singleton.mpr rfl
  obtain ⟨run, hrun, -, _, _, _, _, _, _, -, -, -, -, -, hlater⟩ := hshown result hmem
  obtain ⟨auction, ha, hstatus, -⟩ := hlater []
  rw [List.append_nil] at ha
  exact ⟨page, result, rfl, hsettled, hprice, ⟨run, hrun⟩, auction, ha, hstatus⟩

end SealedStellar.Web
