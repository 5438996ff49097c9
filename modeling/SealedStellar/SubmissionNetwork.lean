import SealedStellar.Submission
import SealedStellar.Lifecycle
import Mathlib.Algebra.BigOperators.Group.List.Basic

/-! The submissions of the page on a network that loses requests and answers, and a chain that
executes what reached it. -/
namespace SealedStellar.Web

section Model
variable {W : Type} (h : Host W)

/-- How far a transaction got that was handed to sendTransaction. -/
inductive Delivery (W : Type) where
  | inFlight
  | lost
  | pooled
  | dropped
  | executed (before : State W) (result : Except Failure (State W))

inductive Fate where
  | lost | delivered | dropped

def Delivery.carried : Delivery W → Fate → Delivery W
  | .inFlight, .lost => .lost
  | .inFlight, .delivered => .pooled
  | .pooled, .dropped => .dropped
  | delivery, _ => delivery

def Delivery.arrived : Delivery W → Bool
  | .inFlight | .lost => false
  | .pooled | .dropped | .executed _ _ => true

structure SentTransaction (W : Type) where
  tx : Transaction
  delivery : Delivery W

structure Attempt (W : Type) where
  submission : Submission
  stage : Stage
  sent : Option (SentTransaction W)

structure Network (W : Type) where
  chain : State W
  sequenceOf : Address → ℕ
  attempts : List (Attempt W)

/-- What happens next. Elsewhere others act, and the same accounts may as well; fits is false where
the resources declared by the simulation do not suffice. -/
inductive NetworkStep (W : Type) where
  | elsewhere (a : Action W)
  | spent (account : Address) (sequence : ℕ)
  | submit (submission : Submission)
  | answered (index : ℕ) (answer : Answer)
  | carried (index : ℕ) (fate : Fate)
  | executed (index : ℕ) (fits : Bool)

def Submission.call (submission : Submission) : Attempt W := ⟨submission, .lookup, none⟩

def Attempt.answered (attempt : Attempt W) (answer : Answer) : Attempt W where
  submission := attempt.submission
  stage := attempt.submission.resume attempt.stage answer
  sent :=
    match attempt.stage, answer with
    | .signing preparedTransaction, .signed true => some ⟨preparedTransaction, .inFlight⟩
    | _, _ => attempt.sent

def Attempt.chainStatus (attempt : Attempt W) : String :=
  match attempt.sent with
  | some ⟨_, .executed _ (.ok _)⟩ => "SUCCESS"
  | some ⟨_, .executed _ (.error _)⟩ => "FAILED"
  | _ => "NOT_FOUND"

variable (network : Network W)

/-- A server knows the account as of some ledger, answers only the requests that reach it, and
reports the outcome of no transaction before it has one. Any request can fail. -/
def Network.Answers (attempt : Attempt W) : Answer → Prop
  | .account (.ok accountSequence) _ =>
    accountSequence ≤ network.sequenceOf attempt.submission.sourceAddress
  | .sent (some _) => attempt.sent.any fun sent => sent.delivery.arrived
  | .polled (.ok status) => status = "SUCCESS" ∨ status = "FAILED" → status = attempt.chainStatus
  | _ => True

instance (attempt : Attempt W) (answer : Answer) : Decidable (network.Answers attempt answer) :=
  match answer with
  | .account (.ok _) _ => inferInstanceAs (Decidable (_ ≤ _))
  | .sent (some _) => inferInstanceAs (Decidable (_ = true))
  | .polled (.ok _) => inferInstanceAs (Decidable (_ → _ = _))
  | .account (.error _) _ | .prepared _ | .signed _ | .sent none | .polled (.error _) =>
    isTrue trivial

def Network.Includes (tx : Transaction) : Prop :=
  tx.seqNum = network.sequenceOf tx.source + 1 ∧ network.chain.timestamp ≤ tx.maxTime

instance (tx : Transaction) : Decidable (network.Includes tx) :=
  inferInstanceAs (Decidable (_ ∧ _))

def Network.execution (tx : Transaction) (fits : Bool) : Except Failure (State W) :=
  if fits then exec h [tx.source] tx.operation network.chain else .error .trap

/-- A failed transaction uses up its sequence number as well. -/
def Network.apply (tx : Transaction) (result : Except Failure (State W)) : Network W :=
  { network with
    chain := match result with
      | .ok after => after
      | .error _ => network.chain
    sequenceOf := Function.update network.sequenceOf tx.source tx.seqNum }

def Network.setAttempt (index : ℕ) (attempt : Attempt W) : Network W :=
  { network with attempts := network.attempts.set index attempt }

def networkStep : NetworkStep W → Network W
  | .elsewhere a => { network with chain := step h network.chain a }
  | .spent account sequence =>
    if network.sequenceOf account ≤ sequence then
      { network with sequenceOf := Function.update network.sequenceOf account sequence }
    else network
  | .submit submission => { network with attempts := network.attempts ++ [submission.call] }
  | .answered index answer =>
    match network.attempts[index]? with
    | some attempt =>
      if network.Answers attempt answer then network.setAttempt index (attempt.answered answer)
      else network
    | none => network
  | .carried index fate =>
    match network.attempts[index]? with
    | some ⟨submission, stage, some ⟨tx, delivery⟩⟩ =>
      network.setAttempt index ⟨submission, stage, some ⟨tx, delivery.carried fate⟩⟩
    | _ => network
  | .executed index fits =>
    match network.attempts[index]? with
    | some ⟨submission, stage, some ⟨tx, .pooled⟩⟩ =>
      if network.Includes tx then
        let result := network.execution h tx fits
        (network.apply tx result).setAttempt index
          ⟨submission, stage, some ⟨tx, .executed network.chain result⟩⟩
      else network
    | _ => network

def startNetwork (g : Genesis W) (actions : List (Action W)) (sequenceOf : Address → ℕ) :
    Network W :=
  ⟨runFrom h g actions, sequenceOf, []⟩

end Model

section Steps
variable {W : Type} {h : Host W} {network : Network W}

inductive Network.Change (h : Host W) (network : Network W) : NetworkStep W → Network W → Prop
  | ignored (a : NetworkStep W) (hmine : ∀ action, a ≠ .elsewhere action) :
      Change h network a network
  | elsewhere (a : Action W) :
      Change h network (.elsewhere a) { network with chain := step h network.chain a }
  | spent (account : Address) (sequence : ℕ) (hle : network.sequenceOf account ≤ sequence) :
      Change h network (.spent account sequence)
        { network with sequenceOf := Function.update network.sequenceOf account sequence }
  | submit (submission : Submission) :
      Change h network (.submit submission)
        { network with attempts := network.attempts ++ [submission.call] }
  | answered (index : ℕ) (attempt : Attempt W) (answer : Answer)
      (hindex : network.attempts[index]? = some attempt)
      (hanswer : network.Answers attempt answer) :
      Change h network (.answered index answer)
        (network.setAttempt index (attempt.answered answer))
  | carried (index : ℕ) (attempt : Attempt W) (tx : Transaction) (delivery : Delivery W)
      (fate : Fate) (hindex : network.attempts[index]? = some attempt)
      (hsent : attempt.sent = some ⟨tx, delivery⟩) :
      Change h network (.carried index fate)
        (network.setAttempt index { attempt with sent := some ⟨tx, delivery.carried fate⟩ })
  | executed (index : ℕ) (attempt : Attempt W) (tx : Transaction) (fits : Bool)
      (hindex : network.attempts[index]? = some attempt)
      (hsent : attempt.sent = some ⟨tx, .pooled⟩) (hincludes : network.Includes tx) :
      Change h network (.executed index fits)
        ((network.apply tx (network.execution h tx fits)).setAttempt index
          { attempt with
            sent := some ⟨tx, .executed network.chain (network.execution h tx fits)⟩ })

theorem networkStep_change (network : Network W) (a : NetworkStep W) :
    Network.Change h network a (networkStep h network a) := by
  cases a with
  | elsewhere a => exact .elsewhere a
  | spent account sequence =>
    rw [networkStep]
    split
    case isTrue hle => exact .spent account sequence hle
    case isFalse => exact .ignored _ (by simp)
  | submit submission => exact .submit submission
  | answered index answer =>
    rw [networkStep]
    split
    case h_1 attempt hindex =>
      split
      case isTrue hanswer => exact .answered index attempt answer hindex hanswer
      case isFalse => exact .ignored _ (by simp)
    case h_2 => exact .ignored _ (by simp)
  | carried index fate =>
    rw [networkStep]
    split
    case h_1 submission stage tx delivery hindex =>
      exact .carried index ⟨submission, stage, _⟩ tx delivery fate hindex rfl
    case h_2 => exact .ignored _ (by simp)
  | executed index fits =>
    rw [networkStep]
    split
    case h_1 submission stage tx hindex =>
      split
      case isTrue hincludes =>
        exact .executed index ⟨submission, stage, _⟩ tx fits hindex rfl hincludes
      case isFalse => exact .ignored _ (by simp)
    case h_2 => exact .ignored _ (by simp)

end Steps

section Invariant
variable {W : Type} {h : Host W} {network network' : Network W} {attempt : Attempt W}
  {submission : Submission} {tx : Transaction}

structure Transaction.BuiltFor (tx : Transaction) (network : Network W) (submission : Submission) :
    Prop where
  source : tx.source = submission.sourceAddress
  operation : tx.operation = submission.operation
  seqNum : tx.seqNum ≤ network.sequenceOf tx.source + 1

def Delivery.Kept (h : Host W) (submission : Submission) : Delivery W → Prop
  | .executed before (.ok after) => before.Valid ∧
    exec h [submission.sourceAddress] submission.operation before = .ok after
  | _ => True

def Delivery.Succeeded : Delivery W → Prop
  | .executed _ (.ok _) => True
  | _ => False

def Stage.Kept (network : Network W) (submission : Submission)
    (sent : Option (SentTransaction W)) : Stage → Prop
  | .lookup => sent = none
  | .preparing tx | .signing tx => sent = none ∧ tx.BuiltFor network submission
  | .returned (.ok _) => ∃ tx delivery, sent = some ⟨tx, delivery⟩ ∧ delivery.Succeeded
  | _ => True

structure Attempt.Kept (h : Host W) (network : Network W) (attempt : Attempt W) : Prop where
  stage : attempt.stage.Kept network attempt.submission attempt.sent
  sent : ∀ tx delivery, attempt.sent = some ⟨tx, delivery⟩ →
    tx.BuiltFor network attempt.submission ∧ delivery.Kept h attempt.submission

structure Network.Kept (h : Host W) (network : Network W) : Prop where
  valid : network.chain.Valid
  attempts : ∀ attempt ∈ network.attempts, attempt.Kept h network

structure Network.Before (network network' : Network W) : Prop where
  sequence : ∀ account, network.sequenceOf account ≤ network'.sequenceOf account
  clock : network.chain.timestamp ≤ network'.chain.timestamp

theorem sequence_update {f : Address → ℕ} {account : Address} {n : ℕ} (hle : f account ≤ n)
    (other : Address) : f other ≤ Function.update f account n other := by
  by_cases ho : other = account
  · subst ho
    rwa [Function.update_self]
  · rw [Function.update_of_ne ho]

theorem apply_chain (tx : Transaction) (fits : Bool) :
    (network.apply tx (network.execution h tx fits)).chain =
      if fits then step h network.chain (.call [tx.source] tx.operation) else network.chain := by
  cases fits with
  | false => rfl
  | true =>
    rw [if_pos rfl]
    cases he : exec h [tx.source] tx.operation network.chain with
    | error e => rw [step_call_error he, Network.execution, if_pos rfl, he, Network.apply]
    | ok after => rw [step_call_ok he, Network.execution, if_pos rfl, he, Network.apply]

theorem change_valid {a : NetworkStep W} (hc : Network.Change h network a network')
    (hv : network.chain.Valid) : network'.chain.Valid := by
  cases hc with
  | elsewhere a => exact step_valid network.chain a hv
  | executed index attempt tx fits hindex hsent hincludes =>
    change (network.apply tx (network.execution h tx fits)).chain.Valid
    rw [apply_chain]
    split
    · exact step_valid network.chain _ hv
    · exact hv
  | _ => exact hv

theorem change_before {a : NetworkStep W} (hc : Network.Change h network a network')
    (hv : network.chain.Valid) : network.Before network' := by
  cases hc with
  | elsewhere a => exact ⟨fun _ => le_refl _, step_timestamp_le a hv⟩
  | spent account sequence hle => exact ⟨sequence_update hle, le_refl _⟩
  | executed index attempt tx fits hindex hsent hincludes =>
    constructor
    · apply sequence_update
      have hnext := hincludes.1
      omega
    · change _ ≤ (network.apply tx (network.execution h tx fits)).chain.timestamp
      rw [apply_chain]
      split
      · exact step_timestamp_le _ hv
      · exact le_refl _
  | _ => exact ⟨fun _ => le_refl _, le_refl _⟩

theorem Transaction.BuiltFor.mono (hb : tx.BuiltFor network submission)
    (hbefore : network.Before network') : tx.BuiltFor network' submission := by
  refine ⟨hb.source, hb.operation, hb.seqNum.trans ?_⟩
  have hsequence := hbefore.sequence tx.source
  omega

theorem Stage.Kept.mono {stage : Stage} {sent : Option (SentTransaction W)}
    (hk : stage.Kept network submission sent) (hbefore : network.Before network') :
    stage.Kept network' submission sent := by
  cases stage with
  | preparing tx => exact ⟨hk.1, hk.2.mono hbefore⟩
  | signing tx => exact ⟨hk.1, hk.2.mono hbefore⟩
  | returned outcome => cases outcome <;> exact hk
  | _ => exact hk

theorem Attempt.Kept.mono (hk : attempt.Kept h network) (hbefore : network.Before network') :
    attempt.Kept h network' := by
  refine ⟨hk.stage.mono hbefore, ?_⟩
  intro tx delivery hsent
  have hold := hk.sent tx delivery hsent
  exact ⟨hold.1.mono hbefore, hold.2⟩

theorem built_builtFor {accountSequence : ℕ} (nowSeconds : ℕ)
    (hle : accountSequence ≤ network.sequenceOf submission.sourceAddress) :
    (submission.builtTransaction accountSequence nowSeconds).BuiltFor network submission :=
  ⟨rfl, rfl, Nat.succ_le_succ hle⟩

theorem answered_sent (attempt : Attempt W) (answer : Answer) :
    (attempt.answered answer).sent = attempt.sent ∨
      ∃ tx, attempt.stage = .signing tx ∧ answer = .signed true ∧
        (attempt.answered answer).sent = some ⟨tx, .inFlight⟩ := by
  rw [Attempt.answered.eq_def]
  dsimp only
  split
  case h_1 tx hstage => exact .inr ⟨tx, hstage, rfl, rfl⟩
  case h_2 => exact .inl rfl

theorem chainStatus_success (hs : attempt.chainStatus = "SUCCESS") :
    ∃ tx delivery, attempt.sent = some ⟨tx, delivery⟩ ∧ delivery.Succeeded := by
  rw [Attempt.chainStatus] at hs
  split at hs
  case h_1 tx before after hsent => exact ⟨tx, _, hsent, trivial⟩
  all_goals simp at hs

theorem answered_kept {answer : Answer} (hk : attempt.Kept h network)
    (ha : network.Answers attempt answer) : (attempt.answered answer).Kept h network := by
  obtain ⟨submission, stage, sent⟩ := attempt
  have hstage : stage.Kept network submission sent := hk.stage
  obtain hsame | ⟨tx, rfl, rfl, hnew⟩ := answered_sent ⟨submission, stage, sent⟩ answer
  · refine ⟨?_, fun tx delivery hsent => hk.sent tx delivery (hsame ▸ hsent)⟩
    rw [hsame]
    have hadvance := resume_advance submission stage answer
    change (submission.resume stage answer).Kept network submission sent
    generalize submission.resume stage answer = stage' at hadvance
    cases hadvance with
    | ignored => exact hstage
    | built accountSequence nowSeconds => exact ⟨hstage, built_builtFor nowSeconds ha⟩
    | prepared tx => exact hstage
    | confirmed txHash pollIndex fails => exact chainStatus_success (ha (.inl rfl)).symm
    | _ => trivial
  · refine ⟨trivial, ?_⟩
    intro tx' delivery hsent
    rw [hnew] at hsent
    cases hsent
    exact ⟨hstage.2, trivial⟩

theorem carried_kept {delivery : Delivery W} (fate : Fate) (hk : delivery.Kept h submission) :
    (delivery.carried fate).Kept h submission := by
  cases delivery with
  | executed before result => exact hk
  | _ => cases fate <;> trivial

theorem carried_succeeded {delivery : Delivery W} (fate : Fate) (hs : delivery.Succeeded) :
    (delivery.carried fate).Succeeded := by
  cases delivery with
  | executed before result => exact hs
  | _ => exact hs.elim

theorem Attempt.Kept.resent {delivery delivery' : Delivery W} (hk : attempt.Kept h network)
    (hsent : attempt.sent = some ⟨tx, delivery⟩) (hs : delivery.Succeeded → delivery'.Succeeded)
    (hk' : delivery'.Kept h attempt.submission) :
    Attempt.Kept h network { attempt with sent := some ⟨tx, delivery'⟩ } := by
  obtain ⟨submission, stage, sent⟩ := attempt
  cases hsent
  have hstage := hk.stage
  constructor
  · cases stage with
    | returned outcome =>
      cases outcome with
      | error failure => trivial
      | ok txHash =>
        obtain ⟨tx', delivery'', heq, hsucceeded⟩ := hstage
        cases heq
        exact ⟨tx, delivery', rfl, hs hsucceeded⟩
    | sending => trivial
    | confirming txHash pollIndex fails => trivial
    | lookup => cases hstage
    | preparing tx' => cases hstage.1
    | signing tx' => cases hstage.1
  · intro tx' delivery'' heq
    cases heq
    exact ⟨(hk.sent tx delivery rfl).1, hk'⟩

theorem execution_kept (fits : Bool) (hv : network.chain.Valid)
    (hb : tx.BuiltFor network submission) :
    (Delivery.executed network.chain (network.execution h tx fits)).Kept h submission := by
  cases fits with
  | false => trivial
  | true =>
    rw [Network.execution, if_pos rfl, hb.source, hb.operation]
    cases he : exec h [submission.sourceAddress] submission.operation network.chain with
    | error e => trivial
    | ok after => exact ⟨hv, he⟩

theorem forall_set {α : Type*} {P : α → Prop} {l : List α} (hl : ∀ x ∈ l, P x) {i : ℕ} {a : α}
    (ha : P a) : ∀ x ∈ l.set i a, P x := by
  intro x hx
  cases List.mem_or_eq_of_mem_set hx with
  | inl hold => exact hl x hold
  | inr hnew => exact hnew ▸ ha

theorem change_kept {a : NetworkStep W} (hc : Network.Change h network a network')
    (hk : network.Kept h) : network'.Kept h := by
  have hbefore := change_before hc hk.valid
  refine ⟨change_valid hc hk.valid, ?_⟩
  have hold : ∀ attempt ∈ network.attempts, attempt.Kept h network' :=
    fun attempt hattempt => (hk.attempts attempt hattempt).mono hbefore
  have hnow : ∀ {index : ℕ} {attempt : Attempt W}, network.attempts[index]? = some attempt →
      attempt.Kept h network := fun hindex => hk.attempts _ (List.mem_of_getElem? hindex)
  cases hc with
  | submit submission =>
    refine List.forall_mem_append.mpr ⟨hold, List.forall_mem_singleton.mpr ⟨rfl, ?_⟩⟩
    intro tx delivery hsent
    cases hsent
  | answered index attempt answer hindex hanswer =>
    exact forall_set hold ((answered_kept (hnow hindex) hanswer).mono hbefore)
  | carried index attempt tx delivery fate hindex hsent =>
    have hkept := (hnow hindex).sent tx delivery hsent
    have hresent := (hnow hindex).resent hsent (carried_succeeded fate)
      (carried_kept fate hkept.2)
    exact forall_set hold (hresent.mono hbefore)
  | executed index attempt tx fits hindex hsent hincludes =>
    have hbuilt := ((hnow hindex).sent tx .pooled hsent).1
    have hresent := (hnow hindex).resent hsent (fun hs => hs.elim)
      (execution_kept fits hk.valid hbuilt)
    exact forall_set hold (hresent.mono hbefore)
  | _ => exact hold

theorem networkStep_kept (network : Network W) (a : NetworkStep W) (hk : network.Kept h) :
    (networkStep h network a).Kept h :=
  change_kept (networkStep_change network a) hk

theorem startNetwork_kept (g : Genesis W) (actions : List (Action W)) (sequenceOf : Address → ℕ) :
    (startNetwork h g actions sequenceOf).Kept h :=
  ⟨runFrom_valid g actions, List.forall_mem_nil _⟩

end Invariant
end SealedStellar.Web
