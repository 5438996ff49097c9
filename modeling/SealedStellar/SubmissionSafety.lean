import SealedStellar.SubmissionNetwork

/-! When rpc_unreachable means that nothing of the call is executed, and will not be. -/
namespace SealedStellar.Web

section Safety
variable {W : Type} (h : Host W) (network : Network W)

/-- What the page shows as rpc_unreachable, with the sentence that a retry is safe. -/
def Attempt.Unreachable (attempt : Attempt W) : Prop :=
  ∃ failure, attempt.stage = .returned (.error failure) ∧
    match attempt.submission with
    | .placeBid .. => mapInvocationToBidFailure failure = .rpc_unreachable
    | .createAuction _ => mapInvocationToCreateFailure failure = .rpc_unreachable

/-- In no continuation is a transaction executed of a call that returned rpc_unreachable. -/
def Safe : Prop :=
  ∀ (index : ℕ) (attempt : Attempt W), network.attempts[index]? = some attempt →
    attempt.Unreachable → ∀ (steps : List (NetworkStep W)) (attempt' : Attempt W),
      (Runs.run (networkStep h) network steps).attempts[index]? = some attempt' →
        ∀ tx before result, attempt'.sent ≠ some ⟨tx, .executed before result⟩

def Network.Doomed (tx : Transaction) : Delivery W → Prop
  | .lost | .dropped => True
  | .inFlight | .pooled =>
    tx.seqNum ≤ network.sequenceOf tx.source ∨ tx.maxTime < network.chain.timestamp
  | .executed _ _ => False

/-- sendTransaction throws only for a transaction that cannot be executed any more. -/
def ThrowsDoomed : NetworkStep W → Prop
  | .answered index (.sent none) => ∀ attempt, network.attempts[index]? = some attempt →
    attempt.stage = .sending → ∀ tx delivery, attempt.sent = some ⟨tx, delivery⟩ →
      network.Doomed tx delivery
  | _ => True

def Attempt.Harmless (attempt : Attempt W) : Prop :=
  (∃ outcome, attempt.stage = .returned outcome) ∧
    ∀ tx delivery, attempt.sent = some ⟨tx, delivery⟩ → network.Doomed tx delivery

variable {h} {network} {network' : Network W} {attempt : Attempt W} {tx : Transaction}

theorem unreachable_iff :
    attempt.Unreachable ↔ attempt.stage = .returned (.error .rpc_unreachable) := by
  rw [Attempt.Unreachable]
  cases attempt.submission with
  | placeBid auctionId bidderAddress commitment encryptedBid =>
    simp [mapInvocationToBidFailure_unreachable]
  | createAuction params => simp [mapInvocationToCreateFailure_unreachable]

theorem Network.Doomed.mono {delivery : Delivery W} (hd : network.Doomed tx delivery)
    (hbefore : network.Before network') : network'.Doomed tx delivery := by
  have hsequence := hbefore.sequence tx.source
  have hclock := hbefore.clock
  cases delivery with
  | inFlight => exact hd.imp (fun hle => hle.trans hsequence) fun hlt => hlt.trans_le hclock
  | pooled => exact hd.imp (fun hle => hle.trans hsequence) fun hlt => hlt.trans_le hclock
  | _ => exact hd

theorem Network.Doomed.carried {delivery : Delivery W} (hd : network.Doomed tx delivery)
    (fate : Fate) : network.Doomed tx (delivery.carried fate) := by
  cases delivery with
  | executed before result => exact hd.elim
  | inFlight => cases fate <;> first | exact hd | trivial
  | pooled => cases fate <;> first | exact hd | trivial
  | _ => cases fate <;> trivial

theorem Network.Doomed.not_includes (hd : network.Doomed tx .pooled) : ¬network.Includes tx := by
  intro hincludes
  have hnext := hincludes.1
  have hclock := hincludes.2
  cases hd with
  | inl hle => omega
  | inr hlt => omega

theorem Attempt.Harmless.mono (hh : attempt.Harmless network) (hbefore : network.Before network') :
    attempt.Harmless network' :=
  ⟨hh.1, fun tx delivery hsent => (hh.2 tx delivery hsent).mono hbefore⟩

theorem answered_returned {outcome : Except InvocationFailure String} (answer : Answer)
    (hr : attempt.stage = .returned outcome) : attempt.answered answer = attempt := by
  obtain ⟨submission, stage, sent⟩ := attempt
  cases hr
  rfl

theorem setAttempt_other {j index : ℕ} {new : Attempt W} (hji : j ≠ index)
    (hindex : network.attempts[index]? = some attempt) :
    (network.setAttempt j new).attempts[index]? = some attempt := by
  rw [Network.setAttempt, List.getElem?_set_ne hji, hindex]

/-- The step lemma: what is harmless stays so. -/
theorem harmless_step {index : ℕ} (a : NetworkStep W) (hv : network.chain.Valid)
    (hindex : network.attempts[index]? = some attempt) (hh : attempt.Harmless network) :
    ∃ attempt', (networkStep h network a).attempts[index]? = some attempt' ∧
      attempt'.Harmless (networkStep h network a) := by
  have hc := networkStep_change (h := h) network a
  generalize networkStep h network a = network' at hc
  have hbefore := change_before hc hv
  have hlt := (List.getElem?_eq_some_iff.mp hindex).1
  cases hc with
  | submit submission =>
    exact ⟨attempt, by rw [List.getElem?_append_left hlt, hindex], hh.mono hbefore⟩
  | answered j other answer hj hanswer =>
    by_cases hji : j = index
    · subst hji
      rw [hindex] at hj
      cases hj
      obtain ⟨outcome, hr⟩ := hh.1
      rw [answered_returned answer hr] at hbefore ⊢
      exact ⟨attempt, List.getElem?_set_self hlt, hh.mono hbefore⟩
    · exact ⟨attempt, setAttempt_other hji hindex, hh.mono hbefore⟩
  | carried j other tx delivery fate hj hsent =>
    by_cases hji : j = index
    · subst hji
      rw [hindex] at hj
      cases hj
      refine ⟨_, List.getElem?_set_self hlt, hh.1, ?_⟩
      intro tx' delivery' heq
      cases heq
      exact ((hh.2 tx delivery hsent).carried fate).mono hbefore
    · exact ⟨attempt, setAttempt_other hji hindex, hh.mono hbefore⟩
  | executed j other tx fits hj hsent hincludes =>
    by_cases hji : j = index
    · subst hji
      rw [hindex] at hj
      cases hj
      exact absurd hincludes (hh.2 tx .pooled hsent).not_includes
    · exact ⟨attempt, setAttempt_other hji hindex, hh.mono hbefore⟩
  | _ => exact ⟨attempt, hindex, hh.mono hbefore⟩

theorem harmless_run {index : ℕ} (hk : network.Kept h)
    (hindex : network.attempts[index]? = some attempt) (hh : attempt.Harmless network)
    (steps : List (NetworkStep W)) :
    ∃ attempt', (Runs.run (networkStep h) network steps).attempts[index]? = some attempt' ∧
      attempt'.Harmless (Runs.run (networkStep h) network steps) := by
  have hstep : ∀ (n : Network W) (a : NetworkStep W), (n.Kept h ∧
      ∃ attempt', n.attempts[index]? = some attempt' ∧ attempt'.Harmless n) →
      (networkStep h n a).Kept h ∧ ∃ attempt', (networkStep h n a).attempts[index]? = some attempt' ∧
        attempt'.Harmless (networkStep h n a) := by
    intro n a hn
    obtain ⟨hk, attempt', hindex, hh⟩ := hn
    exact ⟨networkStep_kept n a hk, harmless_step a hk.valid hindex hh⟩
  exact (Runs.run_invariant' (P := fun (n : Network W) => n.Kept h ∧
    ∃ attempt', n.attempts[index]? = some attempt' ∧ attempt'.Harmless n) hstep
    ⟨hk, attempt, hindex, hh⟩ steps).2

theorem Attempt.Harmless.not_executed (hh : attempt.Harmless network) {before : State W}
    {result : Except Failure (State W)} : attempt.sent ≠ some ⟨tx, .executed before result⟩ :=
  fun hsent => hh.2 tx _ hsent

theorem includes_of_not_doomed {delivery : Delivery W} {submission : Submission}
    (hb : tx.BuiltFor network submission)
    (hexecuted : ∀ before result, delivery ≠ .executed before result)
    (hd : ¬network.Doomed tx delivery) :
    (delivery = .inFlight ∨ delivery = .pooled) ∧ network.Includes tx := by
  have hseqNum := hb.seqNum
  cases delivery with
  | inFlight =>
    rw [Network.Doomed, not_or] at hd
    exact ⟨.inl rfl, by omega, by omega⟩
  | pooled =>
    rw [Network.Doomed, not_or] at hd
    exact ⟨.inr rfl, by omega, by omega⟩
  | lost => exact absurd trivial hd
  | dropped => exact absurd trivial hd
  | executed before result => exact absurd rfl (hexecuted before result)

theorem networkStep_executed (network : Network W) {index : ℕ}
    (hindex : network.attempts[index]? = some attempt)
    (hsent : attempt.sent = some ⟨tx, .pooled⟩) (hincludes : network.Includes tx) :
    ∃ attempt', (networkStep h network (.executed index true)).attempts[index]? = some attempt' ∧
      ∃ before result, attempt'.sent = some ⟨tx, .executed before result⟩ := by
  obtain ⟨submission, stage, sent⟩ := attempt
  cases hsent
  have hlt := (List.getElem?_eq_some_iff.mp hindex).1
  rw [networkStep, hindex]
  simp only [hincludes, if_true]
  exact ⟨_, List.getElem?_set_self hlt, _, _, rfl⟩

theorem networkStep_delivered {index : ℕ} (hindex : network.attempts[index]? = some attempt)
    (hsent : attempt.sent = some ⟨tx, .inFlight⟩) :
    networkStep h network (.carried index .delivered) =
      network.setAttempt index { attempt with sent := some ⟨tx, .pooled⟩ } := by
  obtain ⟨submission, stage, sent⟩ := attempt
  cases hsent
  rw [networkStep, hindex]
  rfl

theorem Safe.doomed (hsafe : Safe h network) (hk : network.Kept h) {index : ℕ}
    (hindex : network.attempts[index]? = some attempt) (hu : attempt.Unreachable)
    {delivery : Delivery W} (hsent : attempt.sent = some ⟨tx, delivery⟩) :
    network.Doomed tx delivery := by
  by_contra hd
  have hlt := (List.getElem?_eq_some_iff.mp hindex).1
  have hbuilt := ((hk.attempts attempt (List.mem_of_getElem? hindex)).sent tx delivery hsent).1
  have hexecuted : ∀ before result, delivery ≠ .executed before result := by
    intro before result heq
    exact hsafe index attempt hindex hu [] attempt hindex tx before result (heq ▸ hsent)
  obtain ⟨hdelivery, hincludes⟩ := includes_of_not_doomed hbuilt hexecuted hd
  cases hdelivery with
  | inl hflight =>
    subst hflight
    obtain ⟨attempt', hindex', before, result, hsent'⟩ := networkStep_executed (h := h)
      (network.setAttempt index { attempt with sent := some ⟨tx, .pooled⟩ })
      (List.getElem?_set_self hlt) rfl hincludes
    rw [← networkStep_delivered (h := h) hindex hsent] at hindex'
    exact hsafe index attempt hindex hu [.carried index .delivered, .executed index true] attempt'
      hindex' tx before result hsent'
  | inr hpooled =>
    subst hpooled
    obtain ⟨attempt', hindex', before, result, hsent'⟩ := networkStep_executed (h := h) network
      hindex hsent hincludes
    exact hsafe index attempt hindex hu [.executed index true] attempt' hindex' tx before result
      hsent'

theorem safe_iff (hk : network.Kept h) : Safe h network ↔
    ∀ (index : ℕ) (attempt : Attempt W), network.attempts[index]? = some attempt →
      attempt.Unreachable → attempt.Harmless network := by
  constructor
  · intro hsafe index attempt hindex hu
    exact ⟨⟨_, unreachable_iff.mp hu⟩, fun tx delivery hsent => hsafe.doomed hk hindex hu hsent⟩
  · intro hall index attempt hindex hu steps attempt' hindex' tx before result
    obtain ⟨final, hfinal, hh⟩ := harmless_run hk hindex (hall index attempt hindex hu) steps
    rw [hindex'] at hfinal
    cases hfinal
    exact hh.not_executed

theorem setAttempt_cases {j index : ℕ} {old new attempt' : Attempt W}
    (hj : network.attempts[j]? = some old)
    (hindex' : (network.attempts.set j new)[index]? = some attempt') :
    j = index ∧ attempt' = new ∨ network.attempts[index]? = some attempt' := by
  by_cases hji : j = index
  · subst hji
    rw [List.getElem?_set_self (List.getElem?_eq_some_iff.mp hj).1] at hindex'
    cases hindex'
    exact .inl ⟨rfl, rfl⟩
  · rw [List.getElem?_set_ne hji] at hindex'
    exact .inr hindex'

theorem answered_unreachable {answer : Answer} (hu : (attempt.answered answer).Unreachable) :
    attempt.Unreachable ∨ attempt.stage = .lookup ∨
      attempt.stage = .sending ∧ answer = .sent none := by
  rw [unreachable_iff] at hu ⊢
  have hadvance := resume_advance attempt.submission attempt.stage answer
  change attempt.submission.resume attempt.stage answer = _ at hu
  rw [hu] at hadvance
  generalize attempt.stage = stage at hadvance
  cases hadvance with
  | ignored => exact .inl rfl
  | unread detail nowSeconds => exact .inr (.inl rfl)
  | threw => exact .inr (.inr ⟨rfl, rfl⟩)
  | failed stage answer failure hwaits hfailure => exact absurd rfl hfailure

theorem unreachable_origin {a : NetworkStep W} {index : ℕ} {attempt' : Attempt W}
    (hc : Network.Change h network a network') (hindex' : network'.attempts[index]? = some attempt')
    (hu : attempt'.Unreachable) :
    ∃ attempt, network.attempts[index]? = some attempt ∧ (attempt.Unreachable ∨
      ∃ answer, a = .answered index answer ∧ attempt' = attempt.answered answer ∧
        network' = network.setAttempt index attempt' ∧
        (attempt.stage = .lookup ∨ attempt.stage = .sending ∧ answer = .sent none)) := by
  cases hc with
  | submit submission =>
    by_cases hlt : index < network.attempts.length
    · exact ⟨attempt', by rwa [List.getElem?_append_left hlt] at hindex', .inl hu⟩
    · rw [List.getElem?_append_right (not_lt.mp hlt)] at hindex'
      rw [List.mem_singleton.mp (List.mem_of_getElem? hindex'), unreachable_iff] at hu
      cases hu
  | answered j old answer hj hanswer =>
    cases setAttempt_cases hj hindex' with
    | inl hnew =>
      obtain ⟨rfl, rfl⟩ := hnew
      refine ⟨old, hj, (answered_unreachable hu).imp id fun hstage => ?_⟩
      exact ⟨answer, rfl, rfl, rfl, hstage⟩
    | inr hsame => exact ⟨attempt', hsame, .inl hu⟩
  | carried j old tx delivery fate hj hsent =>
    cases setAttempt_cases hj hindex' with
    | inl hnew =>
      obtain ⟨rfl, rfl⟩ := hnew
      exact ⟨old, hj, .inl (unreachable_iff.mpr (unreachable_iff.mp hu))⟩
    | inr hsame => exact ⟨attempt', hsame, .inl hu⟩
  | executed j old tx fits hj hsent hincludes =>
    cases setAttempt_cases hj hindex' with
    | inl hnew =>
      obtain ⟨rfl, rfl⟩ := hnew
      exact ⟨old, hj, .inl (unreachable_iff.mpr (unreachable_iff.mp hu))⟩
    | inr hsame => exact ⟨attempt', hsame, .inl hu⟩
  | _ => exact ⟨attempt', hindex', .inl hu⟩

theorem safe_start (g : Genesis W) (actions : List (Action W)) (sequenceOf : Address → ℕ) :
    Safe h (startNetwork h g actions sequenceOf) := by
  intro index attempt hindex
  simp [startNetwork] at hindex

theorem answered_sent_of_ne {answer : Answer} (hs : ∀ tx, attempt.stage ≠ .signing tx) :
    (attempt.answered answer).sent = attempt.sent := by
  cases answered_sent attempt answer with
  | inl hsame => exact hsame
  | inr hsigned =>
    obtain ⟨tx, hstage, -⟩ := hsigned
    exact absurd hstage (hs tx)

theorem throwsDoomed_of_safe (hk : network.Kept h) {a : NetworkStep W}
    (hsafe : Safe h (networkStep h network a)) : ThrowsDoomed network a := by
  rw [ThrowsDoomed.eq_def]
  split
  case h_1 index =>
    intro attempt hindex hsending tx delivery hsent
    have hlt := (List.getElem?_eq_some_iff.mp hindex).1
    have hu : (attempt.answered (.sent none)).Unreachable := by
      rw [unreachable_iff]
      change attempt.submission.resume attempt.stage _ = _
      rw [hsending]
      rfl
    have hsame : (attempt.answered (.sent none)).sent = some ⟨tx, delivery⟩ := by
      rw [answered_sent_of_ne (by simp [hsending]), hsent]
    have hnext : networkStep h network (.answered index (.sent none)) =
        network.setAttempt index (attempt.answered (.sent none)) := by
      rw [networkStep, hindex]
      rfl
    have hkept := networkStep_kept network (.answered index (.sent none)) hk
    rw [hnext] at hsafe hkept
    exact hsafe.doomed hkept (List.getElem?_set_self hlt) hu hsame
  case h_2 => trivial

theorem safe_of_throwsDoomed (hk : network.Kept h) (hsafe : Safe h network) {a : NetworkStep W}
    (hthrows : ThrowsDoomed network a) : Safe h (networkStep h network a) := by
  refine (safe_iff (networkStep_kept network a hk)).mpr ?_
  intro index attempt' hindex' hu
  obtain ⟨attempt, hindex, horigin⟩ := unreachable_origin (networkStep_change network a) hindex' hu
  cases horigin with
  | inl hold =>
    have hh := (safe_iff hk).mp hsafe index attempt hindex hold
    obtain ⟨attempt'', hindex'', hh'⟩ := harmless_step (h := h) a hk.valid hindex hh
    rw [hindex'] at hindex''
    cases hindex''
    exact hh'
  | inr hnew =>
    obtain ⟨answer, rfl, rfl, hnext, hstage⟩ := hnew
    refine ⟨⟨_, unreachable_iff.mp hu⟩, ?_⟩
    intro tx delivery hsent
    rw [hnext]
    rw [answered_sent_of_ne (by cases hstage <;> simp [*])] at hsent
    cases hstage with
    | inl hlookup =>
      have hnone := (hk.attempts attempt (List.mem_of_getElem? hindex)).stage
      rw [hlookup] at hnone
      cases hnone.symm.trans hsent
    | inr hthrew =>
      obtain ⟨hsending, rfl⟩ := hthrew
      exact hthrows attempt hindex hsending tx delivery hsent

/-- The run rule: every state is safe exactly when sendTransaction never throws over a transaction
that can still be executed. -/
theorem safe_run (hk : network.Kept h) (hsafe : Safe h network) (steps : List (NetworkStep W)) :
    Runs.Along (networkStep h) (fun n a => Safe h (networkStep h n a)) network steps ↔
      Runs.Along (networkStep h) ThrowsDoomed network steps :=
  Runs.along_congr (P := fun n => n.Kept h ∧ Safe h n)
    (fun n a hn hsafe' => ⟨networkStep_kept n a hn.1, hsafe'⟩)
    (fun _ _ hn => ⟨throwsDoomed_of_safe hn.1, safe_of_throwsDoomed hn.1 hn.2⟩) ⟨hk, hsafe⟩ steps

end Safety
end SealedStellar.Web
