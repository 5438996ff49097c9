import SealedStellar.SafeRetry

/-! The chain that the submissions of the page reach is a run of the contract, with their calls in
it. -/
namespace SealedStellar.Web
variable {W : Type} {h : Host W} {g : Genesis W} {network network' : Network W} {attempt : Attempt W}
  {actions : List (Action W)}

def Submission.action (submission : Submission) : Action W :=
  .call [submission.sourceAddress] submission.operation

def Attempt.CalledIn (h : Host W) (g : Genesis W) (attempt : Attempt W) (actions : List (Action W)) :
    Prop :=
  ∀ tx before after, attempt.sent = some ⟨tx, .executed before (.ok after)⟩ → ∃ earlier later,
    actions = earlier ++ attempt.submission.action :: later ∧ before = runFrom h g earlier

structure Network.Ran (h : Host W) (g : Genesis W) (network : Network W)
    (actions : List (Action W)) : Prop where
  chain : network.chain = runFrom h g actions
  called : ∀ attempt ∈ network.attempts, attempt.CalledIn h g actions

theorem Attempt.CalledIn.more (hc : attempt.CalledIn h g actions) (later : List (Action W)) :
    attempt.CalledIn h g (actions ++ later) := by
  intro tx before after hsent
  obtain ⟨earlier, rest, hactions, hbefore⟩ := hc tx before after hsent
  exact ⟨earlier, rest ++ later, by rw [hactions, List.append_assoc, List.cons_append], hbefore⟩

theorem Attempt.CalledIn.unsent {tx : Transaction} {delivery : Delivery W}
    (hsent : attempt.sent = some ⟨tx, delivery⟩) (hd : ∀ before after,
      delivery ≠ .executed before (.ok after)) : attempt.CalledIn h g actions := by
  intro tx' before after hsent'
  rw [hsent] at hsent'
  cases hsent'
  exact absurd rfl (hd before after)

theorem answered_calledIn (hc : attempt.CalledIn h g actions) (answer : Answer) :
    (attempt.answered answer).CalledIn h g actions := by
  cases answered_sent attempt answer with
  | inl hsame =>
    intro tx before after hsent
    exact hc tx before after (hsame ▸ hsent)
  | inr hflight =>
    obtain ⟨tx, -, -, hnew⟩ := hflight
    exact .unsent hnew nofun

theorem carried_calledIn {tx : Transaction} {delivery : Delivery W} (fate : Fate)
    (hsent : attempt.sent = some ⟨tx, delivery⟩) (hc : attempt.CalledIn h g actions) :
    Attempt.CalledIn h g { attempt with sent := some ⟨tx, delivery.carried fate⟩ } actions := by
  cases delivery with
  | executed before result =>
    intro tx' before' after' hsent'
    exact hc tx' before' after' (hsent.trans hsent')
  | inFlight => exact .unsent rfl (by cases fate <;> nofun)
  | lost => exact .unsent rfl (by cases fate <;> nofun)
  | pooled => exact .unsent rfl (by cases fate <;> nofun)
  | dropped => exact .unsent rfl (by cases fate <;> nofun)

theorem ran_change {a : NetworkStep W} (hc : Network.Change h network a network')
    (hk : network.Kept h) (hr : network.Ran h g actions) :
    ∃ later, network'.Ran h g (actions ++ later) := by
  have hold : ∀ later, ∀ attempt ∈ network.attempts, attempt.CalledIn h g (actions ++ later) :=
    fun later attempt hattempt => (hr.called attempt hattempt).more later
  have hsame : network.chain = runFrom h g (actions ++ []) := by rw [List.append_nil, hr.chain]
  cases hc with
  | ignored a hmine => exact ⟨[], hsame, hold []⟩
  | elsewhere a =>
    refine ⟨[a], ?_, hold [a]⟩
    rw [runFrom_append, ← hr.chain]
    rfl
  | spent account sequence hle => exact ⟨[], hsame, hold []⟩
  | submit submission =>
    refine ⟨[], hsame, fun attempt hattempt => ?_⟩
    cases List.mem_append.mp hattempt with
    | inl hmem => exact hold [] attempt hmem
    | inr hnew =>
      cases List.mem_singleton.mp hnew
      intro tx before after hsent
      cases hsent
  | answered index attempt answer hindex hanswer =>
    have hnow := hold [] attempt (List.mem_of_getElem? hindex)
    exact ⟨[], hsame, forall_set (hold []) (answered_calledIn hnow answer)⟩
  | carried index attempt tx delivery fate hindex hsent =>
    have hnow := hold [] attempt (List.mem_of_getElem? hindex)
    exact ⟨[], hsame, forall_set (hold []) (carried_calledIn fate hsent hnow)⟩
  | executed index attempt tx fits hindex hsent hincludes =>
    have hbuilt := ((hk.attempts attempt (List.mem_of_getElem? hindex)).sent tx _ hsent).1
    have haction : attempt.submission.action = (.call [tx.source] tx.operation : Action W) := by
      rw [Submission.action, hbuilt.source, hbuilt.operation]
    cases hresult : network.execution h tx fits with
    | error e =>
      refine ⟨[], hsame, forall_set (hold []) (.unsent rfl fun before after heq => ?_)⟩
      cases heq
    | ok result =>
      have he : exec h [tx.source] tx.operation network.chain = .ok result := by
        cases fits with
        | false => cases hresult
        | true => exact hresult
      refine ⟨[attempt.submission.action], ?_, forall_set (hold _) ?_⟩
      · rw [runFrom_append, ← hr.chain, haction, Runs.run_cons, Runs.run_nil, step_call_ok he]
        rfl
      · intro tx' before after hsent'
        cases hsent'
        exact ⟨actions, [], rfl, hr.chain⟩

/-- Whatever the network does, its chain is a run of the contract that began with these actions. -/
theorem network_ran (hk : network.Kept h) (hr : network.Ran h g actions)
    (steps : List (NetworkStep W)) :
    ∃ later, (Runs.run (networkStep h) network steps).Ran h g (actions ++ later) := by
  induction steps generalizing network actions with
  | nil => exact ⟨[], by rwa [List.append_nil]⟩
  | cons a steps ih =>
    obtain ⟨first, hfirst⟩ := ran_change (networkStep_change network a) hk hr
    obtain ⟨rest, hrest⟩ := ih (networkStep_kept network a hk) hfirst
    exact ⟨first ++ rest, by rwa [List.append_assoc] at hrest⟩

theorem startNetwork_ran (g : Genesis W) (actions : List (Action W)) (sequenceOf : Address → ℕ) :
    (startNetwork h g actions sequenceOf).Ran h g actions :=
  ⟨rfl, fun _ hattempt => absurd hattempt List.not_mem_nil⟩

/-- A call that returned a receipt is a call of the run, and it succeeded. -/
theorem receipt_called {txHash : String} (hk : network.Kept h) (hr : network.Ran h g actions)
    (hattempt : attempt ∈ network.attempts) (hreceipt : attempt.stage = .returned (.ok txHash)) :
    ∃ earlier later after, actions = earlier ++ attempt.submission.action :: later ∧
      exec h [attempt.submission.sourceAddress] attempt.submission.operation (runFrom h g earlier) =
        .ok after := by
  obtain ⟨before, after, hlanded, -, he⟩ := landed_receipt (hk.attempts attempt hattempt) hreceipt
  have hsent : ∃ tx, attempt.sent = some ⟨tx, .executed before (.ok after)⟩ := by
    rw [Attempt.landed] at hlanded
    split at hlanded
    case h_1 tx _ _ hsent =>
      cases hlanded
      exact ⟨tx, hsent⟩
    case h_2 => cases hlanded
  obtain ⟨tx, hsent⟩ := hsent
  obtain ⟨earlier, later, hactions, hbefore⟩ := hr.called attempt hattempt tx before after hsent
  rw [hbefore] at he
  exact ⟨earlier, later, after, hactions, he⟩

end SealedStellar.Web
