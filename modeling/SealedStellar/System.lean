import SealedStellar.AuctionSpec
import SealedStellar.Lib.Runs

/-! The deployed contract over time: calls by anyone, ledgers closing, and everything that
happens to the tokens outside the contract. The host forbids reentry, so calls are atomic. -/
namespace SealedStellar
open Checked
variable {W : Type} (h : Host W)

inductive Call where
  | createAuction (args : CreateArgs)
  | placeBid (auctionId : ℕ) (bidder : Address) (commitment : U256) (encryptedBid : List UInt8)
  | settle (auctionId winnerIndex : ℕ) (winningPrice : ℤ) (winnerAddress : Address)
      (proof : VerifierProof)
  | refundAll (auctionId : ℕ)
  | reclaimLot (auctionId : ℕ)

inductive Action (W : Type) where
  | call (signers : List Address) (c : Call)
  | closeLedger (timestamp sequence : ℕ)
  | outside (tokens : W)

def exec (signers : List Address) (c : Call) (s : State W) : Except Failure (State W) :=
  match c with
  | .createAuction args => Prod.fst <$> createAuction h signers args s
  | .placeBid auctionId bidder commitment encryptedBid =>
    placeBid h signers auctionId bidder commitment encryptedBid s
  | .settle auctionId winnerIndex winningPrice winnerAddress proof =>
    settle h auctionId winnerIndex winningPrice winnerAddress proof s
  | .refundAll auctionId => refundAll h auctionId s
  | .reclaimLot auctionId => reclaimLot h auctionId s

/-- A failed call leaves the state as it was; time does not run backwards. -/
def step (s : State W) : Action W → State W
  | .call signers c =>
    match exec h signers c s with
    | .ok s' => s'
    | .error _ => s
  | .closeLedger timestamp sequence =>
    if s.timestamp ≤ timestamp ∧ s.sequence ≤ sequence then
      { s with timestamp := timestamp, sequence := sequence } else s
  | .outside tokens => s.record (.outside s.tokens tokens)

def Action.External : Action W → Prop
  | .call signers _ => h.self ∉ signers
  | _ => True

instance (a : Action W) : Decidable (a.External h) :=
  match a with
  | .call signers _ => inferInstanceAs (Decidable (h.self ∉ signers))
  | .closeLedger _ _ => isTrue trivial
  | .outside _ => isTrue trivial

structure Genesis (W : Type) where
  verifier : Address
  tokens : W
  timestamp : ℕ
  sequence : ℕ

def Genesis.state (g : Genesis W) : State W := deploy h g.verifier g.tokens g.timestamp g.sequence

def runFrom (g : Genesis W) (actions : List (Action W)) : State W :=
  Runs.run (step h) (g.state h) actions

def Reachable (s : State W) : Prop := ∃ g actions, s = runFrom h g actions

def Call.auctionId (s : State W) : Call → ℕ
  | .createAuction _ => s.nextAuctionId.getD 1
  | .placeBid auctionId _ _ _ | .settle auctionId _ _ _ _ | .refundAll auctionId
  | .reclaimLot auctionId => auctionId

variable {h}

theorem step_call_ok {signers : List Address} {c : Call} {s s' : State W}
    (he : exec h signers c s = .ok s') : step h s (.call signers c) = s' := by
  rw [step, he]

theorem step_call_error {signers : List Address} {c : Call} {s : State W} {e : Failure}
    (he : exec h signers c s = .error e) : step h s (.call signers c) = s := by
  rw [step, he]

theorem exec_of_isOk {signers : List Address} {c : Call} {s : State W}
    (he : (exec h signers c s).isOk = true) :
    exec h signers c s = .ok (step h s (.call signers c)) := by
  cases hc : exec h signers c s with
  | error e => simp [hc, Except.isOk, Except.toBool] at he
  | ok s' => rw [step_call_ok hc]

theorem exec_createAuction {signers : List Address} {args : CreateArgs} {s s' : State W} :
    exec h signers (.createAuction args) s = .ok s' ↔
      createAuction h signers args s = .ok (s', s.nextAuctionId.getD 1) := by
  cases hc : createAuction h signers args s with
  | error e => simp [exec, hc, Functor.map, Except.map]
  | ok r =>
    have hid := (createAuction_eq_ok h signers args s r.1 r.2).mp (by rw [hc])
    obtain ⟨-, -, -, -, -, -, -, s1, -, -, hid⟩ := hid
    simp [exec, hc, Functor.map, Except.map, Prod.ext_iff, hid]

/-- What holds at deployment and survives every step holds of every reachable state. -/
theorem reachable_invariant {P : State W → Prop} (hinit : ∀ g : Genesis W, P (g.state h))
    (hstep : ∀ s a, P s → P (step h s a)) {s : State W} (hs : Reachable h s) : P s := by
  obtain ⟨g, actions, rfl⟩ := hs
  exact Runs.run_invariant' hstep (hinit g) actions

end SealedStellar
