import SealedStellar.TokenLog

/-! Tokens that behave like Stellar asset contracts: a balance table, receivers that cannot be
credited, and traps that undo the call. -/
namespace SealedStellar
open TokenFlow

structure SacState where
  balance : Address → Address → ℤ
  refused : Address → Address → Bool

def sacTransfer (w : SacState) (m : TokenMove) : CallOutcome SacState :=
  if 0 ≤ m.amount ∧ m.amount ≤ w.balance m.token m.src ∧ w.refused m.token m.dst = false then
    .returned { w with balance := fun t a => w.balance t a + m.effect t a }
  else .trapped

def sacHost (self : Address) (verify : Address → VerifierProof → List U256 → Option Bool)
    (poseidon : Poseidon) : Host SacState where
  self := self
  balance := SacState.balance
  transfer := sacTransfer
  verify := verify
  poseidon := poseidon
  minPersistentTtl := 120960
  maxEntryTtl := 3110400

def keyOf (b : UInt8) : Key := Vector.replicate 32 b

def evenTokens (amount : ℤ) : SacState := ⟨fun _ _ => amount, fun _ _ => false⟩

/-- A stand-in for Poseidon that is easy to open: the first input. -/
def firstInput : Poseidon := fun inputs => inputs.headD 0

variable {self : Address} {verify : Address → VerifierProof → List U256 → Option Bool}
  {poseidon : Poseidon}

theorem sacTransfer_returned {w w' : SacState} {m : TokenMove} :
    sacTransfer w m = .returned w' ↔ 0 ≤ m.amount ∧ m.amount ≤ w.balance m.token m.src ∧
      w.refused m.token m.dst = false ∧
      w' = { w with balance := fun t a => w.balance t a + m.effect t a } := by
  rw [sacTransfer]
  split
  · rename_i hc
    simp only [CallOutcome.returned.injEq, eq_comm, hc, true_and]
  · rename_i hc
    constructor
    · intro he
      cases he
    · intro he
      exact absurd ⟨he.1, he.2.1, he.2.2.1⟩ hc

theorem sacTransfer_ne_undecodable (w w' : SacState) (m : TokenMove) :
    sacTransfer w m ≠ .undecodable w' := by
  rw [sacTransfer]
  split <;> simp

theorem sac_exact (t : Address) : ExactToken (sacHost self verify poseidon) t where
  moves := by
    intro w m w' _ hr a
    obtain ⟨-, -, -, rfl⟩ := sacTransfer_returned.mp hr
    rfl
  fails := fun w m w' _ hr => absurd hr (sacTransfer_ne_undecodable w w' m)

/-- Nobody but the sender is debited by a transfer, so a log of transfers debits nobody else. -/
theorem sac_noOtherDebit {acts : List (Activity SacState)} {w w' : SacState}
    (hlog : Log (sacHost self verify poseidon) w acts w') (hinside : ∀ a ∈ acts, a.Inside)
    (t : Address) : NoOtherDebit (sacHost self verify poseidon) t acts := by
  intro a ha hother
  have hran := hlog.ran a ha
  cases a with
  | transfer m before after =>
    obtain ⟨-, -, -, rfl⟩ := sacTransfer_returned.mp hran
    have hne := hother m before _ rfl
    simp [sacHost, Activity.before, Activity.after, effect_ne hne]
  | undecodable m before after => exact absurd hran (sacTransfer_ne_undecodable before after m)
  | outside before after => exact (hinside _ ha).elim

end SealedStellar
