import SealedStellar.Solvency

/-! Tokens that pay from a sufficient balance, except to receivers they currently refuse, and
what a list of payments needs to go through. -/
namespace SealedStellar
open Checked TokenFlow
variable {W : Type} (h : Host W)

/-- A token like a Stellar asset contract: a transfer to a refused receiver traps, any other
from a sufficient balance succeeds, and a refusal concerns its receiver alone. -/
structure PayingToken (refused : W → Address → Address → Bool) (t : Address) : Prop where
  exact : ExactToken h t
  isolated : ∀ w m w', m.token ≠ t → h.transfer w m = .returned w' →
    h.balance w t h.self ≤ h.balance w' t h.self
  traps : ∀ w m, m.token = t → refused w t m.dst = true → h.transfer w m = .trapped
  pays : ∀ w m, m.token = t → m.src = h.self → refused w t m.dst = false → 0 ≤ m.amount →
    m.amount ≤ h.balance w t h.self → ∃ w', h.transfer w m = .returned w'
  stable : ∀ w m w', h.transfer w m = .returned w' → ∀ a, refused w' t a = refused w t a

structure Outgoing (m : TokenMove) : Prop where
  src : m.src = h.self
  dst : m.dst ≠ h.self
  amount : 0 ≤ m.amount

variable {h} {refused : W → Address → Address → Bool}

theorem Outgoing.effect_self {m : TokenMove} (hm : Outgoing h m) (t : Address) :
    m.effect t h.self = if m.token = t then -m.amount else 0 := by
  simp [Move.effect, hm.src, hm.dst]

theorem net_outgoing {moves : List TokenMove} (hm : ∀ m ∈ moves, Outgoing h m) (t : Address) :
    net moves t h.self ≤ 0 := by
  induction moves with
  | nil => exact le_refl 0
  | cons m moves ih =>
    have hone := hm m (List.mem_cons_self ..)
    have hpos := hone.amount
    have htail := ih fun m' hm' => hm m' (List.mem_cons_of_mem m hm')
    rw [net_cons, hone.effect_self t]
    split <;> omega

/-- Funds for all the payments, and receivers that are not refused, let all of them through. -/
theorem payAll_accepted {moves : List TokenMove} {s : State W}
    (htoken : ∀ m ∈ moves, PayingToken h refused m.token) (hm : ∀ m ∈ moves, Outgoing h m)
    (hr : ∀ m ∈ moves, refused s.tokens m.token m.dst = false)
    (hfunds : ∀ m ∈ moves, -net moves m.token h.self ≤ h.balance s.tokens m.token h.self) :
    ∃ s', payAll h moves s = .ok s' := by
  induction moves generalizing s with
  | nil => exact ⟨s, rfl⟩
  | cons m moves ih =>
    have hmem := List.mem_cons_self (a := m) (l := moves)
    have hone := hm m hmem
    have htail := net_outgoing (fun m' hm' => hm m' (List.mem_cons_of_mem m hm')) m.token
    have hfirst := hfunds m hmem
    rw [net_cons, hone.effect_self, if_pos rfl] at hfirst
    obtain ⟨w, hw⟩ := (htoken m hmem).pays s.tokens m rfl hone.src (hr m hmem) hone.amount
      (by omega)
    have hrest : ∃ s', payAll h moves (s.record (.transfer m s.tokens w)) = .ok s' := by
      refine ih (fun m' hm' => htoken m' (List.mem_cons_of_mem m hm'))
        (fun m' hm' => hm m' (List.mem_cons_of_mem m hm')) (fun m' hm' => ?_) fun m' hm' => ?_
      · have hmem' := List.mem_cons_of_mem m hm'
        exact ((htoken m' hmem').stable s.tokens m w hw m'.dst).trans (hr m' hmem')
      · have hmem' := List.mem_cons_of_mem m hm'
        have hneed := hfunds m' hmem'
        rw [net_cons, hone.effect_self] at hneed
        change _ ≤ h.balance w m'.token h.self
        by_cases ht : m.token = m'.token
        · have hbal := (htoken m' hmem').exact.moves s.tokens m w ht hw h.self
          rw [hone.effect_self, if_pos ht] at hbal
          rw [if_pos ht] at hneed
          omega
        · have hbal := (htoken m' hmem').isolated s.tokens m w ht hw
          rw [if_neg ht] at hneed
          omega
    obtain ⟨s', hs'⟩ := hrest
    refine ⟨s', ?_⟩
    rw [payAll_cons, bind_eq_ok]
    exact ⟨_, (transfer_eq_ok h).mpr ⟨w, hw, rfl⟩, hs'⟩

theorem payAll_unrefused {moves : List TokenMove} {s s' : State W}
    (htoken : ∀ m ∈ moves, PayingToken h refused m.token) (hp : payAll h moves s = .ok s') :
    ∀ m ∈ moves, refused s.tokens m.token m.dst = false := by
  induction moves generalizing s with
  | nil => exact List.forall_mem_nil _
  | cons m moves ih =>
    rw [payAll_cons, bind_eq_ok] at hp
    obtain ⟨s₁, h₁, h₂⟩ := hp
    obtain ⟨w, hw, rfl⟩ := (transfer_eq_ok h).mp h₁
    have hrest := ih (fun m' hm' => htoken m' (List.mem_cons_of_mem m hm')) h₂
    intro m' hm'
    cases List.mem_cons.mp hm' with
    | inl he =>
      subst he
      cases hr : refused s.tokens m'.token m'.dst with
      | false => rfl
      | true => simp [(htoken m' hm').traps s.tokens m' rfl hr] at hw
    | inr hin =>
      have hsame := (htoken m' hm').stable s.tokens m w hw m'.dst
      exact hsame.symm.trans (hrest m' hin)

structure FundedRun (h : Host W) (refused : W → Address → Address → Bool) (g : Genesis W)
    (actions : List (Action W)) (t : Address) : Prop where
  token : PayingToken h refused t
  start : 0 ≤ h.balance g.tokens t h.self
  debits : NoOtherDebit h t (runFrom h g actions).activity

theorem State.Valid.owes_le_owed {s : State W} (hs : s.Valid) {k : ℕ} {auction : Auction}
    (ha : s.auctions k = some auction) (t : Address) : auction.owes t ≤ s.owed t := by
  have hmem : k ∈ Finset.range (s.nextAuctionId.getD 1) :=
    Finset.mem_range.mpr (hs.stored k auction ha).2.1
  have hle := Finset.single_le_sum (fun j _ => hs.owes_nonneg t j) hmem
  have hk : s.owes t k = auction.owes t := by rw [State.owes, ha]; rfl
  rw [← hk]
  exact hle

theorem FundedRun.owes_le_balance {g : Genesis W} {actions : List (Action W)} {t : Address}
    (hf : FundedRun h refused g actions t) (hcallers : ∀ a ∈ actions, a.External h)
    {k : ℕ} {auction : Auction} (ha : (runFrom h g actions).auctions k = some auction) :
    auction.owes t ≤ h.balance (runFrom h g actions).tokens t h.self := by
  have hs := runFrom_solvent g hcallers
  have hbal := hf.token.exact.log hs.log
  have hsent := directlySent_nonneg hf.debits
  have hle := hs.valid.owes_le_owed ha t
  have hstart := hf.start
  rw [hs.booked t] at hbal
  omega

theorem sac_paying {self : Address} {verify : Address → VerifierProof → List U256 → Option Bool}
    {poseidon : Poseidon} (t : Address) :
    PayingToken (sacHost self verify poseidon) SacState.refused t where
  exact := sac_exact t
  isolated := by
    intro w m w' hm hr
    obtain ⟨-, -, -, rfl⟩ := sacTransfer_returned.mp hr
    simp [sacHost, effect_ne hm]
  traps := by
    intro w m hm hr
    subst hm
    simp [sacHost, sacTransfer, hr]
  pays := by
    intro w m hm hsrc hr hpos hle
    subst hm
    rw [← hsrc] at hle
    exact ⟨_, sacTransfer_returned.mpr ⟨hpos, hle, hr, rfl⟩⟩
  stable := by
    intro w m w' hr a
    obtain ⟨-, -, -, rfl⟩ := sacTransfer_returned.mp hr
    rfl

end SealedStellar
