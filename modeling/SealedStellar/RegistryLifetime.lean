import SealedStellar.RentLifetime
import SealedStellar.WhitelistRegistry

/-! The registry and the auction contract on one ledger: how long the members of a whitelist stay
live beside the auction that needs them. -/
namespace SealedStellar
variable {W : Type} (h : Host W)

structure Ledger (W : Type) where
  contract : State W
  registry : Registry

/-- What happens on the ledger: anything the auction contract sees, registrations by anyone, and
the two operations by which anyone may pay rent for an entry. -/
inductive LedgerAction (W : Type) where
  | auction (a : Action W)
  | register (root : U256) (members : List Address)
  | restore (root : U256)
  | extend (root : U256) (extendTo : ℕ)

def Registry.Live (r : Registry) (root : U256) (sequence : ℕ) : Prop :=
  ∃ entry, r.entries root = some entry ∧ sequence ≤ entry.liveUntil

def Ledger.register (root : U256) (members : List Address) (l : Ledger W) : Option (Ledger W) :=
  match l.registry.entries root with
  | some entry => if entry.liveUntil < l.contract.sequence then none else
      some { l with registry := l.registry.register h l.contract.sequence root members }
  | none => some { l with registry := l.registry.register h l.contract.sequence root members }

def Registry.payRent (root : U256) (pay : ℕ → ℕ) (r : Registry) : Registry :=
  let paid := (r.entries root).map fun entry => { entry with liveUntil := pay entry.liveUntil }
  { r with entries := Function.update r.entries root paid }

/-- An archived entry comes back with the rent of a new one. -/
def restored (sequence liveUntil : ℕ) : ℕ :=
  if liveUntil < sequence then sequence + h.minPersistentTtl - 1 else liveUntil

def extended (sequence extendTo liveUntil : ℕ) : ℕ :=
  if liveUntil < sequence then liveUntil else h.extendTtl sequence liveUntil extendTo extendTo

def Ledger.step (l : Ledger W) : LedgerAction W → Ledger W
  | .auction a => { l with contract := SealedStellar.step h l.contract a }
  | .register root members => (l.register h root members).getD l
  | .restore root =>
    { l with registry := l.registry.payRent root (restored h l.contract.sequence) }
  | .extend root extendTo =>
    { l with registry := l.registry.payRent root (extended h l.contract.sequence extendTo) }

def LedgerAction.Plain : LedgerAction W → Prop
  | .auction _ | .register _ _ => True
  | .restore _ | .extend _ _ => False

def ledgerAfter (g : Genesis W) (actions : List (LedgerAction W)) : Ledger W :=
  Runs.run (Ledger.step h) ⟨g.state h, Registry.deploy h g.sequence⟩ actions

variable {h} {root : U256}

section Rent

theorem restored_ge (sequence liveUntil : ℕ) : liveUntil ≤ restored h sequence liveUntil := by
  rw [restored]
  split <;> omega

theorem extended_ge (sequence extendTo liveUntil : ℕ) :
    liveUntil ≤ extended h sequence extendTo liveUntil := by
  rw [extended]
  split
  · exact le_refl liveUntil
  · exact extendTtl_ge ..

theorem payRent_entry {r : Registry} {entry : RegistryEntry} (he : r.entries root = some entry)
    (other : U256) {pay : ℕ → ℕ} (hpay : ∀ n, n ≤ pay n) :
    ∃ entry', (r.payRent other pay).entries root = some entry' ∧
      entry'.members = entry.members ∧ entry.liveUntil ≤ entry'.liveUntil := by
  by_cases hr : root = other
  · subst hr
    refine ⟨{ entry with liveUntil := pay entry.liveUntil }, ?_, rfl, hpay _⟩
    rw [Registry.payRent, he]
    exact Function.update_self ..
  · refine ⟨entry, ?_, rfl, le_refl _⟩
    rw [Registry.payRent]
    exact (Function.update_of_ne hr _ _).trans he

theorem ledger_register_keeps {l : Ledger W} {entry : RegistryEntry}
    (he : l.registry.entries root = some entry) (other : U256) (members : List Address) :
    ((l.register h other members).getD l).registry.entries root = some entry := by
  have hkept := register_keeps (h := h) he l.contract.sequence other members
  rw [Ledger.register]
  cases l.registry.entries other with
  | none => exact hkept
  | some old =>
    simp only
    split
    · exact he
    · exact hkept

def Kept (root : U256) (entry : RegistryEntry) (l : Ledger W) : Prop :=
  ∃ entry', l.registry.entries root = some entry' ∧ entry'.members = entry.members ∧
    entry.liveUntil ≤ entry'.liveUntil

theorem kept_step {entry : RegistryEntry} (l : Ledger W) (a : LedgerAction W)
    (hk : Kept root entry l) : Kept root entry (l.step h a) := by
  obtain ⟨current, hc, hm, hle⟩ := hk
  cases a with
  | auction a => exact ⟨current, hc, hm, hle⟩
  | register other members => exact ⟨current, ledger_register_keeps hc other members, hm, hle⟩
  | restore other =>
    obtain ⟨next, hn, hm', hle'⟩ := payRent_entry hc other (restored_ge (h := h) l.contract.sequence)
    exact ⟨next, hn, hm'.trans hm, hle.trans hle'⟩
  | extend other extendTo =>
    obtain ⟨next, hn, hm', hle'⟩ :=
      payRent_entry hc other (extended_ge (h := h) l.contract.sequence extendTo)
    exact ⟨next, hn, hm'.trans hm, hle.trans hle'⟩

theorem plain_step {entry : RegistryEntry} (l : Ledger W) (a : LedgerAction W)
    (he : l.registry.entries root = some entry) (ha : a.Plain) :
    (l.step h a).registry.entries root = some entry := by
  cases a with
  | auction a => exact he
  | register other members => exact ledger_register_keeps he other members
  | restore other => exact ha.elim
  | extend other extendTo => exact ha.elim

end Rent

/-- A call of register that returns leaves an entry: the old one, or a new one paid for a fixed
number of ledgers. -/
theorem register_returns {l registered : Ledger W} {members : List Address}
    (hr : l.register h root members = some registered) :
    registered.registry.entries root =
      some ((l.registry.entries root).getD (newEntry h l.contract.sequence members)) := by
  cases he : l.registry.entries root with
  | none =>
    rw [Ledger.register, he] at hr
    cases hr
    exact register_none he ..
  | some entry =>
    rw [Ledger.register, he] at hr
    simp only at hr
    split at hr
    · cases hr
    · cases hr
      exact register_keeps he ..

theorem newEntry_liveUntil (network : ttlLedgers < h.maxEntryTtl)
    (minimum : h.minPersistentTtl ≤ ttlLedgers + 1) (sequence : ℕ) (members : List Address) :
    (newEntry h sequence members).liveUntil = sequence + ttlLedgers := by
  simp only [newEntry, Host.extendTtl]
  split <;> omega

def ledgersUntil (s : State W) (t : ℕ) : ℕ := (t - s.timestamp) / secondsPerLedger

/-- From creation until the grace period is over, ledgers closing at the target pace find the
members of the root live. -/
def MembersOutlive (h : Host W) (created : Ledger W) (s' : State W) (args : CreateArgs) : Prop :=
  ∀ after, let later := Runs.run (Ledger.step h) { created with contract := s' } after
    later.contract.timestamp ≤ args.commitDeadline + args.gracePeriod →
    (later.contract.sequence - created.contract.sequence) * secondsPerLedger ≤
      later.contract.timestamp - created.contract.timestamp →
    later.registry.Live args.whitelistRoot later.contract.sequence ∧
      later.registry.getMembers args.whitelistRoot =
        created.registry.getMembers args.whitelistRoot

theorem membersOutlive_iff {created : Ledger W} {s' : State W} {args : CreateArgs}
    {entry : RegistryEntry} (he : created.registry.entries args.whitelistRoot = some entry)
    (hclock : s'.timestamp = created.contract.timestamp ∧
      s'.sequence = created.contract.sequence)
    (hfuture : created.contract.timestamp < args.commitDeadline) :
    MembersOutlive h created s' args ↔ created.contract.sequence +
      ledgersUntil created.contract (args.commitDeadline + args.gracePeriod) ≤ entry.liveUntil := by
  simp only [ledgersUntil, secondsPerLedger]
  constructor
  · intro hlive
    have hclose := hlive [.auction (.closeLedger (args.commitDeadline + args.gracePeriod)
      (created.contract.sequence +
        (args.commitDeadline + args.gracePeriod - created.contract.timestamp) / 5))]
    have hgo : s'.timestamp ≤ args.commitDeadline + args.gracePeriod ∧ s'.sequence ≤
        created.contract.sequence +
          (args.commitDeadline + args.gracePeriod - created.contract.timestamp) / 5 := by
      omega
    simp only [Runs.run_cons, Runs.run_nil, Ledger.step, step, if_pos hgo, secondsPerLedger] at hclose
    obtain ⟨⟨current, hc, hle⟩, -⟩ := hclose (le_refl _) (by omega)
    rw [he] at hc
    cases hc
    exact hle
  · intro hcond after later hunlock hpace
    have hstart : Kept args.whitelistRoot entry { created with contract := s' } :=
      ⟨entry, he, rfl, le_refl _⟩
    obtain ⟨current, hc, hm, hle⟩ := Runs.run_invariant' (kept_step (h := h)) hstart after
    simp only [secondsPerLedger] at hpace
    refine ⟨⟨current, hc, ?_⟩, ?_⟩
    · omega
    · rw [getMembers_some hc, getMembers_some he, hm]

/-- A registered whitelist outlives an auction created with its root exactly when the rent of its
entry does; a first registration pays for a million ledgers, a later one for none. -/
theorem registry_outlives_iff (h : Host W) (network : ttlLedgers < h.maxEntryTtl)
    (minimum : h.minPersistentTtl ≤ ttlLedgers + 1) (g : Genesis W)
    (before between : List (LedgerAction W)) (members : List Address) (args : CreateArgs)
    (registered : Ledger W)
    (hr : (ledgerAfter h g before).register h args.whitelistRoot members = some registered)
    (signers : List Address) (s' : State W) (k : ℕ)
    (he : createAuction h signers args (Runs.run (Ledger.step h) registered between).contract =
      .ok (s', k)) :
    let created := Runs.run (Ledger.step h) registered between
    ∃ entry, created.registry.entries args.whitelistRoot = some entry ∧
      ((∀ a ∈ between, a.Plain) → entry.liveUntil =
        match (ledgerAfter h g before).registry.entries args.whitelistRoot with
        | some old => old.liveUntil
        | none => (ledgerAfter h g before).contract.sequence + ttlLedgers) ∧
      (MembersOutlive h created s' args ↔ created.contract.sequence +
        ledgersUntil created.contract (args.commitDeadline + args.gracePeriod) ≤
          entry.liveUntil) := by
  intro created
  have hentry := register_returns hr
  obtain ⟨entry, hc, -, -⟩ := Runs.run_invariant' (kept_step (h := h)) ⟨_, hentry, rfl, le_refl _⟩
    between
  obtain ⟨-, -, -, -, future, -, -, s₁, ht, hs', -⟩ :=
    (createAuction_eq_ok h signers args created.contract s' k).mp he
  have hclock : s'.timestamp = created.contract.timestamp ∧
      s'.sequence = created.contract.sequence := by
    obtain ⟨w, acts, -, rfl⟩ := transfer_paid ht
    rw [← hs']
    exact ⟨rfl, rfl⟩
  refine ⟨entry, hc, ?_, membersOutlive_iff hc hclock future⟩
  intro hplain
  have hsame := Runs.run_invariant (fun l a hl ha => plain_step (h := h) l a hl ha) hentry
    (Runs.along_of_mem hplain registered)
  rw [hsame] at hc
  cases hc
  cases (ledgerAfter h g before).registry.entries args.whitelistRoot with
  | some old => rfl
  | none => exact newEntry_liveUntil network minimum ..

/-- A whitelist registered in ledger 1 for an auction that ends in ledger 3. -/
theorem registry_outlives_iff_witness :
    let h := sacHost (.contract (keyOf 0)) (fun _ _ _ => none) firstInput
    let g : Genesis SacState := ⟨.contract (keyOf 1), evenTokens 100, 0, 1⟩
    let seller : Address := .account (keyOf 2)
    let args : CreateArgs := ⟨seller, .contract (keyOf 10), 7, .contract (keyOf 11), 5, 10, 3, 9,
      keyOf 9⟩
    let registered := Ledger.step h (ledgerAfter h g []) (.register 9 [.account (keyOf 3)])
    MembersOutlive h registered
      (step h registered.contract (.call [seller] (.createAuction args))) args := by
  intro h g seller args registered
  have he : createAuction h [seller] args registered.contract =
      .ok (step h registered.contract (.call [seller] (.createAuction args)), 1) :=
    exec_createAuction.mp (exec_of_isOk (by decide))
  obtain ⟨entry, hc, hrent, hiff⟩ := registry_outlives_iff h (by decide) (by decide) g [] []
    [.account (keyOf 3)] args registered rfl [seller] _ 1 he
  apply hiff.mpr
  rw [hrent (List.forall_mem_nil _)]
  decide

/-- With 1389 hours of grace the members are archived before the grace period is over. -/
theorem members_expire :
    let h := sacHost (.contract (keyOf 0)) (fun _ _ _ => none) firstInput
    let g : Genesis SacState := ⟨.contract (keyOf 1), evenTokens 100, 0, 1⟩
    let seller : Address := .account (keyOf 2)
    let args : CreateArgs := ⟨seller, .contract (keyOf 10), 7, .contract (keyOf 11), 5, 10, 5000400,
      9, keyOf 9⟩
    let registered := Ledger.step h (ledgerAfter h g []) (.register 9 [.account (keyOf 3)])
    (exec h [seller] (.createAuction args) registered.contract).isOk = true ∧
      ¬MembersOutlive h registered
        (step h registered.contract (.call [seller] (.createAuction args))) args := by
  intro h g seller args registered
  refine ⟨by decide, fun hlive => ?_⟩
  have hnew : registered.registry.entries 9 = some (newEntry h 1 [.account (keyOf 3)]) := rfl
  have hfuture : registered.contract.timestamp < args.commitDeadline := by decide
  have hclock : (step h registered.contract (.call [seller] (.createAuction args))).timestamp =
      registered.contract.timestamp ∧
      (step h registered.contract (.call [seller] (.createAuction args))).sequence =
        registered.contract.sequence := by decide
  have hcond := (membersOutlive_iff hnew hclock hfuture).mp hlive
  rw [newEntry_liveUntil (by decide) (by decide)] at hcond
  exact absurd hcond (by decide)

end SealedStellar
