import SealedStellar.Host
import SealedStellar.Lib.Runs

/-! contracts/whitelist-registry/src/lib.rs: the member lists registered for whitelist roots, and
the ledger until which each is paid for. Entries are assumed not archived where they are read. -/
namespace SealedStellar
variable {W : Type} (h : Host W)

def ttlLedgers : ℕ := 1000000

structure RegistryEntry where
  members : List Address
  liveUntil : ℕ

/-- The `Members(root)` entries and the rent of the contract instance. -/
structure Registry where
  entries : U256 → Option RegistryEntry
  instanceLiveUntil : ℕ

def Registry.deploy (sequence : ℕ) : Registry where
  entries := fun _ => none
  instanceLiveUntil := sequence + h.minPersistentTtl - 1

def newEntry (sequence : ℕ) (members : List Address) : RegistryEntry where
  members := members
  liveUntil := h.extendTtl sequence (sequence + h.minPersistentTtl - 1) ttlLedgers ttlLedgers

/-- `register`, at a given ledger: the first list of a root stays. -/
def Registry.register (sequence : ℕ) (root : U256) (members : List Address) (r : Registry) :
    Registry :=
  match r.entries root with
  | some _ => r
  | none =>
    { entries := Function.update r.entries root (some (newEntry h sequence members))
      instanceLiveUntil := h.extendTtl sequence r.instanceLiveUntil ttlLedgers ttlLedgers }

def Registry.getMembers (root : U256) (r : Registry) : List Address :=
  match r.entries root with
  | some entry => entry.members
  | none => []

structure RegisterCall where
  sequence : ℕ
  root : U256
  members : List Address

def Registry.apply (r : Registry) (c : RegisterCall) : Registry :=
  r.register h c.sequence c.root c.members

variable {h} {root : U256}

theorem register_some {r : Registry} {entry : RegistryEntry} (he : r.entries root = some entry)
    (sequence : ℕ) (members : List Address) : r.register h sequence root members = r := by
  rw [Registry.register, he]

theorem register_none {r : Registry} (he : r.entries root = none) (sequence : ℕ)
    (members : List Address) :
    (r.register h sequence root members).entries root = some (newEntry h sequence members) := by
  rw [Registry.register, he]
  exact Function.update_self ..

theorem register_other {r : Registry} {other : U256} (hne : other ≠ root) (sequence : ℕ)
    (members : List Address) :
    (r.register h sequence root members).entries other = r.entries other := by
  rw [Registry.register]
  cases r.entries root with
  | none => exact Function.update_of_ne hne _ _
  | some entry => rfl

theorem register_keeps {r : Registry} {entry : RegistryEntry} (he : r.entries root = some entry)
    (sequence : ℕ) (other : U256) (members : List Address) :
    (r.register h sequence other members).entries root = some entry := by
  by_cases hr : root = other
  · subst hr
    rw [register_some he, he]
  · rw [register_other hr, he]

/-- The first call for a root decides its entry. -/
theorem apply_run (root : U256) (r : Registry) (calls : List RegisterCall) :
    (Runs.run (Registry.apply h) r calls).entries root =
      match r.entries root with
      | some entry => some entry
      | none => (calls.find? fun c => c.root = root).map fun c => newEntry h c.sequence c.members := by
  induction calls generalizing r with
  | nil => cases he : r.entries root <;> simp [he]
  | cons c calls ih =>
    rw [Runs.run_cons, ih, List.find?_cons]
    cases he : r.entries root with
    | some entry =>
      have hkept : (r.apply h c).entries root = some entry := register_keeps he ..
      rw [hkept]
    | none =>
      by_cases hc : c.root = root
      · have hnew : (r.apply h c).entries root = some (newEntry h c.sequence c.members) := by
          rw [Registry.apply, hc]
          exact register_none he ..
        simp [hnew, hc]
      · have hsame : (r.apply h c).entries root = none := by
          rw [Registry.apply, register_other (Ne.symm hc), he]
        simp [hsame, hc]

theorem getMembers_some {r : Registry} {entry : RegistryEntry} (he : r.entries root = some entry) :
    r.getMembers root = entry.members := by
  rw [Registry.getMembers, he]

end SealedStellar
