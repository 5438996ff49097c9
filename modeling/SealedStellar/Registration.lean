import SealedStellar.Operator
import SealedStellar.Sac
import SealedStellar.WhitelistRegistry

/-! A seller's whitelist between registration and reveal: the root the page computes, the list
the registry gives back for it, and the root the operator page rebuilds from that list. -/
namespace SealedStellar
open Checked
variable {W : Type} {h : Host W} {strKey : StrKey} {hash : List ℤ → ℤ}

/-- web/src/lib/demo-whitelist.ts -/
def demoWhitelistMembers : List String := [
  "GBVBAPDDM6TSSFHSYS3YBY373V6KJK7Z7IMNEKNDAFGAVAVXNJBZD6KM",
  "GDDHJQ64WPTNS7W6ZP2CTNUHI6RRGRHTZPBIAHRSRWKDVBHVAW6RFWW7",
  "GDFEOXY7447MY35USQDTP4TGHHQSNLQ7WCV6GBI3YQEOZM2TWOAMYCRE",
  "GDIVCF6NSGSOXSFOU7H4DUDLOYMERGDKZWMPNVQM6VFNVR26B67FJQBH",
  "GDPUSGQJ4V4PVSK7DFB6KTXLF5OCFIHMZTCVR5EW57OV3KP54JM7S6TE",
  "GC23LXDJALF6PQKAFO3IWCHWSBLTQJBODNOD4FGFUC4KEHBQHNQQBXNK"]

def pageMembers (revealed : List String) : List String :=
  if revealed.length > 0 then revealed else demoWhitelistMembers

def readBack (strKey : StrKey) (r : Registry) (root : U256) : List String :=
  pageMembers ((r.getMembers root).map strKey.encode)

def memberAddresses (strKey : StrKey) (members : List String) : Option (List Address) :=
  (members.mapM strKey.decodeEd25519PublicKey).map (List.map .account)

/-- The root of the tree over the listed accounts; none when a text is no account. -/
def membersRoot (strKey : StrKey) (hash : List ℤ → ℤ) (members : List String) : Option ℤ :=
  (members.mapM strKey.decodeEd25519PublicKey).map fun keys =>
    (PoseidonMerkleTree.new hash merkleDepth (keys.map (computeAddressLeaf hash))).root

section Roots

theorem mapM_leaf {members : List String} {leaves : List ℤ} :
    (members.mapM fun memberAddress => do
      let keyBytes ← okOr (strKey.decodeEd25519PublicKey memberAddress)
        s!"{memberAddress} is not a valid Stellar address."
      return computeAddressLeaf hash keyBytes) = .ok leaves ↔
    ∃ keys, members.mapM strKey.decodeEd25519PublicKey = some keys ∧
      keys.map (computeAddressLeaf hash) = leaves := by
  induction members generalizing leaves with
  | nil => simp
  | cons member members ih =>
    simp only [List.mapM_cons, bind_eq_ok, okOr_eq_ok, pure_eq_ok, ih, Option.bind_eq_bind,
      Option.bind_eq_some_iff, Option.pure_def, Option.some.injEq]
    constructor
    · intro hmembers
      obtain ⟨leaf, ⟨key, hkey, rfl⟩, rest, ⟨keys, hkeys, rfl⟩, rfl⟩ := hmembers
      exact ⟨key :: keys, ⟨key, hkey, keys, hkeys, rfl⟩, rfl⟩
    · intro hmembers
      obtain ⟨all, ⟨key, hkey, keys, hkeys, rfl⟩, rfl⟩ := hmembers
      exact ⟨_, ⟨key, hkey, rfl⟩, _, ⟨keys, hkeys, rfl⟩, rfl⟩

theorem computeWhitelistRoot_eq_ok {members : List String} {root : ℤ} :
    computeWhitelistRoot strKey hash members = .ok root ↔
      members ≠ [] ∧ members.length ≤ maxWhitelistMembers ∧
        membersRoot strKey hash members = some root := by
  simp only [computeWhitelistRoot, membersRoot, bind_eq_ok, ensure_eq_ok, exists_const, mapM_leaf,
    pure_eq_ok, Option.map_eq_some_iff]
  constructor
  · intro hok
    obtain ⟨hne, hcap, leaves, ⟨keys, hkeys, rfl⟩, hroot⟩ := hok
    exact ⟨hne, hcap, keys, hkeys, hroot⟩
  · intro hok
    obtain ⟨hne, hcap, keys, hkeys, hroot⟩ := hok
    exact ⟨hne, hcap, _, ⟨keys, hkeys, rfl⟩, hroot⟩

theorem addMember_leaves {winnerAddress : String} {members : List String} {n : ℕ}
    {leaves₀ leaves : List ℤ} {i₀ i : ℤ}
    (he : (members.zipIdx n).foldlM (addMember strKey hash winnerAddress) (leaves₀, i₀) =
      .ok (leaves, i)) :
    ∃ keys, members.mapM strKey.decodeEd25519PublicKey = some keys ∧
      leaves = leaves₀ ++ keys.map (computeAddressLeaf hash) := by
  induction members generalizing n leaves₀ i₀ with
  | nil =>
    cases he
    exact ⟨[], rfl, by simp⟩
  | cons member members ih =>
    simp only [List.zipIdx_cons, List.foldlM_cons, addMember, bind_eq_ok, okOr_eq_ok,
      pure_eq_ok] at he
    obtain ⟨next, ⟨key, hkey, rfl⟩, he⟩ := he
    obtain ⟨keys, hkeys, rfl⟩ := ih he
    exact ⟨key :: keys, by simp [hkey, hkeys], by simp⟩

/-- The operator page reaches the prover only with a list that rebuilds the root of the auction. -/
theorem assemble_membersRoot {auction : AuctionView} {slots : SlotData} {members : List String}
    {r : CircuitInput × SettleArguments}
    (he : assemble strKey hash auction slots members = .ok r) :
    membersRoot strKey hash members = some auction.whitelistRoot := by
  simp only [assemble, bind_eq_ok, ensure_eq_ok, okOr_eq_ok, exists_const] at he
  obtain ⟨_, -, -, -, winner, -, ⟨leaves, i⟩, hrun, -, hroot, -⟩ := he
  obtain ⟨keys, hkeys, rfl⟩ := addMember_leaves hrun
  rw [membersRoot, hkeys, Option.map_some, ← hroot, List.nil_append]

end Roots

theorem mapM_encode (hkeys : strKey.Faithful) (keys : List Key) :
    ((keys.map Address.account).map strKey.encode).mapM strKey.decodeEd25519PublicKey =
      some keys := by
  refine mapM_of_map ?_
  rw [List.map_map, List.map_map]
  exact List.map_congr_left fun key _ => hkeys (.account key)

theorem membersRoot_encode (hkeys : strKey.Faithful) {members : List String}
    {addresses : List Address} (ha : memberAddresses strKey members = some addresses) :
    membersRoot strKey hash (addresses.map strKey.encode) = membersRoot strKey hash members := by
  obtain ⟨keys, hk, rfl⟩ := Option.map_eq_some_iff.mp ha
  rw [membersRoot, membersRoot, mapM_encode hkeys, hk]

theorem pageMembers_cons {revealed : List String} (hne : revealed ≠ []) :
    pageMembers revealed = revealed := by
  rw [pageMembers, if_pos (List.length_pos_iff.mpr hne)]

def registryAfter (h : Host W) (deployed : ℕ) (calls : List RegisterCall) : Registry :=
  Runs.run (Registry.apply h) (Registry.deploy h deployed) calls

theorem registryAfter_getMembers {deployed : ℕ} {calls : List RegisterCall} {root : U256}
    {first : RegisterCall} (hf : (calls.find? fun c => c.root = root) = some first) :
    (registryAfter h deployed calls).getMembers root = first.members := by
  have hrun := apply_run (h := h) root (Registry.deploy h deployed) calls
  simp only [Registry.deploy, hf, Option.map_some] at hrun
  exact getMembers_some hrun

theorem readBack_first (strKey : StrKey) {deployed : ℕ} {calls : List RegisterCall} {root : U256}
    {first : RegisterCall} (hf : (calls.find? fun c => c.root = root) = some first) :
    readBack strKey (registryAfter h deployed calls) root =
      pageMembers (first.members.map strKey.encode) := by
  rw [readBack, registryAfter_getMembers hf]

theorem decoded_ne_nil {members : List String} {keys : List Key} (hne : members ≠ [])
    (hk : members.mapM strKey.decodeEd25519PublicKey = some keys) : keys ≠ [] := by
  cases members with
  | nil => exact absurd rfl hne
  | cons member rest =>
    simp only [List.mapM_cons, Option.bind_eq_bind, Option.bind_eq_some_iff, Option.pure_def,
      Option.some.injEq] at hk
    obtain ⟨key, -, others, -, rfl⟩ := hk
    exact List.cons_ne_nil key others

/-- After the seller's call the reveal reads a list that rebuilds the root, and keeps doing so,
exactly when no call for that root came first, or the first one carried such a list. -/
theorem registration_kept_iff (h : Host W) (strKey : StrKey) (hkeys : strKey.Faithful)
    (hash : List ℤ → ℤ) (members : List String) (root : U256)
    (hroot : computeWhitelistRoot strKey hash members = .ok (root.toNat : ℤ))
    (deployed sequence : ℕ) (before : List RegisterCall) :
    ∃ addresses, memberAddresses strKey members = some addresses ∧
      ((∀ after, membersRoot strKey hash (readBack strKey
          (registryAfter h deployed (before ++ ⟨sequence, root, addresses⟩ :: after)) root) =
            some (root.toNat : ℤ)) ↔
        ∀ first, (before.find? fun c => c.root = root) = some first →
          membersRoot strKey hash (pageMembers (first.members.map strKey.encode)) =
            some (root.toNat : ℤ)) := by
  obtain ⟨hne, -, hmembers⟩ := computeWhitelistRoot_eq_ok.mp hroot
  obtain ⟨keys, hk, -⟩ := Option.map_eq_some_iff.mp hmembers
  have ha : memberAddresses strKey members = some (keys.map .account) := by
    rw [memberAddresses, hk, Option.map_some]
  refine ⟨keys.map .account, ha, ?_⟩
  cases hf : before.find? fun c => c.root = root with
  | some first =>
    have hfirst : ∀ after, readBack strKey (registryAfter h deployed
        (before ++ ⟨sequence, root, keys.map .account⟩ :: after)) root =
          pageMembers (first.members.map strKey.encode) := by
      intro after
      have hfind : ((before ++ ⟨sequence, root, keys.map .account⟩ :: after).find?
          fun c => c.root = root) = some first := by
        rw [List.find?_append, hf, Option.some_or]
      exact readBack_first strKey hfind
    constructor
    · intro hkept other hother
      cases hother
      rw [← hfirst []]
      exact hkept []
    · intro hcond after
      rw [hfirst after]
      exact hcond first rfl
  | none =>
    have hown : ∀ after, readBack strKey (registryAfter h deployed
        (before ++ ⟨sequence, root, keys.map .account⟩ :: after)) root =
          pageMembers ((keys.map Address.account).map strKey.encode) := by
      intro after
      have hfind : ((before ++ ⟨sequence, root, keys.map .account⟩ :: after).find?
          fun c => c.root = root) = some ⟨sequence, root, keys.map .account⟩ := by
        rw [List.find?_append, hf, Option.none_or, List.find?_cons]
        simp
      exact readBack_first strKey hfind
    have hlen : (keys.map Address.account).map strKey.encode ≠ [] := by
      rw [List.map_map]
      exact mt List.map_eq_nil_iff.mp (decoded_ne_nil hne hk)
    constructor
    · intro _ other hother
      cases hother
    · intro _ after
      rw [hown after, pageMembers_cons hlen, membersRoot_encode hkeys ha, hmembers]

/-- Before the seller, one call came for another root, and one for this root with the seller's list. -/
theorem registration_kept_iff_witness :
    let root : U256 := 0x03030303030303030303030303030303
    let h := sacHost (.contract (keyOf 0)) (fun _ _ _ => none) firstInput
    let members : List Address := [.account (keyOf 3), .account (keyOf 4)]
    let before : List RegisterCall := [⟨2, root + 1, [.account (keyOf 5)]⟩, ⟨3, root, members⟩]
    ∃ addresses, memberAddresses sep23 (members.map sep23.encode) = some addresses ∧
      ∀ after, membersRoot sep23 (poseidonHasher firstInput) (readBack sep23
        (registryAfter h 1 (before ++ ⟨4, root, addresses⟩ :: after)) root) =
          some (root.toNat : ℤ) := by
  intro root h members before
  obtain ⟨addresses, ha, hkept⟩ := registration_kept_iff h sep23 sep23_faithful
    (poseidonHasher firstInput) (members.map sep23.encode) root (by decide +kernel) 1 4 before
  refine ⟨addresses, ha, hkept.mpr ?_⟩
  intro first hf
  have hfirst : (before.find? fun c => c.root = root) = some ⟨3, root, members⟩ := rfl
  rw [hfirst, Option.some.injEq] at hf
  subst hf
  decide +kernel

/-- Somebody else's list, registered for the seller's root in the ledger before. -/
theorem registration_front_run :
    let root : U256 := 0x03030303030303030303030303030303
    let h := sacHost (.contract (keyOf 0)) (fun _ _ _ => none) firstInput
    let member : Address := .account (keyOf 3)
    computeWhitelistRoot sep23 (poseidonHasher firstInput) [sep23.encode member] =
        .ok (root.toNat : ℤ) ∧
      memberAddresses sep23 [sep23.encode member] = some [member] ∧
      membersRoot sep23 (poseidonHasher firstInput) (readBack sep23 (registryAfter h 1
        [⟨2, root, [.account (keyOf 4)]⟩, ⟨3, root, [member]⟩]) root) ≠ some (root.toNat : ℤ) := by
  intro root h member
  exact ⟨by decide +kernel, by decide +kernel, by decide +kernel⟩

end SealedStellar
