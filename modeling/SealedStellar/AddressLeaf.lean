import SealedStellar.MerkleMembership
import SealedStellar.Settlement

/-! What the leaf of a winner says about the winner: the 32 raw bytes of the address, and not
whether they are the key of an account or the id of a contract. -/
namespace SealedStellar
open Checked MerklePath

def Address.keyBytes : Address → Key
  | .account key => key
  | .contract id => id

def leafInputs (key : Key) : List Fr :=
  [(fromBeBytes (key.toList.take 16) : Fr), (fromBeBytes (key.toList.drop 16) : Fr)]

def LeafBinding (poseidon : Poseidon) (key : Key) : Prop :=
  ∀ x y : Fr, poseidon [x, y] = poseidon (leafInputs key) → [x, y] = leafInputs key

variable {W : Type} {h : Host W}

theorem leafBinding_of_injective {poseidon : Poseidon}
    (hinj : Function.Injective2 fun a b => poseidon [a, b]) (key : Key) :
    LeafBinding poseidon key := by
  intro x y heq
  obtain ⟨rfl, rfl⟩ := hinj heq
  rfl

section Halves

theorem half_lt {bytes : List UInt8} (hlength : bytes.length = 16) :
    fromBeBytes bytes < 2 ^ 128 := by
  have hlt := BigEndian.foldl_bytes_lt bytes
  rw [hlength] at hlt
  exact lt_of_lt_of_eq hlt (by norm_num)

theorem half_injective {u v : List UInt8} (hu : u.length = 16) (hv : v.length = 16)
    (heq : (fromBeBytes u : Fr) = (fromBeBytes v : Fr)) : u = v := by
  have hp : 2 ^ 128 < fieldOrder := by norm_num
  have hnat := Circom.natCast_inj (p := fieldOrder) ((half_lt hu).trans hp) ((half_lt hv).trans hp) heq
  have hu' := BigEndian.toBytes_foldl u
  have hv' := BigEndian.toBytes_foldl v
  rw [hu] at hu'
  rw [hv] at hv'
  calc u = BigEndian.toBytes 16 (fromBeBytes u) := hu'.symm
    _ = BigEndian.toBytes 16 (fromBeBytes v) := by rw [hnat]
    _ = v := hv'

theorem leafInputs_injective {key key' : Key} (heq : leafInputs key = leafInputs key') :
    key = key' := by
  simp only [leafInputs, List.cons.injEq, and_true] at heq
  obtain ⟨hhigh, hlow⟩ := heq
  have htake := half_injective (by simp) (by simp) hhigh
  have hdrop := half_injective (by simp) (by simp) hlow
  have hlist : key.toList = key'.toList := by
    rw [← List.take_append_drop 16 key.toList, htake, hdrop, List.take_append_drop]
  exact Vector.toList_inj.mp hlist

theorem addressLeaf_eq (address : Address) :
    addressLeaf h address = ofFr (h.poseidon (leafInputs address.keyBytes)) := by
  have hdrop : address.toXdr.drop (address.toXdr.length - 32) = address.keyBytes.toList := by
    rw [Address.toXdr_drop]
    cases address <;> rfl
  have hsmall : ∀ bytes : List UInt8, bytes.length = 16 → fromBeBytes bytes < 2 ^ 256 :=
    fun bytes hb => (half_lt hb).trans (by norm_num)
  simp only [addressLeaf, hdrop, Host.poseidonHash, leafInputs, List.map_cons, List.map_nil,
    toFr_ofNat (hsmall (address.keyBytes.toList.take 16) (by simp)),
    toFr_ofNat (hsmall (address.keyBytes.toList.drop 16) (by simp))]

theorem ofFr_injective {x y : Fr} (heq : ofFr x = ofFr y) : x = y := by
  rw [← toFr_ofFr x, heq, toFr_ofFr]

end Halves

theorem addressLeaf_eq_iff {a b : Address} (hbind : LeafBinding h.poseidon a.keyBytes) :
    addressLeaf h b = addressLeaf h a ↔ b.keyBytes = a.keyBytes := by
  rw [addressLeaf_eq, addressLeaf_eq]
  constructor
  · intro heq
    exact leafInputs_injective (hbind _ _ (ofFr_injective heq))
  · intro heq
    rw [heq]

theorem keyBytes_eq_iff {address : Address} {key : Key} :
    address.keyBytes = key ↔ address = .account key ∨ address = .contract key := by
  cases address <;> simp [Address.keyBytes]

/-- The leaf of an address determines its 32 raw bytes; so a settlement whose leaf is that of a
listed account pays this account or the contract with the same bytes. -/
theorem leaf_names_bytes (h : Host W) :
    (∀ a b : Address, LeafBinding h.poseidon a.keyBytes →
      (addressLeaf h b = addressLeaf h a ↔ b.keyBytes = a.keyBytes)) ∧
    ∀ key : Key, LeafBinding h.poseidon key →
      ∀ auctionId winnerIndex winningPrice winnerAddress proof s s',
        settle h auctionId winnerIndex winningPrice winnerAddress proof s = .ok s' →
        ((addressLeaf h winnerAddress).toNat : ℤ) =
          computeAddressLeaf (poseidonHasher h.poseidon) key →
        (winnerAddress = .account key ∨ winnerAddress = .contract key) ∧
        ∃ auction, s.auctions auctionId = some auction ∧
          ∃ s1, payAll h (settlePayments h auction winnerIndex winningPrice winnerAddress)
              (s.setAuction h auctionId (closed auction .Settled)) = .ok s1 ∧
            s' = s1.publish (.AuctionSettled auctionId winnerAddress winningPrice) := by
  refine ⟨fun a b hbind => addressLeaf_eq_iff hbind, ?_⟩
  intro key hbind auctionId winnerIndex winningPrice winnerAddress proof s s' hsettle hleaf
  rw [computeAddressLeaf_eq, Int.natCast_inj] at hleaf
  have hbytes : winnerAddress.keyBytes = key :=
    (addressLeaf_eq_iff (a := .account key) hbind).mp (BitVec.eq_of_toNat_eq hleaf)
  obtain ⟨auction, ha, -, -, -, -, -, bid, -, -, verifier, -, -, s1, hpay, hs'⟩ :=
    (settle_eq_ok h auctionId winnerIndex winningPrice winnerAddress proof s s').mp hsettle
  exact ⟨keyBytes_eq_iff.mp hbytes, auction, ha, s1, hpay, hs'.symm⟩

/-- With a sound verifier and the root of a listed tree, the winner carries the bytes of a listed
account, unless its leaf is the padding. -/
theorem settle_pays_listed {g : Genesis W} (hsound : VerifierSound h g.verifier)
    {actions : List (Action W)} {signers : List Address} {k i : ℕ} {price : ℤ} {winner : Address}
    {proof : VerifierProof} {s' : State W} {auction : Auction} {keys : List Key}
    (he : exec h signers (.settle k i price winner proof) (runFrom h g actions) = .ok s')
    (ha : (runFrom h g actions).auctions k = some auction)
    (hcap : (keys.map (computeAddressLeaf (poseidonHasher h.poseidon))).length ≤ 2 ^ 10)
    (hroot : (PoseidonMerkleTree.new (poseidonHasher h.poseidon) 10
      (keys.map (computeAddressLeaf (poseidonHasher h.poseidon)))).root =
        (auction.whitelistRoot.toNat : ℤ))
    (htree : TreeBinding h.poseidon 10 (keys.map (computeAddressLeaf (poseidonHasher h.poseidon))))
    (hbind : ∀ key ∈ keys, LeafBinding h.poseidon key)
    (hzero : h.poseidon (leafInputs winner.keyBytes) ≠ 0) : winner.keyBytes ∈ keys := by
  obtain ⟨_, ha', ⟨bid, hslot, hwinner⟩, _, _, htrue⟩ := settle_trueOutcome hsound he
  rw [ha, Option.some.injEq] at ha'
  subst ha'
  obtain ⟨bid', hslot', path, hpath, hclimb⟩ := htrue.member
  rw [hslot, Option.some.injEq] at hslot'
  subst hslot'
  have hcast := @root_cast h.poseidon 10 (keys.map (computeAddressLeaf (poseidonHasher h.poseidon)))
  rw [hroot, Int.cast_natCast] at hcast
  rw [hwinner, addressLeaf_eq, toFr_ofFr, toFr, hcast] at hclimb
  obtain ⟨-, hleaf, -⟩ := path_unique _ 0 (fieldLeaves_length hcap) htree hpath hclimb
  rw [fieldLeaf_getD, paddedLeaves, List.getD_eq_getElem?_getD] at hleaf
  by_cases hlisted : pathIndex path < keys.length
  · rw [List.getElem?_append_left (by simpa using hlisted), List.getElem?_map,
      List.getElem?_eq_getElem hlisted, Option.map_some, Option.getD_some, computeAddressLeaf_eq,
      Int.cast_natCast, ← toFr, addressLeaf_eq, toFr_ofFr] at hleaf
    have hmem := List.getElem_mem hlisted
    have hbytes := leafInputs_injective (hbind _ hmem _ _ hleaf)
    rw [hbytes]
    exact hmem
  · rw [List.getElem?_append_right (by simpa using hlisted)] at hleaf
    refine absurd (hleaf.trans ?_) hzero
    rw [List.getElem?_replicate]
    split <;> simp

section Fixture

def markHash : Poseidon := fun inputs =>
  if inputs = leafInputs (keyOf 3) then 1
  else if inputs.length = 2 then ((2 : ℕ) : Fr)
  else inputs.headD 0

def markHost : Host SacState :=
  sacHost (.contract (keyOf 0)) (fun _ _ signals =>
    some (decide (signals = [1, 4, 2, 0, 0, 0, 0, 0, 0, 0, 2, 2, 1]))) markHash

def markGenesis : Genesis SacState := ⟨.contract (keyOf 1), evenTokens 100, 0, 1⟩

def markActions (winner : Address) : List (Action SacState) :=
  let seller : Address := .account (keyOf 2)
  let args : CreateArgs := ⟨seller, .contract (keyOf 10), 7, .contract (keyOf 11), 5, 10, 3, 2,
    keyOf 9⟩
  [.call [seller] (.createAuction args), .call [winner] (.placeBid 1 winner 4 []),
    .call [seller] (.placeBid 1 seller 2 []), .closeLedger 10 2]

def noProof : VerifierProof := ⟨Vector.replicate 64 0, Vector.replicate 128 0, Vector.replicate 64 0⟩

theorem markHash_binding : LeafBinding markHash (keyOf 3) := by
  intro x y heq
  by_contra hne
  rw [markHash, markHash, if_neg hne, if_pos rfl] at heq
  have htwo : ((2 : ℕ) : Fr) = 1 := heq
  exact absurd htwo (by decide)

end Fixture

theorem leaf_names_bytes_witness :
    ∃ s', settle markHost 1 0 2 (.account (keyOf 3)) noProof
        (runFrom markHost markGenesis (markActions (.account (keyOf 3)))) = .ok s' ∧
      ∃ auction, (runFrom markHost markGenesis (markActions (.account (keyOf 3)))).auctions 1 =
        some auction := by
  have hok : (exec markHost [] (.settle 1 0 2 (.account (keyOf 3)) noProof)
    (runFrom markHost markGenesis (markActions (.account (keyOf 3))))).isOk = true := by decide
  have hsettle := exec_of_isOk hok
  have hleaf : ((addressLeaf markHost (.account (keyOf 3))).toNat : ℤ) =
      computeAddressLeaf (poseidonHasher markHost.poseidon) (keyOf 3) :=
    (computeAddressLeaf_eq markHost (keyOf 3)).symm
  obtain ⟨-, auction, ha, -⟩ := (leaf_names_bytes markHost).2 (keyOf 3) markHash_binding 1 0 2
    (.account (keyOf 3)) noProof _ _ hsettle hleaf
  exact ⟨_, hsettle, auction, ha⟩

/-- The list names one account; a contract with the same bytes bids, wins and is paid. -/
theorem leaf_pays_contract :
    LeafBinding markHash (keyOf 3) ∧ Address.contract (keyOf 3) ≠ .account (keyOf 3) ∧
    addressLeaf markHost (.contract (keyOf 3)) = addressLeaf markHost (.account (keyOf 3)) ∧
    computeWhitelistRoot sep23 (poseidonHasher markHash) [sep23.encode (.account (keyOf 3))] =
      .ok 2 ∧
    ∃ s', exec markHost [] (.settle 1 0 2 (.contract (keyOf 3)) noProof)
        (runFrom markHost markGenesis (markActions (.contract (keyOf 3)))) = .ok s' ∧
      s'.tokens.balance (.contract (keyOf 10)) (.contract (keyOf 3)) = 107 ∧
      s'.tokens.balance (.contract (keyOf 10)) (.account (keyOf 3)) = 100 := by
  have hok : (exec markHost [] (.settle 1 0 2 (.contract (keyOf 3)) noProof)
    (runFrom markHost markGenesis (markActions (.contract (keyOf 3))))).isOk = true := by decide
  refine ⟨markHash_binding, by decide, ?_, by decide +kernel, _, exec_of_isOk hok, ?_, ?_⟩
  · rw [addressLeaf_eq, addressLeaf_eq]
    rfl
  · decide
  · decide

end SealedStellar
