import SealedStellar.PublicVector
import SealedStellar.StrKey
import SealedStellar.Lib.BigEndian

/-! web/src/lib/whitelist-tree.ts: leaves and Merkle tree of a whitelist, over the bigints of
circomlibjs. -/
namespace SealedStellar
open Checked MerklePath

/-- A bigint hash, as `getPoseidonHasher` returns it: inputs reduced modulo r, output below r. -/
def poseidonHasher (poseidon : Poseidon) (inputs : List ℤ) : ℤ :=
  ((poseidon (inputs.map fun x : ℤ => (x : Fr))).val : ℤ)

def merkleDepth : ℕ := 10

def maxWhitelistMembers : ℕ := 2 ^ merkleDepth

def byteAt (keyBytes : Key) (byteIndex : ℕ) : ℤ := ((keyBytes.toList.getD byteIndex 0).toNat : ℤ)

def computeAddressLeaf (hash : List ℤ → ℤ) (keyBytes : Key) : ℤ :=
  let halves := (List.range 16).foldl (fun (halves : ℤ × ℤ) byteIndex =>
    (halves.1 * 256 + byteAt keyBytes byteIndex, halves.2 * 256 + byteAt keyBytes (byteIndex + 16)))
    (0, 0)
  hash [halves.1, halves.2]

structure PoseidonMerkleTree where
  levels : List (List ℤ)
  depth : ℕ

structure WinnerPath where
  elements : List ℤ
  indexBits : List ℤ

def PoseidonMerkleTree.new (hash : List ℤ → ℤ) (depth : ℕ) (leaves : List ℤ) : PoseidonMerkleTree where
  levels := MerklePath.levels (fun left right => hash [left, right]) depth
    (leaves ++ List.replicate (2 ^ depth - leaves.length) 0)
  depth := depth

def PoseidonMerkleTree.root (tree : PoseidonMerkleTree) : ℤ :=
  (tree.levels.getD tree.depth []).getD 0 0

def PoseidonMerkleTree.pathFor (tree : PoseidonMerkleTree) (leafIndex : ℕ) : WinnerPath :=
  let path := pathFrom 0 (tree.levels.take tree.depth) leafIndex
  { elements := path.map Prod.fst, indexBits := path.map fun entry => if entry.2 then 1 else 0 }

def computeWhitelistRoot (strKey : StrKey) (hash : List ℤ → ℤ) (members : List String) :
    Except String ℤ := do
  ensure (members ≠ []) "The whitelist needs at least one address."
  ensure (members.length ≤ maxWhitelistMembers)
    s!"The whitelist can hold at most {maxWhitelistMembers} addresses."
  let leaves ← members.mapM fun memberAddress => do
    let keyBytes ← okOr (strKey.decodeEd25519PublicKey memberAddress)
      s!"{memberAddress} is not a valid Stellar address."
    return computeAddressLeaf hash keyBytes
  return (PoseidonMerkleTree.new hash merkleDepth leaves).root

section Leaf
variable {W : Type} (h : Host W)

theorem foldl_range_getD {α : Type} (f : α → UInt8 → α) (a : α) (bytes : List UInt8) {n : ℕ}
    (hn : n ≤ bytes.length) :
    (List.range n).foldl (fun acc i => f acc (bytes.getD i 0)) a = (bytes.take n).foldl f a := by
  induction n with
  | zero => rfl
  | succ n ih =>
    have hlt : n < bytes.length := by omega
    rw [List.range_succ, List.foldl_append, ih (by omega), List.take_succ_eq_append_getElem hlt,
      List.foldl_append]
    simp [List.getD_eq_getElem?_getD, List.getElem?_eq_getElem hlt]

theorem fromBeBytes_cast (bytes : List UInt8) (a : ℕ) :
    bytes.foldl (fun (acc : ℤ) b => acc * 256 + (b.toNat : ℤ)) (a : ℤ) =
      ((bytes.foldl (fun acc b => acc * 256 + b.toNat) a : ℕ) : ℤ) := by
  induction bytes generalizing a with
  | nil => rfl
  | cons b bytes ih =>
    rw [List.foldl_cons, List.foldl_cons, ← ih]
    push_cast
    rfl

theorem foldl_halves (key : Key) (n : ℕ) (a b : ℤ) :
    (List.range n).foldl (fun (halves : ℤ × ℤ) byteIndex =>
      (halves.1 * 256 + byteAt key byteIndex, halves.2 * 256 + byteAt key (byteIndex + 16)))
      (a, b) =
    ((List.range n).foldl (fun acc i => acc * 256 + byteAt key i) a,
      (List.range n).foldl (fun acc i => acc * 256 + byteAt key (i + 16)) b) := by
  induction n with
  | zero => rfl
  | succ n ih => simp only [List.range_succ, List.foldl_append, ih, List.foldl_cons, List.foldl_nil]

theorem ofFr_toNat (x : Fr) : (ofFr x).toNat = x.val := by
  have hlt : x.val < 2 ^ 256 := lt_trans (ZMod.val_lt x) (by norm_num)
  rw [ofFr, BitVec.toNat_ofNat, Nat.mod_eq_of_lt hlt]

/-- The leaf of the browser is the leaf of the contract. -/
theorem computeAddressLeaf_eq (key : Key) :
    computeAddressLeaf (poseidonHasher h.poseidon) key =
      ((addressLeaf h (.account key)).toNat : ℤ) := by
  have hlen : key.toList.length = 32 := by simp
  have hhigh : (List.range 16).foldl (fun acc i => acc * 256 + byteAt key i) 0 =
      (fromBeBytes (key.toList.take 16) : ℤ) := by
    rw [fromBeBytes, ← fromBeBytes_cast]
    exact foldl_range_getD (fun (acc : ℤ) b => acc * 256 + (b.toNat : ℤ)) 0 key.toList (by omega)
  have hlow : (List.range 16).foldl (fun acc i => acc * 256 + byteAt key (i + 16)) 0 =
      (fromBeBytes (key.toList.drop 16) : ℤ) := by
    have hfold := foldl_range_getD (fun (acc : ℤ) b => acc * 256 + (b.toNat : ℤ)) 0
      (key.toList.drop 16) (n := 16) (by simp)
    have hat : ∀ i, (key.toList.drop 16).getD i 0 = key.toList.getD (i + 16) 0 := by
      intro i
      rw [List.getD_eq_getElem?_getD, List.getD_eq_getElem?_getD, List.getElem?_drop, Nat.add_comm]
    simp only [hat] at hfold
    rw [List.take_of_length_le (by simp)] at hfold
    rw [fromBeBytes, ← fromBeBytes_cast]
    exact hfold
  have hbound : ∀ bytes : List UInt8, bytes.length = 16 → fromBeBytes bytes < 2 ^ 256 := by
    intro bytes hb
    have hlt := BigEndian.foldl_bytes_lt bytes
    rw [hb] at hlt
    exact lt_trans hlt (by norm_num)
  have hxdr := Address.toXdr_drop (.account key)
  simp only [computeAddressLeaf, foldl_halves, hhigh, hlow, addressLeaf, hxdr, Host.poseidonHash,
    ofFr_toNat, poseidonHasher, List.map_cons, List.map_nil,
    toFr_ofNat (hbound (key.toList.take 16) (by simp)),
    toFr_ofNat (hbound (key.toList.drop 16) (by simp)), Int.cast_natCast]

end Leaf

section Tree
variable (poseidon : Poseidon) (leaves : List ℤ)

theorem poseidonHasher_cast (inputs : List ℤ) :
    ((poseidonHasher poseidon inputs : ℤ) : Fr) = poseidon (inputs.map fun x : ℤ => (x : Fr)) := by
  rw [poseidonHasher, Int.cast_natCast, ZMod.natCast_zmod_val]

theorem padded_climbs {depth i : ℕ} (hcap : leaves.length ≤ 2 ^ depth) (hi : i < 2 ^ depth) :
    let tree := PoseidonMerkleTree.new (poseidonHasher poseidon) depth leaves
    let path := pathFrom 0 (tree.levels.take tree.depth) i
    climb (fun a b => poseidon [a, b])
      (((leaves ++ List.replicate (2 ^ depth - leaves.length) 0).getD i 0 : ℤ) : Fr)
      (path.map fun entry => ((entry.1 : Fr), entry.2)) = (tree.root : Fr) := by
  intro tree path
  have hlen : (leaves ++ List.replicate (2 ^ depth - leaves.length) 0).length = 2 ^ depth := by
    simp only [List.length_append, List.length_replicate]
    omega
  have hclimb := climb_pathFrom (fun left right => poseidonHasher poseidon [left, right]) 0 hlen hi
  have hmap := climb_map (fun left right => poseidonHasher poseidon [left, right])
    (fun a b => poseidon [a, b]) (fun x : ℤ => (x : Fr))
    (fun a b => poseidonHasher_cast poseidon [a, b])
    ((leaves ++ List.replicate (2 ^ depth - leaves.length) 0).getD i 0) path
  exact hmap.symm.trans (congrArg (fun x : ℤ => (x : Fr)) hclimb)

/-- The path of the winner climbs, in the field, to the root of the tree. -/
theorem pathFor_climbs {depth i : ℕ} (hcap : leaves.length ≤ 2 ^ depth) (hi : i < leaves.length) :
    let tree := PoseidonMerkleTree.new (poseidonHasher poseidon) depth leaves
    let path := pathFrom 0 (tree.levels.take tree.depth) i
    climb (fun a b => poseidon [a, b]) ((leaves.getD i 0 : ℤ) : Fr)
      (path.map fun entry => ((entry.1 : Fr), entry.2)) = (tree.root : Fr) := by
  have hleaf : (leaves ++ List.replicate (2 ^ depth - leaves.length) 0).getD i 0 =
      leaves.getD i 0 := by
    rw [List.getD_eq_getElem?_getD, List.getD_eq_getElem?_getD, List.getElem?_append_left hi]
  rw [← hleaf]
  exact padded_climbs poseidon leaves hcap (lt_of_lt_of_le hi hcap)

theorem root_range {depth : ℕ} (hdepth : 0 < depth) (hcap : leaves.length ≤ 2 ^ depth) :
    let tree := PoseidonMerkleTree.new (poseidonHasher poseidon) depth leaves
    0 ≤ tree.root ∧ tree.root < 2 ^ 256 := by
  intro tree
  have hlen : (leaves ++ List.replicate (2 ^ depth - leaves.length) 0).length = 2 ^ depth := by
    simp only [List.length_append, List.length_replicate]
    omega
  have hclimb := climb_pathFrom (fun left right => poseidonHasher poseidon [left, right]) 0 hlen
    (Nat.two_pow_pos depth)
  have hhash : ∀ a b : ℤ,
      0 ≤ poseidonHasher poseidon [a, b] ∧ poseidonHasher poseidon [a, b] < 2 ^ 256 := by
    intro a b
    have hlt : (poseidon ([a, b].map fun x : ℤ => (x : Fr))).val < 2 ^ 256 :=
      lt_trans (ZMod.val_lt _) (by norm_num)
    rw [poseidonHasher]
    exact ⟨Int.natCast_nonneg _, by exact_mod_cast hlt⟩
  change 0 ≤ ((levels _ depth _).getD depth []).getD 0 0 ∧
    ((levels _ depth _).getD depth []).getD 0 0 < 2 ^ 256
  rw [← hclimb]
  refine climb_hashed (P := fun x => 0 ≤ x ∧ x < 2 ^ 256) _ hhash (List.ne_nil_of_length_pos ?_) _
  rw [pathFrom_length, List.length_take, levels_length]
  omega

end Tree
end SealedStellar
