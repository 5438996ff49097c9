import SealedStellar.WhitelistTree

/-! The whitelist tree against the membership checker of the circuit: every leaf of the tree is
accepted with its path, and nothing else is. -/
namespace SealedStellar
open Checked MerklePath

/-- circuits/test/helpers.js: the same tree, built and read with checks. -/
def Helpers.PoseidonMerkleTree.new (hash : List ℤ → ℤ) (depth : ℕ) (leaves : List ℤ) :
    Except String PoseidonMerkleTree := do
  ensure (leaves.length ≤ 2 ^ depth)
    s!"[PoseidonMerkleTree] {leaves.length} leaves exceed capacity {2 ^ depth}"
  return SealedStellar.PoseidonMerkleTree.new hash depth leaves

def Helpers.PoseidonMerkleTree.pathFor (tree : PoseidonMerkleTree) (leafIndex : ℤ) :
    Except String WinnerPath := do
  ensure (¬(leafIndex < 0 ∨ leafIndex ≥ (tree.levels.getD 0 []).length))
    s!"[pathFor] leaf index {leafIndex} out of range"
  return tree.pathFor leafIndex.toNat

def paddedLeaves (depth : ℕ) (leaves : List ℤ) : List ℤ :=
  leaves ++ List.replicate (2 ^ depth - leaves.length) 0

def elementSignals (path : WinnerPath) {depth : ℕ} (i : Fin depth) : Fr :=
  ((path.elements.getD i 0 : ℤ) : Fr)

def bitSignals (path : WinnerPath) {depth : ℕ} (i : Fin depth) : Fr :=
  ((path.indexBits.getD i 0 : ℤ) : Fr)

def Accepted (poseidon : Poseidon) {depth : ℕ} (leaf root : Fr) (elements bits : Fin depth → Fr) :
    Prop :=
  ∃ nodes lefts rights,
    MerkleTreeChecker poseidon depth leaf root elements bits nodes lefts rights

def indexOfBits {depth : ℕ} (bits : Fin depth → Fr) : ℕ :=
  Nat.ofDigits 2 (List.ofFn fun i => if bits i = 1 then 1 else 0)

/-- No other pair hashes to an inner node of the tree over these leaves. -/
def TreeBinding (poseidon : Poseidon) (depth : ℕ) (leaves : List ℤ) : Prop :=
  Binding (fun a b => poseidon [a, b]) 0 depth
    ((paddedLeaves depth leaves).map fun x : ℤ => (x : Fr))

variable {poseidon : Poseidon} {depth : ℕ} {leaves : List ℤ}

theorem paddedLeaves_length (hcap : leaves.length ≤ 2 ^ depth) :
    (paddedLeaves depth leaves).length = 2 ^ depth := by
  simp only [paddedLeaves, List.length_append, List.length_replicate]
  omega

theorem treeBinding_of_injective (hinj : Function.Injective2 fun a b => poseidon [a, b])
    (hcap : leaves.length ≤ 2 ^ depth) : TreeBinding poseidon depth leaves := by
  apply binding_of_injective _ hinj
  rw [List.length_map, paddedLeaves_length hcap]

section Field

def fieldLevels (poseidon : Poseidon) (depth : ℕ) (leaves : List ℤ) : List (List Fr) :=
  levels (fun a b => poseidon [a, b]) depth ((paddedLeaves depth leaves).map fun x : ℤ => (x : Fr))

theorem fieldLevels_eq : fieldLevels poseidon depth leaves =
    (PoseidonMerkleTree.new (poseidonHasher poseidon) depth leaves).levels.map
      (List.map fun x : ℤ => (x : Fr)) :=
  (levels_map (fun a b => poseidonHasher_cast poseidon [a, b]) depth _).symm

theorem root_cast :
    (((PoseidonMerkleTree.new (poseidonHasher poseidon) depth leaves).root : ℤ) : Fr) =
      ((fieldLevels poseidon depth leaves).getD depth []).getD 0 0 := by
  rw [fieldLevels_eq, PoseidonMerkleTree.root]
  simp only [List.getD_eq_getElem?_getD, List.getElem?_map, PoseidonMerkleTree.new]
  cases (levels (fun left right => poseidonHasher poseidon [left, right]) depth
      (leaves ++ List.replicate (2 ^ depth - leaves.length) 0))[depth]? with
  | none => simp
  | some level => cases level with
    | nil => simp
    | cons node level => simp

theorem pathFrom_cast (poseidon : Poseidon) (depth : ℕ) (leaves : List ℤ) (i : ℕ) :
    pathFrom 0 ((fieldLevels poseidon depth leaves).take depth) i =
      (pathFrom 0 ((PoseidonMerkleTree.new (poseidonHasher poseidon) depth leaves).levels.take
        depth) i).map fun entry => ((entry.1 : Fr), entry.2) := by
  have hmap := pathFrom_map (f := fun x : ℤ => (x : Fr)) 0
    ((PoseidonMerkleTree.new (poseidonHasher poseidon) depth leaves).levels.take depth) i
  rw [← hmap, fieldLevels_eq, List.map_take, Int.cast_zero]

theorem path_length (i : ℕ) : (pathFrom (0 : ℤ)
    ((PoseidonMerkleTree.new (poseidonHasher poseidon) depth leaves).levels.take depth) i).length =
      depth := by
  rw [pathFrom_length, List.length_take, PoseidonMerkleTree.new, levels_length]
  omega

end Field

section Signals
variable {tree : PoseidonMerkleTree} {i : ℕ}

theorem elementSignals_get (j : Fin depth)
    (hlen : (pathFrom (0 : ℤ) (tree.levels.take tree.depth) i).length = depth) :
    elementSignals (tree.pathFor i) j =
      (((pathFrom (0 : ℤ) (tree.levels.take tree.depth) i).get ⟨j, hlen ▸ j.isLt⟩).1 : Fr) := by
  have hj : (j : ℕ) < (pathFrom (0 : ℤ) (tree.levels.take tree.depth) i).length := hlen ▸ j.isLt
  simp [elementSignals, PoseidonMerkleTree.pathFor, List.getD_eq_getElem?_getD, hj]

theorem bitSignals_get (j : Fin depth)
    (hlen : (pathFrom (0 : ℤ) (tree.levels.take tree.depth) i).length = depth) :
    bitSignals (tree.pathFor i) j =
      if ((pathFrom (0 : ℤ) (tree.levels.take tree.depth) i).get ⟨j, hlen ▸ j.isLt⟩).2 then 1
      else 0 := by
  have hj : (j : ℕ) < (pathFrom (0 : ℤ) (tree.levels.take tree.depth) i).length := hlen ▸ j.isLt
  simp [bitSignals, PoseidonMerkleTree.pathFor, List.getD_eq_getElem?_getD, hj]

theorem signals_list (hlen : (pathFrom (0 : ℤ) (tree.levels.take tree.depth) i).length = depth) :
    (List.ofFn fun j : Fin depth =>
      (elementSignals (tree.pathFor i) j, decide (bitSignals (tree.pathFor i) j = 1))) =
    (pathFrom (0 : ℤ) (tree.levels.take tree.depth) i).map
      fun entry => ((entry.1 : Fr), entry.2) := by
  apply List.ext_getElem
  · simp [hlen]
  · intro n hn hn'
    have hj : n < depth := by simpa using hn
    rw [List.getElem_ofFn, List.getElem_map, elementSignals_get ⟨n, hj⟩ hlen,
      bitSignals_get ⟨n, hj⟩ hlen, List.get_eq_getElem]
    cases (pathFrom (0 : ℤ) (tree.levels.take tree.depth) i)[n].2 <;> simp

end Signals

theorem pathIndex_ofFn (elements bits : Fin depth → Fr) :
    pathIndex (List.ofFn fun i => (elements i, decide (bits i = 1))) = indexOfBits bits := by
  rw [pathIndex, indexOfBits, List.map_ofFn]
  congr 2
  funext i
  by_cases hb : bits i = 1 <;> simp [hb]

section Membership

theorem fieldLeaf_getD (i : ℕ) :
    ((paddedLeaves depth leaves).map fun x : ℤ => (x : Fr)).getD i 0 =
      (((paddedLeaves depth leaves).getD i 0 : ℤ) : Fr) := by
  simp only [List.getD_eq_getElem?_getD, List.getElem?_map]
  cases (paddedLeaves depth leaves)[i]? <;> simp

theorem fieldLeaves_length (hcap : leaves.length ≤ 2 ^ depth) :
    ((paddedLeaves depth leaves).map fun x : ℤ => (x : Fr)).length = 2 ^ depth := by
  rw [List.length_map, paddedLeaves_length hcap]

theorem leaf_accepted (hcap : leaves.length ≤ 2 ^ depth) {i : ℕ} (hi : i < 2 ^ depth) :
    let tree := PoseidonMerkleTree.new (poseidonHasher poseidon) depth leaves
    Accepted poseidon (((paddedLeaves depth leaves).getD i 0 : ℤ) : Fr) (tree.root : Fr)
      (fun j : Fin depth => elementSignals (tree.pathFor i) j)
      (fun j => bitSignals (tree.pathFor i) j) := by
  intro tree
  have hpath : (pathFrom (0 : ℤ) (tree.levels.take tree.depth) i).length = depth := path_length i
  rw [Accepted, merkleTreeChecker_iff]
  constructor
  · intro j
    rw [bitSignals_get j hpath]
    split
    · exact .inr rfl
    · exact .inl rfl
  · rw [signals_list hpath]
    exact padded_climbs poseidon leaves hcap hi

/-- Where the root binds its tree, an accepted path is the path of a leaf. -/
theorem accepted_path (hcap : leaves.length ≤ 2 ^ depth) (hbind : TreeBinding poseidon depth leaves)
    (leaf : Fr) (elements bits : Fin depth → Fr) :
    let tree := PoseidonMerkleTree.new (poseidonHasher poseidon) depth leaves
    Accepted poseidon leaf (tree.root : Fr) elements bits →
      indexOfBits bits < 2 ^ depth ∧
      leaf = (((paddedLeaves depth leaves).getD (indexOfBits bits) 0 : ℤ) : Fr) ∧
      (∀ j, elements j = elementSignals (tree.pathFor (indexOfBits bits)) j) ∧
      ∀ j, bits j = bitSignals (tree.pathFor (indexOfBits bits)) j := by
  intro tree haccepted
  have hpath : (pathFrom (0 : ℤ) (tree.levels.take tree.depth) (indexOfBits bits)).length = depth :=
    path_length (indexOfBits bits)
  obtain ⟨hbits, hclimb⟩ := (merkleTreeChecker_iff _ _ _ _).mp haccepted
  rw [root_cast] at hclimb
  obtain ⟨hlt, hfound, hsame⟩ :=
    path_unique _ 0 (fieldLeaves_length hcap) hbind List.length_ofFn hclimb
  rw [pathIndex_ofFn] at hlt hfound hsame
  have hcast := pathFrom_cast poseidon depth leaves (indexOfBits bits)
  have hlist := (hsame.trans hcast).trans (signals_list hpath).symm
  have hentry := fun j => congrFun (List.ofFn_injective hlist) j
  refine ⟨hlt, hfound.trans (fieldLeaf_getD _), fun j => congrArg Prod.fst (hentry j), fun j => ?_⟩
  have hflag : decide (bits j = 1) =
      decide (bitSignals (tree.pathFor (indexOfBits bits)) j = 1) := congrArg Prod.snd (hentry j)
  rw [decide_eq_decide] at hflag
  cases hbits j with
  | inl hzero =>
    have hcases := bitSignals_get j hpath
    rw [hzero] at hflag ⊢
    split at hcases
    · exact absurd (hflag.mpr hcases) (by decide)
    · exact hcases.symm
  | inr hone => exact hone.trans (hflag.mp hone).symm

theorem helpers_new (hash : List ℤ → ℤ) (hcap : leaves.length ≤ 2 ^ depth) :
    Helpers.PoseidonMerkleTree.new hash depth leaves =
      .ok (PoseidonMerkleTree.new hash depth leaves) := by
  simp only [Helpers.PoseidonMerkleTree.new, bind_eq_ok, ensure_eq_ok, pure_eq_ok, and_true]
  exact ⟨(), hcap⟩

theorem helpers_pathFor (hash : List ℤ → ℤ) (hcap : leaves.length ≤ 2 ^ depth) {i : ℕ}
    (hi : i < 2 ^ depth) :
    let tree := PoseidonMerkleTree.new hash depth leaves
    Helpers.PoseidonMerkleTree.pathFor tree i = .ok (tree.pathFor i) := by
  intro tree
  have hbase : (tree.levels.getD 0 []).length = 2 ^ depth := by
    rw [← paddedLeaves_length hcap]
    cases depth <;> rfl
  have hcast : (i : ℤ) < ((2 ^ depth : ℕ) : ℤ) := by exact_mod_cast hi
  simp only [Helpers.PoseidonMerkleTree.pathFor, bind_eq_ok, ensure_eq_ok, pure_eq_ok, hbase]
  exact ⟨(), by omega, rfl⟩

end Membership

/-- Both trees agree; every leaf below the capacity is accepted with its path; and where the root
binds its tree, an accepted path is the path of the leaf at the index its bits spell, so that
exactly the listed leaves and the padding are provable. -/
theorem merkle_membership (poseidon : Poseidon) (depth : ℕ) (leaves : List ℤ)
    (hcap : leaves.length ≤ 2 ^ depth) :
    let tree := PoseidonMerkleTree.new (poseidonHasher poseidon) depth leaves
    Helpers.PoseidonMerkleTree.new (poseidonHasher poseidon) depth leaves = .ok tree ∧
    (∀ i : ℕ, i < 2 ^ depth →
      Helpers.PoseidonMerkleTree.pathFor tree i = .ok (tree.pathFor i) ∧
      Accepted poseidon (((paddedLeaves depth leaves).getD i 0 : ℤ) : Fr) (tree.root : Fr)
        (fun j : Fin depth => elementSignals (tree.pathFor i) j)
        (fun j => bitSignals (tree.pathFor i) j)) ∧
    (TreeBinding poseidon depth leaves →
      (∀ (leaf : Fr) (elements bits : Fin depth → Fr),
        Accepted poseidon leaf (tree.root : Fr) elements bits →
          indexOfBits bits < 2 ^ depth ∧
          leaf = (((paddedLeaves depth leaves).getD (indexOfBits bits) 0 : ℤ) : Fr) ∧
          (∀ j, elements j = elementSignals (tree.pathFor (indexOfBits bits)) j) ∧
          ∀ j, bits j = bitSignals (tree.pathFor (indexOfBits bits)) j) ∧
      ∀ leaf : Fr, (∃ elements bits : Fin depth → Fr,
          Accepted poseidon leaf (tree.root : Fr) elements bits) ↔
        ∃ i < 2 ^ depth, leaf = (((paddedLeaves depth leaves).getD i 0 : ℤ) : Fr)) := by
  intro tree
  refine ⟨helpers_new _ hcap, fun i hi => ⟨helpers_pathFor _ hcap hi, leaf_accepted hcap hi⟩, ?_⟩
  intro hbind
  have hunique := accepted_path hcap hbind
  refine ⟨hunique, fun leaf => ?_⟩
  constructor
  · intro haccepted
    obtain ⟨elements, bits, haccepted⟩ := haccepted
    obtain ⟨hlt, hleaf, -, -⟩ := hunique leaf elements bits haccepted
    exact ⟨indexOfBits bits, hlt, hleaf⟩
  · intro hlisted
    obtain ⟨i, hi, hleaf⟩ := hlisted
    exact ⟨_, _, hleaf ▸ leaf_accepted hcap hi⟩

/-- A hash with no collisions at the nodes of the tree over 5, 7 and 9. -/
theorem merkle_membership_witness :
    let poseidon : Poseidon := fun inputs => if inputs = [5, 7] then 1 else
      if inputs = [9, 0] then 2 else if inputs = [1, 2] then 3 else 0
    let tree := PoseidonMerkleTree.new (poseidonHasher poseidon) 2 [5, 7, 9]
    ∀ leaf : Fr, (∃ elements bits : Fin 2 → Fr,
        Accepted poseidon leaf (tree.root : Fr) elements bits) ↔
      ∃ i < 4, leaf = (([5, 7, 9, 0].getD i 0 : ℤ) : Fr) := by
  intro poseidon tree
  have hfirst : poseidon [5, 7] = 1 := if_pos rfl
  have hsecond : poseidon [9, 0] = 2 := by decide
  have hroot : poseidon [1, 2] = 3 := by decide
  have hnode : ∀ inputs, (poseidon inputs = 1 → inputs = [5, 7]) ∧
      (poseidon inputs = 2 → inputs = [9, 0]) ∧ (poseidon inputs = 3 → inputs = [1, 2]) := by
    intro inputs
    by_cases hleft : inputs = [5, 7]
    · subst hleft
      decide
    · by_cases hright : inputs = [9, 0]
      · subst hright
        decide
      · by_cases htop : inputs = [1, 2]
        · subst htop
          decide
        · simp only [poseidon, if_neg hleft, if_neg hright, if_neg htop]
          refine ⟨?_, ?_, ?_⟩ <;> exact fun heq => absurd heq (by decide)
  have hpair : ∀ {a b c d : Fr}, [a, b] = [c, d] → a = c ∧ b = d := by simp
  have hbind : TreeBinding poseidon 2 [5, 7, 9] := by
    refine ⟨fun j hj a b heq => ?_, fun j hj a b heq => ?_, trivial⟩
    · match j, hj with
      | 0, _ => exact hpair ((hnode [a, b]).1 (heq.trans hfirst))
      | 1, _ => exact hpair ((hnode [a, b]).2.1 (heq.trans hsecond))
    · match j, hj with
      | 0, _ => exact hpair ((hnode [a, b]).2.2 (heq.trans hroot))
  exact ((merkle_membership poseidon 2 [5, 7, 9] (by decide)).2.2 hbind).2

end SealedStellar
