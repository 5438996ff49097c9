import Mathlib.Algebra.Group.Nat.Defs
import Mathlib.Data.List.Basic
import Mathlib.Data.Nat.Digits.Defs
import Mathlib.Logic.Function.Basic

/-! Merkle trees kept as a list of levels, and hashing a leaf up a path of siblings; the flag
of a path entry says that the sibling stands on the left. -/
namespace MerklePath
variable {α β : Type*} (hash : α → α → α)

def climb : α → List (α × Bool) → α
  | node, [] => node
  | node, (sibling, false) :: path => climb (hash node sibling) path
  | node, (sibling, true) :: path => climb (hash sibling node) path

def nextLevel : List α → List α
  | left :: right :: rest => hash left right :: nextLevel rest
  | _ => []

def levels : ℕ → List α → List (List α)
  | 0, level => [level]
  | depth + 1, level => level :: levels depth (nextLevel hash level)

def siblingIndex (i : ℕ) : ℕ := if i % 2 = 0 then i + 1 else i - 1

def pathFrom (z : α) : List (List α) → ℕ → List (α × Bool)
  | [], _ => []
  | level :: rest, i => (level.getD (siblingIndex i) z, decide (i % 2 = 1)) :: pathFrom z rest (i / 2)

theorem climb_map (hash' : β → β → β) (f : α → β) (hf : ∀ a b, f (hash a b) = hash' (f a) (f b))
    (leaf : α) (path : List (α × Bool)) :
    f (climb hash leaf path) = climb hash' (f leaf) (path.map fun entry => (f entry.1, entry.2)) := by
  induction path generalizing leaf with
  | nil => rfl
  | cons entry path ih =>
    obtain ⟨sibling, onLeft⟩ := entry
    cases onLeft with
    | false => rw [climb, List.map_cons, climb, ih, hf]
    | true => rw [climb, List.map_cons, climb, ih, hf]

theorem climb_hashed {P : α → Prop} (hhash : ∀ a b, P (hash a b)) {path : List (α × Bool)}
    (hne : path ≠ []) (leaf : α) : P (climb hash leaf path) := by
  induction path generalizing leaf with
  | nil => exact absurd rfl hne
  | cons entry path ih =>
    have hnode : ∀ a b, P (climb hash (hash a b) path) := by
      intro a b
      by_cases hend : path = []
      · subst hend
        exact hhash a b
      · exact ih hend _
    obtain ⟨sibling, onLeft⟩ := entry
    cases onLeft with
    | false => exact hnode _ _
    | true => exact hnode _ _

theorem nextLevel_length {n : ℕ} {level : List α} (h : level.length = 2 * n) :
    (nextLevel hash level).length = n := by
  induction n generalizing level with
  | zero =>
    rw [List.length_eq_zero_iff.mp h]
    rfl
  | succ n ih =>
    match level, h with
    | left :: right :: rest, h =>
      simp only [List.length_cons] at h
      rw [nextLevel, List.length_cons, ih (by omega)]

theorem nextLevel_getD (z : α) {n i : ℕ} {level : List α} (h : level.length = 2 * n) (hi : i < n) :
    (nextLevel hash level).getD i z = hash (level.getD (2 * i) z) (level.getD (2 * i + 1) z) := by
  induction n generalizing level i with
  | zero => omega
  | succ n ih =>
    match level, h with
    | left :: right :: rest, h =>
      simp only [List.length_cons] at h
      cases i with
      | zero => rfl
      | succ i =>
        have hrest : rest.length = 2 * n := by omega
        have htail := ih hrest (i := i) (by omega)
        rw [nextLevel, List.getD_cons_succ, htail]
        rfl

theorem pathFrom_length (z : α) (tree : List (List α)) (i : ℕ) :
    (pathFrom z tree i).length = tree.length := by
  induction tree generalizing i with
  | nil => rfl
  | cons level rest ih => rw [pathFrom, List.length_cons, List.length_cons, ih]

theorem levels_length (depth : ℕ) (level : List α) : (levels hash depth level).length = depth + 1 := by
  induction depth generalizing level with
  | zero => rfl
  | succ depth ih => rw [levels, List.length_cons, ih]

/-- The path of every leaf of a full tree climbs to the root. -/
theorem climb_pathFrom (z : α) {depth i : ℕ} {level : List α} (h : level.length = 2 ^ depth)
    (hi : i < 2 ^ depth) :
    climb hash (level.getD i z) (pathFrom z ((levels hash depth level).take depth) i) =
      ((levels hash depth level).getD depth []).getD 0 z := by
  induction depth generalizing level i with
  | zero =>
    have hzero : i = 0 := by omega
    rw [hzero]
    rfl
  | succ depth ih =>
    have hlen : level.length = 2 * 2 ^ depth := by rw [h, pow_succ, Nat.mul_comm]
    have hhalf : i / 2 < 2 ^ depth := by
      rw [pow_succ] at hi
      omega
    have hnode := nextLevel_getD hash z hlen hhalf
    have htail := ih (nextLevel_length hash hlen) hhalf
    rw [levels, List.take_succ_cons, pathFrom, List.getD_cons_succ, ← htail, hnode]
    rcases Nat.mod_two_eq_zero_or_one i with hpar | hpar
    · have hleft : 2 * (i / 2) = i := by omega
      simp [climb, siblingIndex, hpar, hleft]
    · have hleft : 2 * (i / 2) = i - 1 := by omega
      have hright : 2 * (i / 2) + 1 = i := by omega
      rw [hright, hleft]
      simp [climb, siblingIndex, hpar]

def pathIndex (path : List (α × Bool)) : ℕ := Nat.ofDigits 2 (path.map fun entry => entry.2.toNat)

theorem pathIndex_cons (sibling : α) (onLeft : Bool) (path : List (α × Bool)) :
    pathIndex ((sibling, onLeft) :: path) = onLeft.toNat + 2 * pathIndex path := rfl

/-- No pair but its own children hashes to an inner node. -/
def Binding (z : α) : ℕ → List α → Prop
  | 0, _ => True
  | depth + 1, level =>
    (∀ j < 2 ^ depth, ∀ a b, hash a b = (nextLevel hash level).getD j z →
      a = level.getD (2 * j) z ∧ b = level.getD (2 * j + 1) z) ∧
    Binding z depth (nextLevel hash level)

theorem binding_of_injective (hinj : Function.Injective2 hash) (z : α) {depth : ℕ} {level : List α}
    (h : level.length = 2 ^ depth) : Binding hash z depth level := by
  induction depth generalizing level with
  | zero => trivial
  | succ depth ih =>
    have hlen : level.length = 2 * 2 ^ depth := by rw [h, pow_succ, Nat.mul_comm]
    refine ⟨fun j hj a b heq => ?_, ih (nextLevel_length hash hlen)⟩
    rw [nextLevel_getD hash z hlen hj] at heq
    exact hinj heq

/-- Under such a root, a path that climbs to it is the path of a leaf of the tree. -/
theorem path_unique (z : α) {depth : ℕ} {level : List α} (h : level.length = 2 ^ depth)
    (hbind : Binding hash z depth level) {leaf : α} {path : List (α × Bool)}
    (hpath : path.length = depth)
    (hroot : climb hash leaf path = ((levels hash depth level).getD depth []).getD 0 z) :
    pathIndex path < 2 ^ depth ∧ leaf = level.getD (pathIndex path) z ∧
      path = pathFrom z ((levels hash depth level).take depth) (pathIndex path) := by
  induction depth generalizing level leaf path with
  | zero =>
    have hnil : path = [] := List.length_eq_zero_iff.mp hpath
    subst hnil
    exact ⟨Nat.zero_lt_one, hroot, rfl⟩
  | succ depth ih =>
    obtain ⟨hhere, habove⟩ := hbind
    have hlen : level.length = 2 * 2 ^ depth := by rw [h, pow_succ, Nat.mul_comm]
    cases path with
    | nil => exact absurd hpath (by simp)
    | cons entry path =>
      obtain ⟨sibling, onLeft⟩ := entry
      have hrest : path.length = depth := by simpa using hpath
      rw [levels, List.getD_cons_succ] at hroot
      rw [levels, List.take_succ_cons, pathFrom, pathIndex_cons]
      cases onLeft with
      | false =>
        obtain ⟨hlt, hnode, htail⟩ := ih (nextLevel_length hash hlen) habove hrest hroot
        obtain ⟨hleaf, hsibling⟩ := hhere _ hlt _ _ hnode
        have hparent : (0 + 2 * pathIndex path) / 2 = pathIndex path := by omega
        have heven : (0 + 2 * pathIndex path) % 2 = 0 := by omega
        simp only [Bool.toNat_false, hparent, heven, siblingIndex, if_true]
        refine ⟨by rw [pow_succ]; omega, by rw [Nat.zero_add]; exact hleaf, ?_⟩
        rw [← htail, Nat.zero_add, ← hsibling]
        rfl
      | true =>
        obtain ⟨hlt, hnode, htail⟩ := ih (nextLevel_length hash hlen) habove hrest hroot
        obtain ⟨hsibling, hleaf⟩ := hhere _ hlt _ _ hnode
        have hparent : (1 + 2 * pathIndex path) / 2 = pathIndex path := by omega
        have hodd : (1 + 2 * pathIndex path) % 2 = 1 := by omega
        simp only [Bool.toNat_true, hparent, hodd, siblingIndex, if_false, Nat.one_ne_zero]
        refine ⟨by rw [pow_succ]; omega, by rw [Nat.add_comm]; exact hleaf, ?_⟩
        rw [← htail, Nat.add_sub_cancel_left, ← hsibling]
        rfl

section Map
variable {hash} {hash' : β → β → β} {f : α → β}

theorem nextLevel_map (hf : ∀ a b, f (hash a b) = hash' (f a) (f b)) (level : List α) :
    (nextLevel hash level).map f = nextLevel hash' (level.map f) := by
  induction level using nextLevel.induct with
  | case1 left right rest ih => simp only [nextLevel, List.map_cons, hf, ih]
  | case2 level hshort =>
    match level, hshort with
    | [], _ => rfl
    | [_], _ => rfl
    | left :: right :: rest, hshort => exact absurd rfl (hshort left right rest)

theorem levels_map (hf : ∀ a b, f (hash a b) = hash' (f a) (f b)) (depth : ℕ) (level : List α) :
    (levels hash depth level).map (List.map f) = levels hash' depth (level.map f) := by
  induction depth generalizing level with
  | zero => rfl
  | succ depth ih => rw [levels, levels, List.map_cons, ih, nextLevel_map hf]

theorem pathFrom_map (z : α) (tree : List (List α)) (i : ℕ) :
    pathFrom (f z) (tree.map (List.map f)) i =
      (pathFrom z tree i).map fun entry => (f entry.1, entry.2) := by
  induction tree generalizing i with
  | nil => rfl
  | cons level rest ih =>
    have hat : (level.map f).getD (siblingIndex i) (f z) = f (level.getD (siblingIndex i) z) := by
      simp only [List.getD_eq_getElem?_getD, List.getElem?_map, Option.getD_map]
    rw [List.map_cons, pathFrom, pathFrom, ih, List.map_cons, hat]

end Map
end MerklePath
