import Mathlib.Algebra.BigOperators.Group.List.Basic
import Mathlib.Algebra.Order.Ring.Int
import Mathlib.Tactic.Ring

/-! Transfers over several tokens and their net effect on one holder of one token. -/
namespace TokenFlow
variable {τ κ : Type*} [DecidableEq τ] [DecidableEq κ]

structure Move (τ κ : Type*) where
  token : τ
  src : κ
  dst : κ
  amount : ℤ

def Move.effect (m : Move τ κ) (t : τ) (a : κ) : ℤ :=
  if m.token = t then (if m.dst = a then m.amount else 0) - (if m.src = a then m.amount else 0)
  else 0

def net (moves : List (Move τ κ)) (t : τ) (a : κ) : ℤ := (moves.map fun m => m.effect t a).sum

@[simp] theorem net_nil (t : τ) (a : κ) : net [] t a = 0 := rfl

@[simp] theorem net_cons (m : Move τ κ) (moves : List (Move τ κ)) (t : τ) (a : κ) :
    net (m :: moves) t a = m.effect t a + net moves t a := by
  simp [net]

@[simp] theorem net_append (u v : List (Move τ κ)) (t : τ) (a : κ) :
    net (u ++ v) t a = net u t a + net v t a := by
  simp [net]

theorem effect_ne {m : Move τ κ} {t : τ} (h : m.token ≠ t) (a : κ) : m.effect t a = 0 := by
  simp [Move.effect, h]

/-- A detour over b changes nothing in sum. -/
theorem effect_via (m : τ) (a b c : κ) (x : ℤ) (t : τ) (z : κ) :
    (Move.mk m a b x).effect t z + (Move.mk m b c x).effect t z =
      (Move.mk m a c x).effect t z := by
  by_cases hm : m = t
  · simp [Move.effect, hm]
  · simp [Move.effect, hm]

theorem effect_back (m : τ) (a b : κ) (x : ℤ) (t : τ) (z : κ) :
    (Move.mk m b a x).effect t z = -(Move.mk m a b x).effect t z := by
  by_cases hm : m = t
  · simp [Move.effect, hm]
  · simp [Move.effect, hm]

theorem effect_add (m : τ) (a b : κ) (x y : ℤ) (t : τ) (z : κ) :
    (Move.mk m a b (x + y)).effect t z =
      (Move.mk m a b x).effect t z + (Move.mk m a b y).effect t z := by
  by_cases hm : m = t
  · by_cases ha : a = z
    · by_cases hb : b = z
      · simp [Move.effect, ha, hb]
      · simp [Move.effect, hm, ha, hb, add_comm]
    · by_cases hb : b = z
      · simp [Move.effect, hm, ha, hb]
      · simp [Move.effect, ha, hb]
  · simp [Move.effect, hm]

theorem effect_zero (m : τ) (a b : κ) (t : τ) (z : κ) : (Move.mk m a b 0).effect t z = 0 := by
  simp [Move.effect]

theorem effect_received {m : τ} {a b : κ} (x : ℤ) (t : τ) (h : a ≠ b) :
    (Move.mk m a b x).effect t b = if m = t then x else 0 := by
  simp [Move.effect, h]

theorem net_perm {u v : List (Move τ κ)} (h : u.Perm v) (t : τ) (a : κ) : net u t a = net v t a :=
  (h.map _).sum_eq

theorem net_map_neg {ι : Type*} (f g : ι → Move τ κ) (t : τ) (a : κ) (l : List ι)
    (h : ∀ i ∈ l, (f i).effect t a = -(g i).effect t a) :
    net (l.map f) t a = -net (l.map g) t a := by
  induction l with
  | nil => rfl
  | cons i l ih =>
    rw [List.map_cons, List.map_cons, net_cons, net_cons, h i (List.mem_cons_self ..),
      ih fun j hj => h j (List.mem_cons_of_mem i hj)]
    ring

end TokenFlow
