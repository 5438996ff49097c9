import SealedStellar.Host
import Mathlib.Algebra.Order.BigOperators.Group.List

/-! The record of the token calls of a run, and what an exact token makes of it. -/
namespace SealedStellar
open TokenFlow
variable {W : Type} (h : Host W)

def executed : List (Activity W) → List TokenMove
  | [] => []
  | .transfer m _ _ :: acts => m :: executed acts
  | .undecodable _ _ _ :: acts => executed acts
  | .outside _ _ :: acts => executed acts

/-- The token's own code took the call from `before` to `after`. -/
def Activity.Ran : Activity W → Prop
  | .transfer m before after => h.transfer before m = .returned after
  | .undecodable m before after => h.transfer before m = .undecodable after
  | .outside _ _ => True

inductive Log : W → List (Activity W) → W → Prop
  | nil (w : W) : Log w [] w
  | cons (a : Activity W) (acts : List (Activity W)) (w : W) :
      a.Ran h → Log a.after acts w → Log a.before (a :: acts) w

def Activity.Inside : Activity W → Prop
  | .outside _ _ => False
  | _ => True

instance (a : Activity W) : Decidable a.Inside :=
  match a with
  | .transfer _ _ _ | .undecodable _ _ _ => isTrue trivial
  | .outside _ _ => isFalse id

structure CallLog (w : W) (acts : List (Activity W)) (w' : W) (moves : List TokenMove) : Prop where
  log : Log h w acts w'
  inside : ∀ a ∈ acts, a.Inside
  moved : executed acts = moves

/-- A transfer of t moves the stated amount, or fails without effect on balances of t. -/
structure ExactToken (t : Address) : Prop where
  moves : ∀ w m w', m.token = t → h.transfer w m = .returned w' →
    ∀ a, h.balance w' t a = h.balance w t a + m.effect t a
  fails : ∀ w m w', m.token = t → h.transfer w m = .undecodable w' →
    ∀ a, h.balance w' t a = h.balance w t a

def Activity.directCredit (t : Address) : Activity W → ℤ
  | .transfer m before after | .undecodable m before after =>
    if m.token = t then 0 else h.balance after t h.self - h.balance before t h.self
  | .outside before after => h.balance after t h.self - h.balance before t h.self

def directlySent (t : Address) (acts : List (Activity W)) : ℤ :=
  (acts.map (Activity.directCredit h t)).sum

def NoOtherDebit (t : Address) (acts : List (Activity W)) : Prop :=
  ∀ a ∈ acts, (∀ m before after, a = .transfer m before after → m.token ≠ t) →
    h.balance a.before t h.self ≤ h.balance a.after t h.self

@[simp] theorem executed_append (u v : List (Activity W)) :
    executed (u ++ v) = executed u ++ executed v := by
  induction u with
  | nil => rfl
  | cons a u ih => cases a <;> simp [executed, ih]

variable {h}

theorem Log.append {u v : List (Activity W)} {w₁ w₂ w₃ : W} (hu : Log h w₁ u w₂)
    (hv : Log h w₂ v w₃) : Log h w₁ (u ++ v) w₃ := by
  induction hu with
  | nil w => exact hv
  | cons a acts w ha hacts ih => exact .cons a (acts ++ v) w₃ ha (ih hv)

theorem Log.single {a : Activity W} (ha : a.Ran h) : Log h a.before [a] a.after :=
  .cons a [] a.after ha (.nil a.after)

theorem Log.ran {acts : List (Activity W)} {w w' : W} (hlog : Log h w acts w') :
    ∀ a ∈ acts, a.Ran h := by
  induction hlog with
  | nil w => exact List.forall_mem_nil _
  | cons a acts w ha hlog ih => exact List.forall_mem_cons.mpr ⟨ha, ih⟩

theorem CallLog.nil (w : W) : CallLog h w [] w [] := ⟨.nil w, List.forall_mem_nil _, rfl⟩

theorem CallLog.append {u v : List (Activity W)} {w₁ w₂ w₃ : W} {m₁ m₂ : List TokenMove}
    (hu : CallLog h w₁ u w₂ m₁) (hv : CallLog h w₂ v w₃ m₂) :
    CallLog h w₁ (u ++ v) w₃ (m₁ ++ m₂) where
  log := hu.log.append hv.log
  inside := fun a ha => (List.mem_append.mp ha).elim (hu.inside a) (hv.inside a)
  moved := by rw [executed_append, hu.moved, hv.moved]

theorem CallLog.single {a : Activity W} (ha : a.Ran h) (hi : a.Inside) :
    CallLog h a.before [a] a.after (executed [a]) :=
  ⟨Log.single ha, fun _ hb => List.mem_singleton.mp hb ▸ hi, rfl⟩

theorem ExactToken.activity {t : Address} (ht : ExactToken h t) {a : Activity W} (ha : a.Ran h) :
    h.balance a.after t h.self = h.balance a.before t h.self + a.directCredit h t +
      net (executed [a]) t h.self := by
  cases a with
  | transfer m before after =>
    by_cases hm : m.token = t
    · simp [executed, Activity.directCredit, Activity.after, Activity.before, hm,
        ht.moves before m after hm ha]
    · simp [executed, Activity.directCredit, Activity.after, Activity.before, hm, effect_ne hm]
  | undecodable m before after =>
    by_cases hm : m.token = t
    · simp [executed, Activity.directCredit, Activity.after, Activity.before, hm,
        ht.fails before m after hm ha]
    · simp [executed, Activity.directCredit, Activity.after, Activity.before, hm]
  | outside before after => simp [executed, Activity.directCredit, Activity.after, Activity.before]

/-- The contract's balance is accounted for by its transfers and by direct credits. -/
theorem ExactToken.log {t : Address} (ht : ExactToken h t) {acts : List (Activity W)} {w w' : W}
    (hlog : Log h w acts w') : h.balance w' t h.self =
      h.balance w t h.self + directlySent h t acts + net (executed acts) t h.self := by
  induction hlog with
  | nil w => simp [directlySent, executed]
  | cons a acts w ha hacts ih =>
    have hone := ht.activity ha
    have hex : executed (a :: acts) = executed [a] ++ executed acts := executed_append [a] acts
    rw [ih, hone, hex, net_append]
    simp only [directlySent, List.map_cons, List.sum_cons]
    omega

theorem directlySent_nonneg {t : Address} {acts : List (Activity W)} (hd : NoOtherDebit h t acts) :
    0 ≤ directlySent h t acts := by
  apply List.sum_nonneg
  intro x hx
  obtain ⟨a, ha, rfl⟩ := List.mem_map.mp hx
  have hdebit := hd a ha
  cases a with
  | transfer m before after =>
    by_cases hm : m.token = t
    · simp [Activity.directCredit, hm]
    · have hle := hdebit (by intro m' b' a' he; cases he; exact hm)
      simpa [Activity.directCredit, Activity.after, Activity.before, hm] using hle
  | undecodable m before after =>
    by_cases hm : m.token = t
    · simp [Activity.directCredit, hm]
    · have hle := hdebit (by intro m' b' a' he; cases he)
      simpa [Activity.directCredit, Activity.after, Activity.before, hm] using hle
  | outside before after =>
    have hle := hdebit (by intro m' b' a' he; cases he)
    simpa [Activity.directCredit, Activity.after, Activity.before] using hle

end SealedStellar
