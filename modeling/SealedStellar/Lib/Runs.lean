import Mathlib.Data.List.Basic
import Mathlib.Algebra.Order.Ring.Int

/-! Runs of a deterministic transition function and the rules that lift a step lemma to a run. -/
namespace Runs
variable {σ α : Type*}

def run (step : σ → α → σ) (s : σ) (actions : List α) : σ := actions.foldl step s

/-- Every action meets the condition in the state in which it is taken. -/
def Along (step : σ → α → σ) (ok : σ → α → Prop) : σ → List α → Prop
  | _, [] => True
  | s, a :: actions => ok s a ∧ Along step ok (step s a) actions

variable {step : σ → α → σ} {ok : σ → α → Prop} {P : σ → Prop}

@[simp] theorem run_nil (s : σ) : run step s [] = s := rfl

@[simp] theorem run_cons (s : σ) (a : α) (actions : List α) :
    run step s (a :: actions) = run step (step s a) actions := rfl

theorem run_append (s : σ) (u v : List α) : run step s (u ++ v) = run step (run step s u) v :=
  List.foldl_append

/-- The run rule: what every permitted step preserves holds at the end of the run. -/
theorem run_invariant (hstep : ∀ s a, P s → ok s a → P (step s a)) {s : σ} {actions : List α}
    (hs : P s) (hok : Along step ok s actions) : P (run step s actions) := by
  induction actions generalizing s with
  | nil => exact hs
  | cons a actions ih => exact ih (hstep s a hs hok.1) hok.2

theorem along_of_forall (h : ∀ s a, ok s a) (s : σ) (actions : List α) :
    Along step ok s actions := by
  induction actions generalizing s with
  | nil => trivial
  | cons a actions ih => exact ⟨h s a, ih _⟩

theorem along_of_mem {ok : α → Prop} {actions : List α} (h : ∀ a ∈ actions, ok a) (s : σ) :
    Along step (fun _ a => ok a) s actions := by
  induction actions generalizing s with
  | nil => trivial
  | cons a actions ih =>
    exact ⟨h a (List.mem_cons_self ..), ih (fun b hb => h b (List.mem_cons_of_mem a hb)) _⟩

/-- Two conditions that agree wherever the first one leads are met by the same runs. -/
theorem along_congr {ok' : σ → α → Prop} (hstep : ∀ s a, P s → ok s a → P (step s a))
    (hiff : ∀ s a, P s → (ok s a ↔ ok' s a)) {s : σ} (hs : P s) (actions : List α) :
    Along step ok s actions ↔ Along step ok' s actions := by
  induction actions generalizing s with
  | nil => exact Iff.rfl
  | cons a actions ih =>
    rw [Along, Along, ← hiff s a hs]
    exact and_congr_right fun hok => ih (hstep s a hs hok)

theorem run_invariant' (hstep : ∀ s a, P s → P (step s a)) {s : σ} (hs : P s)
    (actions : List α) : P (run step s actions) := by
  have hok : Along step (fun _ _ => True) s actions := along_of_forall (fun _ _ => trivial) s actions
  exact run_invariant (fun s a h _ => hstep s a h) hs hok

theorem run_crosses {s : σ} {actions : List α} (hs : ¬ P s) (hend : P (run step s actions)) :
    ∃ before a after, actions = before ++ a :: after ∧ ¬ P (run step s before) ∧
      P (step (run step s before) a) := by
  induction actions generalizing s with
  | nil => exact absurd hend hs
  | cons a actions ih =>
    by_cases hnext : P (step s a)
    · exact ⟨[], a, actions, rfl, hs, hnext⟩
    · obtain ⟨before, b, after, rfl, hbefore, hafter⟩ := ih hnext hend
      exact ⟨a :: before, b, after, rfl, hbefore, hafter⟩

/-- The sum of what each step is worth in the state in which it is taken. -/
def total (step : σ → α → σ) (f : σ → α → ℤ) : σ → List α → ℤ
  | _, [] => 0
  | s, a :: actions => f s a + total step f (step s a) actions

variable {f : σ → α → ℤ}

theorem total_append (s : σ) (u v : List α) : total step f s (u ++ v) =
    total step f s u + total step f (run step s u) v := by
  induction u generalizing s with
  | nil => simp [total]
  | cons a u ih => simp [total, ih, add_assoc]

/-- The run rule for a state and the sum so far. -/
theorem total_invariant {P : σ → ℤ → Prop}
    (hstep : ∀ s a n, P s n → P (step s a) (n + f s a)) {s : σ} {n : ℤ} (hs : P s n)
    (actions : List α) : P (run step s actions) (n + total step f s actions) := by
  induction actions generalizing s n with
  | nil => simpa [total] using hs
  | cons a actions ih =>
    have htail := ih (hstep s a n hs)
    rwa [add_assoc] at htail

theorem total_eq_zero {P : σ → Prop} {actions : List α} (hstep : ∀ s a, P s → P (step s a))
    (hzero : ∀ s a, P s → a ∈ actions → f s a = 0) {s : σ} (hs : P s) :
    total step f s actions = 0 := by
  induction actions generalizing s with
  | nil => rfl
  | cons a actions ih =>
    have htail := ih (fun s b hs hb => hzero s b hs (List.mem_cons_of_mem a hb)) (hstep s a hs)
    rw [total, hzero s a hs List.mem_cons_self, htail, add_zero]

end Runs
