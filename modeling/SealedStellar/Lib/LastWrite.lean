import Mathlib.Data.List.Basic

/-! A field that some of the events of a log overwrite and the others leave alone. -/
namespace LastWrite
variable {ε β : Type*} (f : ε → Option β)

def lastWrite (x : β) (log : List ε) : β := log.foldl (fun x e => (f e).getD x) x

variable {f} {x : β} {log : List ε}

@[simp] theorem lastWrite_nil : lastWrite f x [] = x := rfl

@[simp] theorem lastWrite_cons (e : ε) :
    lastWrite f x (e :: log) = lastWrite f ((f e).getD x) log := rfl

theorem lastWrite_append (u v : List ε) :
    lastWrite f x (u ++ v) = lastWrite f (lastWrite f x u) v := List.foldl_append

theorem lastWrite_keep (h : ∀ e ∈ log, f e = none) : lastWrite f x log = x := by
  induction log with
  | nil => rfl
  | cons e log ih =>
    rw [lastWrite_cons, h e List.mem_cons_self]
    exact ih fun e' he' => h e' (List.mem_cons_of_mem e he')

theorem lastWrite_map {γ : Type*} (g : β → γ) (x : β) (log : List ε) :
    lastWrite (fun e => (f e).map g) (g x) log = g (lastWrite f x log) := by
  induction log generalizing x with
  | nil => rfl
  | cons e log ih =>
    rw [lastWrite_cons, lastWrite_cons, ← ih, Option.getD_map]

theorem lastWrite_log_map {γ : Type*} (g : γ → ε) (x : β) (log : List γ) :
    lastWrite f x (log.map g) = lastWrite (fun e => f (g e)) x log := List.foldl_map

theorem lastWrite_irrel {e : ε} {b : β} (he : e ∈ log) (hb : f e = some b) (x y : β) :
    lastWrite f x log = lastWrite f y log := by
  induction log generalizing x y with
  | nil => exact absurd he List.not_mem_nil
  | cons e' log ih =>
    rw [lastWrite_cons, lastWrite_cons]
    cases List.mem_cons.mp he with
    | inl heq =>
      subst heq
      rw [hb]
      rfl
    | inr hmem => exact ih hmem _ _

theorem lastWrite_agree {e : ε} {b : β} (he : e ∈ log) (hb : f e = some b)
    (hagree : ∀ e ∈ log, ∀ b', f e = some b' → b' = b) : lastWrite f x log = b := by
  have hkeep : lastWrite f b log = b := by
    clear he
    induction log with
    | nil => rfl
    | cons e' log ih =>
      have hhead : (f e').getD b = b := by
        cases hf : f e' with
        | none => rfl
        | some b' => exact hagree e' List.mem_cons_self b' hf
      rw [lastWrite_cons, hhead]
      exact ih fun e he => hagree e (List.mem_cons_of_mem e' he)
  rw [lastWrite_irrel he hb x b, hkeep]

theorem lastWrite_twice (x : β) (log : List ε) :
    lastWrite f (lastWrite f x log) log = lastWrite f x log := by
  by_cases hwrite : ∃ e ∈ log, f e ≠ none
  · obtain ⟨e, he, hne⟩ := hwrite
    obtain ⟨b, hb⟩ := Option.ne_none_iff_exists'.mp hne
    exact lastWrite_irrel he hb _ _
  · have hnone : ∀ e ∈ log, f e = none :=
      fun e he => not_not.mp fun hne => hwrite ⟨e, he, hne⟩
    rw [lastWrite_keep hnone, lastWrite_keep hnone]

/-- Replaying the end of a log over its outcome, and then what follows it, is no different from
the whole log. -/
theorem lastWrite_replay (x : β) (log more : List ε) (j : ℕ) :
    lastWrite f (lastWrite f x log) (log.drop j ++ more) = lastWrite f x (log ++ more) := by
  have hagain : lastWrite f (lastWrite f x log) (log.drop j) = lastWrite f x log := by
    conv_lhs => rw [← List.take_append_drop j log, lastWrite_append, List.take_append_drop]
    conv_rhs => rw [← List.take_append_drop j log, lastWrite_append]
    exact lastWrite_twice _ _
  rw [lastWrite_append, lastWrite_append, hagain]

end LastWrite
