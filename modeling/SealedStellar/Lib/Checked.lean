import Mathlib.Data.List.Forall2

/-! Straight-line programs in Except and Option: a sequence of checks and effects, read backwards
from the fact that the whole program succeeded. -/
namespace Checked
variable {ε α β : Type}

def ensure (c : Prop) [Decidable c] (e : ε) : Except ε Unit := if c then .ok () else .error e

def okOr (o : Option α) (e : ε) : Except ε α :=
  match o with
  | some a => .ok a
  | none => .error e

@[simp] theorem bind_eq_ok {x : Except ε α} {f : α → Except ε β} {b : β} :
    (x >>= f) = .ok b ↔ ∃ a, x = .ok a ∧ f a = .ok b := by
  cases x <;> simp [bind, Except.bind]

@[simp] theorem pure_eq_ok {a b : α} : (pure a : Except ε α) = .ok b ↔ a = b := by
  simp [pure, Except.pure]

@[simp] theorem ensure_eq_ok {c : Prop} [Decidable c] {e : ε} {u : Unit} :
    ensure c e = .ok u ↔ c := by
  by_cases h : c <;> simp [ensure, h]

@[simp] theorem okOr_eq_ok {o : Option α} {e : ε} {a : α} : okOr o e = .ok a ↔ o = some a := by
  cases o <;> simp [okOr]

theorem bind_eq_error {x : Except ε α} {f : α → Except ε β} {e : ε} :
    x >>= f = .error e ↔ x = .error e ∨ ∃ a, x = .ok a ∧ f a = .error e := by
  cases x <;> simp [bind, Except.bind]

theorem ensure_eq_error {c : Prop} [Decidable c] {e e' : ε} :
    ensure c e = .error e' ↔ ¬c ∧ e = e' := by
  by_cases hc : c <;> simp [ensure, hc]

theorem okOr_eq_error {o : Option α} {e e' : ε} : okOr o e = .error e' ↔ o = none ∧ e = e' := by
  cases o <;> simp [okOr]

theorem map_eq_error {f : α → β} {x : Except ε α} {e : ε} : f <$> x = .error e ↔ x = .error e := by
  cases x <;> simp [Functor.map, Except.map]

theorem foldlM_skip {σ : Type} (f : σ → α → Except ε σ) (keep : α → Bool) (l : List α) (s : σ) :
    l.foldlM (fun s a => if keep a then f s a else pure s) s = (l.filter keep).foldlM f s := by
  induction l generalizing s with
  | nil => rfl
  | cons a l ih =>
    cases h : keep a with
    | true => simp [h, ih]
    | false => simp [h, ih]

theorem mapM_eq_ok {f : α → Except ε β} {l : List α} {bs : List β} :
    l.mapM f = .ok bs ↔ List.Forall₂ (fun a b => f a = .ok b) l bs := by
  induction l generalizing bs with
  | nil => rw [List.mapM_nil, pure_eq_ok, List.forall₂_nil_left_iff, eq_comm]
  | cons a l ih =>
    rw [List.mapM_cons, bind_eq_ok]
    simp only [bind_eq_ok, pure_eq_ok, ih]
    constructor
    · rintro ⟨b, hb, rest, hrest, he⟩
      subst he
      exact .cons hb hrest
    · intro hall
      cases hall with
      | cons hb hrest => exact ⟨_, hb, _, hrest, rfl⟩

theorem exists_mapM_eq_ok {f : α → Except ε β} {l : List α} :
    (∃ bs, l.mapM f = .ok bs) ↔ ∀ a ∈ l, ∃ b, f a = .ok b := by
  simp only [mapM_eq_ok]
  induction l with
  | nil => simp
  | cons a l ih =>
    rw [List.forall_mem_cons, ← ih]
    constructor
    · rintro ⟨_, hall⟩
      cases hall with
      | cons hb hbs => exact ⟨⟨_, hb⟩, _, hbs⟩
    · rintro ⟨⟨b, hb⟩, bs, hbs⟩
      exact ⟨b :: bs, .cons hb hbs⟩

theorem mapM_eq_ok_map {f : α → Except ε β} {C : α → Prop} {g : α → β} {l : List α} {bs : List β}
    (hf : ∀ a ∈ l, ∀ b, f a = .ok b ↔ C a ∧ g a = b) :
    l.mapM f = .ok bs ↔ (∀ a ∈ l, C a) ∧ l.map g = bs := by
  induction l generalizing bs with
  | nil => simp
  | cons a l ih =>
    have hl : ∀ a' ∈ l, ∀ b, f a' = .ok b ↔ C a' ∧ g a' = b := fun a' ha' =>
      hf a' (List.mem_cons_of_mem a ha')
    rw [List.mapM_cons, bind_eq_ok, List.map_cons, List.forall_mem_cons]
    simp only [bind_eq_ok, pure_eq_ok, hf a List.mem_cons_self, ih hl]
    constructor
    · rintro ⟨_, ⟨ha, rfl⟩, _, ⟨hrest, rfl⟩, he⟩
      exact ⟨⟨ha, hrest⟩, he⟩
    · rintro ⟨⟨ha, hrest⟩, he⟩
      exact ⟨_, ⟨ha, rfl⟩, _, ⟨hrest, rfl⟩, he⟩

theorem mapM_of_map {f : α → Option β} {l : List α} {bs : List β} (h : l.map f = bs.map some) :
    l.mapM f = some bs := by
  have hid : (l.map f).mapM id = l.mapM f := List.mapM_map
  have hsome : (bs.map some).mapM id = some bs :=
    List.mapM_map.trans (List.mapM_pure.trans (congrArg some (List.map_id bs)))
  rw [← hid, h, hsome]

theorem foldlM_eq_ok_foldl {σ : Type} {f : σ → α → Except ε σ} {g : σ → α → σ} (Inv : σ → Prop)
    {l : List α} (hf : ∀ a ∈ l, ∀ s, Inv s → f s a = .ok (g s a) ∧ Inv (g s a)) {s : σ} (hs : Inv s) :
    l.foldlM f s = .ok (l.foldl g s) := by
  induction l generalizing s with
  | nil => rfl
  | cons a l ih =>
    obtain ⟨hstep, hinv⟩ := hf a List.mem_cons_self s hs
    rw [List.foldlM_cons, hstep, List.foldl_cons]
    exact ih (fun a' ha' => hf a' (List.mem_cons_of_mem a ha')) hinv

section Results
variable {f : α → Except ε β} {l : List α} {bs : List β}

theorem result_of_mem (h : List.Forall₂ (fun a b => f a = .ok b) l bs) {a : α} (ha : a ∈ l) :
    ∃ b ∈ bs, f a = .ok b := by
  induction h with
  | nil => exact absurd ha List.not_mem_nil
  | @cons a' b' l bs hb _ ih =>
    cases List.mem_cons.mp ha with
    | inl he => exact ⟨b', List.mem_cons_self, he ▸ hb⟩
    | inr hmem =>
      obtain ⟨b, hmem, he⟩ := ih hmem
      exact ⟨b, List.mem_cons_of_mem b' hmem, he⟩

theorem source_of_mem (h : List.Forall₂ (fun a b => f a = .ok b) l bs) {b : β} (hb : b ∈ bs) :
    ∃ a ∈ l, f a = .ok b := by
  induction h with
  | nil => exact absurd hb List.not_mem_nil
  | @cons a' b' l bs hfirst _ ih =>
    cases List.mem_cons.mp hb with
    | inl he => exact ⟨a', List.mem_cons_self, he ▸ hfirst⟩
    | inr hmem =>
      obtain ⟨a, hmem, he⟩ := ih hmem
      exact ⟨a, List.mem_cons_of_mem a' hmem, he⟩

end Results
end Checked
