import Mathlib.Algebra.Order.Group.Defs
import Mathlib.Data.Set.Basic
import Mathlib.Order.Basic
import Mathlib.Data.List.Basic

/-! Tasks that look up when their key was last served, act, and only then record that they served
it. A lookup lets a task in when nothing is recorded or the record is a cooldown old; between the
lookup and the record tasks interleave in any way. -/
namespace Cooldown

structure Task (K κ : Type*) where
  key : K
  pending : Set κ
  recorded : Prop

structure Task.Leads {K κ : Type*} (task task' : Task K κ) : Prop where
  key : task'.key = task.key
  pending : task'.pending ⊆ task.pending

theorem leads_giveUp {K κ : Type*} {task : Task K κ} {pending : Set κ}
    (hsub : pending ⊆ task.pending) : task.Leads { task with pending := pending } := ⟨rfl, hsub⟩

theorem leads_record {K κ : Type*} {task : Task K κ} :
    task.Leads { task with recorded := True } := ⟨rfl, subset_rfl⟩

structure Effect (ι K κ T : Type*) where
  task : ι
  key : K
  kind : κ
  at_ : T

structure State (ι K κ T : Type*) where
  now : T
  last : K → Option T
  tasks : ι → Option (Task K κ)
  effects : List (Effect ι K κ T)

variable {ι K κ T : Type*}

section Tasks
variable [DecidableEq ι]

def State.setTask (s : State ι K κ T) (i : ι) (task : Task K κ) : State ι K κ T :=
  { s with tasks := Function.update s.tasks i (some task) }

variable {s : State ι K κ T} {i j : ι} {task task' t : Task K κ}

@[simp] theorem setTask_now : (s.setTask i task).now = s.now := rfl

@[simp] theorem setTask_last : (s.setTask i task).last = s.last := rfl

@[simp] theorem setTask_effects : (s.setTask i task).effects = s.effects := rfl

@[simp] theorem setTask_self : (s.setTask i task).tasks i = some task := Function.update_self _ _ _

theorem setTask_other (hji : j ≠ i) : (s.setTask i task).tasks j = s.tasks j :=
  Function.update_of_ne hji _ _

theorem setTask_cases (hj : (s.setTask i task').tasks j = some t) :
    j = i ∧ t = task' ∨ j ≠ i ∧ s.tasks j = some t := by
  by_cases hji : j = i
  · subst hji
    rw [setTask_self, Option.some.injEq] at hj
    exact .inl ⟨rfl, hj.symm⟩
  · rw [setTask_other hji] at hj
    exact .inr ⟨hji, hj⟩

theorem setTask_shrinks (h : s.tasks i = some task) (hl : task.Leads task')
    (hj : (s.setTask i task').tasks j = some t) :
    ∃ t₀, s.tasks j = some t₀ ∧ t₀.Leads t := by
  obtain ⟨rfl, rfl⟩ | ⟨-, hj⟩ := setTask_cases hj
  · exact ⟨task, h, hl⟩
  · exact ⟨t, hj, rfl, subset_rfl⟩

theorem setTask_owns (h : s.tasks i = some task) (hl : task.Leads task') {key : K}
    (hj : ∃ t, s.tasks j = some t ∧ t.key = key) :
    ∃ t, (s.setTask i task').tasks j = some t ∧ t.key = key := by
  obtain ⟨t, hj, hkeyj⟩ := hj
  by_cases hji : j = i
  · subst hji
    cases h.symm.trans hj
    exact ⟨task', setTask_self, hl.key.trans hkeyj⟩
  · exact ⟨t, by rw [setTask_other hji, hj], hkeyj⟩

end Tasks

section Kept
variable [AddCommGroup T] [LinearOrder T]

structure Clear (cooldown : T) (s : State ι K κ T) (key : K) : Prop where
  done : ∀ i task, s.tasks i = some task → task.key = key → task.pending = ∅
  known : ∀ e ∈ s.effects, e.key = key →
    (∃ task, s.tasks e.task = some task ∧ task.recorded) ∨ e.at_ + cooldown ≤ s.now

structure Kept (cooldown : T) (s : State ι K κ T) : Prop where
  spaced : s.effects.Pairwise fun e e' =>
    e.key = e'.key → e.kind = e'.kind → e.at_ + cooldown ≤ e'.at_
  cooled : ∀ i task kind, s.tasks i = some task → kind ∈ task.pending →
    ∀ e ∈ s.effects, e.key = task.key → e.kind = kind → e.at_ + cooldown ≤ s.now
  alone : ∀ i j task task', s.tasks i = some task → s.tasks j = some task' → task.key = task'.key →
    task.pending.Nonempty → task'.pending.Nonempty → i = j
  owned : ∀ e ∈ s.effects, e.at_ ≤ s.now ∧ ∃ task, s.tasks e.task = some task ∧ task.key = e.key
  served : ∀ e ∈ s.effects, ∀ task, s.tasks e.task = some task → task.recorded →
    ∃ t, s.last e.key = some t ∧ e.at_ ≤ t
  finished : ∀ i task, s.tasks i = some task → task.recorded → task.pending = ∅

variable {cooldown : T} {s : State ι K κ T} {i : ι} {task task' : Task K κ}

theorem Kept.wait (hk : Kept cooldown s) {later : T} (h : s.now ≤ later) :
    Kept cooldown { s with now := later } where
  spaced := hk.spaced
  cooled := by
    intro i task kind hi hkind e he hkey heq
    exact (hk.cooled i task kind hi hkind e he hkey heq).trans h
  alone := hk.alone
  owned := fun e he => ⟨(hk.owned e he).1.trans h, (hk.owned e he).2⟩
  served := hk.served
  finished := hk.finished

theorem Kept.cooled_setTask [DecidableEq ι] (hk : Kept cooldown s) (h : s.tasks i = some task)
    (hl : task.Leads task') {j : ι} {t : Task K κ} {kind : κ}
    (hj : (s.setTask i task').tasks j = some t) (hkind : kind ∈ t.pending)
    {e : Effect ι K κ T} (he : e ∈ s.effects) (hkeys : e.key = t.key) (heq : e.kind = kind) :
    e.at_ + cooldown ≤ s.now := by
  obtain ⟨t₀, hj₀, hl₀⟩ := setTask_shrinks h hl hj
  exact hk.cooled j t₀ kind hj₀ (hl₀.pending hkind) e he (hkeys.trans hl₀.key) heq

theorem Kept.alone_setTask [DecidableEq ι] (hk : Kept cooldown s) (h : s.tasks i = some task)
    (hl : task.Leads task') {j j' : ι} {t t' : Task K κ}
    (hj : (s.setTask i task').tasks j = some t) (hj' : (s.setTask i task').tasks j' = some t')
    (hkeys : t.key = t'.key) (hpending : t.pending.Nonempty) (hpending' : t'.pending.Nonempty) :
    j = j' := by
  obtain ⟨t₀, hj₀, hl₀⟩ := setTask_shrinks h hl hj
  obtain ⟨t₀', hj₀', hl₀'⟩ := setTask_shrinks h hl hj'
  exact hk.alone j j' t₀ t₀' hj₀ hj₀' (hl₀.key.symm.trans (hkeys.trans hl₀'.key))
    (hpending.mono hl₀.pending) (hpending'.mono hl₀'.pending)

theorem Kept.giveUp [DecidableEq ι] (hk : Kept cooldown s) {pending : Set κ}
    (h : s.tasks i = some task) (hsub : pending ⊆ task.pending) :
    Kept cooldown (s.setTask i { task with pending := pending }) where
  spaced := hk.spaced
  cooled := fun _ _ _ hj hkind _ he hkeys heq =>
    hk.cooled_setTask h (leads_giveUp hsub) hj hkind he hkeys heq
  alone := fun _ _ _ _ hj hj' => hk.alone_setTask h (leads_giveUp hsub) hj hj'
  owned := fun e he => ⟨(hk.owned e he).1, setTask_owns h (leads_giveUp hsub) (hk.owned e he).2⟩
  served := by
    intro e he t ht hrecorded
    obtain ⟨hi, rfl⟩ | ⟨-, ht⟩ := setTask_cases ht
    · exact hk.served e he task (hi ▸ h) hrecorded
    · exact hk.served e he t ht hrecorded
  finished := by
    intro j t hj hrecorded
    obtain ⟨-, rfl⟩ | ⟨-, hj⟩ := setTask_cases hj
    · rw [hk.finished i task h hrecorded] at hsub
      exact Set.subset_empty_iff.mp hsub
    · exact hk.finished j t hj hrecorded

/-- An effect comes a cooldown after those of its key and kind, and nobody else may have one. -/
theorem Kept.act [DecidableEq ι] (hk : Kept cooldown s) {kind : κ} (h : s.tasks i = some task)
    (hkind : kind ∈ task.pending) :
    Kept cooldown { s.setTask i { task with pending := task.pending \ {kind} } with
      effects := s.effects ++ [⟨i, task.key, kind, s.now⟩] } := by
  have hsub : task.pending \ {kind} ⊆ task.pending := fun _ h => h.1
  have hrest := hk.giveUp h hsub
  constructor
  case spaced =>
    refine List.pairwise_append.mpr ⟨hk.spaced, List.pairwise_singleton _ _, ?_⟩
    intro e he e' he' hkey heq
    cases List.mem_singleton.mp he'
    exact hk.cooled i task kind h hkind e he hkey heq
  case cooled =>
    intro j t kind' hj hkind' e he hkey heq
    cases List.mem_append.mp he with
    | inl hold => exact hrest.cooled j t kind' hj hkind' e hold hkey heq
    | inr hnew =>
      cases List.mem_singleton.mp hnew
      exfalso
      obtain ⟨-, rfl⟩ | ⟨hji, hj⟩ := setTask_cases hj
      · exact hkind'.2 heq.symm
      · exact hji (hk.alone j i t task hj h hkey.symm ⟨kind', hkind'⟩ ⟨kind, hkind⟩)
  case alone => exact hrest.alone
  case owned =>
    intro e he
    cases List.mem_append.mp he with
    | inl hold => exact hrest.owned e hold
    | inr hnew =>
      cases List.mem_singleton.mp hnew
      exact ⟨le_rfl, setTask_owns h (leads_giveUp hsub) ⟨task, h, rfl⟩⟩
  case served =>
    intro e he t ht hrecorded
    cases List.mem_append.mp he with
    | inl hold => exact hrest.served e hold t ht hrecorded
    | inr hnew =>
      cases List.mem_singleton.mp hnew
      cases setTask_self.symm.trans ht
      rw [hk.finished i task h hrecorded] at hkind
      exact hkind.elim
  case finished => exact hrest.finished

theorem Kept.record [DecidableEq ι] [DecidableEq K] (hk : Kept cooldown s)
    (h : s.tasks i = some task) (hdone : task.pending = ∅) :
    Kept cooldown { s.setTask i { task with recorded := True } with
      last := Function.update s.last task.key (some s.now) } where
  spaced := hk.spaced
  cooled := fun _ _ _ hj hkind _ he hkeys heq =>
    hk.cooled_setTask h leads_record hj hkind he hkeys heq
  alone := fun _ _ _ _ hj hj' => hk.alone_setTask h leads_record hj hj'
  owned := fun e he => ⟨(hk.owned e he).1, setTask_owns h leads_record (hk.owned e he).2⟩
  served := by
    intro e he t ht hrecorded
    by_cases hkey : e.key = task.key
    · refine ⟨s.now, ?_, (hk.owned e he).1⟩
      rw [hkey]
      exact Function.update_self _ _ _
    · obtain ⟨hi, rfl⟩ | ⟨-, ht⟩ := setTask_cases ht
      · obtain ⟨-, t₀, ht₀, hkey₀⟩ := hk.owned e he
        rw [hi, h, Option.some.injEq] at ht₀
        exact absurd (ht₀ ▸ hkey₀.symm) hkey
      · obtain ⟨r, hlast, hle⟩ := hk.served e he t ht hrecorded
        exact ⟨r, (Function.update_of_ne hkey _ _).trans hlast, hle⟩
  finished := by
    intro j t hj hrecorded
    obtain ⟨-, rfl⟩ | ⟨-, hj⟩ := setTask_cases hj
    · exact hdone
    · exact hk.finished j t hj hrecorded

variable [IsOrderedAddMonoid T]

theorem Clear.cooled {key : K} (hclear : Clear cooldown s key) (hk : Kept cooldown s)
    (cool : ∀ t, s.last key = some t → t + cooldown ≤ s.now) {e : Effect ι K κ T}
    (he : e ∈ s.effects) (hkey : e.key = key) : e.at_ + cooldown ≤ s.now := by
  cases hclear.known e he hkey with
  | inl hrecorded =>
    obtain ⟨task, htask, hrecorded⟩ := hrecorded
    obtain ⟨t, hlast, hle⟩ := hk.served e he task htask hrecorded
    exact (add_le_add_left hle cooldown).trans (cool t (hkey ▸ hlast))
  | inr hold => exact hold

theorem Kept.start [DecidableEq ι] (hk : Kept cooldown s) {key : K} (free : s.tasks i = none)
    (cool : ∀ t, s.last key = some t → t + cooldown ≤ s.now) (hclear : Clear cooldown s key) :
    Kept cooldown (s.setTask i ⟨key, Set.univ, False⟩) := by
  have hkeep : ∀ {j t}, s.tasks j = some t →
      (s.setTask i ⟨key, Set.univ, False⟩).tasks j = some t := by
    intro j t hj
    rw [setTask_other ?_, hj]
    rintro rfl
    cases free.symm.trans hj
  constructor
  case spaced => exact hk.spaced
  case cooled =>
    intro j t kind hj hkind e he hkey heq
    obtain ⟨-, rfl⟩ | ⟨-, hj⟩ := setTask_cases hj
    · exact hclear.cooled hk cool he hkey
    · exact hk.cooled j t kind hj hkind e he hkey heq
  case alone =>
    intro j j' t t' hj hj' hkeys hpending hpending'
    obtain ⟨hji, rfl⟩ | ⟨-, hj⟩ := setTask_cases hj
    · obtain ⟨hji', -⟩ | ⟨-, hj'⟩ := setTask_cases hj'
      · rw [hji, hji']
      · exact absurd (hclear.done j' t' hj' hkeys.symm) hpending'.ne_empty
    · obtain ⟨-, rfl⟩ | ⟨-, hj'⟩ := setTask_cases hj'
      · exact absurd (hclear.done j t hj hkeys) hpending.ne_empty
      · exact hk.alone j j' t t' hj hj' hkeys hpending hpending'
  case owned =>
    intro e he
    obtain ⟨hat, t, htask, hkey⟩ := hk.owned e he
    exact ⟨hat, t, hkeep htask, hkey⟩
  case served =>
    intro e he t htask hrecorded
    obtain ⟨-, t₀, htask₀, -⟩ := hk.owned e he
    cases (hkeep htask₀).symm.trans htask
    exact hk.served e he t htask₀ hrecorded
  case finished =>
    intro j t hj hrecorded
    obtain ⟨-, rfl⟩ | ⟨-, hj⟩ := setTask_cases hj
    · exact hrecorded.elim
    · exact hk.finished j t hj hrecorded

/-- In any window of the length of the cooldown a key sees at most one effect of each kind. -/
theorem Kept.window (hk : Kept cooldown s) [DecidableEq K] [DecidableEq κ] (key : K) (kind : κ)
    (start : T) : (s.effects.filter fun e =>
      e.key = key ∧ e.kind = kind ∧ start ≤ e.at_ ∧ e.at_ < start + cooldown).length ≤ 1 := by
  have hspaced := hk.spaced.sublist (@List.filter_sublist _ (fun e : Effect ι K κ T =>
    e.key = key ∧ e.kind = kind ∧ start ≤ e.at_ ∧ e.at_ < start + cooldown) s.effects)
  have hmem : ∀ e ∈ s.effects.filter fun e : Effect ι K κ T =>
      e.key = key ∧ e.kind = kind ∧ start ≤ e.at_ ∧ e.at_ < start + cooldown,
      e.key = key ∧ e.kind = kind ∧ start ≤ e.at_ ∧ e.at_ < start + cooldown :=
    fun e he => of_decide_eq_true (List.mem_filter.mp he).2
  match hwindow : s.effects.filter fun e : Effect ι K κ T =>
      e.key = key ∧ e.kind = kind ∧ start ≤ e.at_ ∧ e.at_ < start + cooldown with
  | [] => simp
  | [e] => simp
  | e :: e' :: rest =>
    rw [hwindow] at hspaced hmem
    obtain ⟨hkey, hkind, hfrom, -⟩ := hmem e List.mem_cons_self
    obtain ⟨hkey', hkind', -, huntil⟩ := hmem e' (List.mem_cons_of_mem e List.mem_cons_self)
    have hgap := List.rel_of_pairwise_cons hspaced List.mem_cons_self (hkey.trans hkey'.symm)
      (hkind.trans hkind'.symm)
    have hlater : start + cooldown ≤ e'.at_ := (add_le_add_left hfrom cooldown).trans hgap
    exact absurd huntil (not_lt.mpr hlater)

end Kept

section Machine
variable [DecidableEq ι] [DecidableEq K] [AddCommGroup T] [LinearOrder T]

inductive Step (cooldown : T) : State ι K κ T → State ι K κ T → Prop
  | wait (s : State ι K κ T) (later : T) (h : s.now ≤ later) : Step cooldown s { s with now := later }
  | start (s : State ι K κ T) (i : ι) (key : K) (free : s.tasks i = none)
      (cool : ∀ t, s.last key = some t → t + cooldown ≤ s.now) (clear : Clear cooldown s key) :
      Step cooldown s (s.setTask i ⟨key, Set.univ, False⟩)
  | act (s : State ι K κ T) (i : ι) (task : Task K κ) (kind : κ) (h : s.tasks i = some task)
      (hkind : kind ∈ task.pending) :
      Step cooldown s { s.setTask i { task with pending := task.pending \ {kind} } with
        effects := s.effects ++ [⟨i, task.key, kind, s.now⟩] }
  | giveUp (s : State ι K κ T) (i : ι) (task : Task K κ) (pending : Set κ)
      (h : s.tasks i = some task) (hsub : pending ⊆ task.pending) :
      Step cooldown s (s.setTask i { task with pending := pending })
  | record (s : State ι K κ T) (i : ι) (task : Task K κ) (h : s.tasks i = some task)
      (hdone : task.pending = ∅) :
      Step cooldown s { s.setTask i { task with recorded := True } with
        last := Function.update s.last task.key (some s.now) }

theorem Step.kept [IsOrderedAddMonoid T] {cooldown : T} {s s' : State ι K κ T}
    (h : Step cooldown s s') (hk : Kept cooldown s) : Kept cooldown s' := by
  cases h with
  | wait later hlater => exact hk.wait hlater
  | start i key free cool clear => exact hk.start free cool clear
  | act i task kind hi hkind => exact hk.act hi hkind
  | giveUp i task pending hi hsub => exact hk.giveUp hi hsub
  | record i task hi hdone => exact hk.record hi hdone

end Machine
end Cooldown
