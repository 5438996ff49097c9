import Mathlib.Data.List.Sort
import Mathlib.Order.Basic

/-! Keyset pagination: each page holds the rows that follow the last row of the page before it, and
the table may grow between the pages. -/
namespace Keyset
variable {ρ κ : Type*} [LinearOrder κ] (key : ρ → κ) (limit : ℕ)

def sorted (rows : List ρ) : List ρ := rows.insertionSort fun a b => key a ≤ key b

def after (last : Option ρ) (rows : List ρ) : List ρ :=
  rows.filter fun r => last.all fun l => decide (key l < key r)

def page (last : Option ρ) (rows : List ρ) : List ρ := (sorted key (after key last rows)).take limit

def next (last : Option ρ) (rows : List ρ) : Option ρ :=
  if limit < ((sorted key (after key last rows)).take (limit + 1)).length then
    (page key limit last rows).getLast?
  else none

inductive Walk (table : ℕ → List ρ) : ℕ → Option ρ → List (List ρ) → Prop
  | last {i : ℕ} {last : Option ρ} (final : next key limit last (table i) = none) :
      Walk table i last [page key limit last (table i)]
  | more {i : ℕ} {last : Option ρ} {r : ρ} {pages : List (List ρ)}
      (continued : next key limit last (table i) = some r)
      (rest : Walk table (i + 1) (some r) pages) :
      Walk table i last (page key limit last (table i) :: pages)

variable {key limit} {rows : List ρ} {last : Option ρ}

@[simp] theorem mem_sorted {r : ρ} : r ∈ sorted key rows ↔ r ∈ rows := List.mem_insertionSort _

theorem perm_sorted : (sorted key rows).Perm rows := List.perm_insertionSort _ _

theorem mem_after {r : ρ} : r ∈ after key last rows ↔ r ∈ rows ∧ ∀ l ∈ last, key l < key r := by
  cases last <;> simp [after]

theorem after_none : after key none rows = rows := by simp [after]

theorem keyed_after (hkeyed : (rows.map key).Nodup) : ((after key last rows).map key).Nodup :=
  hkeyed.sublist (List.filter_sublist.map key)

theorem pairwise_sorted (hkeyed : (rows.map key).Nodup) :
    (sorted key rows).Pairwise fun a b => key a < key b := by
  have hle : (sorted key rows).Pairwise fun a b => key a ≤ key b :=
    List.pairwise_insertionSort (fun a b : ρ => key a ≤ key b) rows
  have hne : (sorted key rows).Pairwise fun a b => key a ≠ key b :=
    List.pairwise_map.mp ((perm_sorted.map key).nodup_iff.mpr hkeyed)
  exact (hle.and hne).imp fun h => lt_of_le_of_ne h.1 h.2

theorem page_final (hlimit : 1 ≤ limit) (hnext : next key limit last rows = none) :
    page key limit last rows = sorted key (after key last rows) := by
  rw [next] at hnext
  split at hnext
  case isTrue hmore =>
    rw [List.getLast?_eq_none_iff, page, List.take_eq_nil_iff] at hnext
    cases hnext with
    | inl hzero => omega
    | inr hnil => simp [hnil] at hmore
  case isFalse hmore =>
    rw [List.length_take] at hmore
    exact List.take_of_length_le (by omega)

theorem next_mem {r : ρ} (hnext : next key limit last rows = some r) :
    r ∈ page key limit last rows := by
  rw [next] at hnext
  split at hnext
  · exact List.mem_of_getLast? hnext
  · cases hnext

/-- The last row of a page is followed by every row that the page leaves out. -/
theorem next_bounds {r : ρ} (hkeyed : (rows.map key).Nodup)
    (hnext : next key limit last rows = some r) :
    (∀ x ∈ page key limit last rows, key x ≤ key r) ∧
      ∀ x ∈ after key last rows, x ∈ page key limit last rows ∨ key r < key x := by
  have hsorted : (sorted key (after key last rows)).Pairwise fun a b => key a < key b :=
    pairwise_sorted (keyed_after hkeyed)
  have hr := next_mem hnext
  rw [next] at hnext
  split at hnext
  case isFalse => cases hnext
  case isTrue =>
    rw [← List.take_append_drop limit (sorted key (after key last rows)),
      List.pairwise_append] at hsorted
    obtain ⟨hpage, -, hcross⟩ := hsorted
    constructor
    · intro x hx
      obtain ⟨before, hsplit⟩ := List.getLast?_eq_some_iff.mp hnext
      rw [← page, hsplit, List.pairwise_append] at hpage
      rw [hsplit, List.mem_append, List.mem_singleton] at hx
      cases hx with
      | inl hx => exact (hpage.2.2 x hx r (List.mem_singleton.mpr rfl)).le
      | inr hx => exact hx ▸ le_rfl
    · intro x hx
      have hx : x ∈ sorted key (after key last rows) := mem_sorted.mpr hx
      rw [← List.take_append_drop limit (sorted key _), List.mem_append] at hx
      exact hx.imp_right fun hx => hcross r hr x hx

theorem after_shrinks {r : ρ} (hr : r ∈ after key last rows) :
    (after key (some r) rows).length < (after key last rows).length := by
  have hfilter : after key (some r) rows =
      (after key last rows).filter fun x => decide (key r < key x) := by
    rw [after, after, List.filter_filter]
    refine List.filter_congr fun x _ => ?_
    by_cases hlt : key r < key x
    · have hlast : ∀ l ∈ last, key l < key x := fun l hl => ((mem_after.mp hr).2 l hl).trans hlt
      cases last <;> simp_all
    · simp [hlt]
  rw [hfilter, List.length_filter_lt_length_iff_exists]
  exact ⟨r, hr, by simp⟩

section Walk
variable {table : ℕ → List ρ} {i : ℕ} {pages : List (List ρ)}

theorem Walk.mem (hw : Walk key limit table i last pages) :
    ∀ r ∈ pages.flatten, (∃ j, r ∈ table j) ∧ ∀ l ∈ last, key l < key r := by
  have hpage : ∀ (j : ℕ) (last : Option ρ), ∀ r ∈ page key limit last (table j),
      (∃ j, r ∈ table j) ∧ ∀ l ∈ last, key l < key r := by
    intro j last r hr
    obtain ⟨hmem, hlast⟩ := mem_after.mp (mem_sorted.mp (List.mem_of_mem_take hr))
    exact ⟨⟨j, hmem⟩, hlast⟩
  induction hw with
  | last => simpa using hpage _ _
  | @more i last l pages hnext _ ih =>
    intro r hr
    rw [List.flatten_cons, List.mem_append] at hr
    cases hr with
    | inl hr => exact hpage i last r hr
    | inr hr =>
      obtain ⟨hmem, hl⟩ := ih r hr
      refine ⟨hmem, fun l' hl' => ?_⟩
      exact ((hpage i last l (next_mem hnext)).2 l' hl').trans (hl l rfl)

theorem Walk.pairwise (hkeyed : ∀ i, ((table i).map key).Nodup)
    (hw : Walk key limit table i last pages) :
    pages.flatten.Pairwise fun a b => key a < key b := by
  have hpage : ∀ (j : ℕ) (last : Option ρ), (page key limit last (table j)).Pairwise
      fun a b => key a < key b :=
    fun j last => (pairwise_sorted (keyed_after (hkeyed j))).sublist (List.take_sublist _ _)
  induction hw with
  | last => simpa using hpage _ _
  | @more i last l pages hnext hrest ih =>
    rw [List.flatten_cons, List.pairwise_append]
    refine ⟨hpage i last, ih, fun a ha b hb => ?_⟩
    exact ((next_bounds (hkeyed i) hnext).1 a ha).trans_lt ((hrest.mem b hb).2 l rfl)

/-- Rows that arrive between the pages hide none of the rows that were there before. -/
theorem Walk.complete (hlimit : 1 ≤ limit) (hkeyed : ∀ i, ((table i).map key).Nodup)
    (hgrow : ∀ i, table i ⊆ table (i + 1)) (hw : Walk key limit table i last pages) :
    ∀ r ∈ after key last (table i), r ∈ pages.flatten := by
  induction hw with
  | last hnext =>
    intro r hr
    rw [List.flatten_singleton, page_final hlimit hnext]
    exact mem_sorted.mpr hr
  | @more i last l pages hnext _ ih =>
    intro r hr
    rw [List.flatten_cons, List.mem_append]
    refine ((next_bounds (hkeyed i) hnext).2 r hr).imp_right fun hlt => ih r (mem_after.mpr ?_)
    refine ⟨hgrow i (mem_after.mp hr).1, fun l' hl' => ?_⟩
    cases hl'
    exact hlt

theorem walk_exists {m : ℕ} (hsettled : ∀ j, m ≤ j → table j = table m) (i : ℕ)
    (last : Option ρ) : ∃ pages, Walk key limit table i last pages := by
  have hstep : ∀ (i : ℕ) (last : Option ρ),
      (∀ r, next key limit last (table i) = some r →
        ∃ pages, Walk key limit table (i + 1) (some r) pages) →
      ∃ pages, Walk key limit table i last pages := by
    intro i last hrest
    cases hnext : next key limit last (table i) with
    | none => exact ⟨_, .last hnext⟩
    | some r =>
      obtain ⟨pages, hw⟩ := hrest r hnext
      exact ⟨_, .more hnext hw⟩
  have hlate : ∀ (n i : ℕ) (last : Option ρ), m ≤ i → (after key last (table m)).length < n →
      ∃ pages, Walk key limit table i last pages := by
    intro n
    induction n with
    | zero =>
      intro i last _ hn
      exact absurd hn (Nat.not_lt_zero _)
    | succ n ih =>
      intro i last hi hn
      refine hstep i last fun r hr => ih (i + 1) (some r) (by omega) ?_
      rw [hsettled i hi] at hr
      have hless := after_shrinks (mem_sorted.mp (List.mem_of_mem_take (next_mem hr)))
      omega
  have hearly : ∀ (n i : ℕ) (last : Option ρ), m ≤ i + n →
      ∃ pages, Walk key limit table i last pages := by
    intro n
    induction n with
    | zero => exact fun i last hi => hlate _ i last hi (Nat.lt_succ_self _)
    | succ n ih => exact fun i last hi => hstep i last fun r _ => ih (i + 1) (some r) (by omega)
  exact hearly m i last (by omega)

theorem Walk.constant (hlimit : 1 ≤ limit) (hkeyed : (rows.map key).Nodup)
    (hw : Walk key limit (fun _ => rows) i none pages) : pages.flatten = sorted key rows := by
  have hpairwise := hw.pairwise fun _ => hkeyed
  have hsorted : (sorted key rows).Pairwise fun a b => key a < key b := pairwise_sorted hkeyed
  have hnodup : ∀ {l : List ρ}, (l.Pairwise fun a b => key a < key b) → l.Nodup :=
    fun h => h.imp fun hlt he => absurd (he ▸ hlt) (lt_irrefl _)
  have hperm : pages.flatten.Perm (sorted key rows) := by
    refine (List.perm_ext_iff_of_nodup (hnodup hpairwise) (hnodup hsorted)).mpr fun r => ?_
    rw [mem_sorted]
    constructor
    · intro hr
      obtain ⟨⟨_, hmem⟩, -⟩ := hw.mem r hr
      exact hmem
    · intro hr
      refine hw.complete hlimit (fun _ => hkeyed) (fun _ => List.Subset.refl _) r ?_
      rwa [after_none]
  exact hperm.eq_of_pairwise (fun a b _ _ hab hba => absurd (hab.trans hba) (lt_irrefl _))
    hpairwise hsorted

end Walk
end Keyset
