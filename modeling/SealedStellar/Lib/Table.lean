import Mathlib.Data.List.Nodup
import Mathlib.Data.List.Perm.Basic

/-! A table with a primary key: no two of its rows have the same key. -/

structure Table {ρ κ : Type*} (key : ρ → κ) where
  rows : List ρ
  keyed : (rows.map key).Nodup

namespace Table
variable {ρ κ : Type*} {key : ρ → κ} [DecidableEq κ]

def empty : Table key := ⟨[], List.nodup_nil⟩

def find (t : Table key) (k : κ) : Option ρ := t.rows.find? fun r => key r = k

def insertOrIgnore (t : Table key) (r : ρ) : Table key :=
  if hr : key r ∈ t.rows.map key then t
  else ⟨t.rows ++ [r], by
    rw [List.map_append, List.map_singleton, ← List.concat_eq_append]
    exact t.keyed.concat hr⟩

/-- UPDATE of the row with key k. -/
def update (t : Table key) (k : κ) (f : ρ → ρ) (hf : ∀ r, key (f r) = key r) : Table key :=
  ⟨t.rows.map fun r => if key r = k then f r else r, by
    have hkey : key ∘ (fun r => if key r = k then f r else r) = key := by
      funext r
      simp only [Function.comp_apply]
      split <;> simp [hf]
    rw [List.map_map, hkey]
    exact t.keyed⟩

def upsert (t : Table key) (r : ρ) (f : ρ → ρ) (hf : ∀ r, key (f r) = key r) : Table key :=
  if key r ∈ t.rows.map key then t.update (key r) f hf else t.insertOrIgnore r

theorem insertOrIgnore_new {t : Table key} {r : ρ} (hr : key r ∉ t.rows.map key) :
    (t.insertOrIgnore r).rows = t.rows ++ [r] := by
  rw [insertOrIgnore, dif_neg hr]

theorem upsert_new {t : Table key} {r : ρ} (hr : key r ∉ t.rows.map key) (f : ρ → ρ)
    (hf : ∀ r, key (f r) = key r) : (t.upsert r f hf).rows = t.rows ++ [r] := by
  rw [upsert, if_neg hr, insertOrIgnore_new hr]

theorem find_eq_none {t : Table key} {k : κ} : t.find k = none ↔ k ∉ t.rows.map key := by
  simp [find]

theorem find_isSome {t : Table key} {k : κ} : (t.find k).isSome ↔ k ∈ t.rows.map key := by
  rw [← not_iff_not, Bool.not_eq_true, Option.isSome_eq_false_iff, Option.isNone_iff_eq_none,
    find_eq_none]

theorem find_insertOrIgnore (t : Table key) (r : ρ) (k : κ) : (t.insertOrIgnore r).find k =
    (t.find k).or (if key r = k then some r else none) := by
  rw [insertOrIgnore]
  split
  case isTrue hr =>
    split
    case isTrue hk =>
      subst hk
      obtain ⟨r', hr'⟩ := Option.isSome_iff_exists.mp (find_isSome.mpr hr)
      rw [hr', Option.some_or]
    case isFalse => rw [Option.or_none]
  case isFalse =>
    rw [find, List.find?_append, find, List.find?_singleton]
    by_cases hk : key r = k <;> simp [hk]

theorem find_update (t : Table key) (k : κ) (f : ρ → ρ) (hf : ∀ r, key (f r) = key r) (k' : κ) :
    (t.update k f hf).find k' = if k' = k then (t.find k').map f else t.find k' := by
  have hkey : (fun r => decide (key r = k')) ∘ (fun r => if key r = k then f r else r) =
      fun r => decide (key r = k') := by
    funext r
    simp only [Function.comp_apply]
    split <;> simp [hf]
  rw [update, find, List.find?_map, hkey, find]
  split
  case isTrue hk =>
    subst hk
    cases hfind : t.rows.find? fun r => key r = k' with
    | none => rfl
    | some r =>
      have hr : key r = k' := by simpa using List.find?_some hfind
      simp [hr]
  case isFalse hk =>
    cases hfind : t.rows.find? fun r => key r = k' with
    | none => rfl
    | some r =>
      have hr : key r = k' := by simpa using List.find?_some hfind
      simp [hr, hk]

theorem find_upsert (t : Table key) (r : ρ) (f : ρ → ρ) (hf : ∀ r, key (f r) = key r) (k : κ) :
    (t.upsert r f hf).find k =
      if k = key r then some (((t.find k).map f).getD r) else t.find k := by
  rw [upsert]
  split
  case isTrue hr =>
    rw [find_update]
    split
    case isTrue hk =>
      subst hk
      obtain ⟨r', hr'⟩ := Option.isSome_iff_exists.mp (find_isSome.mpr hr)
      simp [hr']
    case isFalse => rfl
  case isFalse hr =>
    rw [find_insertOrIgnore]
    split
    case isTrue hk =>
      subst hk
      simp [find_eq_none.mpr hr]
    case isFalse hk => rw [if_neg fun h => hk h.symm, Option.or_none]

theorem mem_insertOrIgnore {t : Table key} {r x : ρ} (hx : x ∈ (t.insertOrIgnore r).rows) :
    x ∈ t.rows ∨ x = r := by
  rw [insertOrIgnore] at hx
  split at hx
  · exact .inl hx
  · simpa using hx

theorem mem_update {t : Table key} {k : κ} {f : ρ → ρ} {hf : ∀ r, key (f r) = key r} {x : ρ}
    (hx : x ∈ (t.update k f hf).rows) : ∃ r ∈ t.rows, x = r ∨ x = f r := by
  obtain ⟨r, hr, he⟩ := List.mem_map.mp hx
  refine ⟨r, hr, ?_⟩
  split at he
  · exact .inr he.symm
  · exact .inl he.symm

theorem mem_upsert {t : Table key} {r x : ρ} {f : ρ → ρ} {hf : ∀ r, key (f r) = key r}
    (hx : x ∈ (t.upsert r f hf).rows) : x = r ∨ ∃ r' ∈ t.rows, x = r' ∨ x = f r' := by
  rw [upsert] at hx
  split at hx
  · exact .inr (mem_update hx)
  · cases mem_insertOrIgnore hx with
    | inl hold => exact .inr ⟨x, hold, .inl rfl⟩
    | inr hnew => exact .inl hnew

theorem subset_insertOrIgnore (t : Table key) (r : ρ) : t.rows ⊆ (t.insertOrIgnore r).rows := by
  rw [insertOrIgnore]
  split
  · exact List.Subset.refl _
  · exact List.subset_append_left _ _

theorem key_insertOrIgnore (t : Table key) (r : ρ) :
    key r ∈ (t.insertOrIgnore r).rows.map key := by
  rw [insertOrIgnore]
  split
  case isTrue hr => exact hr
  case isFalse => simp

theorem insertOrIgnore_taken {t : Table key} {r : ρ} (hr : key r ∈ t.rows.map key) :
    t.insertOrIgnore r = t := by
  rw [insertOrIgnore, dif_pos hr]

theorem keys_update (t : Table key) (k : κ) (f : ρ → ρ) (hf : ∀ r, key (f r) = key r) :
    (t.update k f hf).rows.map key = t.rows.map key := by
  rw [update, List.map_map]
  refine List.map_congr_left fun r _ => ?_
  simp only [Function.comp_apply]
  split
  · exact hf r
  · rfl

theorem rows_of_find {l l' : List ρ} (hkeyed : (l.map key).Nodup) (hkeys : l'.map key = l.map key)
    (hfind : ∀ k, (l'.find? fun r => key r = k) = l.find? fun r => key r = k) : l' = l := by
  induction l generalizing l' with
  | nil => exact List.map_eq_nil_iff.mp hkeys
  | cons r l ih =>
    cases l' with
    | nil => cases hkeys
    | cons r' l' =>
      rw [List.map_cons, List.map_cons, List.cons.injEq] at hkeys
      obtain ⟨hkey, hkeys⟩ := hkeys
      rw [List.map_cons, List.nodup_cons] at hkeyed
      obtain ⟨hfresh, hkeyed⟩ := hkeyed
      have hhead := hfind (key r)
      rw [List.find?_cons_of_pos (by simpa using hkey), List.find?_cons_of_pos (by simp)] at hhead
      have hrest : l' = l := by
        refine ih hkeyed hkeys fun k => ?_
        by_cases hk : key r = k
        · subst hk
          have hnone : ∀ l'' : List ρ, l''.map key = l.map key →
              (l''.find? fun r' => key r' = key r) = none := by
            intro l'' hl''
            rw [List.find?_eq_none]
            intro x hx hxk
            apply hfresh
            rw [← hl'', ← of_decide_eq_true hxk]
            exact List.mem_map_of_mem hx
          rw [hnone l' hkeys, hnone l rfl]
        · have htail := hfind k
          rwa [List.find?_cons_of_neg (by simpa [hkey] using hk),
            List.find?_cons_of_neg (by simpa using hk)] at htail
      rw [Option.some.inj hhead, hrest]

theorem ext_find {t t' : Table key} (hkeys : t'.rows.map key = t.rows.map key)
    (hfind : ∀ k, t'.find k = t.find k) : t' = t := by
  obtain ⟨rows, hkeyed⟩ := t
  obtain ⟨rows', hkeyed'⟩ := t'
  have hrows : rows' = rows := rows_of_find hkeyed hkeys hfind
  subst hrows
  rfl

theorem filter_insertOrIgnore (t : Table key) {r : ρ} {p : ρ → Bool} (hr : p r = false) :
    (t.insertOrIgnore r).rows.filter p = t.rows.filter p := by
  rw [insertOrIgnore]
  split
  · rfl
  · simp [hr]

end Table
