import Mathlib.Data.List.Nodup
import Mathlib.Data.Nat.Notation

/-! Records laid out in numbered slots: each record is written to the slot it names, and an array
of defaults becomes the table of the records by slot. -/
namespace Slots
variable {α β : Type*} (slot : α → ℕ)

def holder (records : List α) (i : ℕ) : Option α := records.find? fun a => slot a = i

def table (n : ℕ) (value : α → β) (default : β) (records : List α) : List β :=
  (List.range n).map fun i => ((holder slot records i).map value).getD default

def write (value : α → β) (slots : List β) (a : α) : List β := slots.set (slot a) (value a)

variable {slot} {value : α → β} {default : β} {records : List α} {n i : ℕ}

theorem holder_slot {a : α} (h : holder slot records i = some a) : slot a = i := by
  simpa using List.find?_some h

theorem holder_mem {a : α} (h : holder slot records i = some a) : a ∈ records :=
  List.mem_of_find?_eq_some h

theorem holder_of_mem (hslots : (records.map slot).Nodup) {a : α} (ha : a ∈ records) :
    holder slot records (slot a) = some a := by
  cases hholder : holder slot records (slot a) with
  | none =>
    have habsent := List.find?_eq_none.mp hholder a ha
    simp at habsent
  | some b =>
    have hsame : slot b = slot a := holder_slot hholder
    rw [List.inj_on_of_nodup_map hslots (holder_mem hholder) ha hsame]

theorem holder_map {γ : Type*} (slot : β → ℕ) (f : γ → β) (records : List γ) (i : ℕ) :
    holder slot (records.map f) i = (holder (slot ∘ f) records i).map f := by
  rw [holder, List.find?_map]
  rfl

theorem table_map {γ δ : Type*} (slot : β → ℕ) (f : γ → β) (n : ℕ) (value : β → δ) (default : δ)
    (records : List γ) :
    table slot n value default (records.map f) = table (slot ∘ f) n (value ∘ f) default records := by
  simp only [table, holder_map, Option.map_map]

theorem map_table {γ : Type*} (f : β → γ) :
    (table slot n value default records).map f = table slot n (f ∘ value) (f default) records := by
  rw [table, List.map_map, table]
  refine List.map_congr_left fun i _ => ?_
  cases hholder : holder slot records i <;> simp [hholder]

theorem table_congr {value' : α → β} (h : ∀ a ∈ records, value a = value' a) :
    table slot n value default records = table slot n value' default records := by
  refine List.map_congr_left fun i _ => ?_
  cases hholder : holder slot records i with
  | none => rfl
  | some a => exact h a (holder_mem hholder)

theorem table_length : (table slot n value default records).length = n := by
  rw [table, List.length_map, List.length_range]

theorem table_getD (hi : i < n) (d : β) : (table slot n value default records).getD i d =
    ((holder slot records i).map value).getD default := by
  rw [List.getD_eq_getElem?_getD, table, List.getElem?_map, List.getElem?_range hi]
  rfl

theorem writes_length (slots : List β) :
    (records.foldl (write slot value) slots).length = slots.length := by
  induction records generalizing slots with
  | nil => rfl
  | cons a records ih => rw [List.foldl_cons, ih, write, List.length_set]

theorem writes_getElem? (hslots : (records.map slot).Nodup) (slots : List β) (hi : i < slots.length) :
    (records.foldl (write slot value) slots)[i]? =
      some (((holder slot records i).map value).getD slots[i]) := by
  induction records generalizing slots with
  | nil => exact List.getElem?_eq_getElem hi
  | cons a records ih =>
    obtain ⟨hnew, hrest⟩ := List.nodup_cons.mp hslots
    have hi' : i < (write slot value slots a).length := by rwa [write, List.length_set]
    rw [List.foldl_cons, ih hrest _ hi', holder, holder, List.find?_cons]
    by_cases ha : slot a = i
    · have hother : records.find? (fun b => slot b = i) = none := by
        rw [List.find?_eq_none]
        intro b hb hsame
        have hslot : slot b = slot a := (of_decide_eq_true hsame).trans ha.symm
        exact hnew (hslot ▸ List.mem_map_of_mem hb)
      subst ha
      simp [hother, write]
    · simp only [ha, decide_false, write, List.getElem_set_ne ha]

/-- Writing the records over the defaults makes the table. -/
theorem writes_eq_table (hslots : (records.map slot).Nodup) :
    records.foldl (write slot value) (List.replicate n default) =
      table slot n value default records := by
  apply List.ext_getElem?
  intro i
  by_cases hi : i < n
  · have hlength : i < (List.replicate n default).length := by rwa [List.length_replicate]
    rw [writes_getElem? hslots _ hlength, List.getElem_replicate, table, List.getElem?_map,
      List.getElem?_range hi]
    rfl
  · have hwrites : (records.foldl (write slot value) (List.replicate n default)).length = n := by
      rw [writes_length, List.length_replicate]
    rw [List.getElem?_eq_none (by omega), List.getElem?_eq_none (by rw [table_length]; omega)]

end Slots
