import SealedStellar.Store
import Mathlib.Data.List.Infix

/-! SQLite's LIKE between two percent signs: on a pattern of letters it is the search for a substring, a
wildcard matches more than itself, and a NUL ends the pattern. -/
namespace SealedStellar.Indexer

section Lower

theorem toLower_cases (c : Char) :
    (c.toLower.toNat = c.toNat + 32 ∧ 65 ≤ c.toNat ∧ c.toNat ≤ 90) ∨
      (c.toLower = c ∧ ¬ (65 ≤ c.toNat ∧ c.toNat ≤ 90)) := by
  have hiff : (c.val ≥ 'A'.val ∧ c.val ≤ 'Z'.val) ↔ 65 ≤ c.toNat ∧ c.toNat ≤ 90 :=
    and_congr UInt32.le_iff_toNat_le UInt32.le_iff_toNat_le
  by_cases hc : c.val ≥ 'A'.val ∧ c.val ≤ 'Z'.val
  · have hrange := hiff.mp hc
    have hupper : c.toLower = _ := dif_pos hc
    have hval : c.toLower.toNat = (c.val + 32).toNat := congrArg Char.toNat hupper
    have h32 : (32 : UInt32).toNat = 32 := rfl
    have hnat : c.val.toNat = c.toNat := rfl
    refine .inl ⟨?_, hrange⟩
    rw [hval, UInt32.toNat_add, h32, hnat]
    omega
  · have hother : c.toLower = c := dif_neg hc
    exact .inr ⟨hother, fun h => hc (hiff.mpr h)⟩

theorem toLower_toLower (c : Char) : c.toLower.toLower = c.toLower := by
  cases toLower_cases c.toLower with
  | inl hagain =>
    cases toLower_cases c with
    | inl hc => omega
    | inr hc =>
      rw [hc.1] at hagain
      exact absurd hagain.2 hc.2
  | inr hsame => exact hsame.1

def Special (c : Char) : Prop := c = '%' ∨ c = '_' ∨ c = '\x00'

instance : DecidablePred Special := fun _ => inferInstanceAs (Decidable (_ ∨ _ ∨ _))

theorem toLower_eq_special {c symbol : Char} (hsymbol : Special symbol) :
    c.toLower = symbol ↔ c = symbol := by
  have hnat : symbol.toNat = 37 ∨ symbol.toNat = 95 ∨ symbol.toNat = 0 :=
    hsymbol.imp (congrArg Char.toNat) (Or.imp (congrArg Char.toNat) (congrArg Char.toNat))
  cases toLower_cases c with
  | inl hc =>
    constructor
    · intro he
      rw [he] at hc
      omega
    · intro he
      rw [he] at hc
      omega
  | inr hc => rw [hc.1]

theorem lower_toList (text : String) : (lower text).toList = text.toList.map Char.toLower :=
  String.toList_map

theorem lower_special {symbol : Char} (hsymbol : Special symbol) (text : String) :
    symbol ∈ (lower text).toList ↔ symbol ∈ text.toList := by
  rw [lower_toList, List.mem_map]
  constructor
  · rintro ⟨c, hc, he⟩
    exact (toLower_eq_special hsymbol).mp he ▸ hc
  · exact fun h => ⟨symbol, h, (toLower_eq_special hsymbol).mpr rfl⟩

theorem lower_lower (text : String) : lower (lower text) = lower text := by
  apply String.toList_injective
  simp only [lower_toList, List.map_map]
  exact List.map_congr_left fun c _ => toLower_toLower c

theorem lower_eq_self {text : String} (h : ∀ c ∈ text.toList, c.toLower = c) : lower text = text := by
  apply String.toList_injective
  rw [lower_toList]
  exact (List.map_congr_left h).trans (List.map_id _)

theorem toLower_digit {c : Char} (hc : c.isDigit ∨ c.toLower.isDigit) : c.toLower = c := by
  have hle : ∀ d : Char, d.isDigit → d.toNat ≤ 57 := by
    intro d hd
    simp only [Char.isDigit, ge_iff_le, Bool.and_eq_true, decide_eq_true_eq,
      UInt32.le_iff_toNat_le] at hd
    exact hd.2
  have hrange := hc.imp (hle c) (hle c.toLower)
  cases toLower_cases c with
  | inl h => omega
  | inr h => exact h.1

end Lower

def Covers (c d : Char) : Prop := c = '%' ∨ c = '_' ∨ c = d

def Literal (pattern : List Char) : Prop := ∀ c ∈ pattern, ¬ Special c

instance : DecidablePred Literal := fun _ => List.decidableBAll _ _

section Compare
variable {pattern text rest tail : List Char}

theorem compare_percent (pattern text : List Char) :
    patternCompare ('%' :: pattern) text ↔ ∃ rest, rest <:+ text ∧ patternCompare pattern rest := by
  rw [patternCompare, List.any_eq_true]
  exact exists_congr fun rest => and_congr_left' (List.mem_tails rest text)

theorem compare_trailing (text : List Char) : patternCompare ['%'] text :=
  (compare_percent [] text).mpr ⟨[], List.nil_suffix, rfl⟩

theorem compare_letter {c : Char} (hc : ¬ Special c) (pattern text : List Char) :
    patternCompare (c :: pattern) text ↔
      ∃ d rest, text = d :: rest ∧ d.toLower = c.toLower ∧ patternCompare pattern rest := by
  rw [patternCompare]
  · cases text with
    | nil => simp
    | cons d rest => simp
  · exact fun he => hc (.inl he)
  · exact fun he => hc (.inr (.inl he))

theorem compare_begins (h : Literal pattern) :
    patternCompare (pattern ++ ['%']) text ↔ pattern.map Char.toLower <+: text.map Char.toLower := by
  induction pattern generalizing text with
  | nil => exact iff_of_true (compare_trailing text) List.nil_prefix
  | cons c pattern ih =>
    rw [List.cons_append, compare_letter (h c List.mem_cons_self)]
    cases text with
    | nil => simp
    | cons d rest =>
      have ih' := @ih rest fun c hc => h c (List.mem_cons_of_mem _ hc)
      simp only [List.map_cons, List.cons_prefix_cons, ← ih', List.cons.injEq]
      constructor
      · rintro ⟨_, _, ⟨rfl, rfl⟩, hd, hrest⟩
        exact ⟨hd.symm, hrest⟩
      · rintro ⟨hd, hrest⟩
        exact ⟨d, rest, ⟨rfl, rfl⟩, hd.symm, hrest⟩

theorem compare_contains (h : Literal pattern) : patternCompare ('%' :: pattern ++ ['%']) text ↔
    pattern.map Char.toLower <:+: text.map Char.toLower := by
  rw [List.cons_append, compare_percent]
  simp only [compare_begins h]
  constructor
  · rintro ⟨rest, hrest, hprefix⟩
    exact hprefix.isInfix.trans (hrest.map Char.toLower).isInfix
  · rintro ⟨before, after, he⟩
    have hrest := List.drop_suffix before.length text
    refine ⟨text.drop before.length, hrest, ?_⟩
    rw [List.map_drop, ← he, List.append_assoc, List.drop_left]
    exact List.prefix_append _ _

theorem compare_covers (h : List.Forall₂ Covers pattern text) (hpattern : '\x00' ∉ pattern)
    (hrest : patternCompare rest tail) : patternCompare (pattern ++ rest) (text ++ tail) := by
  induction h with
  | nil => exact hrest
  | @cons c d pattern text hc _ ih =>
    obtain ⟨hnul, hletters⟩ := List.ne_and_not_mem_of_not_mem_cons hpattern
    by_cases hpercent : c = '%'
    · subst hpercent
      rw [List.cons_append, compare_percent]
      exact ⟨text ++ tail, List.suffix_cons d _, ih hletters⟩
    · by_cases hunder : c = '_'
      · subst hunder
        simpa [patternCompare] using ih hletters
      · have hd : c = d := (hc.resolve_left hpercent).resolve_left hunder
        have hletter : ¬ Special c := by
          rintro (he | he | he)
          · exact hpercent he
          · exact hunder he
          · exact hnul he.symm
        rw [List.cons_append, compare_letter hletter]
        exact ⟨d, text ++ tail, rfl, by rw [hd], ih hletters⟩

theorem compare_inside (h : List.Forall₂ Covers pattern text) (hpattern : '\x00' ∉ pattern)
    (before after : List Char) :
    patternCompare ('%' :: pattern ++ ['%']) (before ++ text ++ after) := by
  rw [List.cons_append, compare_percent, List.append_assoc]
  exact ⟨text ++ after, List.suffix_append _ _, compare_covers h hpattern (compare_trailing after)⟩

end Compare

section Like
variable {pattern text : List Char}

theorem cString_eq (h : '\x00' ∉ text) : cString text = text :=
  List.takeWhile_eq_self_iff.mpr fun _ hc => decide_eq_true fun he => h (he ▸ hc)

theorem nul_cString (text : List Char) : '\x00' ∉ cString text := by
  intro hmem
  have hkept := List.mem_takeWhile_imp (show '\x00' ∈ text.takeWhile fun c => c ≠ '\x00' from hmem)
  exact absurd hkept (by decide)

theorem cString_wrapped (h : '\x00' ∉ pattern) :
    cString ('%' :: pattern ++ ['%']) = '%' :: pattern ++ ['%'] :=
  cString_eq (by simpa using h)

/-- What stands after a NUL is not part of the pattern. -/
theorem cString_cut (h : '\x00' ∈ pattern) :
    cString ('%' :: pattern ++ ['%']) = '%' :: cString pattern := by
  have hcut : ∀ rest, '\x00' ∈ pattern → cString (pattern ++ rest) = cString pattern := by
    intro rest hmem
    induction pattern with
    | nil => cases hmem
    | cons c pattern ih =>
      by_cases hc : c = '\x00'
      · simp [cString, hc]
      · have hmem' : '\x00' ∈ pattern := (List.mem_cons.mp hmem).resolve_left (Ne.symm hc)
        simpa [cString, hc] using ih hmem' hmem'
  rw [List.cons_append, cString, List.takeWhile_cons_of_pos (by decide)]
  exact congrArg ('%' :: ·) (hcut ['%'] h)

theorem like_contains (h : Literal pattern) (htext : '\x00' ∉ text) :
    like ('%' :: pattern ++ ['%']) text ↔ pattern.map Char.toLower <:+: text.map Char.toLower := by
  have hpattern : '\x00' ∉ pattern := fun hmem => h _ hmem (.inr (.inr rfl))
  rw [like, cString_wrapped hpattern, cString_eq htext, compare_contains h]

theorem like_inside (h : List.Forall₂ Covers pattern text) (hpattern : '\x00' ∉ pattern)
    (before after : List Char) (htext : '\x00' ∉ before ++ text ++ after) :
    like ('%' :: pattern ++ ['%']) (before ++ text ++ after) := by
  rw [like, cString_wrapped hpattern, cString_eq htext]
  exact compare_inside h hpattern before after

theorem covers_self (pattern : List Char) : List.Forall₂ Covers pattern pattern :=
  List.forall₂_same.mpr fun _ _ => .inr (.inr rfl)

theorem like_cString (before pattern : List Char) (hbefore : '\x00' ∉ before) :
    like ('%' :: pattern ++ ['%']) (before ++ cString pattern) := by
  have htext : '\x00' ∉ before ++ cString pattern := by
    rw [List.mem_append, not_or]
    exact ⟨hbefore, nul_cString pattern⟩
  by_cases hnul : '\x00' ∈ pattern
  · rw [like, cString_cut hnul, cString_eq htext, compare_percent]
    refine ⟨cString pattern, List.suffix_append _ _, ?_⟩
    simpa using compare_covers (covers_self (cString pattern)) (nul_cString pattern)
      (rfl : patternCompare [] [])
  · rw [cString_eq hnul] at htext ⊢
    simpa using like_inside (covers_self pattern) hnul before [] (by simpa using htext)

def filledIn (pattern : List Char) : List Char :=
  pattern.map fun c => if c = '%' ∨ c = '_' then '0' else c

theorem nul_filledIn (h : '\x00' ∉ pattern) : '\x00' ∉ filledIn pattern := by
  intro hmem
  obtain ⟨c, hc, he⟩ := List.mem_map.mp hmem
  split at he
  · exact absurd he (by decide)
  · exact h (he ▸ hc)

theorem like_filledIn (h : '\x00' ∉ pattern) :
    like ('%' :: pattern ++ ['%']) (filledIn pattern) := by
  have hcovers : List.Forall₂ Covers pattern (filledIn pattern) := by
    refine List.forall₂_map_right_iff.mpr (List.forall₂_same.mpr fun c _ => ?_)
    by_cases hc : c = '%' ∨ c = '_'
    · exact hc.imp_right .inl
    · exact .inr (.inr (if_neg hc).symm)
  simpa using like_inside hcovers h [] [] (by simpa using nul_filledIn h)

theorem filledIn_plain (pattern : List Char) : '%' ∉ filledIn pattern ∧ '_' ∉ filledIn pattern := by
  constructor <;>
  · intro hmem
    obtain ⟨c, -, hc⟩ := List.mem_map.mp hmem
    split at hc <;> simp_all

end Like

end SealedStellar.Indexer
