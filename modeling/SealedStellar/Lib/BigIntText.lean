import Mathlib.Data.Nat.Notation
import Mathlib.Data.Int.Notation
import Mathlib.Data.List.DropRight

/-! JavaScript's `BigInt(text)`: white space around the literal, a sign on decimal literals
only, the prefixes 0x, 0o and 0b, and 0 for the empty text. -/
namespace BigIntText

def isWhiteSpace (c : Char) : Bool :=
  c.toNat ∈ [9, 10, 11, 12, 13, 32, 160, 5760, 8232, 8233, 8239, 8287, 12288, 65279] ||
    (8192 ≤ c.toNat && c.toNat ≤ 8202)

def trim (text : List Char) : List Char := (text.dropWhile isWhiteSpace).rdropWhile isWhiteSpace

def letterValue (c : Char) : ℕ :=
  if c.isDigit then c.toNat - 48
  else if c.isLower then c.toNat - 87
  else c.toNat - 55

def digitValue (base : ℕ) (c : Char) : Option ℕ :=
  if c.isAlphanum ∧ letterValue c < base then some (letterValue c) else none

def digitsFrom (base acc : ℕ) : List Char → Option ℕ
  | [] => some acc
  | c :: cs => (digitValue base c).bind fun d => digitsFrom base (base * acc + d) cs

def digits (base : ℕ) : List Char → Option ℤ
  | [] => none
  | c :: cs => (digitsFrom base 0 (c :: cs)).map fun n : ℕ => (n : ℤ)

def literal : List Char → Option ℤ
  | [] => some 0
  | '-' :: cs => (digits 10 cs).map fun x => -x
  | '+' :: cs => digits 10 cs
  | '0' :: 'x' :: cs | '0' :: 'X' :: cs => digits 16 cs
  | '0' :: 'o' :: cs | '0' :: 'O' :: cs => digits 8 cs
  | '0' :: 'b' :: cs | '0' :: 'B' :: cs => digits 2 cs
  | cs => digits 10 cs

/-- None is a SyntaxError. -/
def parse (text : String) : Option ℤ := literal (trim text.toList)

theorem not_isWhiteSpace {c : Char} (h : c.isDigit ∨ c = '-') : isWhiteSpace c = false := by
  have hrange : 45 ≤ c.toNat ∧ c.toNat ≤ 57 := by
    cases h with
    | inl h =>
      simp only [Char.isDigit, ge_iff_le, Bool.and_eq_true, decide_eq_true_eq, UInt32.le_iff_toNat_le]
        at h
      exact ⟨Nat.le_trans (by decide) h.1, h.2⟩
    | inr h => simp [h]
  simp only [isWhiteSpace, List.mem_cons, List.not_mem_nil, or_false,
    Bool.or_eq_false_iff, decide_eq_false_iff_not, Bool.and_eq_false_iff]
  omega

theorem trim_eq_self {text : List Char} (h : ∀ c ∈ text, isWhiteSpace c = false) :
    trim text = text := by
  have hdrop : ∀ l : List Char, (∀ c ∈ l, isWhiteSpace c = false) → l.dropWhile isWhiteSpace = l := by
    intro l hl
    cases l with
    | nil => rfl
    | cons c cs => rw [List.dropWhile_cons, hl c List.mem_cons_self, if_neg Bool.false_ne_true]
  have hreverse : ∀ c ∈ text.reverse, isWhiteSpace c = false :=
    fun c hc => h c (List.mem_reverse.mp hc)
  rw [trim, hdrop text h, List.rdropWhile, hdrop _ hreverse, List.reverse_reverse]

theorem trim_trim (text : List Char) : trim (trim text) = trim text := by
  have hfront : (trim text).dropWhile isWhiteSpace = trim text := by
    rw [List.dropWhile_eq_self_iff]
    intro hl
    have hpre : trim text <+: text.dropWhile isWhiteSpace := List.rdropWhile_prefix _ _
    have hlong : 0 < (text.dropWhile isWhiteSpace).length := hl.trans_le hpre.length_le
    rw [hpre.getElem hl]
    exact List.dropWhile_get_zero_not isWhiteSpace text hlong
  rw [trim, hfront, trim, List.rdropWhile_idempotent]

theorem digitValue_ten {c : Char} (h : c.isDigit) : digitValue 10 c = some (c.toNat - 48) := by
  have hle : c.toNat ≤ 57 := by
    simp only [Char.isDigit, ge_iff_le, Bool.and_eq_true, decide_eq_true_eq, UInt32.le_iff_toNat_le]
      at h
    exact h.2
  have hvalue : letterValue c = c.toNat - 48 := by rw [letterValue, if_pos h]
  have halnum : c.isAlphanum = true := by simp [Char.isAlphanum, h]
  rw [digitValue, hvalue, if_pos ⟨halnum, by omega⟩]

theorem digitsFrom_ten {cs : List Char} (h : ∀ c ∈ cs, c.isDigit) (acc : ℕ) :
    digitsFrom 10 acc cs = some (Nat.ofDigitChars 10 cs acc) := by
  induction cs generalizing acc with
  | nil => rfl
  | cons c cs ih =>
    rw [digitsFrom, digitValue_ten (h c List.mem_cons_self), Option.bind_some,
      ih (fun d hd => h d (List.mem_cons_of_mem c hd)), Nat.ofDigitChars_cons]
    rfl

theorem repr_digits (n : ℕ) : ∀ c ∈ n.repr.toList, c.isDigit := by
  intro c hc
  rw [Nat.toList_repr] at hc
  exact Nat.isDigit_of_mem_toDigits (by decide) (by decide) hc

theorem repr_ne_nil (n : ℕ) : n.repr.toList ≠ [] := by
  rw [Nat.toList_repr]
  exact Nat.toDigits_ne_nil

theorem digits_repr (n : ℕ) : digits 10 n.repr.toList = some (n : ℤ) := by
  have hall := repr_digits n
  cases hlist : n.repr.toList with
  | nil => exact absurd hlist (repr_ne_nil n)
  | cons c cs =>
    rw [hlist] at hall
    have hvalue : Nat.ofDigitChars 10 (c :: cs) 0 = n := by
      rw [← hlist, Nat.toList_repr, Nat.ofDigitChars_ten_toDigits]
    rw [digits, digitsFrom_ten hall, hvalue, Option.map_some]

theorem digit_ne {c : Char} (hc : c.isDigit) : c ≠ '-' ∧ c ≠ '+' ∧ c ≠ 'x' ∧ c ≠ 'X' ∧ c ≠ 'o' ∧
    c ≠ 'O' ∧ c ≠ 'b' ∧ c ≠ 'B' := by
  refine ⟨?_, ?_, ?_, ?_, ?_, ?_, ?_, ?_⟩ <;> intro he <;> subst he <;> exact absurd hc (by decide)

theorem literal_digits {cs : List Char} (hne : cs ≠ []) (h : ∀ c ∈ cs, c.isDigit) :
    literal cs = digits 10 cs := by
  rw [literal.eq_def]
  split
  · exact absurd rfl hne
  all_goals first
    | rfl
    | exact absurd rfl (digit_ne (h _ List.mem_cons_self)).1
    | exact absurd rfl (digit_ne (h _ List.mem_cons_self)).2.1
    | exact absurd (h _ (List.mem_cons_of_mem _ List.mem_cons_self)) (by decide)

/-- `BigInt(x.toString())` is x. -/
theorem parse_toString (x : ℤ) : parse (toString x) = some x := by
  cases x with
  | ofNat n =>
    have htext : toString (Int.ofNat n) = n.repr := rfl
    rw [parse, htext, trim_eq_self (fun c hc => not_isWhiteSpace (.inl (repr_digits n c hc))),
      literal_digits (repr_ne_nil n) (repr_digits n), digits_repr]
    rfl
  | negSucc n =>
    have htext : (toString (Int.negSucc n)).toList = '-' :: (n + 1).repr.toList := by
      change ("-" ++ (n + 1).repr).toList = _
      rw [String.toList_append]
      rfl
    have hspace : ∀ c ∈ '-' :: (n + 1).repr.toList, isWhiteSpace c = false := by
      intro c hc
      cases List.mem_cons.mp hc with
      | inl hc => exact not_isWhiteSpace (.inr hc)
      | inr hc => exact not_isWhiteSpace (.inl (repr_digits (n + 1) c hc))
    rw [parse, htext, trim_eq_self hspace, literal, digits_repr]
    rfl

end BigIntText
