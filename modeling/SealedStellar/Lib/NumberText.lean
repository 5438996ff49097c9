import SealedStellar.Lib.BigIntText
import Mathlib.Algebra.Field.Rat

/-! JavaScript's `Number(text)`, its value taken exactly: no rounding and no overflow. -/
namespace NumberText
open BigIntText

/-- None where the text has more than an exponent. -/
def exponent : List Char → Option ℤ
  | [] => some 0
  | 'e' :: '-' :: ds | 'E' :: '-' :: ds => (digits 10 ds).map fun x => -x
  | 'e' :: '+' :: ds | 'E' :: '+' :: ds => digits 10 ds
  | 'e' :: ds | 'E' :: ds => digits 10 ds
  | _ => none

def scaled (n x : ℤ) : ℚ := if 0 ≤ x then n * 10 ^ x.toNat else n / 10 ^ (-x).toNat

def decimal (text : List Char) : Option ℚ :=
  let whole := text.takeWhile Char.isDigit
  let rest := text.dropWhile Char.isDigit
  let fraction := if rest.head? = some '.' then rest.tail.takeWhile Char.isDigit else []
  let rest := if rest.head? = some '.' then rest.tail.dropWhile Char.isDigit else rest
  (digits 10 (whole ++ fraction)).bind fun n =>
    (exponent rest).map fun x => scaled n (x - fraction.length)

def literal : List Char → Option ℚ
  | [] => some 0
  | '-' :: cs => (decimal cs).map fun q => -q
  | '+' :: cs => decimal cs
  | '0' :: 'x' :: cs | '0' :: 'X' :: cs => (digits 16 cs).map fun n : ℤ => (n : ℚ)
  | '0' :: 'o' :: cs | '0' :: 'O' :: cs => (digits 8 cs).map fun n : ℤ => (n : ℚ)
  | '0' :: 'b' :: cs | '0' :: 'B' :: cs => (digits 2 cs).map fun n : ℤ => (n : ℚ)
  | cs => decimal cs

/-- None is NaN or an infinity. -/
def parse (text : List Char) : Option ℚ := literal (trim text)

theorem decimal_digits {cs : List Char} (h : ∀ c ∈ cs, c.isDigit) :
    decimal cs = (digits 10 cs).map fun n : ℤ => (n : ℚ) := by
  have htake : cs.takeWhile Char.isDigit = cs := List.takeWhile_eq_self_iff.mpr h
  have hdrop : cs.dropWhile Char.isDigit = [] := List.dropWhile_eq_nil_iff.mpr h
  rw [decimal, htake, hdrop]
  cases hn : digits 10 cs <;> simp [exponent, scaled, hn]

theorem literal_digits {cs : List Char} (hne : cs ≠ []) (h : ∀ c ∈ cs, c.isDigit) :
    literal cs = decimal cs := by
  rw [literal.eq_def]
  split
  · exact absurd rfl hne
  all_goals first
    | rfl
    | exact absurd rfl (digit_ne (h _ List.mem_cons_self)).1
    | exact absurd rfl (digit_ne (h _ List.mem_cons_self)).2.1
    | exact absurd (h _ (List.mem_cons_of_mem _ List.mem_cons_self)) (by decide)

theorem parse_repr (n : ℕ) : parse n.repr.toList = some (n : ℚ) := by
  have hdigits := repr_digits n
  rw [parse, trim_eq_self fun c hc => not_isWhiteSpace (.inl (hdigits c hc)),
    literal_digits (repr_ne_nil n) hdigits, decimal_digits hdigits, digits_repr, Option.map_some,
    Int.cast_natCast]

end NumberText
