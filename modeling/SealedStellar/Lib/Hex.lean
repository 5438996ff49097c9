import SealedStellar.Lib.BigEndian
import SealedStellar.Lib.BigIntText

/-! Hexadecimal text of bytes: Node's `Buffer` in both directions, the padded text of a bigint,
and the loop that reads a byte from every two characters with `Number.parseInt`. -/
namespace Hex
open BigEndian BigIntText

def digitsOf (b : UInt8) : List ℕ := [b.toNat / 16, b.toNat % 16]

def encode (bytes : List UInt8) : List Char := (bytes.flatMap digitsOf).map Nat.digitChar

/-- `Buffer.from(text, 'hex')`: it stops at the first pair that is no byte. -/
def decode : List Char → List UInt8
  | high :: low :: rest =>
    match digitValue 16 high, digitValue 16 low with
    | some h, some l => .ofNat (16 * h + l) :: decode rest
    | _, _ => []
  | _ => []

def ofInt : ℤ → List Char
  | .ofNat n => Nat.toDigits 16 n
  | .negSucc n => '-' :: Nat.toDigits 16 (n + 1)

/-- The longest prefix of digits, with or without 0x before it; NaN, like 0, becomes the byte 0. -/
def leadingValue (text : List Char) : ℤ :=
  let body := match text with
    | '0' :: 'x' :: rest | '0' :: 'X' :: rest => rest
    | text => text
  let digits := body.takeWhile fun c => (digitValue 16 c).isSome
  ((digitsFrom 16 0 digits).getD 0 : ℤ)

def parseInt (text : List Char) : ℤ :=
  match text.dropWhile isWhiteSpace with
  | '-' :: rest => -leadingValue rest
  | '+' :: rest => leadingValue rest
  | rest => leadingValue rest

def bytesOf : List Char → List UInt8
  | high :: low :: rest => .ofInt (parseInt [high, low]) :: bytesOf rest
  | _ => []

theorem digitValue_digitChar : ∀ d < 16, digitValue 16 (Nat.digitChar d) = some d := by decide

theorem parseInt_pair : ∀ h < 16, ∀ l < 16,
    parseInt [Nat.digitChar h, Nat.digitChar l] = 16 * h + l := by decide

theorem digits_of_byte (b : UInt8) : b.toNat / 16 < 16 ∧ b.toNat % 16 < 16 ∧
    16 * (b.toNat / 16) + b.toNat % 16 = b.toNat := by
  have hb := b.toNat_lt
  omega

@[simp] theorem encode_nil : encode [] = [] := rfl

@[simp] theorem encode_cons (b : UInt8) (bytes : List UInt8) : encode (b :: bytes) =
    Nat.digitChar (b.toNat / 16) :: Nat.digitChar (b.toNat % 16) :: encode bytes := rfl

theorem encode_append (bytes bytes' : List UInt8) :
    encode (bytes ++ bytes') = encode bytes ++ encode bytes' := by
  rw [encode, List.flatMap_append, List.map_append, encode, encode]

theorem encode_length (bytes : List UInt8) : (encode bytes).length = 2 * bytes.length := by
  induction bytes with
  | nil => rfl
  | cons b bytes ih =>
    rw [encode_cons, List.length_cons, List.length_cons, ih, List.length_cons]
    omega

theorem digitsOf_lt {bytes : List UInt8} {d : ℕ} (hd : d ∈ bytes.flatMap digitsOf) : d < 16 := by
  obtain ⟨b, -, hdigit⟩ := List.mem_flatMap.mp hd
  obtain ⟨hhigh, hlow, -⟩ := digits_of_byte b
  cases List.mem_cons.mp hdigit with
  | inl he => exact he ▸ hhigh
  | inr he => exact List.mem_singleton.mp he ▸ hlow

theorem decode_encode (bytes : List UInt8) : decode (encode bytes) = bytes := by
  induction bytes with
  | nil => rfl
  | cons b bytes ih =>
    obtain ⟨hhigh, hlow, hbyte⟩ := digits_of_byte b
    rw [encode_cons, decode, digitValue_digitChar _ hhigh, digitValue_digitChar _ hlow, ih]
    simp only [hbyte, UInt8.ofNat_toNat]

theorem bytesOf_encode (bytes : List UInt8) : bytesOf (encode bytes) = bytes := by
  induction bytes with
  | nil => rfl
  | cons b bytes ih =>
    obtain ⟨hhigh, hlow, hbyte⟩ := digits_of_byte b
    have hvalue : parseInt [Nat.digitChar (b.toNat / 16), Nat.digitChar (b.toNat % 16)] =
        (b.toNat : ℤ) := by
      rw [parseInt_pair _ hhigh _ hlow]
      exact_mod_cast hbyte
    have hmod : ((b.toNat : ℤ) % 2 ^ 8).toNat = b.toNat := by
      have hb := b.toNat_lt
      omega
    rw [encode_cons, bytesOf, hvalue, ih, UInt8.ofInt, hmod, UInt8.ofNat_toNat]

theorem digitsFrom_encode (bytes : List UInt8) (acc : ℕ) :
    digitsFrom 16 acc (encode bytes) =
      some (bytes.foldl (fun acc b => acc * 256 + b.toNat) acc) := by
  induction bytes generalizing acc with
  | nil => rfl
  | cons b bytes ih =>
    obtain ⟨hhigh, hlow, hbyte⟩ := digits_of_byte b
    have hacc : 16 * (16 * acc + b.toNat / 16) + b.toNat % 16 = acc * 256 + b.toNat := by omega
    rw [encode_cons, digitsFrom, digitValue_digitChar _ hhigh, Option.bind_some, digitsFrom,
      digitValue_digitChar _ hlow, Option.bind_some, ih, hacc, List.foldl_cons]

theorem parse_encode {bytes : List UInt8} (hne : bytes ≠ []) :
    parse (String.ofList ('0' :: 'x' :: encode bytes)) =
      some ((bytes.foldl (fun acc b => acc * 256 + b.toNat) 0 : ℕ) : ℤ) := by
  have hspace : ∀ c ∈ '0' :: 'x' :: encode bytes, isWhiteSpace c = false := by
    have hdigit : ∀ d < 16, isWhiteSpace (Nat.digitChar d) = false := by decide
    intro c hc
    simp only [List.mem_cons] at hc
    obtain rfl | rfl | hc := hc
    · decide
    · decide
    · obtain ⟨d, hd, rfl⟩ := List.mem_map.mp hc
      exact hdigit d (digitsOf_lt hd)
  have hdigits := digitsFrom_encode bytes 0
  rw [parse, String.toList_ofList, trim_eq_self hspace, literal]
  cases bytes with
  | nil => exact absurd rfl hne
  | cons b bytes =>
    rw [encode_cons] at hdigits ⊢
    rw [digits, hdigits, Option.map_some]

section Padded

theorem toDigits_digits {n : ℕ} (hn : 0 < n) :
    Nat.toDigits 16 n = ((Nat.digits 16 n).map Nat.digitChar).reverse := by
  induction n using Nat.strongRecOn with
  | _ n ih =>
    rw [Nat.digits_def' (by decide) hn, List.map_cons, List.reverse_cons]
    by_cases hlt : n < 16
    · have hzero : n / 16 = 0 := by omega
      rw [Nat.toDigits_of_lt_base hlt, hzero, Nat.mod_eq_of_lt hlt]
      rfl
    · rw [Nat.toDigits_of_base_le (by decide) (by omega), ih (n / 16) (by omega) (by omega)]

theorem write_leftpad {n count : ℕ} (hcount : 0 < count) :
    (write 16 count n).map Nat.digitChar = (Nat.toDigits 16 n).leftpad count '0' := by
  have hzero : Nat.digitChar 0 = '0' := rfl
  rw [write, Nat.digitsAppend, List.reverse_append, List.reverse_replicate, List.map_append,
    List.map_replicate, hzero, List.map_reverse, List.leftpad]
  by_cases hn : n = 0
  · subst hn
    have hsplit : List.replicate count '0' = List.replicate (count - 1) '0' ++ ['0'] := by
      rw [← List.replicate_succ', Nat.sub_add_cancel hcount]
    simpa [Nat.toDigits_zero] using hsplit
  · rw [toDigits_digits (Nat.pos_of_ne_zero hn), List.length_reverse, List.length_map]

theorem read_digits (bytes : List UInt8) :
    read 16 (bytes.flatMap digitsOf) = read 256 (bytes.map UInt8.toNat) := by
  induction bytes using List.reverseRecOn with
  | nil => rfl
  | append_singleton bytes b ih =>
    have hpair : bytes.flatMap digitsOf ++ digitsOf b =
        bytes.flatMap digitsOf ++ [b.toNat / 16] ++ [b.toNat % 16] := by
      rw [List.append_assoc]
      rfl
    obtain ⟨-, -, hbyte⟩ := digits_of_byte b
    rw [List.flatMap_append, List.flatMap_singleton, hpair, read_append, read_append, ih,
      List.map_append, List.map_singleton, read_append]
    omega

theorem leftpad_ofInt {n count : ℕ} (hcount : 0 < count) (hn : n < 256 ^ count) :
    (ofInt (n : ℤ)).leftpad (2 * count) '0' = encode (toBytes count n) := by
  have hlength : ((toBytes count n).flatMap digitsOf).length = 2 * count := by
    have hmap := encode_length (toBytes count n)
    rwa [encode, List.length_map, toBytes_length hn] at hmap
  have hdigits : ∀ d ∈ (toBytes count n).flatMap digitsOf, d < 16 := fun d hd => digitsOf_lt hd
  have hback := write_read (by decide) hdigits
  rw [hlength, read_digits, toBytes_toNat, read_write] at hback
  rw [encode, ← hback, write_leftpad (by omega)]
  rfl

end Padded

end Hex
