import Mathlib.Data.List.Basic

/-! The application/x-www-form-urlencoded format of URLSearchParams: pairs of texts as the bytes of a
query, and back. -/
namespace FormUrlEncoded

section Bytes

def space : UInt8 := 32
def percent : UInt8 := 37
def ampersand : UInt8 := 38
def plus : UInt8 := 43
def equals : UInt8 := 61

def isPlain (b : UInt8) : Bool :=
  (48 ≤ b && b ≤ 57) || (65 ≤ b && b ≤ 90) || (97 ≤ b && b ≤ 122) || b == 42 || b == 45 || b == 46 ||
    b == 95

def hexDigit (d : ℕ) : UInt8 := if d < 10 then .ofNat (48 + d) else .ofNat (55 + d)

def hexValue (b : UInt8) : Option ℕ :=
  if 48 ≤ b ∧ b ≤ 57 then some (b.toNat - 48)
  else if 65 ≤ b ∧ b ≤ 70 then some (b.toNat - 55)
  else if 97 ≤ b ∧ b ≤ 102 then some (b.toNat - 87)
  else none

def encodeByte (b : UInt8) : List UInt8 :=
  if b = space then [plus]
  else if isPlain b then [b]
  else [percent, hexDigit (b.toNat / 16), hexDigit (b.toNat % 16)]

/-- A percent sign without two digits after it stands for itself. -/
def percentDecode : List UInt8 → List UInt8
  | b :: high :: low :: rest =>
    match b == percent, hexValue high, hexValue low with
    | true, some h, some l => .ofNat (16 * h + l) :: percentDecode rest
    | _, _, _ => b :: percentDecode (high :: low :: rest)
  | rest => rest

def encode (bytes : List UInt8) : List UInt8 := bytes.flatMap encodeByte

def decode (bytes : List UInt8) : List UInt8 :=
  percentDecode (bytes.map fun b => if b = plus then space else b)

theorem hexValue_hexDigit : ∀ d < 16, hexValue (hexDigit d) = some d ∧ hexDigit d ≠ plus ∧
    hexDigit d ≠ ampersand ∧ hexDigit d ≠ equals := by decide

theorem isPlain_ne {b c : UInt8} (hb : isPlain b) (hc : isPlain c = false) : b ≠ c := by
  intro he
  rw [he, hc] at hb
  cases hb

theorem percentDecode_cons {b : UInt8} (hb : b ≠ percent) (rest : List UInt8) :
    percentDecode (b :: rest) = b :: percentDecode rest := by
  have hbeq : (b == percent) = false := beq_eq_false_iff_ne.mpr hb
  cases rest with
  | nil => rfl
  | cons high rest =>
    cases rest with
    | nil => rfl
    | cons low rest => simp only [percentDecode, hbeq]

theorem percentDecode_digits {h l : ℕ} (hh : h < 16) (hl : l < 16) (rest : List UInt8) :
    percentDecode (percent :: hexDigit h :: hexDigit l :: rest) =
      .ofNat (16 * h + l) :: percentDecode rest := by
  have hpercent : (percent == percent) = true := beq_self_eq_true percent
  simp only [percentDecode, hpercent, (hexValue_hexDigit h hh).1, (hexValue_hexDigit l hl).1]

theorem decode_encodeByte (b : UInt8) (rest : List UInt8) :
    decode (encodeByte b ++ rest) = b :: decode rest := by
  have hb := b.toNat_lt
  rw [encodeByte]
  split
  · rename_i hspace
    rw [hspace]
    exact percentDecode_cons (by decide) _
  · split
    · rename_i hplain
      have hplus : b ≠ plus := isPlain_ne hplain (by decide)
      rw [decode, List.singleton_append, List.map_cons, if_neg hplus]
      exact percentDecode_cons (isPlain_ne hplain (by decide)) _
    · obtain ⟨-, hhigh, -⟩ := hexValue_hexDigit (b.toNat / 16) (by omega)
      obtain ⟨-, hlow, -⟩ := hexValue_hexDigit (b.toNat % 16) (by omega)
      have hpercent : percent ≠ plus := by decide
      have hvalue : 16 * (b.toNat / 16) + b.toNat % 16 = b.toNat := by omega
      simp only [decode, List.cons_append, List.nil_append, List.map_cons, if_neg hpercent,
        if_neg hhigh, if_neg hlow]
      rw [percentDecode_digits (by omega) (by omega), hvalue, UInt8.ofNat_toNat]

theorem decode_encode (bytes : List UInt8) : decode (encode bytes) = bytes := by
  induction bytes with
  | nil => rfl
  | cons b bytes ih => rw [encode, List.flatMap_cons, decode_encodeByte, ← encode, ih]

theorem not_mem_encode {c : UInt8} (hc : c = ampersand ∨ c = equals) (bytes : List UInt8) :
    c ∉ encode bytes := by
  intro hmem
  obtain ⟨b, -, hb⟩ := List.mem_flatMap.mp hmem
  have hlt := b.toNat_lt
  have hplain : isPlain c = false := by
    obtain rfl | rfl := hc <;> decide
  have hsigns : c ≠ plus ∧ c ≠ percent := by
    obtain rfl | rfl := hc <;> decide
  have hdigit : ∀ d < 16, c ≠ hexDigit d := by
    intro d hd he
    obtain ⟨-, -, hamp, heq⟩ := hexValue_hexDigit d hd
    obtain rfl | rfl := hc
    · exact hamp he.symm
    · exact heq he.symm
  rw [encodeByte] at hb
  split at hb
  · exact hsigns.1 (List.mem_singleton.mp hb)
  · split at hb
    · rename_i hself
      exact isPlain_ne hself hplain (List.mem_singleton.mp hb).symm
    · simp only [List.mem_cons, List.not_mem_nil, or_false] at hb
      obtain hb | hb | hb := hb
      · exact hsigns.2 hb
      · exact hdigit _ (by omega) hb
      · exact hdigit _ (by omega) hb

end Bytes

section Pairs
variable {α : Type} (write : α → List UInt8) (read : List UInt8 → α)

def serializePair (pair : α × α) : List UInt8 :=
  encode (write pair.1) ++ equals :: encode (write pair.2)

def serialize (pairs : List (α × α)) : List UInt8 :=
  [ampersand].intercalate (pairs.map (serializePair write))

def parsePair (part : List UInt8) : α × α :=
  (read (decode (part.takeWhile (· ≠ equals))), read (decode ((part.dropWhile (· ≠ equals)).drop 1)))

def parse (query : List UInt8) : List (α × α) :=
  ((query.splitOn ampersand).filter (· ≠ [])).map (parsePair read)

variable {write read}

theorem span_equals {name : List UInt8} (hname : equals ∉ name) (rest : List UInt8) :
    (name ++ equals :: rest).takeWhile (· ≠ equals) = name ∧
      (name ++ equals :: rest).dropWhile (· ≠ equals) = equals :: rest := by
  induction name with
  | nil => simp
  | cons b name ih =>
    obtain ⟨hb, hname⟩ := List.ne_and_not_mem_of_not_mem_cons hname
    obtain ⟨htake, hdrop⟩ := ih hname
    have hne : decide (b ≠ equals) = true := decide_eq_true (Ne.symm hb)
    constructor
    · rw [List.cons_append, List.takeWhile_cons, hne, if_pos rfl, htake]
    · rw [List.cons_append, List.dropWhile_cons, hne, if_pos rfl, hdrop]

theorem parsePair_serializePair (hread : ∀ a, read (write a) = a) (pair : α × α) :
    parsePair read (serializePair write pair) = pair := by
  obtain ⟨htake, hdrop⟩ := span_equals (not_mem_encode (.inr rfl) (write pair.1))
    (encode (write pair.2))
  rw [parsePair, serializePair, htake, hdrop, List.drop_one, List.tail_cons, decode_encode,
    decode_encode, hread, hread]

theorem serializePair_ne (pair : α × α) : serializePair write pair ≠ [] := by
  simp [serializePair]

theorem ampersand_serializePair (pair : α × α) : ampersand ∉ serializePair write pair := by
  intro hmem
  obtain hmem | hmem := List.mem_append.mp hmem
  · exact not_mem_encode (.inl rfl) _ hmem
  · obtain hmem | hmem := List.mem_cons.mp hmem
    · exact absurd hmem (by decide)
    · exact not_mem_encode (.inl rfl) _ hmem

/-- Whatever texts the pairs hold, they are read back from the query in their order. -/
theorem parse_serialize (hread : ∀ a, read (write a) = a) (pairs : List (α × α)) :
    parse read (serialize write pairs) = pairs := by
  by_cases hpairs : pairs = []
  · subst hpairs
    rfl
  · have hparts : ∀ part ∈ pairs.map (serializePair write), ampersand ∉ part := by
      intro part hpart
      obtain ⟨pair, -, rfl⟩ := List.mem_map.mp hpart
      exact ampersand_serializePair pair
    have hkept : (pairs.map (serializePair write)).filter (· ≠ []) =
        pairs.map (serializePair write) := by
      refine List.filter_eq_self.mpr fun part hpart => ?_
      obtain ⟨pair, -, rfl⟩ := List.mem_map.mp hpart
      exact decide_eq_true (serializePair_ne pair)
    rw [parse, serialize, List.splitOn_intercalate _ hparts (by simpa using hpairs), hkept,
      List.map_map]
    exact (List.map_congr_left fun pair _ => parsePair_serializePair hread pair).trans (List.map_id _)

end Pairs

section Texts

def utf8 (text : String) : List UInt8 := text.toByteArray.data.toList

/-- UTF-8; repair stands for the replacement characters in bytes that are no text. -/
def textOf (repair : List UInt8 → String) (bytes : List UInt8) : String :=
  (String.fromUTF8? ⟨bytes.toArray⟩).getD (repair bytes)

theorem textOf_utf8 (repair : List UInt8 → String) (text : String) :
    textOf repair (utf8 text) = text := by
  have hbytes : (⟨(utf8 text).toArray⟩ : ByteArray) = text.toByteArray := by
    rw [utf8, Array.toArray_toList]
  have hread : String.fromUTF8? text.toByteArray = some text := by
    rw [String.fromUTF8?, dif_pos text.isValidUTF8]
    rfl
  rw [textOf, hbytes, hread, Option.getD_some]

end Texts

end FormUrlEncoded
