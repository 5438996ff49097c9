import Mathlib.Data.Nat.Notation

/-! Node's base64url. The encoder writes no padding; the decoder takes the base64 letters too,
passes over every other character and stops at the first '='. -/
namespace Base64Url

def letter (s : ℕ) : Char :=
  if s < 26 then .ofNat (65 + s)
  else if s < 52 then .ofNat (71 + s)
  else if s < 62 then .ofNat (s - 4)
  else if s = 62 then '-'
  else '_'

def value (c : Char) : Option ℕ :=
  if c.isUpper then some (c.toNat - 65)
  else if c.isLower then some (c.toNat - 71)
  else if c.isDigit then some (c.toNat + 4)
  else if c = '-' ∨ c = '+' then some 62
  else if c = '_' ∨ c = '/' then some 63
  else none

def sextets : List UInt8 → List ℕ
  | [] => []
  | [a] => [a.toNat / 4, a.toNat % 4 * 16]
  | [a, b] => [a.toNat / 4, a.toNat % 4 * 16 + b.toNat / 16, b.toNat % 16 * 4]
  | a :: b :: c :: bytes =>
    a.toNat / 4 :: (a.toNat % 4 * 16 + b.toNat / 16) :: (b.toNat % 16 * 4 + c.toNat / 64) ::
      c.toNat % 64 :: sextets bytes

def octets : List ℕ → List UInt8
  | s :: t :: u :: v :: rest =>
    .ofNat (s * 4 + t / 16) :: .ofNat (t % 16 * 16 + u / 4) :: .ofNat (u % 4 * 64 + v) ::
      octets rest
  | [s, t, u] => [.ofNat (s * 4 + t / 16), .ofNat (t % 16 * 16 + u / 4)]
  | [s, t] => [.ofNat (s * 4 + t / 16)]
  | _ => []

def encode (bytes : List UInt8) : List Char := (sextets bytes).map letter

def decode (text : List Char) : List UInt8 :=
  octets ((text.takeWhile (· ≠ '=')).filterMap value)

theorem value_letter : ∀ s < 64, value (letter s) = some s ∧ letter s ≠ '=' := by decide

theorem sextets_lt (bytes : List UInt8) : ∀ s ∈ sextets bytes, s < 64 := by
  induction bytes using sextets.induct with
  | case1 => exact fun s hs => absurd hs List.not_mem_nil
  | case2 a =>
    have ha := a.toNat_lt
    simp only [sextets, List.mem_cons, List.not_mem_nil, or_false]
    omega
  | case3 a b =>
    have ha := a.toNat_lt
    have hb := b.toNat_lt
    simp only [sextets, List.mem_cons, List.not_mem_nil, or_false]
    omega
  | case4 a b c bytes ih =>
    have ha := a.toNat_lt
    have hb := b.toNat_lt
    have hc := c.toNat_lt
    simp only [sextets, List.mem_cons]
    intro s hs
    obtain rfl | rfl | rfl | rfl | hs := hs
    · omega
    · omega
    · omega
    · omega
    · exact ih s hs

theorem octets_sextets (bytes : List UInt8) : octets (sextets bytes) = bytes := by
  have hbyte : ∀ (b : UInt8) (n : ℕ), n = b.toNat → UInt8.ofNat n = b := by
    intro b n hn
    rw [hn, UInt8.ofNat_toNat]
  induction bytes using sextets.induct with
  | case1 => rfl
  | case2 a => rw [sextets, octets, hbyte a _ (by omega)]
  | case3 a b =>
    have hb := b.toNat_lt
    rw [sextets, octets, hbyte a _ (by omega), hbyte b _ (by omega)]
  | case4 a b c bytes ih =>
    have hb := b.toNat_lt
    have hc := c.toNat_lt
    rw [sextets, octets, ih, hbyte a _ (by omega), hbyte b _ (by omega), hbyte c _ (by omega)]

theorem decode_encode (bytes : List UInt8) : decode (encode bytes) = bytes := by
  have hletters : ∀ ss : List ℕ, (∀ s ∈ ss, s < 64) →
      ((ss.map letter).takeWhile (· ≠ '=')).filterMap value = ss := by
    intro ss hss
    induction ss with
    | nil => rfl
    | cons s ss ih =>
      obtain ⟨hvalue, hne⟩ := value_letter s (hss s List.mem_cons_self)
      rw [List.map_cons, List.takeWhile_cons, if_pos (by simpa using hne),
        List.filterMap_cons_some hvalue, ih fun s hs => hss s (List.mem_cons_of_mem _ hs)]
  rw [decode, encode, hletters _ (sextets_lt bytes), octets_sextets]

end Base64Url
