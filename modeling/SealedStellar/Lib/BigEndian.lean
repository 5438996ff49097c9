import Mathlib.Data.Nat.Digits.Lemmas
import Mathlib.Tactic.NormNum

/-! Numbers written in a fixed count of digits, the most significant first. -/
namespace BigEndian

def write (base count n : ℕ) : List ℕ := (Nat.digitsAppend base count n).reverse

def read (base : ℕ) (digits : List ℕ) : ℕ := Nat.ofDigits base digits.reverse

theorem read_write (base count n : ℕ) : read base (write base count n) = n := by
  rw [read, write, List.reverse_reverse, Nat.digitsAppend, Nat.ofDigits_append_replicate_zero,
    Nat.ofDigits_digits]

theorem write_read {base : ℕ} (hb : 1 < base) {digits : List ℕ} (h : ∀ d ∈ digits, d < base) :
    write base digits.length (read base digits) = digits := by
  have hvalid : digits.reverse.length = digits.length ∧ ∀ d ∈ digits.reverse, d < base :=
    ⟨List.length_reverse, fun d hd => h d (List.mem_reverse.mp hd)⟩
  have hinv := (Nat.setInvOn_digitsAppend_ofDigits hb digits.length).1 hvalid
  rw [write, read, hinv, List.reverse_reverse]

theorem write_length {base : ℕ} (hb : 1 < base) {count n : ℕ} (hn : n < base ^ count) :
    (write base count n).length = count := by
  rw [write, List.length_reverse, Nat.length_digitsAppend hb count hn]

theorem write_lt {base : ℕ} (hb : 1 < base) {count n d : ℕ} (hd : d ∈ write base count n) :
    d < base :=
  Nat.lt_of_mem_digitsAppend hb count d (List.mem_reverse.mp hd)

theorem read_lt {base : ℕ} (hb : 1 < base) {digits : List ℕ} (h : ∀ d ∈ digits, d < base) :
    read base digits < base ^ digits.length := by
  have hlt := Nat.ofDigits_lt_base_pow_length hb fun d hd => h d (List.mem_reverse.mp hd)
  rwa [List.length_reverse] at hlt

theorem read_append (base : ℕ) (digits : List ℕ) (d : ℕ) :
    read base (digits ++ [d]) = read base digits * base + d := by
  rw [read, List.reverse_append, List.reverse_singleton, List.singleton_append, Nat.ofDigits_cons,
    read, Nat.mul_comm base, Nat.add_comm]

theorem foldl_eq_read (base : ℕ) (digits : List ℕ) :
    digits.foldl (fun acc d => acc * base + d) 0 = read base digits := by
  induction digits using List.reverseRecOn with
  | nil => rfl
  | append_singleton digits d ih =>
    rw [List.foldl_append, ih, read_append]
    rfl

def toBytes (count n : ℕ) : List UInt8 := (write 256 count n).map UInt8.ofNat

theorem toBytes_length {count n : ℕ} (hn : n < 256 ^ count) : (toBytes count n).length = count := by
  rw [toBytes, List.length_map, write_length (by norm_num) hn]

theorem toBytes_toNat (count n : ℕ) :
    (toBytes count n).map UInt8.toNat = write 256 count n := by
  have hbyte : ∀ d ∈ write 256 count n, (UInt8.toNat ∘ UInt8.ofNat) d = d := fun d hd =>
    UInt8.toNat_ofNat_of_lt (write_lt (by norm_num) hd)
  rw [toBytes, List.map_map, List.map_congr_left hbyte]
  exact List.map_id _

theorem foldl_bytes (bytes : List UInt8) :
    bytes.foldl (fun acc b => acc * 256 + b.toNat) 0 = read 256 (bytes.map UInt8.toNat) := by
  rw [← foldl_eq_read, List.foldl_map]

theorem foldl_toBytes (count n : ℕ) :
    (toBytes count n).foldl (fun acc b => acc * 256 + b.toNat) 0 = n := by
  rw [foldl_bytes, toBytes_toNat, read_write]

theorem toBytes_foldl (bytes : List UInt8) :
    toBytes bytes.length (bytes.foldl (fun acc b => acc * 256 + b.toNat) 0) = bytes := by
  have hdigits : ∀ d ∈ bytes.map UInt8.toNat, d < 256 := by
    intro d hd
    obtain ⟨b, -, rfl⟩ := List.mem_map.mp hd
    exact b.toNat_lt
  have hback := write_read (by norm_num) hdigits
  have hbyte : ∀ b ∈ bytes, (UInt8.ofNat ∘ UInt8.toNat) b = b := fun b _ => UInt8.ofNat_toNat
  rw [List.length_map] at hback
  rw [foldl_bytes, toBytes, hback, List.map_map, List.map_congr_left hbyte]
  exact List.map_id _

theorem foldl_bytes_lt (bytes : List UInt8) :
    bytes.foldl (fun acc b => acc * 256 + b.toNat) 0 < 256 ^ bytes.length := by
  have hdigits : ∀ d ∈ bytes.map UInt8.toNat, d < 256 := by
    intro d hd
    obtain ⟨b, -, rfl⟩ := List.mem_map.mp hd
    exact b.toNat_lt
  have hlt := read_lt (by norm_num) hdigits
  rwa [List.length_map, ← foldl_bytes] at hlt

end BigEndian
