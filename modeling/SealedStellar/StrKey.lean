import SealedStellar.Host
import SealedStellar.Lib.BigEndian

/-! Addresses as text. The page takes both directions from stellar-sdk; `sep23` is the
documented format, base32 over a version byte, the key and a CRC16 checksum. -/
namespace SealedStellar
open BigEndian

structure StrKey where
  encode : Address → String
  decodeEd25519PublicKey : String → Option Key

def StrKey.Faithful (strKey : StrKey) : Prop :=
  ∀ address, strKey.decodeEd25519PublicKey (strKey.encode address) =
    match address with
    | .account key => some key
    | .contract _ => none

theorem StrKey.Faithful.account {strKey : StrKey} (hkeys : strKey.Faithful) {address : Address}
    {key : Key} (hkey : strKey.decodeEd25519PublicKey (strKey.encode address) = some key) :
    address = .account key := by
  have hdecode := hkeys address
  rw [hkey] at hdecode
  cases address with
  | account key' =>
    cases hdecode
    rfl
  | contract id => cases hdecode

def crcBit (crc : ℕ) : ℕ :=
  if crc / 2 ^ 15 % 2 = 1 then (crc * 2 % 2 ^ 16) ^^^ 0x1021 else crc * 2 % 2 ^ 16

def crc16 (bytes : List ℕ) : ℕ := bytes.foldl (fun crc b => crcBit^[8] (crc ^^^ (b * 256))) 0

def alphabet : List Char := "ABCDEFGHIJKLMNOPQRSTUVWXYZ234567".toList

def checksummed (versionByte : ℕ) (key : Key) : List ℕ :=
  let payload := versionByte :: key.toList.map UInt8.toNat
  payload ++ [crc16 payload % 256, crc16 payload / 256 % 256]

def accountVersion : ℕ := 48
def contractVersion : ℕ := 16

def base32 (bytes : List ℕ) : String :=
  String.ofList ((write 32 56 (read 256 bytes)).map fun d => alphabet.getD d 'A')

def sep23 : StrKey where
  encode address :=
    match address with
    | .account key => base32 (checksummed accountVersion key)
    | .contract id => base32 (checksummed contractVersion id)
  decodeEd25519PublicKey text :=
    let bytes := write 256 35 (read 32 (text.toList.map fun c => alphabet.idxOf c))
    let key : Key := Vector.ofFn fun i => UInt8.ofNat (bytes.getD (i + 1) 0)
    if text = base32 (checksummed accountVersion key) then some key else none

theorem checksummed_length (versionByte : ℕ) (key : Key) :
    (checksummed versionByte key).length = 35 := by
  simp [checksummed]

theorem checksummed_lt {versionByte : ℕ} (hv : versionByte < 256) (key : Key) :
    ∀ b ∈ checksummed versionByte key, b < 256 := by
  intro b hb
  simp only [checksummed, List.mem_append, List.mem_cons, List.mem_map, List.not_mem_nil,
    or_false] at hb
  obtain (rfl | ⟨c, -, rfl⟩) | rfl | rfl := hb
  · exact hv
  · exact c.toNat_lt
  · omega
  · omega

theorem alphabet_idxOf {d : ℕ} (hd : d < 32) : alphabet.idxOf (alphabet.getD d 'A') = d := by
  have hall : ∀ d : Fin 32, alphabet.idxOf (alphabet.getD d 'A') = d := by decide
  exact hall ⟨d, hd⟩

theorem base32_bytes {bytes : List ℕ} (hlen : bytes.length = 35) (hlt : ∀ b ∈ bytes, b < 256) :
    write 256 35 (read 32 ((base32 bytes).toList.map fun c => alphabet.idxOf c)) = bytes := by
  have hdigits : (write 32 56 (read 256 bytes)).map
      ((fun c => alphabet.idxOf c) ∘ fun d => alphabet.getD d 'A') = write 32 56 (read 256 bytes) := by
    have hsame : ∀ d ∈ write 32 56 (read 256 bytes),
        ((fun c => alphabet.idxOf c) ∘ fun d => alphabet.getD d 'A') d = d :=
      fun d hd => alphabet_idxOf (write_lt (by norm_num) hd)
    rw [List.map_congr_left hsame]
    exact List.map_id _
  have hback := write_read (by norm_num) hlt
  rw [hlen] at hback
  rw [base32, String.toList_ofList, List.map_map, hdigits, read_write, hback]

theorem key_of_checksummed (versionByte : ℕ) (key : Key) :
    (Vector.ofFn fun i : Fin 32 => UInt8.ofNat ((checksummed versionByte key).getD (i + 1) 0)) =
      key := by
  ext i hi
  have hat : (checksummed versionByte key).getD (i + 1) 0 = key[i].toNat := by
    have hin : i < (key.toList.map UInt8.toNat).length := by simpa using hi
    rw [checksummed, List.cons_append, List.getD_cons_succ, List.getD_eq_getElem?_getD,
      List.getElem?_append_left hin]
    simp [hi]
  rw [Vector.getElem_ofFn, hat, UInt8.ofNat_toNat]

theorem sep23_faithful : sep23.Faithful := by
  intro address
  cases address with
  | account key =>
    have hbytes := base32_bytes (checksummed_length accountVersion key)
      (checksummed_lt (by decide) key)
    simp only [sep23, hbytes, key_of_checksummed, if_true]
  | contract id =>
    have hbytes := base32_bytes (checksummed_length contractVersion id)
      (checksummed_lt (by decide) id)
    have hne : base32 (checksummed contractVersion id) ≠ base32 (checksummed accountVersion id) := by
      intro he
      have hacc := base32_bytes (checksummed_length accountVersion id)
        (checksummed_lt (by decide) id)
      rw [← he, hbytes] at hacc
      exact absurd (List.cons.inj hacc).1 (by decide)
    simp only [sep23, hbytes, key_of_checksummed, if_neg hne]

theorem checksummed_injective {versionByte versionByte' : ℕ} (hv : versionByte < 256)
    (hv' : versionByte' < 256) {key key' : Key}
    (he : base32 (checksummed versionByte key) = base32 (checksummed versionByte' key')) :
    versionByte = versionByte' ∧ key = key' := by
  have hbytes := base32_bytes (checksummed_length versionByte key) (checksummed_lt hv key)
  rw [he, base32_bytes (checksummed_length versionByte' key') (checksummed_lt hv' key')] at hbytes
  have hkey := key_of_checksummed versionByte key
  rw [← hbytes, key_of_checksummed] at hkey
  exact ⟨(List.cons.inj hbytes).1.symm, hkey.symm⟩

theorem sep23_injective : Function.Injective sep23.encode := by
  intro address address' he
  cases address with
  | account key =>
    cases address' with
    | account key' => rw [(checksummed_injective (by decide) (by decide) he).2]
    | contract id => exact absurd (checksummed_injective (by decide) (by decide) he).1 (by decide)
  | contract id =>
    cases address' with
    | account key => exact absurd (checksummed_injective (by decide) (by decide) he).1 (by decide)
    | contract id' => rw [(checksummed_injective (by decide) (by decide) he).2]

end SealedStellar
