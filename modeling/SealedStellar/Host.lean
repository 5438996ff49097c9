import SealedStellar.Circuit
import SealedStellar.Lib.Checked
import SealedStellar.Lib.TokenFlow
import Mathlib.Data.BitVec

/-! The Soroban host as the contracts see it: addresses, 256-bit integers, Poseidon, and the
token contracts, which are arbitrary code over an arbitrary state W. -/
namespace SealedStellar
open TokenFlow

abbrev U256 := BitVec 256
abbrev Key := Vector UInt8 32

def u64Max : ℕ := 2 ^ 64 - 1

def saturatingAdd (a b : ℕ) : ℕ := min (a + b) u64Max

/-- `Bn254Fr::from_u256`: the host reduces modulo r. -/
def toFr (u : U256) : Fr := (u.toNat : Fr)

def ofFr (x : Fr) : U256 := BitVec.ofNat 256 x.val

inductive Address where
  | account (key : Key)
  | contract (id : Key)
  deriving DecidableEq

/-- The XDR of `ScVal::Address`: the value tag, the address tag, for an account the key tag,
and the 32 raw bytes. -/
def Address.toXdr : Address → List UInt8
  | .account key => [0, 0, 0, 18, 0, 0, 0, 0, 0, 0, 0, 0] ++ key.toList
  | .contract id => [0, 0, 0, 18, 0, 0, 0, 1] ++ id.toList

def fromBeBytes (bytes : List UInt8) : ℕ := bytes.foldl (fun acc b => acc * 256 + b.toNat) 0

abbrev TokenMove := Move Address Address

structure VerifierProof where
  a : Vector UInt8 64
  b : Vector UInt8 128
  c : Vector UInt8 64

/-- How a call of a token's `transfer` ends: it returns (), it returns a value that does not
decode as (), keeping its effects, or it traps, undoing them. -/
inductive CallOutcome (W : Type) where
  | returned (w : W)
  | undecodable (w : W)
  | trapped

/-- The surroundings of the deployed auction contract. `verify` is none when the call fails. -/
structure Host (W : Type) where
  self : Address
  balance : W → Address → Address → ℤ
  transfer : W → TokenMove → CallOutcome W
  verify : Address → VerifierProof → List U256 → Option Bool
  poseidon : Poseidon
  minPersistentTtl : ℕ
  maxEntryTtl : ℕ

def Host.poseidonHash {W : Type} (h : Host W) (inputs : List U256) : U256 :=
  ofFr (h.poseidon (inputs.map toFr))

/-- Every change of the token state is recorded, for accounting only: no contract reads it. -/
inductive Activity (W : Type) where
  | transfer (move : TokenMove) (before after : W)
  | undecodable (move : TokenMove) (before after : W)
  | outside (before after : W)

def Activity.before {W : Type} : Activity W → W
  | .transfer _ w _ | .undecodable _ w _ | .outside w _ => w

def Activity.after {W : Type} : Activity W → W
  | .transfer _ _ w | .undecodable _ _ w | .outside _ w => w

/-- `extend_ttl(key, threshold, extend_to)` on an entry's live-until ledger. -/
def Host.extendTtl {W : Type} (h : Host W) (sequence liveUntil threshold extendTo : ℕ) : ℕ :=
  let extended := min (sequence + extendTo) (sequence + h.maxEntryTtl - 1)
  if liveUntil < extended ∧ liveUntil - sequence ≤ threshold then extended else liveUntil

theorem Address.toXdr_drop (address : Address) :
    address.toXdr.drop (address.toXdr.length - 32) =
      match address with
      | .account key => key.toList
      | .contract id => id.toList := by
  cases address <;> simp [Address.toXdr]

@[simp] theorem toFr_ofFr (x : Fr) : toFr (ofFr x) = x := by
  have hlt : x.val < 2 ^ 256 := lt_trans (ZMod.val_lt x) (by norm_num)
  rw [toFr, ofFr, BitVec.toNat_ofNat, Nat.mod_eq_of_lt hlt, ZMod.natCast_zmod_val]

end SealedStellar
