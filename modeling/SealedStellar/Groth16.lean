import SealedStellar.Lifecycle
import SealedStellar.Lib.BigEndian
import Mathlib.Algebra.BigOperators.Fin
import Mathlib.Algebra.Module.ZMod

/-! contracts/verifier/src/lib.rs. Points travel as bytes; the curve itself is the host's. -/
namespace SealedStellar.Groth16
open Checked BigEndian

abbrev G1Affine := Vector UInt8 64
abbrev G2Affine := Vector UInt8 128

/-- A host vector. Its length is a u32, and host memory ends long before the last of them. -/
structure HostVec (α : Type) where
  items : List α
  fits : items.length + 1 < 2 ^ 32

inductive VerifierError where
  | VerificationKeyMissing | PublicInputCountMismatch
  deriving DecidableEq

inductive Failure where
  | error (e : VerifierError)
  | trap
  deriving DecidableEq

structure VerificationKey where
  alpha : G1Affine
  beta : G2Affine
  gamma : G2Affine
  delta : G2Affine
  ic : HostVec G1Affine

/-- The host functions and the negation of the SDK; none where they trap. -/
structure Bn254 where
  neg : G1Affine → Option G1Affine
  g1Mul : G1Affine → Fr → Option G1Affine
  g1Add : G1Affine → G1Affine → Option G1Affine
  pairingCheck : List G1Affine → List G2Affine → Option Bool

section Contract
variable (bn254 : Bn254)

def addTerm (vkX : G1Affine) (term : U256 × G1Affine) : Except Failure G1Affine := do
  let scaledIc ← okOr (bn254.g1Mul term.2 (toFr term.1)) .trap
  okOr (bn254.g1Add vkX scaledIc) .trap

def verify (stored : Option VerificationKey) (proof : VerifierProof) (pubSignals : HostVec U256) :
    Except Failure Bool := do
  let verificationKey ← okOr stored (.error .VerificationKeyMissing)
  -- len() + 1 is a checked u32 addition
  ensure (pubSignals.items.length + 1 < 2 ^ 32) .trap
  ensure (pubSignals.items.length + 1 = verificationKey.ic.items.length)
    (.error .PublicInputCountMismatch)
  let icBase ← okOr verificationKey.ic.items[0]? (.error .PublicInputCountMismatch)
  let vkX ← (pubSignals.items.zip (verificationKey.ic.items.drop 1)).foldlM (addTerm bn254) icBase
  let negatedA ← okOr (bn254.neg proof.a) .trap
  let g1Terms := [negatedA, verificationKey.alpha, vkX, proof.c]
  let g2Terms := [proof.b, verificationKey.beta, verificationKey.gamma, verificationKey.delta]
  okOr (bn254.pairingCheck g1Terms g2Terms) .trap

end Contract

structure Curve (G₁ G₂ GT : Type) where
  g1 : G1Affine → Option G₁
  g2 : G2Affine → Option G₂
  e : G₁ → G₂ → GT

section Curve
variable {G₁ G₂ GT : Type} [AddCommGroup G₁] [Module Fr G₁] [CommMonoid GT]

/-- Each host function computes its group operation on bytes that decode. -/
structure Bn254.Lawful (bn254 : Bn254) (curve : Curve G₁ G₂ GT) : Prop where
  neg : ∀ {bytes P}, curve.g1 bytes = some P →
    ∃ negated, bn254.neg bytes = some negated ∧ curve.g1 negated = some (-P)
  g1Mul : ∀ {bytes P} (x : Fr), curve.g1 bytes = some P →
    ∃ scaled, bn254.g1Mul bytes x = some scaled ∧ curve.g1 scaled = some (x • P)
  g1Add : ∀ {bytes bytes' P P'}, curve.g1 bytes = some P → curve.g1 bytes' = some P' →
    ∃ added, bn254.g1Add bytes bytes' = some added ∧ curve.g1 added = some (P + P')
  pairingCheck : ∀ ps qs Ps Qs, ps.map curve.g1 = Ps.map some → qs.map curve.g2 = Qs.map some →
    Ps.length = Qs.length → Ps ≠ [] → ∃ accepted, bn254.pairingCheck ps qs = some accepted ∧
      (accepted = true ↔ (List.zipWith curve.e Ps Qs).prod = 1)

structure Points (G₁ G₂ : Type) where
  a : G₁
  b : G₂
  c : G₁
  alpha : G₁
  beta : G₂
  gamma : G₂
  delta : G₂
  ic : ℕ → G₁

structure Decodes (curve : Curve G₁ G₂ GT) (verificationKey : VerificationKey)
    (proof : VerifierProof) (points : Points G₁ G₂) : Prop where
  a : curve.g1 proof.a = some points.a
  b : curve.g2 proof.b = some points.b
  c : curve.g1 proof.c = some points.c
  alpha : curve.g1 verificationKey.alpha = some points.alpha
  beta : curve.g2 verificationKey.beta = some points.beta
  gamma : curve.g2 verificationKey.gamma = some points.gamma
  delta : curve.g2 verificationKey.delta = some points.delta
  ic : ∀ i (h : i < verificationKey.ic.items.length),
    curve.g1 verificationKey.ic.items[i] = some (points.ic i)

def Equation (curve : Curve G₁ G₂ GT) (points : Points G₁ G₂) (signals : List U256) : Prop :=
  curve.e (-points.a) points.b * curve.e points.alpha points.beta *
    curve.e (points.ic 0 + ∑ i : Fin signals.length, toFr signals[i] • points.ic (i + 1))
      points.gamma *
    curve.e points.c points.delta = 1

variable {bn254 : Bn254} {curve : Curve G₁ G₂ GT} {verificationKey : VerificationKey}
  {proof : VerifierProof} {pubSignals : HostVec U256} {points : Points G₁ G₂}

theorem addTerm_ok (hlaw : bn254.Lawful curve) (signal : U256) {vkX icBytes : G1Affine} {S P : G₁}
    (hvkX : curve.g1 vkX = some S) (hic : curve.g1 icBytes = some P) :
    ∃ vkX', addTerm bn254 vkX (signal, icBytes) = .ok vkX' ∧
      curve.g1 vkX' = some (S + toFr signal • P) := by
  obtain ⟨scaled, hmul, hscaled⟩ := hlaw.g1Mul (toFr signal) hic
  obtain ⟨added, hadd, hadded⟩ := hlaw.g1Add hvkX hscaled
  refine ⟨added, ?_, hadded⟩
  simp [addTerm, hmul, hadd]

/-- The loop adds to the point it starts with every signal times the point of its position. -/
theorem foldlM_addTerm (hlaw : bn254.Lawful curve) {signals : List U256} {icPoints : List G1Affine}
    {ic : ℕ → G₁} {vkX : G1Affine} {S : G₁} (hlength : signals.length = icPoints.length)
    (hic : ∀ i (h : i < icPoints.length), curve.g1 icPoints[i] = some (ic i))
    (hvkX : curve.g1 vkX = some S) :
    ∃ vkX', (signals.zip icPoints).foldlM (addTerm bn254) vkX = .ok vkX' ∧
      curve.g1 vkX' = some (S + ∑ i : Fin signals.length, toFr signals[i] • ic i) := by
  induction signals generalizing icPoints ic vkX S with
  | nil => exact ⟨vkX, rfl, by simpa using hvkX⟩
  | cons signal signals ih =>
    cases icPoints with
    | nil => exact absurd hlength (by simp)
    | cons icBytes icPoints =>
      obtain ⟨first, hfirst, hdecoded⟩ := addTerm_ok hlaw signal hvkX
        (hic 0 (Nat.zero_lt_succ _))
      obtain ⟨last, hlast, hsum⟩ := ih (Nat.succ.inj hlength)
        (fun i h => hic (i + 1) (Nat.succ_lt_succ h)) hdecoded
      refine ⟨last, ?_, ?_⟩
      · rw [List.zip_cons_cons, List.foldlM_cons]
        exact Checked.bind_eq_ok.mpr ⟨first, hfirst, hlast⟩
      · rw [hsum, add_assoc]
        have hsplit := Fin.sum_univ_succ fun i : Fin (signals.length + 1) =>
          toFr (signal :: signals)[i] • ic i
        exact congrArg (fun sum => some (S + sum)) hsplit.symm

theorem verify_length_ne
    (h : pubSignals.items.length + 1 ≠ verificationKey.ic.items.length) :
    verify bn254 (some verificationKey) proof pubSignals =
      .error (.error .PublicInputCountMismatch) := by
  have hfits : ensure (pubSignals.items.length + 1 < 2 ^ 32) Failure.trap = .ok () :=
    ensure_eq_ok.mpr pubSignals.fits
  simp only [verify, hfits]
  simp [okOr, ensure, h, bind, Except.bind]

def pairing (bn254 : Bn254) (verificationKey : VerificationKey) (proof : VerifierProof)
    (icBase : G1Affine) (terms : List (U256 × G1Affine)) : Except Failure Bool := do
  let vkX ← terms.foldlM (addTerm bn254) icBase
  let negatedA ← okOr (bn254.neg proof.a) .trap
  okOr (bn254.pairingCheck [negatedA, verificationKey.alpha, vkX, proof.c]
    [proof.b, verificationKey.beta, verificationKey.gamma, verificationKey.delta]) .trap

theorem verify_length_eq {icBase : G1Affine} {icRest : List G1Affine}
    (hic : verificationKey.ic.items = icBase :: icRest)
    (h : pubSignals.items.length = icRest.length) :
    verify bn254 (some verificationKey) proof pubSignals =
      pairing bn254 verificationKey proof icBase (pubSignals.items.zip icRest) := by
  have hfits : ensure (pubSignals.items.length + 1 < 2 ^ 32) Failure.trap = .ok () :=
    ensure_eq_ok.mpr pubSignals.fits
  simp only [verify, hfits]
  simp [pairing, okOr, ensure, hic, h, bind, Except.bind]

def NoContractError {α : Type} (x : Except Failure α) : Prop := ∀ e, x ≠ .error (.error e)

theorem noContractError_okOr {α : Type} {o : Option α} : NoContractError (okOr o .trap) := by
  intro e
  cases o <;> simp [okOr]

theorem NoContractError.bind {α β : Type} {x : Except Failure α} {f : α → Except Failure β}
    (hx : NoContractError x) (hf : ∀ a, NoContractError (f a)) : NoContractError (x >>= f) := by
  intro e
  cases x with
  | ok a => exact hf a e
  | error failure => exact fun h => hx e (by cases h; rfl)

theorem noContractError_foldlM {terms : List (U256 × G1Affine)} {vkX : G1Affine} :
    NoContractError (terms.foldlM (addTerm bn254) vkX) := by
  induction terms generalizing vkX with
  | nil => exact fun _ => nofun
  | cons term terms ih =>
    rw [List.foldlM_cons]
    exact (noContractError_okOr.bind fun _ => noContractError_okOr).bind fun _ => ih

theorem noContractError_pairing {icBase : G1Affine} {terms : List (U256 × G1Affine)} :
    NoContractError (pairing bn254 verificationKey proof icBase terms) := by
  apply noContractError_foldlM.bind
  intro vkX
  apply noContractError_okOr.bind
  intro negatedA
  exact noContractError_okOr

theorem verify_mismatch : verify bn254 (some verificationKey) proof pubSignals =
      .error (.error .PublicInputCountMismatch) ↔
    pubSignals.items.length + 1 ≠ verificationKey.ic.items.length := by
  constructor
  · intro herror hlength
    cases hic : verificationKey.ic.items with
    | nil => exact absurd hlength (by simp [hic])
    | cons icBase icRest =>
      rw [hic, List.length_cons, Nat.add_right_cancel_iff] at hlength
      rw [verify_length_eq hic hlength] at herror
      exact noContractError_pairing _ herror
  · exact verify_length_ne

theorem verify_pairing (hlaw : bn254.Lawful curve)
    (hdecodes : Decodes curve verificationKey proof points)
    (hlength : pubSignals.items.length + 1 = verificationKey.ic.items.length) :
    ∃ accepted, verify bn254 (some verificationKey) proof pubSignals = .ok accepted ∧
      (accepted = true ↔ Equation curve points pubSignals.items) := by
  cases hic : verificationKey.ic.items with
  | nil => exact absurd hlength (by simp [hic])
  | cons icBase icRest =>
    have hrest : pubSignals.items.length = icRest.length := by simpa [hic] using hlength
    have hpoints : ∀ i (h : i < icRest.length), curve.g1 icRest[i] = some (points.ic (i + 1)) := by
      intro i h
      have hi := hdecodes.ic (i + 1) (by simpa [hic] using h)
      simpa [hic] using hi
    have hbase : curve.g1 icBase = some (points.ic 0) := by
      have h0 := hdecodes.ic 0 (by simp [hic])
      simpa [hic] using h0
    obtain ⟨vkX, hfold, hvkX⟩ := foldlM_addTerm hlaw hrest hpoints hbase
    obtain ⟨negated, hneg, hnegated⟩ := hlaw.neg hdecodes.a
    obtain ⟨accepted, hcheck, haccepted⟩ := hlaw.pairingCheck
      [negated, verificationKey.alpha, vkX, proof.c]
      [proof.b, verificationKey.beta, verificationKey.gamma, verificationKey.delta]
      [-points.a, points.alpha,
        points.ic 0 + ∑ i : Fin pubSignals.items.length, toFr pubSignals.items[i] • points.ic (i + 1),
        points.c]
      [points.b, points.beta, points.gamma, points.delta]
      (by simp only [List.map_cons, List.map_nil, hnegated, hdecodes.alpha, hvkX, hdecodes.c])
      (by simp only [List.map_cons, List.map_nil, hdecodes.b, hdecodes.beta, hdecodes.gamma,
        hdecodes.delta]) rfl (List.cons_ne_nil _ _)
    refine ⟨accepted, ?_, ?_⟩
    · rw [verify_length_eq hic hrest]
      simp [pairing, hfold, hneg, hcheck]
    · rw [haccepted, Equation]
      simp [mul_assoc]

/-- The signals are counted before anything is decoded; then the answer is the pairing equation. -/
theorem verify_equation (hlaw : bn254.Lawful curve) (verificationKey : VerificationKey)
    (proof : VerifierProof) (pubSignals : HostVec U256) :
    (verify bn254 (some verificationKey) proof pubSignals =
        .error (.error .PublicInputCountMismatch) ↔
      pubSignals.items.length + 1 ≠ verificationKey.ic.items.length) ∧
    ∀ points, Decodes curve verificationKey proof points →
      pubSignals.items.length + 1 = verificationKey.ic.items.length →
      ∃ accepted, verify bn254 (some verificationKey) proof pubSignals = .ok accepted ∧
        (accepted = true ↔ Equation curve points pubSignals.items) :=
  ⟨verify_mismatch, fun _ hdecodes hlength => verify_pairing hlaw hdecodes hlength⟩

/-- The verifier that the auction contract calls is this contract, with the key it was given. -/
def Deployed {W : Type} (bn254 : Bn254) (h : Host W)
    (stored : Address → Option VerificationKey) : Prop :=
  ∀ verifier proof (pubSignals : HostVec U256), h.verify verifier proof pubSignals.items =
    (verify bn254 (stored verifier) proof pubSignals).toOption

theorem buildPublicSignals_length {W : Type} (h : Host W) (auction : Auction) (auctionId i : ℕ)
    (price : ℤ) (winner : Address) :
    (buildPublicSignals h auction auctionId i price winner).length = 13 := by
  simp [buildPublicSignals, maxBidSlots]

/-- So an accepted settlement satisfies the pairing equation at the rebuilt public signals, under a
key of fourteen points. -/
theorem settle_equation {W : Type} {h : Host W} {stored : Address → Option VerificationKey}
    (hdeployed : Deployed bn254 h stored) (hlaw : bn254.Lawful curve) {g : Genesis W}
    (hkey : stored g.verifier = some verificationKey)
    (hdecodes : Decodes curve verificationKey proof points) {actions : List (Action W)}
    {signers : List Address} {k i : ℕ} {price : ℤ} {winner : Address} {s' : State W}
    (he : exec h signers (.settle k i price winner proof) (runFrom h g actions) = .ok s') :
    verificationKey.ic.items.length = 14 ∧
      ∃ auction, (runFrom h g actions).auctions k = some auction ∧
        Equation curve points (buildPublicSignals h auction k i price winner) := by
  obtain ⟨auction, ha, -, -, -, -, -, bid, -, -, verifier, hverifier, haccepted, -⟩ :=
    (settle_eq_ok h k i price winner proof _ s').mp he
  rw [runFrom_verifier, Option.some.injEq] at hverifier
  subst hverifier
  have hlength := buildPublicSignals_length h auction k i price winner
  rw [hdeployed g.verifier proof ⟨_, by rw [hlength]; norm_num⟩, hkey] at haccepted
  generalize hsignals : (⟨_, _⟩ : HostVec U256) = pubSignals at haccepted
  have hitems : pubSignals.items = buildPublicSignals h auction k i price winner := by
    rw [← hsignals]
  have hcount : pubSignals.items.length + 1 = verificationKey.ic.items.length := by
    by_contra hne
    simp [verify_mismatch.mpr hne, Except.toOption] at haccepted
  obtain ⟨accepted, hverify, hequation⟩ := verify_pairing hlaw hdecodes hcount
  rw [hverify] at haccepted
  rw [hitems] at hcount hequation
  exact ⟨by omega, auction, ha, hequation.mp (by simpa [Except.toOption] using haccepted)⟩

end Curve

section Codes

/-- A host that knows its points by their logarithms: the codes of the multiples of a generator of each
group. -/
structure Codes where
  g1 : Fr → G1Affine
  g1Log : G1Affine → Option Fr
  g2Log : G2Affine → Option Fr
  g1Log_g1 : ∀ k, g1Log (g1 k) = some k

def Codes.curve (codes : Codes) : Curve Fr Fr (Multiplicative Fr) where
  g1 := codes.g1Log
  g2 := codes.g2Log
  e x y := .ofAdd (x * y)

def Codes.host (codes : Codes) : Bn254 where
  neg bytes := (codes.g1Log bytes).map fun k => codes.g1 (-k)
  g1Mul bytes x := (codes.g1Log bytes).map fun k => codes.g1 (x * k)
  g1Add bytes bytes' := do
    let k ← codes.g1Log bytes
    let k' ← codes.g1Log bytes'
    return codes.g1 (k + k')
  pairingCheck ps qs := do
    let Ps ← ps.mapM codes.g1Log
    let Qs ← qs.mapM codes.g2Log
    return decide ((List.zipWith codes.curve.e Ps Qs).prod = 1)

theorem Codes.host_lawful (codes : Codes) : codes.host.Lawful codes.curve where
  neg := by
    intro bytes P h
    have hlog : codes.g1Log bytes = some P := h
    exact ⟨codes.g1 (-P), by simp [Codes.host, hlog], codes.g1Log_g1 _⟩
  g1Mul := by
    intro bytes P x h
    have hlog : codes.g1Log bytes = some P := h
    exact ⟨codes.g1 (x * P), by simp [Codes.host, hlog], codes.g1Log_g1 _⟩
  g1Add := by
    intro bytes bytes' P P' h h'
    have hlog : codes.g1Log bytes = some P := h
    have hlog' : codes.g1Log bytes' = some P' := h'
    exact ⟨codes.g1 (P + P'), by simp [Codes.host, hlog, hlog'], codes.g1Log_g1 _⟩
  pairingCheck := by
    intro ps qs Ps Qs hps hqs _ _
    have hp : ps.mapM codes.g1Log = some Ps := mapM_of_map hps
    have hq : qs.mapM codes.g2Log = some Qs := mapM_of_map hqs
    exact ⟨_, by simp only [Codes.host, hp, hq]; rfl, decide_eq_true_iff⟩

end Codes

section Multiples

def affine (x y : U256) : G1Affine :=
  ⟨(toBytes 32 x.toNat ++ toBytes 32 y.toNat).toArray, by
    have hx : x.toNat < 256 ^ 32 := lt_of_lt_of_eq x.isLt (by norm_num)
    have hy : y.toNat < 256 ^ 32 := lt_of_lt_of_eq y.isLt (by norm_num)
    simp [toBytes_length hx, toBytes_length hy]⟩

/-- Multiples of the generator (1, 2) of the first group of BN254. -/
def multiples : List (Fr × G1Affine) :=
  [(1, affine 1 2),
   ((2 : ℕ), affine 0x30644e72e131a029b85045b68181585d97816a916871ca8d3c208c16d87cfd3
    0x15ed738c0e0a7c92e7845f96b2ae9c0a68a6a449e3538fc7ff3ebf7a5a18a2c4),
   ((3 : ℕ), affine 0x769bf9ac56bea3ff40232bcb1b6bd159315d84715b8e679f2d355961915abf0
    0x2ab799bee0489429554fdb7c8d086475319e63b40b9c5b57cdf1ff3dd9fe2261),
   ((6 : ℕ), affine 0x9f4ca411a3f52f4e0792fd9e792779856719215d3b32a762afe3d5b8c684af9
    0xd8ef3d795acd4b35d4366ab22e4ad335273aa59429e26929d0f64583474d9c8),
   ((8 : ℕ), affine 0x8b1d51d23480c10f472f5e93b9cfea88238c121fe155af7043937882c306a63
    0x299836713dad3fa34e337aa412466015c366af8ec50b9d7bd05aa74642822021),
   (-(8 : ℕ), affine 0x8b1d51d23480c10f472f5e93b9cfea88238c121fe155af7043937882c306a63
    0x6cc1801a38460866a1ccb126f3af847d41abb02a3662d116bc5e4d095fadd26)]

def g2Generator : G2Affine :=
  affine 0x198e9393920d483a7260bfb731fb5d25f1aa493335a9e71297e485b7aef312c2
      0x1800deef121f1e76426a00665e5c4479674322d4f75edadd46debd5cd992f6ed ++
    affine 0x90689d0585ff075ec9e99ad690c3395bc4b313370b38ef355acdadcd122975b
      0x12c85ea5db8c6deb4aab71808dcb408fe3d1e7690c43d37b4ce6cc0166fa7daa

def sampleCode (k : Fr) : G1Affine := (multiples.lookup k).getD (affine (ofFr k) 0)

def sampleLog (bytes : G1Affine) : Option Fr :=
  let k := match multiples.find? fun multiple => multiple.2 = bytes with
    | some multiple => multiple.1
    | none => (fromBeBytes (bytes.toList.take 32) : Fr)
  if sampleCode k = bytes then some k else none

theorem affine_toList (x y : U256) :
    (affine x y).toList = toBytes 32 x.toNat ++ toBytes 32 y.toNat := by
  simp [affine]

theorem affine_take (x y : U256) : fromBeBytes ((affine x y).toList.take 32) = x.toNat := by
  have hx : x.toNat < 256 ^ 32 := lt_of_lt_of_eq x.isLt (by norm_num)
  have htake : (affine x y).toList.take 32 = toBytes 32 x.toNat := by
    rw [affine_toList]
    exact List.take_left' (toBytes_length hx)
  rw [htake]
  exact foldl_toBytes 32 x.toNat

theorem affine_drop (x y : U256) : (affine x y).toList.drop 32 = toBytes 32 y.toNat := by
  have hx : x.toNat < 256 ^ 32 := lt_of_lt_of_eq x.isLt (by norm_num)
  rw [affine_toList]
  exact List.drop_left' (toBytes_length hx)

theorem sampleLog_code (k : Fr) : sampleLog (sampleCode k) = some k := by
  have hsame : ∀ m ∈ multiples, ∀ m' ∈ multiples, m.2 = m'.2 → m.1 = m'.1 := by decide +kernel
  have hother : ∀ m ∈ multiples, m.2.toList.drop 32 ≠ toBytes 32 0 := by decide +kernel
  have hlog : (match multiples.find? fun multiple => multiple.2 = sampleCode k with
      | some multiple => multiple.1
      | none => (fromBeBytes ((sampleCode k).toList.take 32) : Fr)) = k := by
    cases hlookup : multiples.lookup k with
    | some code =>
      obtain ⟨m, hm, rfl, rfl⟩ : ∃ m ∈ multiples, m.1 = k ∧ m.2 = code := by
        rw [List.lookup_eq_findSome?] at hlookup
        obtain ⟨m, hm, hcode⟩ := List.exists_of_findSome?_eq_some hlookup
        split at hcode
        · rename_i hk
          exact ⟨m, hm, (beq_iff_eq.mp hk).symm, Option.some.inj hcode⟩
        · cases hcode
      have hcode : sampleCode m.1 = m.2 := by rw [sampleCode, hlookup, Option.getD_some]
      rw [hcode]
      cases hfind : multiples.find? fun multiple => multiple.2 = m.2 with
      | some m' =>
        exact hsame m' (List.mem_of_find?_eq_some hfind) m hm
          (of_decide_eq_true (List.find?_some hfind :))
      | none => exact absurd (List.find?_eq_none.mp hfind m hm) (by simp)
    | none =>
      have hcode : sampleCode k = affine (ofFr k) 0 := by rw [sampleCode, hlookup, Option.getD_none]
      have hnone : (multiples.find? fun multiple => multiple.2 = affine (ofFr k) 0) = none := by
        refine List.find?_eq_none.mpr fun m hm hfound => hother m hm ?_
        rw [of_decide_eq_true hfound, affine_drop]
        rfl
      rw [hcode, hnone, affine_take]
      exact toFr_ofFr k
  rw [sampleLog]
  simp only [hlog, if_true]

def sampleG2Log (bytes : G2Affine) : Option Fr := if bytes = g2Generator then some 1 else none

def sampleCodes : Codes := ⟨sampleCode, sampleLog, sampleG2Log, sampleLog_code⟩

theorem sample_generator : sampleCodes.curve.g2 g2Generator = some 1 := by
  simp only [sampleCodes, Codes.curve, sampleG2Log, if_true]

/-- Two signals against a key of three points are checked, three signals are refused. -/
theorem verify_equation_witness :
    let key : VerificationKey := ⟨sampleCode 1, g2Generator, g2Generator, g2Generator,
      ⟨[sampleCode 1, sampleCode 2, sampleCode 1], by decide⟩⟩
    let proof : VerifierProof := ⟨sampleCode 8, g2Generator, sampleCode 1⟩
    verify sampleCodes.host (some key) proof ⟨[1, 3], by decide⟩ = .ok true ∧
      verify sampleCodes.host (some key) proof ⟨[1, 3, 1], by decide⟩ =
        .error (.error .PublicInputCountMismatch) := by
  intro key proof
  have hdecodes : Decodes sampleCodes.curve key proof
      ⟨8, 1, 1, 1, 1, 1, 1, fun i => [1, 2, 1].getD i 0⟩ := by
    refine ⟨sampleLog_code 8, sample_generator, sampleLog_code 1, sampleLog_code 1, sample_generator,
      sample_generator, sample_generator, fun i hi => ?_⟩
    have hi' : i < 3 := hi
    interval_cases i
    · exact sampleLog_code 1
    · exact sampleLog_code 2
    · exact sampleLog_code 1
  obtain ⟨accepted, hverify, haccepted⟩ := (verify_equation sampleCodes.host_lawful key proof
    ⟨[1, 3], by decide⟩).2 _ hdecodes rfl
  have htrue : accepted = true := haccepted.mpr (by rw [Equation]; decide +kernel)
  refine ⟨htrue ▸ hverify, ?_⟩
  exact (verify_equation sampleCodes.host_lawful key proof ⟨[1, 3, 1], by decide⟩).1.mpr (by decide)

end Multiples
end SealedStellar.Groth16
