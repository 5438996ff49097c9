import SealedStellar.Groth16
import SealedStellar.ProofPacking

/-! prover/format-args.js as a whole: the arguments it writes for the constructor and for the
verify call of the contract, and what the deployed contract decides on them. -/
namespace SealedStellar
open Checked BigIntText Groth16

/-- A snarkjs verification key; the array IC may be missing. -/
structure VkeyJson where
  vk_alpha_1 : List String
  vk_beta_2 : List (List String)
  vk_gamma_2 : List (List String)
  vk_delta_2 : List (List String)
  IC : Option (List (List String))
  protocol : String
  curve : String

structure VerificationKeyArg where
  alpha : String
  beta : String
  gamma : String
  delta : String
  ic : List String

/-- The entries of public.json; one that is no string is none. -/
abbrev PublicJson := List (Option String)

structure OutputDocument where
  verification_key : VerificationKeyArg
  invocation : Option (ProofArg × List String)

section FormatArgs

def buildVerificationKeyArg (vkeyJson : VkeyJson) : Except String VerificationKeyArg := do
  let protocol := vkeyJson.protocol
  let curve := vkeyJson.curve
  ensure (¬(protocol ≠ "groth16" ∨ curve ≠ "bn128"))
    s!"vkey: expected protocol groth16 over bn128, got {protocol} over {curve}"
  let alpha ← FormatArgs.packG1 vkeyJson.vk_alpha_1 "vk_alpha_1"
  let beta ← FormatArgs.packG2 vkeyJson.vk_beta_2 "vk_beta_2"
  let gamma ← FormatArgs.packG2 vkeyJson.vk_gamma_2 "vk_gamma_2"
  let delta ← FormatArgs.packG2 vkeyJson.vk_delta_2 "vk_delta_2"
  let ic ← okOr vkeyJson.IC "vkey: IC array missing or empty"
  ensure (¬ic.length < 1) "vkey: IC array missing or empty"
  let icHexValues ← ic.zipIdx.mapM fun entry => FormatArgs.packG1 entry.1 s!"IC[{entry.2}]"
  return { alpha := alpha, beta := beta, gamma := gamma, delta := delta, ic := icHexValues }

def publicSignal (entry : Option String × ℕ) : Except String String := do
  let _ ← parseFieldElement entry.1 fieldOrder s!"public[{entry.2}]"
  return entry.1.getD ""

def buildPubSignalsArg (publicJson : Option PublicJson) : Except String (List String) := do
  let entries ← okOr publicJson "public.json: expected an array of decimal strings"
  entries.zipIdx.mapM publicSignal

/-- `main` on the parsed files; the proof and the public signals come together or not at all. -/
def formatArgs (vkeyFile : VkeyJson) (files : Option (Groth16Proof × Option PublicJson)) :
    Except String OutputDocument := do
  let verificationKey ← buildVerificationKeyArg vkeyFile
  match files with
  | none => return { verification_key := verificationKey, invocation := none }
  | some (proofFile, publicFile) =>
    let proof ← buildProofArg proofFile
    let pubSignals ← buildPubSignalsArg publicFile
    let signalCount := pubSignals.length
    let icLength := verificationKey.ic.length
    ensure (¬signalCount + 1 ≠ icLength)
      (s!"public signal count {signalCount} does not match vkey IC length {icLength} " ++
        "(expected IC length = signals + 1)")
    return { verification_key := verificationKey, invocation := some (proof, pubSignals) }

end FormatArgs

section Numbers

structure KeyPoints where
  alpha : G1Point
  beta : G2Point
  gamma : G2Point
  delta : G2Point
  ic : List G1Point
  deriving DecidableEq

def keyPoints (vkeyJson : VkeyJson) : Option KeyPoints := do
  let alpha ← g1Point vkeyJson.vk_alpha_1
  let beta ← g2Point vkeyJson.vk_beta_2
  let gamma ← g2Point vkeyJson.vk_gamma_2
  let delta ← g2Point vkeyJson.vk_delta_2
  let ic ← vkeyJson.IC
  let icPoints ← ic.mapM g1Point
  return ⟨alpha, beta, gamma, delta, icPoints⟩

def publicNumbers (publicJson : PublicJson) : Option (List ℤ) :=
  publicJson.mapM fun entry => entry.bind parse

structure KeyPoints.Reduced (p : KeyPoints) : Prop where
  alpha : p.alpha.Reduced
  beta : p.beta.Reduced
  gamma : p.gamma.Reduced
  delta : p.delta.Reduced
  ic : ∀ q ∈ p.ic, q.Reduced

def keyArg (p : KeyPoints) : VerificationKeyArg where
  alpha := hexOf (g1Bytes p.alpha)
  beta := hexOf (g2Bytes p.beta)
  gamma := hexOf (g2Bytes p.gamma)
  delta := hexOf (g2Bytes p.delta)
  ic := p.ic.map fun q => hexOf (g1Bytes q)

theorem packed_points {coordinates : List (List String)} {n : ℕ} {hexes : List String}
    (hpack : (coordinates.zipIdx n).mapM (fun entry => FormatArgs.packG1 entry.1 s!"IC[{entry.2}]") =
      .ok hexes) :
    ∃ points, coordinates.mapM g1Point = some points ∧ (∀ q ∈ points, q.Reduced) ∧
      hexes = points.map fun q => hexOf (g1Bytes q) := by
  induction coordinates generalizing n hexes with
  | nil =>
    rw [List.zipIdx_nil, List.mapM_nil, pure_eq_ok] at hpack
    exact ⟨[], rfl, nofun, hpack.symm⟩
  | cons first rest ih =>
    rw [List.zipIdx_cons, List.mapM_cons, bind_eq_ok] at hpack
    simp only [bind_eq_ok, pure_eq_ok] at hpack
    obtain ⟨hex, hfirst, others, hrest, rfl⟩ := hpack
    obtain ⟨p, hp, hreduced, rfl⟩ := packG1_ok hfirst
    obtain ⟨points, hpoints, hall, rfl⟩ := ih hrest
    refine ⟨p :: points, ?_, List.forall_mem_cons.mpr ⟨hreduced, hall⟩, rfl⟩
    simp only [List.mapM_cons, hp, hpoints, Option.bind_eq_bind, Option.bind_some, Option.pure_def]

theorem buildVerificationKeyArg_ok {vkeyJson : VkeyJson} {arg : VerificationKeyArg}
    (hbuild : buildVerificationKeyArg vkeyJson = .ok arg) :
    ∃ p, keyPoints vkeyJson = some p ∧ p.Reduced ∧ arg = keyArg p := by
  simp only [buildVerificationKeyArg, bind_eq_ok, pure_eq_ok, okOr_eq_ok] at hbuild
  obtain ⟨_, -, _, ha, _, hb, _, hc, _, hd, ic, hsome, _, -, _, hic, rfl⟩ := hbuild
  obtain ⟨alpha, hpa, hra, rfl⟩ := packG1_ok ha
  obtain ⟨beta, hpb, hrb, rfl⟩ := packG2_ok hb
  obtain ⟨gamma, hpc, hrc, rfl⟩ := packG2_ok hc
  obtain ⟨delta, hpd, hrd, rfl⟩ := packG2_ok hd
  obtain ⟨points, hpoints, hall, rfl⟩ := packed_points hic
  refine ⟨⟨alpha, beta, gamma, delta, points⟩, ?_, ⟨hra, hrb, hrc, hrd, hall⟩, rfl⟩
  simp only [keyPoints, hpa, hpb, hpc, hpd, hsome, hpoints, Option.bind_eq_bind, Option.bind_some,
    Option.pure_def]

theorem publicSignal_ok {entry : Option String × ℕ} {text : String}
    (hok : publicSignal entry = .ok text) :
    entry.1 = some text ∧ ∃ x, parse text = some x ∧ 0 ≤ x ∧ x < fieldOrder := by
  obtain ⟨entry, i⟩ := entry
  simp only [publicSignal, parseFieldElement, bind_eq_ok, pure_eq_ok, ensure_eq_ok, okOr_eq_ok,
    exists_const, not_lt, ge_iff_le, not_le] at hok
  obtain ⟨_, ⟨hne, x, hx, hlow, hhigh, -⟩, rfl⟩ := hok
  cases entry with
  | none => exact absurd rfl hne
  | some text => exact ⟨rfl, x, hx, hlow, hhigh⟩

theorem publicSignals_ok {entries : PublicJson} {n : ℕ} {texts : List String}
    (hok : (entries.zipIdx n).mapM publicSignal = .ok texts) :
    entries = texts.map some ∧ ∀ text ∈ texts, ∃ x, parse text = some x ∧ 0 ≤ x ∧ x < fieldOrder := by
  induction entries generalizing n texts with
  | nil =>
    rw [List.zipIdx_nil, List.mapM_nil, pure_eq_ok] at hok
    exact hok ▸ ⟨rfl, nofun⟩
  | cons entry entries ih =>
    rw [List.zipIdx_cons, List.mapM_cons, bind_eq_ok] at hok
    simp only [bind_eq_ok, pure_eq_ok] at hok
    obtain ⟨text, hfirst, others, hrest, rfl⟩ := hok
    obtain ⟨hentry, hvalue⟩ := publicSignal_ok hfirst
    obtain ⟨hentries, hall⟩ := ih hrest
    exact ⟨by rw [List.map_cons, ← hentries, ← hentry], List.forall_mem_cons.mpr ⟨hvalue, hall⟩⟩

end Numbers

/-- How the stellar command line reads an argument; none where it refuses the text. -/
structure Cli where
  bytesN : (n : ℕ) → String → Option (Vector UInt8 n)
  u256 : String → Option U256

/-- Hex texts are byte arrays, and what is read as a number has the value JavaScript reads. -/
structure Cli.Faithful (cli : Cli) : Prop where
  bytesN : ∀ {n} (bytes : Vector UInt8 n), cli.bytesN n (hexOf bytes.toList) = some bytes
  u256 : ∀ {text u x}, cli.u256 text = some u → parse text = some x → 0 ≤ x → x < 2 ^ 256 →
    (u.toNat : ℤ) = x

def hostVec {α : Type} (items : List α) : Option (HostVec α) :=
  if h : items.length + 1 < 2 ^ 32 then some ⟨items, h⟩ else none

theorem hostVec_eq {α : Type} {items : List α} (h : items.length + 1 < 2 ^ 32) :
    hostVec items = some ⟨items, h⟩ := dif_pos h

def Cli.verificationKey (cli : Cli) (arg : VerificationKeyArg) : Option VerificationKey := do
  let alpha ← cli.bytesN 64 arg.alpha
  let beta ← cli.bytesN 128 arg.beta
  let gamma ← cli.bytesN 128 arg.gamma
  let delta ← cli.bytesN 128 arg.delta
  let items ← arg.ic.mapM (cli.bytesN 64)
  let ic ← hostVec items
  return ⟨alpha, beta, gamma, delta, ic⟩

def Cli.invocation (cli : Cli) (arg : ProofArg × List String) :
    Option (VerifierProof × HostVec U256) := do
  let a ← cli.bytesN 64 arg.1.a
  let b ← cli.bytesN 128 arg.1.b
  let c ← cli.bytesN 64 arg.1.c
  let items ← arg.2.mapM cli.u256
  let pubSignals ← hostVec items
  return (⟨a, b, c⟩, pubSignals)

section Arguments
variable {cli : Cli} (hcli : cli.Faithful)
include hcli

theorem Cli.Faithful.read {n : ℕ} {bytes : List UInt8} (hlength : bytes.length = n)
    {v : Vector UInt8 n} (hread : cli.bytesN n (hexOf bytes) = some v) : v.toList = bytes := by
  have hsize : bytes.toArray.size = n := by simp [hlength]
  have hlist : (Vector.mk bytes.toArray hsize).toList = bytes := by simp
  have hsame := hcli.bytesN (Vector.mk bytes.toArray hsize)
  rw [hlist, hread, Option.some.injEq] at hsame
  rw [hsame, hlist]

theorem Cli.Faithful.reads {n : ℕ} {bytes : List UInt8} (hlength : bytes.length = n) :
    ∃ v, cli.bytesN n (hexOf bytes) = some v := by
  have hsize : bytes.toArray.size = n := by simp [hlength]
  have hlist : (Vector.mk bytes.toArray hsize).toList = bytes := by simp
  have hsame := hcli.bytesN (Vector.mk bytes.toArray hsize)
  rw [hlist] at hsame
  exact ⟨_, hsame⟩

theorem Cli.Faithful.g1 {p : G1Point} (hp : p.Reduced) {bytes : G1Affine}
    (hread : cli.bytesN 64 (hexOf (g1Bytes p)) = some bytes) : decodeG1 bytes.toList = p := by
  rw [hcli.read (g1Bytes_length hp) hread, decodeG1_g1Bytes hp]

theorem Cli.Faithful.g2 {p : G2Point} (hp : p.Reduced) {bytes : G2Affine}
    (hread : cli.bytesN 128 (hexOf (g2Bytes p)) = some bytes) : decodeG2 bytes.toList = p := by
  rw [hcli.read (g2Bytes_length hp) hread, decodeG2_g2Bytes hp]

theorem Cli.Faithful.g1s {points : List G1Point} (hpoints : ∀ q ∈ points, q.Reduced)
    {items : List G1Affine}
    (hread : (points.map fun q => hexOf (g1Bytes q)).mapM (cli.bytesN 64) = some items) :
    items.map (fun bytes => decodeG1 bytes.toList) = points := by
  induction points generalizing items with
  | nil =>
    rw [List.map_nil, List.mapM_nil, Option.pure_def, Option.some.injEq] at hread
    rw [← hread, List.map_nil]
  | cons q points ih =>
    rw [List.map_cons, List.mapM_cons] at hread
    simp only [Option.bind_eq_bind, Option.bind_eq_some_iff, Option.pure_def,
      Option.some.injEq] at hread
    obtain ⟨bytes, hfirst, rest, hrest, rfl⟩ := hread
    rw [List.map_cons, hcli.g1 (hpoints q List.mem_cons_self) hfirst,
      ih (fun r hr => hpoints r (List.mem_cons_of_mem q hr)) hrest]

theorem Cli.Faithful.signals {texts : List String} {items : List U256}
    (hvalues : ∀ text ∈ texts, ∃ x, parse text = some x ∧ 0 ≤ x ∧ x < fieldOrder)
    (hread : texts.mapM cli.u256 = some items) :
    ∃ numbers, (texts.map some).mapM (fun entry => entry.bind parse) = some numbers ∧
      items.length = texts.length ∧ items.map toFr = numbers.map fun x : ℤ => (x : Fr) := by
  induction texts generalizing items with
  | nil =>
    rw [List.mapM_nil, Option.pure_def, Option.some.injEq] at hread
    exact ⟨[], rfl, by rw [← hread]; rfl, by rw [← hread]; rfl⟩
  | cons text texts ih =>
    rw [List.mapM_cons] at hread
    simp only [Option.bind_eq_bind, Option.bind_eq_some_iff, Option.pure_def,
      Option.some.injEq] at hread
    obtain ⟨u, hu, rest, hrest, rfl⟩ := hread
    obtain ⟨x, hx, hlow, hhigh⟩ := hvalues text List.mem_cons_self
    obtain ⟨numbers, hnumbers, hlength, hmap⟩ :=
      ih (fun t ht => hvalues t (List.mem_cons_of_mem text ht)) hrest
    have hfits : x < 2 ^ 256 := by
      have hr : (fieldOrder : ℤ) < 2 ^ 256 := by norm_num
      omega
    have hvalue := hcli.u256 hu hx hlow hfits
    refine ⟨x :: numbers, ?_, by rw [List.length_cons, List.length_cons, hlength], ?_⟩
    · simp [List.mapM_cons, hx, hnumbers]
    · rw [List.map_cons, List.map_cons, hmap, toFr, ← hvalue, Int.cast_natCast]

theorem Cli.Faithful.reads_all {points : List G1Point} (hpoints : ∀ q ∈ points, q.Reduced) :
    ∃ items, (points.map fun q => hexOf (g1Bytes q)).mapM (cli.bytesN 64) = some items ∧
      items.length = points.length := by
  induction points with
  | nil => exact ⟨[], rfl, rfl⟩
  | cons q points ih =>
    obtain ⟨first, hfirst⟩ := hcli.reads (g1Bytes_length (hpoints q List.mem_cons_self))
    obtain ⟨rest, hrest, hlength⟩ := ih fun r hr => hpoints r (List.mem_cons_of_mem q hr)
    refine ⟨first :: rest, ?_, by rw [List.length_cons, List.length_cons, hlength]⟩
    simp [List.mapM_cons, hfirst, hrest]

theorem Cli.Faithful.reads_key {p : KeyPoints} (hp : p.Reduced) (hfits : p.ic.length + 1 < 2 ^ 32) :
    ∃ key, cli.verificationKey (keyArg p) = some key := by
  obtain ⟨alpha, ha⟩ := hcli.reads (g1Bytes_length hp.alpha)
  obtain ⟨beta, hb⟩ := hcli.reads (g2Bytes_length hp.beta)
  obtain ⟨gamma, hc⟩ := hcli.reads (g2Bytes_length hp.gamma)
  obtain ⟨delta, hd⟩ := hcli.reads (g2Bytes_length hp.delta)
  obtain ⟨items, hi, hlength⟩ := hcli.reads_all hp.ic
  have hitems : items.length + 1 < 2 ^ 32 := by rwa [hlength]
  refine ⟨⟨alpha, beta, gamma, delta, ⟨items, hitems⟩⟩, ?_⟩
  simp [Cli.verificationKey, keyArg, ha, hb, hc, hd, hi, hostVec_eq hitems]

theorem Cli.Faithful.reads_call {p : ProofPoints} (hp : p.Reduced) {texts : List String}
    {items : List U256} (hitems : texts.mapM cli.u256 = some items)
    (hfits : items.length + 1 < 2 ^ 32) :
    ∃ proof, cli.invocation (⟨hexOf (proofBytes p).a, hexOf (proofBytes p).b,
      hexOf (proofBytes p).c⟩, texts) = some (proof, ⟨items, hfits⟩) := by
  obtain ⟨hpa, hpb, hpc⟩ := hp
  obtain ⟨a, ha⟩ := hcli.reads (g1Bytes_length hpa)
  obtain ⟨b, hb⟩ := hcli.reads (g2Bytes_length hpb)
  obtain ⟨c, hc⟩ := hcli.reads (g1Bytes_length hpc)
  refine ⟨⟨a, b, c⟩, ?_⟩
  simp [Cli.invocation, proofBytes, ha, hb, hc, hitems, hostVec_eq hfits]

end Arguments

structure Layout {G₁ G₂ GT : Type} (curve : Curve G₁ G₂ GT) where
  g1 : G1Point → Option G₁
  g2 : G2Point → Option G₂
  g1_eq : ∀ bytes, curve.g1 bytes = g1 (decodeG1 bytes.toList)
  g2_eq : ∀ bytes, curve.g2 bytes = g2 (decodeG2 bytes.toList)

structure Layout.Denotes {G₁ G₂ GT : Type} {curve : Curve G₁ G₂ GT} (layout : Layout curve)
    (key : KeyPoints) (proof : ProofPoints) (points : Points G₁ G₂) : Prop where
  a : layout.g1 proof.a = some points.a
  b : layout.g2 proof.b = some points.b
  c : layout.g1 proof.c = some points.c
  alpha : layout.g1 key.alpha = some points.alpha
  beta : layout.g2 key.beta = some points.beta
  gamma : layout.g2 key.gamma = some points.gamma
  delta : layout.g2 key.delta = some points.delta
  ic : ∀ i (h : i < key.ic.length), layout.g1 key.ic[i] = some (points.ic i)

def Accepts {G₁ G₂ GT : Type} [AddCommGroup G₁] [Module Fr G₁] [CommMonoid GT]
    (curve : Curve G₁ G₂ GT) (points : Points G₁ G₂) (numbers : List ℤ) : Prop :=
  curve.e (-points.a) points.b * curve.e points.alpha points.beta *
    curve.e (points.ic 0 + ∑ i : Fin numbers.length, ((numbers[i] : ℤ) : Fr) • points.ic (i + 1))
      points.gamma *
    curve.e points.c points.delta = 1

section Equation
variable {G₁ G₂ GT : Type} [AddCommGroup G₁] [Module Fr G₁]

theorem weighted_sum {α : Type} (f : α → Fr) (ic : ℕ → G₁) (l : List α) :
    ∑ i : Fin l.length, f l[i] • ic (i + 1) =
      ∑ i ∈ Finset.range (l.map f).length, (l.map f).getD i 0 • ic (i + 1) := by
  rw [List.length_map, Finset.sum_range]
  refine Finset.sum_congr rfl fun i _ => ?_
  rw [List.getD_eq_getElem?_getD, List.getElem?_map, List.getElem?_eq_getElem i.isLt]
  rfl

variable [CommMonoid GT] {curve : Curve G₁ G₂ GT} {points : Points G₁ G₂}

theorem equation_iff_accepts {items : List U256} {numbers : List ℤ}
    (hsame : items.map toFr = numbers.map fun x : ℤ => (x : Fr)) :
    Equation curve points items ↔ Accepts curve points numbers := by
  have hsum := weighted_sum toFr points.ic items
  rw [hsame, ← weighted_sum] at hsum
  rw [Equation, Accepts, hsum]

end Equation

theorem Cli.verificationKey_eq {cli : Cli} {arg : VerificationKeyArg} {key : VerificationKey}
    (hkey : cli.verificationKey arg = some key) :
    cli.bytesN 64 arg.alpha = some key.alpha ∧ cli.bytesN 128 arg.beta = some key.beta ∧
      cli.bytesN 128 arg.gamma = some key.gamma ∧ cli.bytesN 128 arg.delta = some key.delta ∧
      arg.ic.mapM (cli.bytesN 64) = some key.ic.items := by
  simp only [Cli.verificationKey, Option.bind_eq_bind, Option.bind_eq_some_iff, Option.pure_def,
    Option.some.injEq] at hkey
  obtain ⟨alpha, ha, beta, hb, gamma, hc, delta, hd, items, hi, ic, hic, rfl⟩ := hkey
  rw [hostVec] at hic
  split at hic
  · cases hic
    exact ⟨ha, hb, hc, hd, hi⟩
  · cases hic

theorem Cli.invocation_eq {cli : Cli} {arg : ProofArg × List String} {proof : VerifierProof}
    {pubSignals : HostVec U256} (hcall : cli.invocation arg = some (proof, pubSignals)) :
    cli.bytesN 64 arg.1.a = some proof.a ∧ cli.bytesN 128 arg.1.b = some proof.b ∧
      cli.bytesN 64 arg.1.c = some proof.c ∧ arg.2.mapM cli.u256 = some pubSignals.items := by
  simp only [Cli.invocation, Option.bind_eq_bind, Option.bind_eq_some_iff, Option.pure_def,
    Option.some.injEq, Prod.mk.injEq] at hcall
  obtain ⟨a, ha, b, hb, c, hc, items, hi, signals, hs, rfl, rfl⟩ := hcall
  rw [hostVec] at hs
  split at hs
  · cases hs
    exact ⟨ha, hb, hc, hi⟩
  · cases hs

theorem formatArgs_call {vkeyFile : VkeyJson} {files : Groth16Proof × Option PublicJson}
    {doc : OutputDocument} (hdoc : formatArgs vkeyFile (some files) = .ok doc) :
    ∃ call, doc.invocation = some call := by
  simp only [formatArgs, bind_eq_ok, pure_eq_ok] at hdoc
  obtain ⟨_, -, proof, -, texts, -, _, -, rfl⟩ := hdoc
  exact ⟨(proof, texts), rfl⟩

theorem formatArgs_ok {vkeyFile : VkeyJson} {proofFile : Groth16Proof} {publicFile : PublicJson}
    {arg : VerificationKeyArg} {call : ProofArg × List String}
    (hdoc : formatArgs vkeyFile (some (proofFile, some publicFile)) = .ok ⟨arg, some call⟩) :
    buildVerificationKeyArg vkeyFile = .ok arg ∧ buildProofArg proofFile = .ok call.1 ∧
      publicFile.zipIdx.mapM publicSignal = .ok call.2 ∧ call.2.length + 1 = arg.ic.length := by
  simp only [formatArgs, buildPubSignalsArg, bind_eq_ok, pure_eq_ok, okOr_eq_ok, ensure_eq_ok,
    not_not, exists_const, OutputDocument.mk.injEq, Option.some.injEq] at hdoc
  obtain ⟨arg', hkey, proof, hproof, texts, ⟨_, rfl, htexts⟩, hcount, rfl, rfl⟩ := hdoc
  exact ⟨hkey, hproof, htexts, hcount⟩

/-- What is deployed with the key of one run, and called with the arguments of another run for the
same key, counts the signals right and decides the Groth16 equation at the numbers in the files. -/
theorem formatted_arguments_decide {G₁ G₂ GT : Type} [AddCommGroup G₁] [Module Fr G₁]
    [CommMonoid GT] {bn254 : Bn254} {curve : Curve G₁ G₂ GT} (hlaw : bn254.Lawful curve)
    (layout : Layout curve) {cli : Cli} (hcli : cli.Faithful) {vkeyFile : VkeyJson}
    {proofFile : Groth16Proof} {publicFile : PublicJson} {deploy : OutputDocument}
    {arg : VerificationKeyArg} {call : ProofArg × List String} {key : VerificationKey}
    {proof : VerifierProof} {pubSignals : HostVec U256}
    (hdeploy : formatArgs vkeyFile none = .ok deploy)
    (hdoc : formatArgs vkeyFile (some (proofFile, some publicFile)) = .ok ⟨arg, some call⟩)
    (hkey : cli.verificationKey deploy.verification_key = some key)
    (hcall : cli.invocation call = some (proof, pubSignals)) :
    verify bn254 (some key) proof pubSignals ≠ .error (.error .PublicInputCountMismatch) ∧
    ∃ kp pp numbers, keyPoints vkeyFile = some kp ∧ proofPoints proofFile = some pp ∧
      publicNumbers publicFile = some numbers ∧ ∀ points, layout.Denotes kp pp points →
        ∃ accepted, verify bn254 (some key) proof pubSignals = .ok accepted ∧
          (accepted = true ↔ Accepts curve points numbers) := by
  obtain ⟨hbuild, hproof, htexts, hcount⟩ := formatArgs_ok hdoc
  obtain ⟨kp, hkp, hkr, rfl⟩ := buildVerificationKeyArg_ok hbuild
  obtain ⟨pp, hpp, ⟨hra, hrb, hrc⟩, hargs⟩ := buildProofArg_ok hproof
  simp only [formatArgs, hbuild, bind_eq_ok, pure_eq_ok, Except.ok.injEq] at hdeploy
  obtain ⟨_, rfl, rfl⟩ := hdeploy
  obtain ⟨halpha, hbeta, hgamma, hdelta, hic⟩ := Cli.verificationKey_eq hkey
  obtain ⟨ha, hb, hc, hsignals⟩ := Cli.invocation_eq hcall
  rw [hargs] at ha hb hc
  obtain ⟨hpublic, hvalues⟩ := publicSignals_ok htexts
  obtain ⟨numbers, hnumbers, hread, hsame⟩ := hcli.signals hvalues hsignals
  have hitems := hcli.g1s hkr.ic hic
  have hlength : pubSignals.items.length + 1 = key.ic.items.length := by
    have hwritten := congrArg List.length hitems
    simp only [List.length_map, keyArg] at hwritten hcount
    omega
  refine ⟨fun herror => verify_mismatch.mp herror hlength, kp, pp, numbers, hkp, hpp, ?_, ?_⟩
  · rw [publicNumbers, hpublic, hnumbers]
  intro points hpoints
  have hdecodes : Decodes curve key proof points :=
    { a := by rw [layout.g1_eq, hcli.g1 hra ha, hpoints.a]
      b := by rw [layout.g2_eq, hcli.g2 hrb hb, hpoints.b]
      c := by rw [layout.g1_eq, hcli.g1 hrc hc, hpoints.c]
      alpha := by rw [layout.g1_eq, hcli.g1 hkr.alpha halpha, hpoints.alpha]
      beta := by rw [layout.g2_eq, hcli.g2 hkr.beta hbeta, hpoints.beta]
      gamma := by rw [layout.g2_eq, hcli.g2 hkr.gamma hgamma, hpoints.gamma]
      delta := by rw [layout.g2_eq, hcli.g2 hkr.delta hdelta, hpoints.delta]
      ic := by
        intro i hi
        have hpoint : i < kp.ic.length := by rw [← hitems, List.length_map]; exact hi
        have hread : decodeG1 key.ic.items[i].toList = kp.ic[i] := by
          simp only [← hitems, List.getElem_map]
        rw [layout.g1_eq, hread, hpoints.ic i hpoint] }
  obtain ⟨accepted, hverify, haccepted⟩ := verify_pairing hlaw hdecodes hlength
  exact ⟨accepted, hverify, haccepted.trans (equation_iff_accepts hsame)⟩

section Files

def hexCli : Cli where
  bytesN n text :=
    if h : (Hex.bytesOf text.toList).length = n then
      some (Vector.mk (Hex.bytesOf text.toList).toArray (by simp [h])) else none
  u256 text := do
    let x ← parse text
    if 0 ≤ x ∧ x < 2 ^ 256 then some (BitVec.ofNat 256 x.toNat) else none

theorem hexCli_faithful : hexCli.Faithful where
  bytesN := by
    intro n bytes
    have hlist : Hex.bytesOf (hexOf bytes.toList).toList = bytes.toList := by
      rw [hexOf, String.toList_ofList, Hex.bytesOf_encode]
    have harray : bytes.toList.toArray = bytes.toArray := rfl
    simp [hexCli, hlist, harray]
  u256 := by
    intro text u x hu hx hlow hhigh
    simp only [hexCli, hx, Option.bind_eq_bind, Option.bind_some, hlow, hhigh, and_self, if_true,
      Option.some.injEq] at hu
    rw [← hu, BitVec.toNat_ofNat]
    omega

def codesLayout (codes : Codes) : Layout codes.curve where
  g1 p := if h : (g1Bytes p).length = 64 then codes.g1Log ⟨(g1Bytes p).toArray, by simp [h]⟩ else none
  g2 p := if h : (g2Bytes p).length = 128 then codes.g2Log ⟨(g2Bytes p).toArray, by simp [h]⟩ else none
  g1_eq := by
    intro bytes
    have hsize : bytes.toList.length = 64 := by simp
    have hbytes := g1Bytes_decodeG1 hsize
    have hlength : (g1Bytes (decodeG1 bytes.toList)).length = 64 := by simp [hbytes]
    have hsame : (⟨(g1Bytes (decodeG1 bytes.toList)).toArray, by simp [hlength]⟩ : G1Affine) = bytes :=
      Vector.toList_inj.mp (by simp [hbytes])
    rw [dif_pos hlength, hsame]
    rfl
  g2_eq := by
    intro bytes
    have hsize : bytes.toList.length = 128 := by simp
    have hbytes := g2Bytes_decodeG2 hsize
    have hlength : (g2Bytes (decodeG2 bytes.toList)).length = 128 := by simp [hbytes]
    have hsame : (⟨(g2Bytes (decodeG2 bytes.toList)).toArray, by simp [hlength]⟩ : G2Affine) = bytes :=
      Vector.toList_inj.mp (by simp [hbytes])
    rw [dif_pos hlength, hsame]
    rfl

def g2Texts : List (List String) :=
  [["10857046999023057135944570762232829481370756359578518086990519993285655852781",
      "11559732032986387107991004021392285783925812861821192530917403151452391805634"],
    ["8495653923123431417604973247489272438418190587263600148770280649306958101930",
      "4082367875863433681332203403145435568316851327593401208105741076214120093531"],
    ["1", "0"]]

def sampleKeyFile : VkeyJson :=
  let g1 := ["1", "2", "1"]
  ⟨g1, g2Texts, g2Texts, g2Texts, some [g1,
    ["1368015179489954701390400359078579693043519447331113978918064868415326638035",
      "9918110051302171585080402603319702774565515993150576347155970296011118125764", "1"], g1],
    "groth16", "bn128"⟩

def sampleProofFile : Groth16Proof :=
  ⟨["3932705576657793550893430333273221375907985235130430286685735064194643946083",
      "18813763293032256545937756946359266117037834559191913266454084342712532869153", "1"],
    g2Texts, ["1", "2", "1"], "groth16", "bn128"⟩

def sampleG2 : G2Point :=
  ⟨⟨10857046999023057135944570762232829481370756359578518086990519993285655852781,
      11559732032986387107991004021392285783925812861821192530917403151452391805634⟩,
    ⟨8495653923123431417604973247489272438418190587263600148770280649306958101930,
      4082367875863433681332203403145435568316851327593401208105741076214120093531⟩⟩

def sampleKeyPoints : KeyPoints :=
  ⟨⟨1, 2⟩, sampleG2, sampleG2, sampleG2, [⟨1, 2⟩,
    ⟨1368015179489954701390400359078579693043519447331113978918064868415326638035,
      9918110051302171585080402603319702774565515993150576347155970296011118125764⟩, ⟨1, 2⟩]⟩

def sampleProofPoints : ProofPoints :=
  ⟨⟨3932705576657793550893430333273221375907985235130430286685735064194643946083,
      18813763293032256545937756946359266117037834559191913266454084342712532869153⟩, sampleG2, ⟨1, 2⟩⟩

theorem sampleG2_denoted : (codesLayout sampleCodes).g2 sampleG2 = some 1 := by decide +kernel

theorem samplePoints_denoted : (codesLayout sampleCodes).Denotes sampleKeyPoints sampleProofPoints
    ⟨8, 1, 1, 1, 1, 1, 1, fun i => [1, 2, 1].getD i 0⟩ where
  a := by decide +kernel
  b := sampleG2_denoted
  c := by decide +kernel
  alpha := by decide +kernel
  beta := sampleG2_denoted
  gamma := sampleG2_denoted
  delta := sampleG2_denoted
  ic := by decide +kernel

/-- A key of three points and two public signals. -/
theorem formatted_arguments_decide_at :
    ∃ arg call key proof pubSignals,
      formatArgs sampleKeyFile (some (sampleProofFile, some [some "1", some "3"])) =
        .ok ⟨arg, some call⟩ ∧
      hexCli.verificationKey arg = some key ∧
      hexCli.invocation call = some (proof, pubSignals) ∧
      verify sampleCodes.host (some key) proof pubSignals = .ok true := by
  have hcalled : (formatArgs sampleKeyFile
      (some (sampleProofFile, some [some "1", some "3"]))).isOk = true := by
    decide +kernel
  cases hdoc : formatArgs sampleKeyFile (some (sampleProofFile, some [some "1", some "3"])) with
  | error e =>
    rw [hdoc] at hcalled
    cases hcalled
  | ok doc =>
    obtain ⟨arg, invocation⟩ := doc
    obtain ⟨⟨proofArg, texts⟩, rfl⟩ := formatArgs_call hdoc
    obtain ⟨hbuild, hproof, htexts, hcount⟩ := formatArgs_ok hdoc
    obtain ⟨kp, hkp, hkr, rfl⟩ := buildVerificationKeyArg_ok hbuild
    obtain ⟨pp, hpp, hpr, rfl⟩ := buildProofArg_ok hproof
    have hsignals : texts = ["1", "3"] := by
      have hsome : ["1", "3"].map some = texts.map some := (publicSignals_ok htexts).1
      exact (List.map_injective_iff.mpr (Option.some_injective _) hsome).symm
    subst hsignals
    have hkey : keyPoints sampleKeyFile = some sampleKeyPoints := by decide +kernel
    have hpoints : proofPoints sampleProofFile = some sampleProofPoints := by decide +kernel
    have hitems : ["1", "3"].mapM hexCli.u256 = some [1, 3] := by decide +kernel
    have hkeyRead := hkey
    rw [hkp, Option.some.injEq] at hkeyRead
    obtain ⟨key, hread⟩ := hexCli_faithful.reads_key hkr (by rw [hkeyRead]; decide)
    obtain ⟨proof, hcall⟩ := hexCli_faithful.reads_call hpr hitems (by decide)
    have hdeploy : formatArgs sampleKeyFile none = .ok ⟨keyArg kp, none⟩ := by
      simp [formatArgs, hbuild, bind, Except.bind, pure, Except.pure]
    obtain ⟨-, kp', pp', numbers, hkp', hpp', hnumbers, hverify⟩ := formatted_arguments_decide
      sampleCodes.host_lawful (codesLayout sampleCodes) hexCli_faithful hdeploy hdoc hread hcall
    rw [hkey, Option.some.injEq] at hkp'
    rw [hpoints, Option.some.injEq] at hpp'
    have hsignals : publicNumbers [some "1", some "3"] = some [1, 3] := by decide +kernel
    rw [hsignals, Option.some.injEq] at hnumbers
    subst hkp' hpp' hnumbers
    obtain ⟨accepted, hok, haccepted⟩ := hverify ⟨8, 1, 1, 1, 1, 1, 1, fun i => [1, 2, 1].getD i 0⟩
      samplePoints_denoted
    have htrue : accepted = true := haccepted.mpr (by rw [Accepts]; decide +kernel)
    exact ⟨_, _, key, proof, _, rfl, hread, hcall, htrue ▸ hok⟩

end Files
end SealedStellar
