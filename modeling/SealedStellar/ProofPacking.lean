import SealedStellar.ProofBytes

/-! The two ways a proof takes to the contract end at the same bytes, and these bytes are read
back as the coordinates of the proof. -/
namespace SealedStellar
open Checked BigIntText BigEndian

structure G1Point where
  x : ℤ
  y : ℤ
  deriving DecidableEq

structure Fp2 where
  c0 : ℤ
  c1 : ℤ
  deriving DecidableEq

structure G2Point where
  x : Fp2
  y : Fp2
  deriving DecidableEq

structure ProofPoints where
  a : G1Point
  b : G2Point
  c : G1Point
  deriving DecidableEq

section Coordinates

def g1Point (coordinates : List String) : Option G1Point := do
  let x ← coordinates[0]?.bind parse
  let y ← coordinates[1]?.bind parse
  return ⟨x, y⟩

def g2Point (coordinates : List (List String)) : Option G2Point := do
  let xc0 ← (limb coordinates 0 0).bind parse
  let xc1 ← (limb coordinates 0 1).bind parse
  let yc0 ← (limb coordinates 1 0).bind parse
  let yc1 ← (limb coordinates 1 1).bind parse
  return ⟨⟨xc0, xc1⟩, ⟨yc0, yc1⟩⟩

def proofPoints (proof : Groth16Proof) : Option ProofPoints := do
  let a ← g1Point proof.pi_a
  let b ← g2Point proof.pi_b
  let c ← g1Point proof.pi_c
  return ⟨a, b, c⟩

def word (bytes : List UInt8) (i : ℕ) : ℤ :=
  (((bytes.drop (32 * i)).take 32).foldl (fun acc b => acc * 256 + b.toNat) 0 : ℕ)

/-- The host's layout: be(X) || be(Y). -/
def decodeG1 (bytes : List UInt8) : G1Point := ⟨word bytes 0, word bytes 1⟩

/-- The host's layout: be(X) || be(Y), each coordinate be(c1) || be(c0). -/
def decodeG2 (bytes : List UInt8) : G2Point :=
  ⟨⟨word bytes 1, word bytes 0⟩, ⟨word bytes 3, word bytes 2⟩⟩

def decodeProof (proof : ProofBytes) : ProofPoints :=
  ⟨decodeG1 proof.a, decodeG2 proof.b, decodeG1 proof.c⟩

end Coordinates

section Words

def Reduced (x : ℤ) : Prop := 0 ≤ x ∧ x < baseFieldModulus

def wordBytes (x : ℤ) : List UInt8 := toBytes 32 x.toNat

theorem Reduced.toNat_lt {x : ℤ} (hx : Reduced x) : x.toNat < 256 ^ 32 := by
  have hlt := hx.2
  simp only [baseFieldModulus] at hlt
  have hbound : (21888242871839275222246405745257275088696311157297823662689037894645226208583 : ℕ) <
      256 ^ 32 := by norm_num
  omega

theorem wordBytes_length {x : ℤ} (hx : Reduced x) : (wordBytes x).length = 32 :=
  toBytes_length hx.toNat_lt

theorem toBigEndianHex32_eq {x : ℤ} (hx : Reduced x) :
    toBigEndianHex32 x = Hex.encode (wordBytes x) := by
  have hcast : x = (x.toNat : ℤ) := (Int.toNat_of_nonneg hx.1).symm
  rw [toBigEndianHex32, wordBytes, hcast, Int.toNat_natCast]
  exact Hex.leftpad_ofInt (by norm_num) hx.toNat_lt

theorem wordBytes_value {x : ℤ} (hx : Reduced x) :
    (((wordBytes x).foldl (fun acc b => acc * 256 + b.toNat) 0 : ℕ) : ℤ) = x := by
  rw [wordBytes, foldl_toBytes, Int.toNat_of_nonneg hx.1]

theorem word_zero {x : ℤ} (hx : Reduced x) (rest : List UInt8) : word (wordBytes x ++ rest) 0 = x := by
  rw [word, Nat.mul_zero, List.drop_zero, List.take_left' (wordBytes_length hx), wordBytes_value hx]

theorem word_succ {x : ℤ} (hx : Reduced x) (rest : List UInt8) (i : ℕ) :
    word (wordBytes x ++ rest) (i + 1) = word rest i := by
  have hdrop : (wordBytes x ++ rest).drop (32 * (i + 1)) = rest.drop (32 * i) := by
    rw [Nat.mul_add, Nat.mul_one, Nat.add_comm, ← List.drop_drop, List.drop_left' (wordBytes_length hx)]
  rw [word, hdrop, word]

end Words

section Points

def G1Point.Reduced (p : G1Point) : Prop := SealedStellar.Reduced p.x ∧ SealedStellar.Reduced p.y

def G2Point.Reduced (p : G2Point) : Prop :=
  (SealedStellar.Reduced p.x.c0 ∧ SealedStellar.Reduced p.x.c1) ∧
    SealedStellar.Reduced p.y.c0 ∧ SealedStellar.Reduced p.y.c1

def g1Bytes (p : G1Point) : List UInt8 := wordBytes p.x ++ wordBytes p.y

def g2Bytes (p : G2Point) : List UInt8 :=
  wordBytes p.x.c1 ++ (wordBytes p.x.c0 ++ (wordBytes p.y.c1 ++ wordBytes p.y.c0))

theorem g1Bytes_length {p : G1Point} (hp : p.Reduced) : (g1Bytes p).length = 64 := by
  rw [g1Bytes, List.length_append, wordBytes_length hp.1, wordBytes_length hp.2]

theorem g2Bytes_length {p : G2Point} (hp : p.Reduced) : (g2Bytes p).length = 128 := by
  obtain ⟨⟨hxc0, hxc1⟩, hyc0, hyc1⟩ := hp
  simp only [g2Bytes, List.length_append, wordBytes_length hxc0, wordBytes_length hxc1,
    wordBytes_length hyc0, wordBytes_length hyc1]

theorem decodeG1_g1Bytes {p : G1Point} (hp : p.Reduced) : decodeG1 (g1Bytes p) = p := by
  have hlast := word_zero hp.2 []
  rw [List.append_nil] at hlast
  rw [decodeG1, g1Bytes, word_zero hp.1, word_succ hp.1, hlast]

theorem wordBytes_word {bytes : List UInt8} {i : ℕ} (hlength : 32 * i + 32 ≤ bytes.length) :
    wordBytes (word bytes i) = (bytes.drop (32 * i)).take 32 := by
  have hchunk : ((bytes.drop (32 * i)).take 32).length = 32 := by
    rw [List.length_take, List.length_drop]
    omega
  have hback := toBytes_foldl ((bytes.drop (32 * i)).take 32)
  rw [hchunk] at hback
  rw [wordBytes, word, Int.toNat_natCast, hback]

theorem g1Bytes_decodeG1 {bytes : List UInt8} (hlength : bytes.length = 64) :
    g1Bytes (decodeG1 bytes) = bytes := by
  rw [g1Bytes, decodeG1, wordBytes_word (by omega), wordBytes_word (by omega)]
  have hlast : (bytes.drop 32).take 32 = bytes.drop 32 :=
    List.take_of_length_le (by rw [List.length_drop]; omega)
  simp [hlast]

theorem g2Bytes_decodeG2 {bytes : List UInt8} (hlength : bytes.length = 128) :
    g2Bytes (decodeG2 bytes) = bytes := by
  have hlast : (bytes.drop 96).take 32 = bytes.drop 96 :=
    List.take_of_length_le (by rw [List.length_drop]; omega)
  have hjoin : ∀ i, (bytes.drop i).take 32 ++ bytes.drop (i + 32) = bytes.drop i := by
    intro i
    rw [← List.drop_drop, List.take_append_drop]
  rw [g2Bytes, decodeG2, wordBytes_word (by omega), wordBytes_word (by omega),
    wordBytes_word (by omega), wordBytes_word (by omega)]
  simp only [Nat.reduceMul, hlast, hjoin 64, hjoin 32, List.drop_zero, List.take_append_drop]

theorem decodeG2_g2Bytes {p : G2Point} (hp : p.Reduced) : decodeG2 (g2Bytes p) = p := by
  obtain ⟨⟨hxc0, hxc1⟩, hyc0, hyc1⟩ := hp
  have hlast := word_zero hyc0 []
  rw [List.append_nil] at hlast
  simp only [decodeG2, g2Bytes, word_zero hxc1, word_succ hxc1, word_zero hxc0, word_succ hxc0,
    word_zero hyc1, word_succ hyc1, hlast]

end Points

section Packers

theorem parseFieldElement_eq_ok {text : Option String} {label : String} {x : ℤ} :
    parseFieldElement text baseFieldModulus label = .ok x ↔
      (∃ s, text = some s ∧ s ≠ "") ∧ text.bind parse = some x ∧ Reduced x := by
  simp only [parseFieldElement, bind_eq_ok, ensure_eq_ok, okOr_eq_ok, exists_const, pure_eq_ok,
    not_lt, ge_iff_le, not_le]
  cases text with
  | none => simp
  | some s =>
    constructor
    · rintro ⟨hs, _, hparse, hnonneg, hlt, rfl⟩
      exact ⟨⟨s, rfl, hs⟩, hparse, hnonneg, hlt⟩
    · rintro ⟨⟨_, hs, hne⟩, hparse, hnonneg, hlt⟩
      cases hs
      exact ⟨hne, x, hparse, hnonneg, hlt, rfl⟩

theorem bigIntAt_eq_ok {text : Option String} {x : ℤ} :
    bigIntAt text = .ok x ↔ text.bind parse = some x := by
  cases text with
  | none => simp [bigIntAt]
  | some s => rw [bigIntAt, okOr_eq_ok, Option.bind_some]

theorem packG1_ok {coordinates : List String} {label hex : String}
    (hpack : FormatArgs.packG1 coordinates label = .ok hex) :
    ∃ p : G1Point, g1Point coordinates = some p ∧ p.Reduced ∧
      hex = .ofList (Hex.encode (g1Bytes p)) := by
  simp only [FormatArgs.packG1, bind_eq_ok, pure_eq_ok, parseFieldElement_eq_ok] at hpack
  obtain ⟨_, -, _, -, x, ⟨-, hx, hxr⟩, y, ⟨-, hy, hyr⟩, rfl⟩ := hpack
  refine ⟨⟨x, y⟩, ?_, ⟨hxr, hyr⟩, ?_⟩
  · simp only [g1Point, hx, hy, Option.bind_eq_bind, Option.bind_some, Option.pure_def]
  · rw [toBigEndianHex32_eq hxr, toBigEndianHex32_eq hyr, g1Bytes, Hex.encode_append]

theorem packG2_ok {coordinates : List (List String)} {label hex : String}
    (hpack : FormatArgs.packG2 coordinates label = .ok hex) :
    ∃ p : G2Point, g2Point coordinates = some p ∧ p.Reduced ∧
      hex = .ofList (Hex.encode (g2Bytes p)) := by
  simp only [FormatArgs.packG2, bind_eq_ok, pure_eq_ok, parseFieldElement_eq_ok] at hpack
  obtain ⟨_, -, _, -, xc0, ⟨-, hxc0, hxr0⟩, xc1, ⟨-, hxc1, hxr1⟩, yc0, ⟨-, hyc0, hyr0⟩, yc1,
    ⟨-, hyc1, hyr1⟩, rfl⟩ := hpack
  refine ⟨⟨⟨xc0, xc1⟩, ⟨yc0, yc1⟩⟩, ?_, ⟨⟨hxr0, hxr1⟩, hyr0, hyr1⟩, ?_⟩
  · simp only [g2Point, hxc0, hxc1, hyc0, hyc1, Option.bind_eq_bind, Option.bind_some,
      Option.pure_def]
  · rw [toBigEndianHex32_eq hxr0, toBigEndianHex32_eq hxr1, toBigEndianHex32_eq hyr0,
      toBigEndianHex32_eq hyr1, g2Bytes, Hex.encode_append, Hex.encode_append, Hex.encode_append,
      List.append_assoc, List.append_assoc]

theorem operator_packG1 {coordinates : List String} {p : G1Point}
    (hp : g1Point coordinates = some p) (hr : p.Reduced) :
    Operator.packG1 coordinates = .ok (g1Bytes p) := by
  simp only [g1Point, Option.bind_eq_bind, Option.bind_eq_some_iff, Option.pure_def,
    Option.some.injEq] at hp
  obtain ⟨x, hx, y, hy, rfl⟩ := hp
  simp only [Operator.packG1, bind_eq_ok, bigIntAt_eq_ok, Option.bind_eq_some_iff]
  refine ⟨x, hx, y, hy, ?_⟩
  rw [toBigEndianHex32_eq hr.1, toBigEndianHex32_eq hr.2, ← Hex.encode_append, Hex.bytesOf_encode]
  rfl

theorem operator_packG2 {coordinates : List (List String)} {p : G2Point}
    (hp : g2Point coordinates = some p) (hr : p.Reduced) :
    Operator.packG2 coordinates = .ok (g2Bytes p) := by
  simp only [g2Point, Option.bind_eq_bind, Option.bind_eq_some_iff, Option.pure_def,
    Option.some.injEq] at hp
  obtain ⟨xc0, hxc0, xc1, hxc1, yc0, hyc0, yc1, hyc1, rfl⟩ := hp
  obtain ⟨⟨hxr0, hxr1⟩, hyr0, hyr1⟩ := hr
  simp only [Operator.packG2, bind_eq_ok, bigIntAt_eq_ok, Option.bind_eq_some_iff]
  refine ⟨xc1, hxc1, xc0, hxc0, yc1, hyc1, yc0, hyc0, ?_⟩
  rw [toBigEndianHex32_eq hxr0, toBigEndianHex32_eq hxr1, toBigEndianHex32_eq hyr0,
    toBigEndianHex32_eq hyr1, ← Hex.encode_append, ← Hex.encode_append, ← Hex.encode_append,
    Hex.bytesOf_encode, List.append_assoc, List.append_assoc]
  rfl

end Packers

section Proofs

def ProofPoints.Reduced (p : ProofPoints) : Prop := p.a.Reduced ∧ p.b.Reduced ∧ p.c.Reduced

def proofBytes (p : ProofPoints) : ProofBytes := ⟨g1Bytes p.a, g2Bytes p.b, g1Bytes p.c⟩

def hexOf (bytes : List UInt8) : String := .ofList (Hex.encode bytes)

theorem decodeProof_proofBytes {p : ProofPoints} (hp : p.Reduced) :
    decodeProof (proofBytes p) = p := by
  obtain ⟨ha, hb, hc⟩ := hp
  rw [decodeProof, proofBytes, decodeG1_g1Bytes ha, decodeG2_g2Bytes hb, decodeG1_g1Bytes hc]

theorem buildProofArg_ok {proof : Groth16Proof} {arg : ProofArg}
    (hbuild : buildProofArg proof = .ok arg) :
    ∃ p, proofPoints proof = some p ∧ p.Reduced ∧
      arg = ⟨hexOf (proofBytes p).a, hexOf (proofBytes p).b, hexOf (proofBytes p).c⟩ := by
  simp only [buildProofArg, bind_eq_ok, pure_eq_ok] at hbuild
  obtain ⟨_, -, _, ha, _, hb, _, hc, rfl⟩ := hbuild
  obtain ⟨a, hpa, hra, rfl⟩ := packG1_ok ha
  obtain ⟨b, hpb, hrb, rfl⟩ := packG2_ok hb
  obtain ⟨c, hpc, hrc, rfl⟩ := packG1_ok hc
  refine ⟨⟨a, b, c⟩, ?_, ⟨hra, hrb, hrc⟩, rfl⟩
  simp only [proofPoints, hpa, hpb, hpc, Option.bind_eq_bind, Option.bind_some, Option.pure_def]

theorem packProof_of_points {proof : Groth16Proof} {p : ProofPoints}
    (hp : proofPoints proof = some p) (hr : p.Reduced) : packProof proof = .ok (proofBytes p) := by
  simp only [proofPoints, Option.bind_eq_bind, Option.bind_eq_some_iff, Option.pure_def,
    Option.some.injEq] at hp
  obtain ⟨a, ha, b, hb, c, hc, rfl⟩ := hp
  obtain ⟨hra, hrb, hrc⟩ := hr
  simp only [packProof, bind_eq_ok]
  exact ⟨_, operator_packG1 ha hra, _, operator_packG2 hb hrb, _, operator_packG1 hc hrc, rfl⟩

theorem buildSettleBundle_proof {auctionIdFlag : String} {arg : ProofArg} {settleMeta : MetaDocument}
    {bundle : BundleRecord}
    (hbundle : buildSettleBundle auctionIdFlag (some arg) settleMeta = .ok bundle) :
    bundle.proof = some ⟨.text arg.a, .text arg.b, .text arg.c⟩ := by
  simp only [buildSettleBundle, bind_eq_ok, pure_eq_ok, okOr_eq_ok, Option.some.injEq] at hbundle
  obtain ⟨_, -, _, -, _, rfl, _, -, _, -, _, -, _, -, _, -, _, -, rfl⟩ := hbundle
  rfl

theorem hexToBytes_hexOf {bytes bytes' : List UInt8} {expectedHexLength : ℕ}
    (hbytes : Transactions.hexToBytes (hexOf bytes) expectedHexLength = some bytes') :
    bytes' = bytes := by
  rw [Transactions.hexToBytes] at hbytes
  split at hbytes
  · cases hbytes
  · rw [Option.some.injEq] at hbytes
    rw [← hbytes, hexOf, String.toList_ofList, Hex.bytesOf_encode]

theorem parseSettleBundle_proof {strKey : StrKey} {bundle : BundleRecord} {expectedAuctionId : ℤ}
    {settleBundle : PastedBundle} {b : ProofBytes}
    (hproof : bundle.proof = some ⟨.text (hexOf b.a), .text (hexOf b.b), .text (hexOf b.c)⟩)
    (hparse : parseSettleBundle strKey (.record bundle) expectedAuctionId = .ok settleBundle) :
    settleBundle.proof = b := by
  simp only [parseSettleBundle, pastedRecord, bind_eq_ok, pure_eq_ok, okOr_eq_ok, Except.ok.injEq]
    at hparse
  obtain ⟨_, rfl, _, -, _, -, _, -, _, -, _, -, _, -, _, -, _, -, fields, hfields, proofA, ha, proofB,
    hb, proofC, hc, rfl⟩ := hparse
  rw [hproof, Option.some.injEq] at hfields
  subst hfields
  rw [hexToBytes_hexOf ha, hexToBytes_hexOf hb, hexToBytes_hexOf hc]

theorem proofPoints_of_bytes {proof proof' : Groth16Proof} {arg arg' : ProofArg}
    (hbuild : buildProofArg proof = .ok arg) (hbuild' : buildProofArg proof' = .ok arg')
    (hsame : packProof proof' = packProof proof) : proofPoints proof' = proofPoints proof := by
  obtain ⟨p, hp, hr, -⟩ := buildProofArg_ok hbuild
  obtain ⟨p', hp', hr', -⟩ := buildProofArg_ok hbuild'
  rw [packProof_of_points hp hr, packProof_of_points hp' hr', Except.ok.injEq] at hsame
  rw [hp, hp', ← decodeProof_proofBytes hr, ← decodeProof_proofBytes hr', hsame]

end Proofs

/-- Whatever way an accepted proof takes, the contract gets the same bytes; the host's layout reads
the original coordinates from them; and proofs with the same bytes have the same coordinates. -/
theorem proof_bytes_agree (strKey : StrKey) {proof : Groth16Proof} {arg : ProofArg}
    {auctionIdFlag : String} {settleMeta : MetaDocument} {bundle : BundleRecord}
    {expectedAuctionId : ℤ} {settleBundle : PastedBundle}
    (hbuild : buildProofArg proof = .ok arg)
    (hbundle : buildSettleBundle auctionIdFlag (some arg) settleMeta = .ok bundle)
    (hparse : parseSettleBundle strKey (.record bundle) expectedAuctionId = .ok settleBundle) :
    packProof proof = .ok settleBundle.proof ∧
    (settleBundle.proof.a.length = 64 ∧ settleBundle.proof.b.length = 128 ∧
      settleBundle.proof.c.length = 64) ∧
    proofPoints proof = some (decodeProof settleBundle.proof) ∧
    ∀ proof' arg', buildProofArg proof' = .ok arg' → packProof proof' = packProof proof →
      proofPoints proof' = proofPoints proof := by
  obtain ⟨p, hp, hr, harg⟩ := buildProofArg_ok hbuild
  have hproof := buildSettleBundle_proof hbundle
  rw [harg] at hproof
  have hbytes := parseSettleBundle_proof hproof hparse
  have hlengths := hr
  obtain ⟨hra, hrb, hrc⟩ := hlengths
  rw [hbytes, decodeProof_proofBytes hr]
  exact ⟨packProof_of_points hp hr, ⟨g1Bytes_length hra, g2Bytes_length hrb, g1Bytes_length hrc⟩, hp,
    fun proof' arg' hbuild' hsame => proofPoints_of_bytes hbuild hbuild' hsame⟩

theorem proof_bytes_agree_witness :
    let proof : Groth16Proof := ⟨["1", "2", "1"], [["3", "4"], ["5", "6"], ["1", "0"]],
      ["0x7", "8", "1"], "groth16", "bn128"⟩
    ∃ settleBundle : PastedBundle, packProof proof = .ok settleBundle.proof ∧
      decodeProof settleBundle.proof = ⟨⟨1, 2⟩, ⟨⟨3, 4⟩, ⟨5, 6⟩⟩, ⟨7, 8⟩⟩ := by
  intro proof
  let settleMeta : MetaDocument := ⟨.number 0, .text "5",
    .text (sep23.encode (.account (Vector.replicate 32 3)))⟩
  let run : Except String ((ProofArg × BundleRecord) × PastedBundle) := do
    let arg ← buildProofArg proof
    let bundle ← buildSettleBundle "12" (some arg) settleMeta
    let settleBundle ← parseSettleBundle sep23 (.record bundle) 12
    return ((arg, bundle), settleBundle)
  have hok : run.isOk = true := by decide +kernel
  cases hrun : run with
  | error e =>
    rw [hrun] at hok
    cases hok
  | ok out =>
    simp only [run, bind_eq_ok] at hrun
    obtain ⟨arg, hbuild, bundle, hbundle, settleBundle, hparse, -⟩ := hrun
    obtain ⟨hpack, -, hpoints, -⟩ := proof_bytes_agree sep23 hbuild hbundle hparse
    have hvalue : proofPoints proof = some ⟨⟨1, 2⟩, ⟨⟨3, 4⟩, ⟨5, 6⟩⟩, ⟨7, 8⟩⟩ := by decide +kernel
    rw [hvalue, Option.some.injEq] at hpoints
    exact ⟨settleBundle, hpack, hpoints.symm⟩

end SealedStellar
