import SealedStellar.StrKey
import SealedStellar.Lib.Checked
import SealedStellar.Lib.Hex
import SealedStellar.Lib.NumberText

/-! The bytes of a Groth16 proof: prover/format-args.js, prover/build-settle-bundle.js and
`parseSettleBundle` of web/src/lib/transactions.ts on one side, `packProof` of
web/src/lib/operator.ts on the other. -/
namespace SealedStellar
open Checked BigIntText BigEndian

def baseFieldModulus : ℤ :=
  21888242871839275222246405745257275088696311157297823662689037894645226208583

/-- web/src/types/snarkjs.d.ts -/
structure Groth16Proof where
  pi_a : List String
  pi_b : List (List String)
  pi_c : List String
  protocol : String
  curve : String

structure ProofArg where
  a : String
  b : String
  c : String

structure ProofBytes where
  a : List UInt8
  b : List UInt8
  c : List UInt8
  deriving DecidableEq

/-- A field of a parsed JSON object; a number is an exact integer. -/
inductive Field where
  | absent
  | null
  | number (n : ℤ)
  | text (s : String)

/-- `Number(field)`; none is NaN. -/
def Field.toNumber : Field → Option ℚ
  | .absent => none
  | .null => some 0
  | .number n => some n
  | .text s => NumberText.parse s.toList

def Field.toText : Field → String
  | .absent => "undefined"
  | .null => "null"
  | .number n => toString n
  | .text s => s

def Field.given : Field → Option String
  | .absent | .null => none
  | field => some field.toText

def Field.string : Field → Option String
  | .text s => some s
  | _ => none

def toInteger (q : Option ℚ) : Option ℤ := q.bind fun q => if q.den = 1 then some q.num else none

structure MetaDocument where
  winnerIndex : Field
  winningPrice : Field
  winnerAddress : Field

structure ProofRecord where
  a : Field
  b : Field
  c : Field

structure BundleRecord where
  auctionId : Field
  winnerIndex : Field
  winningPrice : Field
  winnerAddress : Field
  proof : Option ProofRecord

/-- The pasted text after `JSON.parse`. -/
inductive Pasted where
  | notJson
  | notObject
  | record (r : BundleRecord)

structure PastedBundle where
  auctionId : ℤ
  winnerIndex : ℤ
  winningPrice : ℤ
  winnerAddress : String
  proof : ProofBytes

def toBigEndianHex32 (fieldValue : ℤ) : List Char := (Hex.ofInt fieldValue).leftpad 64 '0'

section FormatArgs

def parseFieldElement (decimalText : Option String) (fieldModulus : ℤ) (label : String) :
    Except String ℤ := do
  let decimalText := decimalText.getD ""
  ensure (decimalText ≠ "") s!"{label}: missing decimal string"
  let parsed ← okOr (parse decimalText) s!"{label}: not a decimal integer: {decimalText}"
  ensure (¬parsed < 0) s!"{label}: negative value rejected"
  ensure (¬parsed ≥ fieldModulus) s!"{label}: value is not below the field modulus"
  return parsed

def FormatArgs.packG1 (coordinates : List String) (label : String) : Except String String := do
  ensure (¬coordinates.length < 2) s!"{label}: expected [x, y, z] decimal array"
  let z := coordinates.getD 2 ""
  ensure (¬(coordinates.length ≥ 3 ∧ z ≠ "1")) s!"{label}: expected affine z == \"1\", got \"{z}\""
  let x ← parseFieldElement coordinates[0]? baseFieldModulus s!"{label}.x"
  let y ← parseFieldElement coordinates[1]? baseFieldModulus s!"{label}.y"
  return String.ofList (toBigEndianHex32 x ++ toBigEndianHex32 y)

def limb (coordinates : List (List String)) (i j : ℕ) : Option String := (coordinates.getD i [])[j]?

/-- snarkjs lists c0 before c1, the host wants c1 before c0. -/
def FormatArgs.packG2 (coordinates : List (List String)) (label : String) : Except String String := do
  ensure (¬coordinates.length < 2) s!"{label}: expected [[x_c0, x_c1], [y_c0, y_c1], z] array"
  ensure (¬(coordinates.length ≥ 3 ∧
    ¬(limb coordinates 2 0 = some "1" ∧ limb coordinates 2 1 = some "0")))
    s!"{label}: expected affine z == [\"1\", \"0\"]"
  let xc0 ← parseFieldElement (limb coordinates 0 0) baseFieldModulus s!"{label}.x.c0"
  let xc1 ← parseFieldElement (limb coordinates 0 1) baseFieldModulus s!"{label}.x.c1"
  let yc0 ← parseFieldElement (limb coordinates 1 0) baseFieldModulus s!"{label}.y.c0"
  let yc1 ← parseFieldElement (limb coordinates 1 1) baseFieldModulus s!"{label}.y.c1"
  return String.ofList (toBigEndianHex32 xc1 ++ toBigEndianHex32 xc0 ++ toBigEndianHex32 yc1 ++
    toBigEndianHex32 yc0)

def buildProofArg (proofJson : Groth16Proof) : Except String ProofArg := do
  let protocol := proofJson.protocol
  let curve := proofJson.curve
  ensure (¬(protocol ≠ "groth16" ∨ curve ≠ "bn128"))
    s!"proof: expected protocol groth16 over bn128, got {protocol} over {curve}"
  let a ← FormatArgs.packG1 proofJson.pi_a "pi_a"
  let b ← FormatArgs.packG2 proofJson.pi_b "pi_b"
  let c ← FormatArgs.packG1 proofJson.pi_c "pi_c"
  return { a := a, b := b, c := c }

end FormatArgs

section Bundle

def isHexText (text : List Char) : Bool :=
  !text.isEmpty && text.all fun c => (digitValue 16 c).isSome

def isHexProofField (value : String) (expectedLength : ℕ) : Bool :=
  value.length = expectedLength ∧ isHexText value.toList

/-- `main` of build-settle-bundle.js on the flag --auction-id and the two files. -/
def buildSettleBundle (auctionIdFlag : String) (proof : Option ProofArg)
    (settleMeta : MetaDocument) : Except String BundleRecord := do
  let auctionId ← okOr (toInteger (NumberText.parse auctionIdFlag.toList))
    "[main] --auction-id must be a positive integer"
  ensure (¬auctionId ≤ 0) "[main] --auction-id must be a positive integer"
  let noProof := "[main] args file has no valid .proof (expected hex a/b/c of 128/256/128 chars). " ++
    "Run format-args.js with --proof and --public first."
  let proof ← okOr proof noProof
  ensure (isHexProofField proof.a 128 ∧ isHexProofField proof.b 256 ∧ isHexProofField proof.c 128)
    noProof
  let winnerIndex ← okOr (toInteger settleMeta.winnerIndex.toNumber)
    "[main] meta file has no valid winnerIndex"
  ensure (¬winnerIndex < 0) "[main] meta file has no valid winnerIndex"
  let winningPrice ← okOr settleMeta.winningPrice.given "[main] meta file has no winningPrice"
  let winnerAddress ← okOr settleMeta.winnerAddress.string
    "[main] meta file has no valid winnerAddress"
  ensure (winnerAddress.toList.head? = some 'G') "[main] meta file has no valid winnerAddress"
  return { auctionId := .number auctionId
           winnerIndex := .number winnerIndex
           winningPrice := .text winningPrice
           winnerAddress := .text winnerAddress
           proof := some ⟨.text proof.a, .text proof.b, .text proof.c⟩ }

end Bundle

section Page

/-- transactions.ts: null unless the text has the length and only hex digits. -/
def Transactions.hexToBytes (hexText : String) (expectedHexLength : ℕ) : Option (List UInt8) :=
  if hexText.length ≠ expectedHexLength ∨ ¬isHexText hexText.toList then none
  else some (Hex.bytesOf hexText.toList)

def pastedRecord (rawText : Pasted) : Except String BundleRecord :=
  match rawText with
  | .notJson =>
    .error "That is not valid JSON. Paste the full bundle from build-settle-bundle.js."
  | .notObject => .error "The bundle must be a JSON object."
  | .record r => .ok r

def parseSettleBundle (strKey : StrKey) (rawText : Pasted) (expectedAuctionId : ℤ) :
    Except String PastedBundle := do
  let record ← pastedRecord rawText
  let bundleAuctionId ← okOr (toInteger record.auctionId.toNumber)
    "The bundle is missing a numeric auctionId."
  ensure (bundleAuctionId = expectedAuctionId)
    s!"This bundle is for auction {bundleAuctionId}, not auction {expectedAuctionId}."
  let winnerIndex ← okOr (toInteger record.winnerIndex.toNumber)
    "The bundle has an invalid winnerIndex."
  ensure (¬winnerIndex < 0) "The bundle has an invalid winnerIndex."
  let winnerAddress ← okOr record.winnerAddress.string "The bundle has an invalid winnerAddress."
  ensure ((strKey.decodeEd25519PublicKey winnerAddress).isSome)
    "The bundle has an invalid winnerAddress."
  let winningPrice ← okOr (parse record.winningPrice.toText)
    "The bundle has an invalid winningPrice."
  ensure (¬winningPrice ≤ 0) "The clearing price must be a positive integer."
  let proofFields ← okOr record.proof "The bundle is missing the proof object."
  let notHex := "The proof fields a/b/c must be hex strings of 128/256/128 characters."
  let proofA ← okOr (proofFields.a.string.bind (Transactions.hexToBytes · 128)) notHex
  let proofB ← okOr (proofFields.b.string.bind (Transactions.hexToBytes · 256)) notHex
  let proofC ← okOr (proofFields.c.string.bind (Transactions.hexToBytes · 128)) notHex
  return { auctionId := bundleAuctionId
           winnerIndex := winnerIndex
           winningPrice := winningPrice
           winnerAddress := winnerAddress
           proof := ⟨proofA, proofB, proofC⟩ }

/-- `BigInt(value)` of an array entry, undefined when there is none. -/
def bigIntAt (value : Option String) : Except String ℤ :=
  match value with
  | none => .error "Cannot convert undefined to a BigInt"
  | some text => okOr (parse text) s!"Cannot convert {text} to a BigInt"

def Operator.packG1 (coordinates : List String) : Except String (List UInt8) := do
  let x ← bigIntAt coordinates[0]?
  let y ← bigIntAt coordinates[1]?
  return Hex.bytesOf (toBigEndianHex32 x ++ toBigEndianHex32 y)

def Operator.packG2 (coordinates : List (List String)) : Except String (List UInt8) := do
  let xc1 ← bigIntAt (limb coordinates 0 1)
  let xc0 ← bigIntAt (limb coordinates 0 0)
  let yc1 ← bigIntAt (limb coordinates 1 1)
  let yc0 ← bigIntAt (limb coordinates 1 0)
  return Hex.bytesOf (toBigEndianHex32 xc1 ++ toBigEndianHex32 xc0 ++ toBigEndianHex32 yc1 ++
    toBigEndianHex32 yc0)

def packProof (proof : Groth16Proof) : Except String ProofBytes := do
  let a ← Operator.packG1 proof.pi_a
  let b ← Operator.packG2 proof.pi_b
  let c ← Operator.packG1 proof.pi_c
  return { a := a, b := b, c := c }

end Page
end SealedStellar
