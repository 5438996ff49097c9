import SealedStellar.SealedBidCodecs
import SealedStellar.Operator
import SealedStellar.MerkleMembership
import SealedStellar.Lib.Slots

/-! The settlement scripts of prover/: build-whitelist.js, operator-decrypt.js and build-input.js,
with the selection of circuits/test/helpers.js. A thrown exception ends a script as an error does. -/
namespace SealedStellar
open Checked

structure WhitelistMember where
  address : String
  leafDecimal : String

structure WhitelistDocument where
  depth : ℕ
  rootDecimal : String
  members : List WhitelistMember

structure EventBid where
  slotIndex : ℕ
  bidder : String
  commitmentDecimal : String
  encryptedBidHex : String

structure EventsDocument where
  auctionId : String
  bids : List EventBid

structure OpenedBid where
  slotIndex : ℕ
  bidder : String
  commitmentDecimal : String
  priceDecimal : String
  saltDecimal : String

structure DecryptedDocument where
  auctionId : String
  bids : List OpenedBid

structure CircuitInputDocument where
  auctionId : String
  commitments : List String
  winnerIndex : String
  winningPrice : String
  whitelistRoot : String
  winnerAddrHash : String
  bidPrices : List String
  bidSalts : List String
  merklePathElements : List String
  merklePathIndexBits : List String

structure SettleMeta where
  auctionId : String
  winnerIndex : ℤ
  winningPrice : String
  winnerAddress : String

def bidSlotCount : ℕ := 8

section Whitelist
variable (strKey : StrKey) (hash : List ℤ → ℤ)

/-- `addresses.split(',').filter(Boolean)`. -/
def splitAddresses (addresses : String) : List String :=
  ((addresses.toList.splitOn ',').map String.ofList).filter fun memberAddress => memberAddress ≠ ""

def whitelistMember (memberAddress : String) : Except String WhitelistMember := do
  let keyBytes ← okOr (strKey.decodeEd25519PublicKey memberAddress)
    s!"not a valid G address: {memberAddress}"
  let leaf := computeAddressLeaf hash keyBytes
  return { address := memberAddress, leafDecimal := toString leaf }

/-- `main` of build-whitelist.js. -/
def buildWhitelist (addresses : String) : Except String WhitelistDocument := do
  let memberAddresses := splitAddresses addresses
  ensure (memberAddresses.length ≠ 0) "at least one address is required"
  let members ← memberAddresses.mapM (whitelistMember strKey hash)
  let leaves ← members.mapM fun member => toBigInt member.leafDecimal
  let tree ← Helpers.PoseidonMerkleTree.new hash merkleDepth leaves
  return { depth := merkleDepth, rootDecimal := toString tree.root, members := members }

end Whitelist

section Decrypt
variable (nacl : Nacl) (hash : List ℤ → ℤ)

def openEventBid (operatorSecretKey : List UInt8) (auctionId : ℤ) (eventBid : EventBid) :
    Except String OpenedBid := do
  let slotIndex := eventBid.slotIndex
  let bid ← match decryptOneBid nacl eventBid.encryptedBidHex operatorSecretKey with
    | .ok bid => .ok bid
    | .error reason => .error s!"slot {slotIndex}: {reason}"
  let recomputedCommitment := computeBidCommitment hash bid.price bid.saltValue auctionId
  ensure (toString recomputedCommitment = eventBid.commitmentDecimal)
    s!"slot {slotIndex}: decrypted payload does not match the on-chain commitment"
  return {
    slotIndex := slotIndex
    bidder := eventBid.bidder
    commitmentDecimal := eventBid.commitmentDecimal
    priceDecimal := toString bid.price
    saltDecimal := toString bid.saltValue }

/-- `main` of operator-decrypt.js. -/
def operatorDecrypt (secretKeyHex : String) (eventsDocument : EventsDocument) :
    Except String DecryptedDocument := do
  let operatorSecretKey := Hex.decode secretKeyHex.toList
  let auctionId ← toBigInt eventsDocument.auctionId
  let decryptedBids ← eventsDocument.bids.mapM (openEventBid nacl hash operatorSecretKey auctionId)
  return { auctionId := toString auctionId, bids := decryptedBids }

end Decrypt

section BuildInput
variable (hash : List ℤ → ℤ)

/-- circuits/test/helpers.js -/
def Helpers.selectVickreyOutcome (bidPrices : List ℤ) : VickreyOutcome :=
  let winner := bidPrices.zipIdx.foldl higherBid (-1, -1)
  { winnerIndex := winner.1
    winnerPrice := winner.2
    clearingPrice := bidPrices.zipIdx.foldl (otherBid winner.1) 0 }

/-- `paddedPrices[slotIndex] = price`: an index past the end makes the array longer. -/
def assign (paddedPrices : List ℤ) (slotIndex : ℕ) (price : ℤ) : List ℤ :=
  (paddedPrices.rightpad (slotIndex + 1) 0).set slotIndex price

def padPrice (paddedPrices : List ℤ) (bid : OpenedBid) : Except String (List ℤ) := do
  let price ← toBigInt bid.priceDecimal
  return assign paddedPrices bid.slotIndex price

def selectWinner (bids : List OpenedBid) : Except String VickreyOutcome := do
  let paddedPrices ← bids.foldlM padPrice (List.replicate bidSlotCount 0)
  let outcome := Helpers.selectVickreyOutcome paddedPrices
  ensure (¬(outcome.winnerIndex < 0 ∨ outcome.winnerPrice ≤ 0)) "no positive-price bid found"
  ensure (¬outcome.clearingPrice ≤ 0)
    ("fewer than two positive-price bids: the Vickrey clearing price is zero and the auction " ++
      "cannot settle (rule b, refund path)")
  return outcome

def slotTexts (text : OpenedBid → String) (bids : List OpenedBid) : List String :=
  Slots.table OpenedBid.slotIndex bidSlotCount text "0" bids

/-- `main` of build-input.js. -/
def buildInput (decryptedDocument : DecryptedDocument) (whitelistDocument : WhitelistDocument) :
    Except String (CircuitInputDocument × SettleMeta) := do
  let bids := decryptedDocument.bids
  ensure (¬(bids.length = 0 ∨ bids.length > bidSlotCount)) s!"expected 1 to {bidSlotCount} decrypted bids"
  let winner ← selectWinner bids
  let winnerIndex := winner.winnerIndex
  let winnerBid ← okOr (bids.find? fun bid => (bid.slotIndex : ℤ) = winnerIndex)
    "Cannot read properties of undefined (reading 'bidder')"
  let memberIndex ← okOr
    (whitelistDocument.members.findIdx? fun member => member.address = winnerBid.bidder)
    "winner address is not a whitelist member"
  let leaves ← whitelistDocument.members.mapM fun member => toBigInt member.leafDecimal
  let tree ← Helpers.PoseidonMerkleTree.new hash whitelistDocument.depth leaves
  ensure (toString tree.root = whitelistDocument.rootDecimal)
    "rebuilt whitelist root does not match the whitelist file"
  let depth := whitelistDocument.depth
  ensure (depth = merkleDepth)
    s!"whitelist depth {depth} does not match circuit depth {merkleDepth}"
  let winnerPath ← Helpers.PoseidonMerkleTree.pathFor tree memberIndex
  let auctionId ← toBigInt decryptedDocument.auctionId
  let winnerLeaf := whitelistDocument.members[memberIndex]?.map WhitelistMember.leafDecimal
  return (
    { auctionId := toString auctionId
      commitments := slotTexts OpenedBid.commitmentDecimal bids
      winnerIndex := toString winnerIndex
      winningPrice := toString winner.clearingPrice
      whitelistRoot := whitelistDocument.rootDecimal
      winnerAddrHash := winnerLeaf.getD "undefined"
      bidPrices := slotTexts OpenedBid.priceDecimal bids
      bidSalts := slotTexts OpenedBid.saltDecimal bids
      merklePathElements := winnerPath.elements.map fun element => toString element
      merklePathIndexBits := winnerPath.indexBits.map fun indexBit => toString indexBit },
    { auctionId := decryptedDocument.auctionId
      winnerIndex := winnerIndex
      winningPrice := toString winner.clearingPrice
      winnerAddress := winnerBid.bidder })

end BuildInput

def settleFromFiles (strKey : StrKey) (nacl : Nacl) (hash : List ℤ → ℤ) (addresses : String)
    (secretKeyHex : String) (eventsDocument : EventsDocument) :
    Except String (CircuitInputDocument × SettleMeta) := do
  let whitelistDocument ← buildWhitelist strKey hash addresses
  let decryptedDocument ← operatorDecrypt nacl hash secretKeyHex eventsDocument
  buildInput hash decryptedDocument whitelistDocument

def CircuitInputDocument.publicTexts (input : CircuitInputDocument) : List String :=
  input.auctionId :: (input.commitments ++
    [input.winnerIndex, input.winningPrice, input.whitelistRoot, input.winnerAddrHash])

end SealedStellar
