import SealedStellar.SealedBid
import SealedStellar.Auction
import SealedStellar.Lib.Hex

/-! prover/make-bid.js and `decryptOneBid` of prover/operator-decrypt.js beside the codecs of the
page and of the reveal endpoint: one layout, whoever seals and whoever opens. -/
namespace SealedStellar
open BigEndian BigIntText Checked

structure MakeBidOptions where
  price : String
  auctionId : String
  operatorPub : String

structure BidDocument where
  auctionId : String
  priceDecimal : String
  saltDecimal : String
  commitmentDecimal : String
  encryptedBidHex : String

structure DecryptedBid where
  price : ℕ
  saltValue : ℕ
  deriving DecidableEq

/-- `BigInt(text)`, which throws on anything else. -/
def toBigInt (text : String) : Except String ℤ :=
  okOr (parse text) s!"Cannot convert {text} to a BigInt"

def hexText (bytes : List UInt8) : String := .ofList (Hex.encode bytes)

def hexBigInt (bytes : List UInt8) : Except String ℤ :=
  toBigInt (.ofList ('0' :: 'x' :: Hex.encode bytes))

/-- circuits/test/helpers.js -/
def computeBidCommitment (hash : List ℤ → ℤ) (bidPrice bidSalt auctionId : ℤ) : ℤ :=
  hash [bidPrice, bidSalt, auctionId]

section Codecs
variable (nacl : Nacl) (hash : List ℤ → ℤ)

/-- `main` of make-bid.js, up to the file it writes. -/
def makeBid (r : SealRandomness) (options : MakeBidOptions) : Except String BidDocument := do
  let bidPrice ← toBigInt options.price
  ensure (¬(bidPrice ≤ 0 ∨ bidPrice > 0xffffffffffffffff))
    "price must be a positive integer below 2^64"
  let auctionId ← toBigInt options.auctionId
  let operatorPublicKey := Hex.decode options.operatorPub.toList
  ensure (operatorPublicKey.length = ephemeralPubBytes) "operator public key must be 32 hex bytes"
  let saltValue ← hexBigInt r.salt
  let commitment := computeBidCommitment hash bidPrice saltValue auctionId
  let plainPayload := toBytes priceBytes bidPrice.toNat ++ r.salt
  let boxBytes := nacl.box plainPayload r.nonce operatorPublicKey r.ephemeralSecret
  let encryptedBid := r.nonce ++ (nacl.publicKey r.ephemeralSecret ++ boxBytes)
  return {
    auctionId := toString auctionId
    priceDecimal := toString bidPrice
    saltDecimal := toString saltValue
    commitmentDecimal := toString commitment
    encryptedBidHex := hexText encryptedBid }

def decryptOneBid (encryptedBidHex : String) (operatorSecretKey : List UInt8) :
    Except String DecryptedBid := do
  let encryptedBid := Hex.decode encryptedBidHex.toList
  let minimumLength := nonceBytes + ephemeralPubBytes + priceBytes + saltBytes
  ensure (¬encryptedBid.length < minimumLength)
    s!"ciphertext too short: {encryptedBid.length} bytes"
  let nonce := encryptedBid.take nonceBytes
  let ephemeralPublicKey := (encryptedBid.drop nonceBytes).take ephemeralPubBytes
  let boxBytes := encryptedBid.drop (nonceBytes + ephemeralPubBytes)
  let openedBuffer ← okOr (nacl.boxOpen boxBytes nonce ephemeralPublicKey operatorSecretKey)
    "box authentication failed"
  ensure (openedBuffer.length = priceBytes + saltBytes)
    s!"unexpected payload length {openedBuffer.length}"
  let saltValue ← hexBigInt (openedBuffer.drop priceBytes)
  return { price := fromBeBytes (openedBuffer.take priceBytes), saltValue := saltValue.toNat }

end Codecs

section Texts

theorem toBigInt_eq_ok {text : String} {x : ℤ} : toBigInt text = .ok x ↔ parse text = some x :=
  okOr_eq_ok

theorem decode_hexText (bytes : List UInt8) : Hex.decode (hexText bytes).toList = bytes := by
  rw [hexText, String.toList_ofList, Hex.decode_encode]

theorem hexBigInt_bytes {bytes : List UInt8} (hne : bytes ≠ []) :
    hexBigInt bytes = .ok (fromBeBytes bytes : ℤ) := toBigInt_eq_ok.mpr (Hex.parse_encode hne)

end Texts

section Agreement
variable {nacl : Nacl} {hash : List ℤ → ℤ}

structure Opens (nacl : Nacl) (encryptedBid secretKey payload : List UInt8) : Prop where
  long : nonceBytes + ephemeralPubBytes + priceBytes + saltBytes ≤ encryptedBid.length
  opened : nacl.boxOpen (encryptedBid.drop (nonceBytes + ephemeralPubBytes))
    (encryptedBid.take nonceBytes) ((encryptedBid.drop nonceBytes).take ephemeralPubBytes)
    secretKey = some payload
  length : payload.length = priceBytes + saltBytes

theorem decryptBid_eq_some {encryptedBid secretKey : List UInt8} {price salt : ℕ} :
    decryptBid nacl encryptedBid secretKey = some (price, salt) ↔ ∃ payload,
      Opens nacl encryptedBid secretKey payload ∧ price = fromBeBytes (payload.take priceBytes) ∧
        salt = fromBeBytes (payload.drop priceBytes) := by
  rw [decryptBid_eq]
  constructor
  · intro hsome
    split at hsome
    · cases hsome
    · rename_i hlong
      split at hsome
      · cases hsome
      · rename_i payload hopened
        split at hsome
        · cases hsome
        · rename_i hlength
          cases hsome
          exact ⟨payload, ⟨not_lt.mp hlong, hopened, not_not.mp hlength⟩, rfl, rfl⟩
  · rintro ⟨payload, hopens, rfl, rfl⟩
    rw [if_neg (not_lt.mpr hopens.long), hopens.opened]
    simp only [hopens.length, ne_eq, not_true_eq_false, if_false]

theorem drop_ne_nil {payload : List UInt8} (hlength : payload.length = priceBytes + saltBytes) :
    payload.drop priceBytes ≠ [] := by
  rw [← List.length_pos_iff, List.length_drop, hlength]
  decide

/-- The two decoders accept the same ciphertexts and read the same numbers from them. -/
theorem decryptOneBid_eq_ok {encryptedBidHex : String} {secretKey : List UInt8} {bid : DecryptedBid} :
    decryptOneBid nacl encryptedBidHex secretKey = .ok bid ↔
      decryptBid nacl (Hex.decode encryptedBidHex.toList) secretKey =
        some (bid.price, bid.saltValue) := by
  simp only [decryptOneBid, bind_eq_ok, ensure_eq_ok, okOr_eq_ok, pure_eq_ok, decryptBid_eq_some,
    not_lt]
  constructor
  · rintro ⟨_, hlong, payload, hopened, _, hlength, salt, hsalt, rfl⟩
    rw [hexBigInt_bytes (drop_ne_nil hlength)] at hsalt
    cases hsalt
    exact ⟨payload, ⟨hlong, hopened, hlength⟩, rfl, Int.toNat_natCast _⟩
  · rintro ⟨payload, hopens, hprice, hsalt⟩
    refine ⟨(), hopens.long, payload, hopens.opened, (), hopens.length, _,
      hexBigInt_bytes (drop_ne_nil hopens.length), ?_⟩
    rw [← hprice, Int.toNat_natCast, ← hsalt]

theorem payload_reencoded {payload : List UInt8} (hlength : payload.length = priceBytes + saltBytes) :
    toBytes priceBytes (fromBeBytes (payload.take priceBytes)) ++
      toBytes saltBytes (fromBeBytes (payload.drop priceBytes)) = payload := by
  have hprice : (payload.take priceBytes).length = priceBytes := by
    rw [List.length_take, hlength]
    decide
  have hsalt : (payload.drop priceBytes).length = saltBytes := by
    rw [List.length_drop, hlength]
    decide
  have hwrite := toBytes_foldl (payload.take priceBytes)
  have hwrite' := toBytes_foldl (payload.drop priceBytes)
  rw [hprice] at hwrite
  rw [hsalt] at hwrite'
  rw [fromBeBytes, fromBeBytes, hwrite, hwrite', List.take_append_drop]

theorem makeBid_eq {r : SealRandomness} (hr : r.WellFormed) {options : MakeBidOptions}
    {price auctionId : ℕ} (hpos : 1 ≤ price) (hlt : price < 2 ^ 64)
    (hprice : parse options.price = some (price : ℤ))
    (hauction : parse options.auctionId = some (auctionId : ℤ))
    (hkey : (Hex.decode options.operatorPub.toList).length = ephemeralPubBytes) :
    let material := sealBid nacl hash r price auctionId (Hex.decode options.operatorPub.toList)
    makeBid nacl hash r options = .ok
      { auctionId := toString (auctionId : ℤ)
        priceDecimal := toString (price : ℤ)
        saltDecimal := toString (fromBeBytes r.salt : ℤ)
        commitmentDecimal := toString material.commitment
        encryptedBidHex := hexText material.encryptedBid } := by
  have hrange : ¬((price : ℤ) ≤ 0 ∨ (price : ℤ) > 0xffffffffffffffff) := by omega
  have hsalt : r.salt ≠ [] := by
    rw [← List.length_pos_iff, hr.salt]
    decide
  have hmod : price % 2 ^ 64 = price := Nat.mod_eq_of_lt hlt
  simp only [makeBid, sealBid, bind_eq_ok, toBigInt_eq_ok, ensure_eq_ok, hmod]
  exact ⟨_, hprice, (), hrange, _, hauction, (), hkey, _, hexBigInt_bytes hsalt, rfl⟩

end Agreement

/-- What the auction needs of a sealed bid: both operators open it to its price and salt, they find
its commitment again, and the contract takes it. -/
structure Delivers (nacl : Nacl) (hash : List ℤ → ℤ) (secretKey : List UInt8)
    (price auctionId : ℕ) (salt : List UInt8) (commitment : ℤ) (encryptedBid : List UInt8) : Prop where
  revealed : decryptBid nacl encryptedBid secretKey = some (price, fromBeBytes salt)
  decrypted : ∀ encryptedBidHex : String, Hex.decode encryptedBidHex.toList = encryptedBid →
    decryptOneBid nacl encryptedBidHex secretKey = .ok ⟨price, fromBeBytes salt⟩
  published : computeBidCommitment hash price (fromBeBytes salt) auctionId = commitment
  inField : price < fieldOrder ∧ fromBeBytes salt < fieldOrder
  taken : encryptedBid.length ≤ maxEncryptedBidBytes

section RoundTrip
variable {nacl : Nacl} (hash : List ℤ → ℤ)

theorem sealBid_delivers (hn : nacl.Lawful) {r : SealRandomness} (hr : r.WellFormed) {price : ℕ}
    (hlt : price < 2 ^ 64) (auctionId : ℕ) {secretKey : List UInt8} (hsecret : secretKey.length = 32) :
    let material := sealBid nacl hash r price auctionId (nacl.publicKey secretKey)
    Delivers nacl hash secretKey price auctionId r.salt material.commitment material.encryptedBid := by
  intro material
  have hopen := decryptBid_sealBid nacl hash hn r hr hlt auctionId hsecret
  obtain ⟨hprice, hsalt⟩ := decryptBid_bounds nacl hopen
  have hkey := hn.keyLength r.ephemeralSecret hr.ephemeralSecret
  have hbytes : (toBytes priceBytes price).length = priceBytes := toBytes_length hprice
  have hlength : material.encryptedBid.length = 111 := by
    simp only [material, sealBid, List.length_append, hr.nonce, hkey, hn.boxLength,
      Nat.mod_eq_of_lt hlt, hbytes, hr.salt]
    rfl
  exact {
    revealed := hopen
    decrypted := by
      intro encryptedBidHex hhex
      rw [decryptOneBid_eq_ok, hhex]
      exact hopen
    published := rfl
    inField := ⟨hprice.trans (by norm_num), hsalt.trans (by norm_num)⟩
    taken := by
      rw [hlength]
      decide }

/-- Whoever seals a bid, both operators open it to the same price and salt; and they accept exactly
the ciphertexts that open to a payload some encoder could have written. -/
theorem sealing_round_trip (nacl : Nacl) (hn : nacl.Lawful) (hash : List ℤ → ℤ)
    (secretKey : List UInt8) (hsecret : secretKey.length = 32) :
    (∀ (r : SealRandomness) (price auctionId : ℕ), r.WellFormed → 1 ≤ price → price < 2 ^ 64 →
      let material := sealBid nacl hash r price auctionId (nacl.publicKey secretKey)
      Delivers nacl hash secretKey price auctionId r.salt material.commitment
        material.encryptedBid ∧
      ∀ options : MakeBidOptions, parse options.price = some (price : ℤ) →
        parse options.auctionId = some (auctionId : ℤ) →
        Hex.decode options.operatorPub.toList = nacl.publicKey secretKey →
        ∃ document commitment encryptedBid, makeBid nacl hash r options = .ok document ∧
          document.commitmentDecimal = toString commitment ∧
          document.encryptedBidHex = hexText encryptedBid ∧
          Delivers nacl hash secretKey price auctionId r.salt commitment encryptedBid) ∧
    ∀ encryptedBidHex : String,
      (∀ payload, Opens nacl (Hex.decode encryptedBidHex.toList) secretKey payload →
        ∃ price salt, decryptBid nacl (Hex.decode encryptedBidHex.toList) secretKey =
            some (price, salt) ∧
          decryptOneBid nacl encryptedBidHex secretKey = .ok ⟨price, salt⟩ ∧
          toBytes priceBytes price ++ toBytes saltBytes salt = payload) ∧
      ((∀ payload, ¬Opens nacl (Hex.decode encryptedBidHex.toList) secretKey payload) →
        decryptBid nacl (Hex.decode encryptedBidHex.toList) secretKey = none ∧
        ∃ reason, decryptOneBid nacl encryptedBidHex secretKey = .error reason) := by
  refine ⟨fun r price auctionId hr hpos hlt => ?_, fun encryptedBidHex => ⟨fun payload hopens => ?_,
    fun hnone => ?_⟩⟩
  · have hdelivers := sealBid_delivers hash hn hr hlt auctionId hsecret
    refine ⟨hdelivers, fun options hprice hauction hkey => ?_⟩
    have hlength : (Hex.decode options.operatorPub.toList).length = ephemeralPubBytes := by
      rw [hkey, hn.keyLength secretKey hsecret]
      rfl
    have hmake : makeBid nacl hash r options = .ok _ :=
      makeBid_eq hr hpos hlt hprice hauction hlength
    rw [hkey] at hmake
    exact ⟨_, _, _, hmake, rfl, rfl, hdelivers⟩
  · have hreveal := decryptBid_eq_some.mpr ⟨payload, hopens, rfl, rfl⟩
    exact ⟨_, _, hreveal, decryptOneBid_eq_ok.mpr hreveal, payload_reencoded hopens.length⟩
  · have hreveal : decryptBid nacl (Hex.decode encryptedBidHex.toList) secretKey = none := by
      cases hbid : decryptBid nacl (Hex.decode encryptedBidHex.toList) secretKey with
      | none => rfl
      | some bid =>
        obtain ⟨payload, hopens, -⟩ := decryptBid_eq_some.mp hbid
        exact absurd hopens (hnone payload)
    refine ⟨hreveal, ?_⟩
    cases hbid : decryptOneBid nacl encryptedBidHex secretKey with
    | error reason => exact ⟨reason, rfl⟩
    | ok bid =>
      rw [decryptOneBid_eq_ok, hreveal] at hbid
      cases hbid

/-- A bid of 5 that make-bid seals for auction 1 under a salt that starts with a zero byte. -/
theorem sealing_round_trip_witness :
    let secretKey : List UInt8 := List.replicate 32 7
    let r : SealRandomness :=
      ⟨0 :: List.replicate 30 3, List.replicate 24 4, List.replicate 32 6⟩
    let options : MakeBidOptions := ⟨"5", "1", hexText (tagBox.publicKey secretKey)⟩
    ∃ document encryptedBid, makeBid tagBox (fun inputs => inputs.headD 0) r options = .ok document ∧
      document.commitmentDecimal = "5" ∧ document.encryptedBidHex = hexText encryptedBid ∧
      decryptBid tagBox encryptedBid secretKey = some (5, fromBeBytes r.salt) := by
  intro secretKey r options
  have hr : r.WellFormed := ⟨by decide, by decide, by decide⟩
  obtain ⟨hseal, -⟩ := sealing_round_trip tagBox tagBox_lawful (fun inputs => inputs.headD 0)
    secretKey (by decide)
  obtain ⟨-, hmake⟩ := hseal r 5 1 hr (by decide) (by decide)
  obtain ⟨document, commitment, encryptedBid, hdocument, hcommitment, hhex, hdelivers⟩ :=
    hmake options (parse_toString 5) (parse_toString 1) (decode_hexText _)
  have hfive : commitment = 5 := hdelivers.published.symm
  exact ⟨document, encryptedBid, hdocument, by rw [hcommitment, hfive]; rfl, hhex, hdelivers.revealed⟩

end RoundTrip
end SealedStellar
