import SealedStellar.Host
import SealedStellar.Lib.BigEndian

/-! Sealing and opening a bid: web/src/lib/crypto.ts and `decryptBid` of web/api/reveal.ts. -/
namespace SealedStellar
open BigEndian

structure Nacl where
  publicKey : List UInt8 → List UInt8
  box : (message nonce theirPublicKey mySecretKey : List UInt8) → List UInt8
  boxOpen : (boxBytes nonce theirPublicKey mySecretKey : List UInt8) → Option (List UInt8)

def nonceBytes : ℕ := 24
def ephemeralPubBytes : ℕ := 32
def priceBytes : ℕ := 8
def saltBytes : ℕ := 31

structure Nacl.Lawful (nacl : Nacl) : Prop where
  keyLength : ∀ secretKey, secretKey.length = 32 → (nacl.publicKey secretKey).length = 32
  boxLength : ∀ message nonce theirs mine,
    (nacl.box message nonce theirs mine).length = message.length + 16
  opens : ∀ message nonce sender receiver, nonce.length = nonceBytes → sender.length = 32 →
    receiver.length = 32 → nacl.boxOpen (nacl.box message nonce (nacl.publicKey receiver) sender)
      nonce (nacl.publicKey sender) receiver = some message

variable (nacl : Nacl) (hash : List ℤ → ℤ)

structure SealRandomness where
  salt : List UInt8
  nonce : List UInt8
  ephemeralSecret : List UInt8

structure SealRandomness.WellFormed (r : SealRandomness) : Prop where
  salt : r.salt.length = saltBytes
  nonce : r.nonce.length = nonceBytes
  ephemeralSecret : r.ephemeralSecret.length = 32

structure SealedBidMaterial where
  commitment : ℤ
  encryptedBid : List UInt8

/-- Poseidon3(price, salt, auctionId), and nonce, ephemeral key, box(price 8 BE, salt 31). -/
def sealBid (r : SealRandomness) (priceUnits auctionId : ℕ) (operatorPublicKey : List UInt8) :
    SealedBidMaterial where
  commitment := hash [(priceUnits : ℤ), (fromBeBytes r.salt : ℤ), (auctionId : ℤ)]
  encryptedBid :=
    let plainPayload := toBytes priceBytes (priceUnits % 2 ^ 64) ++ r.salt
    let boxBytes := nacl.box plainPayload r.nonce operatorPublicKey r.ephemeralSecret
    r.nonce ++ (nacl.publicKey r.ephemeralSecret ++ boxBytes)

/-- Price and salt, or none for a bid the secret does not open. -/
def decryptBid (encryptedBid operatorSecretKey : List UInt8) : Option (ℕ × ℕ) :=
  let minimumLength := nonceBytes + ephemeralPubBytes + priceBytes + saltBytes
  if encryptedBid.length < minimumLength then none
  else
    let nonce := encryptedBid.take nonceBytes
    let ephemeralPublicKey := (encryptedBid.drop nonceBytes).take ephemeralPubBytes
    let boxBytes := encryptedBid.drop (nonceBytes + ephemeralPubBytes)
    match nacl.boxOpen boxBytes nonce ephemeralPublicKey operatorSecretKey with
    | none => none
    | some opened =>
      if opened.length ≠ priceBytes + saltBytes then none
      else some (fromBeBytes (opened.take priceBytes), fromBeBytes (opened.drop priceBytes))

theorem decryptBid_eq (encryptedBid operatorSecretKey : List UInt8) :
    decryptBid nacl encryptedBid operatorSecretKey =
      if encryptedBid.length < nonceBytes + ephemeralPubBytes + priceBytes + saltBytes then none
      else match nacl.boxOpen (encryptedBid.drop (nonceBytes + ephemeralPubBytes))
          (encryptedBid.take nonceBytes)
          ((encryptedBid.drop nonceBytes).take ephemeralPubBytes) operatorSecretKey with
        | none => none
        | some opened =>
          if opened.length ≠ priceBytes + saltBytes then none
          else some (fromBeBytes (opened.take priceBytes), fromBeBytes (opened.drop priceBytes)) :=
  rfl

theorem sealBid_layout (r : SealRandomness) (hr : r.WellFormed)
    (hkey : (nacl.publicKey r.ephemeralSecret).length = 32) (price auctionId : ℕ)
    (key : List UInt8) :
    let X := (sealBid nacl hash r price auctionId key).encryptedBid
    X.take nonceBytes = r.nonce ∧
      (X.drop nonceBytes).take ephemeralPubBytes = nacl.publicKey r.ephemeralSecret ∧
      X.drop (nonceBytes + ephemeralPubBytes) =
        nacl.box (toBytes priceBytes (price % 2 ^ 64) ++ r.salt) r.nonce key r.ephemeralSecret := by
  intro X
  have hnonce := hr.nonce
  have hdrop : X.drop nonceBytes = nacl.publicKey r.ephemeralSecret ++
      nacl.box (toBytes priceBytes (price % 2 ^ 64) ++ r.salt) r.nonce key r.ephemeralSecret :=
    List.drop_left' hnonce
  refine ⟨List.take_left' hnonce, ?_, ?_⟩
  · rw [hdrop]
    exact List.take_left' hkey
  · rw [← List.drop_drop, hdrop]
    exact List.drop_left' hkey

/-- The operator reads back exactly what the browser sealed. -/
theorem decryptBid_sealBid (hn : nacl.Lawful) (r : SealRandomness) (hr : r.WellFormed)
    {price : ℕ} (hp : price < 2 ^ 64) (auctionId : ℕ) {secretKey : List UInt8}
    (hsecret : secretKey.length = 32) :
    decryptBid nacl (sealBid nacl hash r price auctionId (nacl.publicKey secretKey)).encryptedBid
      secretKey = some (price, fromBeBytes r.salt) := by
  have hkey := hn.keyLength r.ephemeralSecret hr.ephemeralSecret
  obtain ⟨hnonce, hpub, hbox⟩ :=
    sealBid_layout nacl hash r hr hkey price auctionId (nacl.publicKey secretKey)
  have hprice : price % 2 ^ 64 = price := Nat.mod_eq_of_lt hp
  have hbytes : (toBytes priceBytes price).length = priceBytes :=
    toBytes_length (by simpa [priceBytes] using hp)
  have hpayload : (toBytes priceBytes price ++ r.salt).length = priceBytes + saltBytes := by
    rw [List.length_append, hbytes, hr.salt]
  have hlength : (sealBid nacl hash r price auctionId (nacl.publicKey secretKey)).encryptedBid.length =
      nonceBytes + (ephemeralPubBytes + (priceBytes + saltBytes + 16)) := by
    simp only [sealBid, List.length_append, hr.nonce, hkey, hn.boxLength, hprice, hbytes, hr.salt]
    rfl
  have hlong : ¬(sealBid nacl hash r price auctionId (nacl.publicKey secretKey)).encryptedBid.length <
      nonceBytes + ephemeralPubBytes + priceBytes + saltBytes := by omega
  rw [decryptBid_eq, if_neg hlong, hnonce, hpub, hbox, hprice,
    hn.opens _ _ _ _ hr.nonce hr.ephemeralSecret hsecret]
  simp only [hpayload, ne_eq, not_true_eq_false, if_false, List.take_left' hbytes,
    List.drop_left' hbytes, Option.some.injEq, Prod.mk.injEq, and_true]
  rw [fromBeBytes, foldl_toBytes]

theorem decryptBid_bounds {encryptedBid secretKey : List UInt8} {price salt : ℕ}
    (hopen : decryptBid nacl encryptedBid secretKey = some (price, salt)) :
    price < 2 ^ 64 ∧ salt < 2 ^ 248 := by
  rw [decryptBid_eq] at hopen
  split at hopen
  · cases hopen
  split at hopen
  · cases hopen
  · rename_i opened _
    split at hopen
    · cases hopen
    · rename_i hlen
      have hlen : opened.length = 39 := not_not.mp hlen
      cases hopen
      have hprice := foldl_bytes_lt (opened.take priceBytes)
      have hsalt := foldl_bytes_lt (opened.drop priceBytes)
      rw [List.length_take, hlen] at hprice
      rw [List.length_drop, hlen] at hsalt
      exact ⟨lt_of_lt_of_eq hprice (by norm_num [priceBytes]),
        lt_of_lt_of_eq hsalt (by norm_num [priceBytes])⟩

/-- A stand-in for nacl: the tag of a box is the first half of the receiver's public key. -/
def tagBox : Nacl where
  publicKey secretKey := secretKey.map fun b => b + 1
  box message _ theirPublicKey _ := (theirPublicKey ++ List.replicate 16 0).take 16 ++ message
  boxOpen boxBytes _ _ mySecretKey :=
    if boxBytes.take 16 = ((mySecretKey.map fun b => b + 1) ++ List.replicate 16 0).take 16 then
      some (boxBytes.drop 16) else none

theorem tagBox_lawful : tagBox.Lawful where
  keyLength := fun secretKey hlen => by rw [tagBox, List.length_map, hlen]
  boxLength := fun message nonce theirs mine => by
    simp only [tagBox, List.length_append, List.length_take, List.length_replicate]
    omega
  opens := fun message nonce sender receiver _ _ _ => by
    have htag : ((tagBox.publicKey receiver ++ List.replicate 16 0).take 16).length = 16 := by
      simp only [List.length_append, List.length_take, List.length_replicate]
      omega
    have hopen : tagBox.boxOpen (tagBox.box message nonce (tagBox.publicKey receiver) sender) nonce
        (tagBox.publicKey sender) receiver =
      if ((tagBox.publicKey receiver ++ List.replicate 16 0).take 16 ++ message).take 16 =
          (tagBox.publicKey receiver ++ List.replicate 16 0).take 16 then
        some (((tagBox.publicKey receiver ++ List.replicate 16 0).take 16 ++ message).drop 16)
      else none := rfl
    rw [hopen, List.take_left' htag, List.drop_left' htag, if_pos rfl]

end SealedStellar
