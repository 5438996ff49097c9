import SealedStellar.Store
import SealedStellar.StrKey
import SealedStellar.Lib.Checked

/-! indexer/src/api.ts: the query string of the list API, checked before the store sees it. -/
namespace SealedStellar.Indexer
open Checked

abbrev QueryString := List (String × String)

def QueryString.query (params : QueryString) (name : String) : Option String :=
  (params.find? fun pair => pair.1 = name).map Prod.snd

def QueryString.queries (params : QueryString) (name : String) : List String :=
  (params.filter fun pair => pair.1 = name).map Prod.snd

def defaultLimit : ℕ := 24
def maxLimit : ℕ := 100
def maxSearchLength : ℕ := 64
def maxSymbolLength : ℕ := 24

/-- text.length counts UTF-16 code units. -/
def textLength (text : String) : ℕ := (text.toList.map fun c => if c.toNat < 65536 then 1 else 2).sum

def trim (text : String) : String := .ofList (BigIntText.trim text.toList)

def parseStatusValue (statusValue : String) : Except String AuctionStatus :=
  okOr ([AuctionStatus.Open, .Settled, .Refunded].find? fun status => statusName status = statusValue)
    ("unknown status \"" ++ statusValue ++ "\"; expected Open, Settled, or Refunded")

def parseText (accepts : String → Bool) (detail : String) (raw : Option String) :
    Except String (Option String) :=
  match raw with
  | none => .ok none
  | some text =>
    if trim text = "" then .ok none
    else if accepts text then .ok (some (trim text))
    else .error detail

def parseAssetSymbol : Option String → Except String (Option String) :=
  parseText (fun assetRaw => textLength assetRaw ≤ maxSymbolLength) "assetSymbol is too long"

def parseSearch : Option String → Except String (Option String) :=
  parseText (fun searchRaw => textLength searchRaw ≤ maxSearchLength) "search is too long"

def parseBidder (strKey : StrKey) : Option String → Except String (Option String) :=
  parseText (fun bidderRaw => (strKey.decodeEd25519PublicKey (trim bidderRaw)).isSome)
    "bidder must be a valid Stellar account address"

def sortName : AuctionSort → String
  | .closingSoonest => "closingSoonest"
  | .newest => "newest"
  | .mostBids => "mostBids"

def parseSort (sortRaw : Option String) : Except String AuctionSort :=
  match sortRaw with
  | none => .ok .closingSoonest
  | some text =>
    if text = "" then .ok .closingSoonest
    else okOr ([AuctionSort.closingSoonest, .newest, .mostBids].find? fun sort => sortName sort = text)
      ("unknown sort \"" ++ text ++ "\"; expected closingSoonest, newest, or mostBids")

def parseLimit (limitRaw : Option String) : Except String ℕ :=
  match limitRaw with
  | none => .ok defaultLimit
  | some text =>
    if text = "" then .ok defaultLimit
    else okOr ((NumberText.parse text.toList).bind fun parsedLimit =>
        if parsedLimit.isInt ∧ 1 ≤ parsedLimit ∧ parsedLimit ≤ maxLimit then some parsedLimit.num.toNat
        else none)
      ("limit must be an integer between 1 and " ++ toString maxLimit)

def parseCursor (cursorRaw : Option String) : Except String (Option AuctionCursor) :=
  match cursorRaw with
  | none => .ok none
  | some text =>
    if text = "" then .ok none
    else (okOr (decodeCursor text) "cursor is malformed").map some

/-- An error is the detail of a bad_request. -/
def parseAuctionQuery (strKey : StrKey) (statusValues : List String)
    (assetRaw searchRaw bidderRaw sortRaw limitRaw cursorRaw : Option String) :
    Except String AuctionQuery := do
  let statuses ← statusValues.mapM parseStatusValue
  let assetSymbol ← parseAssetSymbol assetRaw
  let search ← parseSearch searchRaw
  let bidder ← parseBidder strKey bidderRaw
  let sort ← parseSort sortRaw
  let limit ← parseLimit limitRaw
  let cursor ← parseCursor cursorRaw
  return ⟨statuses, assetSymbol, search, bidder, sort, limit, cursor⟩

def readAuctionQuery (strKey : StrKey) (params : QueryString) : Except String AuctionQuery :=
  parseAuctionQuery strKey (params.queries "status") (params.query "assetSymbol")
    (params.query "search") (params.query "bidder") (params.query "sort") (params.query "limit")
    (params.query "cursor")

/-- app.get('/auctions'); an error is the 400 response with its message. -/
def getAuctions (strKey : StrKey) (toLowerCase : String → String) (store : AuctionStore)
    (params : QueryString) : Except String AuctionPage := do
  let auctionQuery ← readAuctionQuery strKey params
  return store.query toLowerCase auctionQuery

section Accepted
variable {strKey : StrKey} {statusValues : List String}
variable {assetRaw searchRaw bidderRaw sortRaw limitRaw cursorRaw : Option String} {q : AuctionQuery}

theorem parseAuctionQuery_eq_ok :
    parseAuctionQuery strKey statusValues assetRaw searchRaw bidderRaw sortRaw limitRaw cursorRaw =
      .ok q ↔
    statusValues.mapM parseStatusValue = .ok q.statuses ∧
    parseAssetSymbol assetRaw = .ok q.assetSymbol ∧
    parseSearch searchRaw = .ok q.search ∧ parseBidder strKey bidderRaw = .ok q.bidder ∧
    parseSort sortRaw = .ok q.sort ∧ parseLimit limitRaw = .ok q.limit ∧
    parseCursor cursorRaw = .ok q.cursor := by
  simp only [parseAuctionQuery, bind_eq_ok, pure_eq_ok]
  constructor
  · rintro ⟨_, h1, _, h2, _, h3, _, h4, _, h5, _, h6, _, h7, rfl⟩
    exact ⟨h1, h2, h3, h4, h5, h6, h7⟩
  · rintro ⟨h1, h2, h3, h4, h5, h6, h7⟩
    exact ⟨_, h1, _, h2, _, h3, _, h4, _, h5, _, h6, _, h7, rfl⟩

theorem parseLimit_range {limit : ℕ} (h : parseLimit limitRaw = .ok limit) :
    1 ≤ limit ∧ limit ≤ maxLimit := by
  have hdefault : (1 : ℕ) ≤ defaultLimit ∧ defaultLimit ≤ maxLimit := by decide
  cases limitRaw with
  | none =>
    cases h
    exact hdefault
  | some text =>
    rw [parseLimit] at h
    by_cases hempty : text = ""
    · rw [if_pos hempty] at h
      cases h
      exact hdefault
    · rw [if_neg hempty, okOr_eq_ok, Option.bind_eq_some_iff] at h
      obtain ⟨parsedLimit, -, h⟩ := h
      split at h
      case isTrue hrange =>
        cases h
        obtain ⟨hint, hlow, hhigh⟩ := hrange
        have hnum : (parsedLimit.num : ℚ) = parsedLimit := Rat.den_eq_one_iff parsedLimit |>.mp (by
          simpa [Rat.isInt] using hint)
        rw [← hnum] at hlow hhigh
        have hlow : (1 : ℤ) ≤ parsedLimit.num := by exact_mod_cast hlow
        have hhigh : parsedLimit.num ≤ (maxLimit : ℤ) := by exact_mod_cast hhigh
        omega
      case isFalse => cases h

def trimmed (raw : Option String) : Option String :=
  raw.bind fun text => if trim text = "" then none else some (trim text)

theorem trimmed_ne {raw : Option String} {text : String} (htext : text ∈ trimmed raw) : text ≠ "" := by
  obtain ⟨rawText, -, hsome⟩ := Option.bind_eq_some_iff.mp htext
  split at hsome
  · cases hsome
  · rename_i hne
    cases hsome
    exact hne

theorem parseText_eq_ok {accepts : String → Bool} {detail : String} {raw result : Option String} :
    parseText accepts detail raw = .ok result ↔
      (∀ text ∈ raw, trim text ≠ "" → accepts text) ∧ result = trimmed raw := by
  cases raw with
  | none => simp [parseText, trimmed, @eq_comm _ result]
  | some text =>
    have htrimmed : trimmed (some text) = if trim text = "" then none else some (trim text) := rfl
    have hmem : (∀ given ∈ some text, trim given ≠ "" → accepts given) ↔
        (trim text ≠ "" → accepts text) := by simp
    rw [parseText, htrimmed, hmem, @eq_comm _ result]
    split_ifs with hblank haccepts
    · rw [Except.ok.injEq]
      exact (and_iff_right fun h => absurd hblank h).symm
    · rw [Except.ok.injEq]
      exact (and_iff_right fun _ => haccepts).symm
    · exact iff_of_false nofun fun h => haccepts (h.1 hblank)

theorem trim_trim (text : String) : trim (trim text) = trim text := by
  rw [trim, trim, String.toList_ofList, BigIntText.trim_trim]

theorem parseStatusValue_statusName (status : AuctionStatus) :
    parseStatusValue (statusName status) = .ok status := by cases status <;> rfl

theorem parseLimit_toString {limit result : ℕ} : parseLimit (some (toString limit)) = .ok result ↔
    (1 ≤ limit ∧ limit ≤ maxLimit) ∧ result = limit := by
  have hne : toString limit ≠ "" := by
    intro he
    exact BigIntText.repr_ne_nil limit (congrArg String.toList he)
  have hparse : NumberText.parse (toString limit).toList = some (limit : ℚ) :=
    NumberText.parse_repr limit
  have hrange : ((limit : ℚ).isInt ∧ (1 : ℚ) ≤ limit ∧ (limit : ℚ) ≤ maxLimit) ↔
      1 ≤ limit ∧ limit ≤ maxLimit := by
    rw [Nat.one_le_cast, Nat.cast_le]
    exact and_iff_right rfl
  rw [parseLimit, if_neg hne, okOr_eq_ok, hparse, Option.bind_some, if_congr hrange rfl rfl]
  by_cases h : 1 ≤ limit ∧ limit ≤ maxLimit
  · simp [h, eq_comm]
  · simp [h]

end Accepted

end SealedStellar.Indexer
