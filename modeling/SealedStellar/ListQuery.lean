import SealedStellar.ListView
import SealedStellar.Pagination

/-! What the indexer reads in the query string that the page builds of a list view, and the pages it
answers. -/
namespace SealedStellar.Web
open Checked Indexer
variable {strKey : StrKey} {toLowerCase : String → String} {store : AuctionStore}
variable {view : AuctionsListView} {connectedAddress cursor : Option String} {limit : ℕ}

section Params

theorem query_append (params params' : QueryString) (name : String) :
    (params ++ params' : QueryString).query name = (params.query name).or (params'.query name) := by
  simp only [QueryString.query, List.find?_append]
  cases params.find? fun pair => decide (pair.1 = name) <;> rfl

theorem queries_append (params params' : QueryString) (name : String) :
    (params ++ params' : QueryString).queries name = params.queries name ++ params'.queries name := by
  simp only [QueryString.queries, List.filter_append, List.map_append]

theorem query_optional (o : Option String) (name name' : String) :
    QueryString.query (o.map fun value => (name, value)).toList name' =
      if name = name' then o else none := by
  cases o with
  | none => simp [QueryString.query]
  | some value =>
    by_cases hname : name = name'
    · simp [QueryString.query, hname]
    · simp [QueryString.query, hname]

theorem query_statuses (statuses : List AuctionStatus) {name : String} (hname : "status" ≠ name) :
    QueryString.query (statuses.map fun status => ("status", statusName status)) name = none := by
  simp [QueryString.query, hname]

def searchParam (view : AuctionsListView) : Option String :=
  if trim view.search ≠ "" then some (trim view.search) else none

def bidderParam (view : AuctionsListView) (connectedAddress : Option String) : Option String :=
  if view.segment = .yours then connectedAddress else none

theorem buildAuctionQuery_eq : buildAuctionQuery view connectedAddress cursor limit =
    (segmentStatus view.segment).map (fun status => ("status", statusName status)) ++
    ((searchParam view).map fun value => ("search", value)).toList ++
    (view.assetSymbol.map fun value => ("assetSymbol", value)).toList ++
    ((bidderParam view connectedAddress).map fun value => ("bidder", value)).toList ++
    ((some (mapSort view.sort)).map fun value => ("sort", value)).toList ++
    ((some (toString limit)).map fun value => ("limit", value)).toList ++
    (cursor.map fun value => ("cursor", value)).toList := by
  rw [buildAuctionQuery, searchParam, bidderParam]
  split_ifs <;> simp

theorem build_query (name : String) (hname : "status" ≠ name) :
    QueryString.query (buildAuctionQuery view connectedAddress cursor limit) name =
      (((((if "search" = name then searchParam view else none).or
        (if "assetSymbol" = name then view.assetSymbol else none)).or
        (if "bidder" = name then bidderParam view connectedAddress else none)).or
        (if "sort" = name then some (mapSort view.sort) else none)).or
        (if "limit" = name then some (toString limit) else none)).or
        (if "cursor" = name then cursor else none) := by
  rw [buildAuctionQuery_eq]
  simp only [query_append, query_optional, query_statuses _ hname, Option.none_or]

theorem build_statuses : QueryString.queries (buildAuctionQuery view connectedAddress cursor limit)
    "status" = (segmentStatus view.segment).map statusName := by
  have hother : ∀ (o : Option String) (name : String), name ≠ "status" →
      QueryString.queries (o.map fun value => (name, value)).toList "status" = [] := by
    intro o name hname
    cases o <;> simp [QueryString.queries, hname]
  have hstatus : QueryString.queries ((segmentStatus view.segment).map
      fun status => ("status", statusName status)) "status" =
      (segmentStatus view.segment).map statusName := by
    simp [QueryString.queries, List.filter_map, Function.comp_def]
  rw [buildAuctionQuery_eq]
  simp only [queries_append, hstatus]
  rw [hother _ "search" (by decide), hother _ "assetSymbol" (by decide), hother _ "bidder" (by decide),
    hother _ "sort" (by decide), hother _ "limit" (by decide), hother _ "cursor" (by decide)]
  simp only [List.append_nil]

end Params

section Accepted

def AccountText (strKey : StrKey) (address : String) : Prop :=
  trim address = address ∧ address ≠ "" ∧ (strKey.decodeEd25519PublicKey address).isSome

structure Accepted (view : AuctionsListView) (limit : ℕ) : Prop where
  limit : 1 ≤ limit ∧ limit ≤ maxLimit
  search : textLength (trim view.search) ≤ maxSearchLength
  assetSymbol : ∀ symbol ∈ view.assetSymbol, trim symbol ≠ "" → textLength symbol ≤ maxSymbolLength

def sortOf : AuctionSort → SealedStellar.AuctionSort
  | .closing => .closingSoonest
  | .newest => .newest
  | .bids => .mostBids

def listQuery (view : AuctionsListView) (connectedAddress : Option String) (limit : ℕ) :
    AuctionQuery where
  statuses := segmentStatus view.segment
  assetSymbol := trimmed view.assetSymbol
  search := searchParam view
  bidder := bidderParam view connectedAddress
  sort := sortOf view.sort
  limit := limit
  cursor := none

theorem parseSearch_param {result : Option String} : parseSearch (searchParam view) = .ok result ↔
    textLength (trim view.search) ≤ maxSearchLength ∧ result = searchParam view := by
  rw [parseSearch, parseText_eq_ok]
  by_cases hblank : trim view.search = ""
  · simp [searchParam, trimmed, hblank, textLength]
  · simp [searchParam, trimmed, hblank, trim_trim]

theorem parseBidder_param (haddress : ∀ address ∈ connectedAddress, AccountText strKey address)
    {result : Option String} : parseBidder strKey (bidderParam view connectedAddress) = .ok result ↔
      result = bidderParam view connectedAddress := by
  have haccount : ∀ address ∈ bidderParam view connectedAddress, AccountText strKey address := by
    intro address ha
    rw [bidderParam] at ha
    split at ha
    · exact haddress address ha
    · exact absurd ha (Option.not_mem_none _)
  rw [parseBidder, parseText_eq_ok]
  cases hparam : bidderParam view connectedAddress with
  | none => simp [trimmed]
  | some address =>
    obtain ⟨htrim, hne, hkey⟩ := haccount address (Option.mem_def.mpr hparam)
    simp [trimmed, htrim, hne, hkey]

theorem parseSort_param {result : SealedStellar.AuctionSort} :
    parseSort (some (mapSort view.sort)) = .ok result ↔ result = sortOf view.sort := by
  have hsort : ∀ sort, parseSort (some (mapSort sort)) = .ok (sortOf sort) := by
    intro sort
    cases sort <;> rfl
  rw [hsort, Except.ok.injEq, eq_comm]

theorem parseStatuses_param {result : List AuctionStatus} :
    ((segmentStatus view.segment).map statusName).mapM parseStatusValue = .ok result ↔
      result = segmentStatus view.segment := by
  have hall : ∀ statuses : List AuctionStatus,
      (statuses.map statusName).mapM parseStatusValue = .ok statuses := by
    intro statuses
    rw [mapM_eq_ok, List.forall₂_map_left_iff]
    exact List.forall₂_same.mpr fun status _ => parseStatusValue_statusName status
  rw [hall, Except.ok.injEq, eq_comm]

theorem readAuctionQuery_build (haddress : ∀ address ∈ connectedAddress, AccountText strKey address)
    {q : AuctionQuery} :
    readAuctionQuery strKey (buildAuctionQuery view connectedAddress cursor limit) = .ok q ↔
      Accepted view limit ∧ parseCursor cursor = .ok q.cursor ∧
        q = { listQuery view connectedAddress limit with cursor := q.cursor } := by
  have hasset : QueryString.query (buildAuctionQuery view connectedAddress cursor limit)
      "assetSymbol" = view.assetSymbol := by simp [build_query]
  have hsearch : QueryString.query (buildAuctionQuery view connectedAddress cursor limit)
      "search" = searchParam view := by simp [build_query]
  have hbidder : QueryString.query (buildAuctionQuery view connectedAddress cursor limit)
      "bidder" = bidderParam view connectedAddress := by simp [build_query]
  have hsort : QueryString.query (buildAuctionQuery view connectedAddress cursor limit)
      "sort" = some (mapSort view.sort) := by simp [build_query]
  have hlimit : QueryString.query (buildAuctionQuery view connectedAddress cursor limit)
      "limit" = some (toString limit) := by simp [build_query]
  have hcursor : QueryString.query (buildAuctionQuery view connectedAddress cursor limit)
      "cursor" = cursor := by simp [build_query]
  rw [readAuctionQuery, build_statuses, hasset, hsearch, hbidder, hsort, hlimit, hcursor,
    parseAuctionQuery_eq_ok, parseStatuses_param, parseSearch_param, parseBidder_param haddress,
    parseSort_param, parseLimit_toString, parseAssetSymbol, parseText_eq_ok]
  obtain ⟨statuses, assetSymbol, search, bidder, sort, limit', cursor'⟩ := q
  simp only [listQuery, AuctionQuery.mk.injEq, decide_eq_true_eq]
  constructor
  · rintro ⟨h1, ⟨ha, h2⟩, ⟨hs, h3⟩, h4, h5, ⟨hl, h6⟩, hc⟩
    exact ⟨⟨hl, hs, ha⟩, hc, h1, h2, h3, h4, h5, h6, trivial⟩
  · rintro ⟨⟨hl, hs, ha⟩, hc, h1, h2, h3, h4, h5, h6, -⟩
    exact ⟨h1, ⟨ha, h2⟩, ⟨hs, h3⟩, h4, h5, ⟨hl, h6⟩, hc⟩

end Accepted

section Walk

theorem parseCursor_some {rawCursor : String} {c : AuctionCursor}
    (hdecode : decodeCursor rawCursor = some c) : parseCursor (some rawCursor) = .ok (some c) := by
  have hne : rawCursor ≠ "" := by
    rintro rfl
    have hempty : decodeCursor "" = none := by decide +kernel
    rw [hempty] at hdecode
    cases hdecode
  rw [parseCursor, if_neg hne, hdecode]
  rfl

theorem query_next {q : AuctionQuery} {rawCursor : String}
    (hnext : (store.query toLowerCase q).nextCursor = some rawCursor) :
    ∃ c, decodeCursor rawCursor = some c := by
  simp only [AuctionStore.query] at hnext
  split at hnext
  · obtain ⟨lastRow, -, he⟩ := Option.map_eq_some_iff.mp hnext
    exact ⟨_, he ▸ decodeCursor_encodeCursor _ _⟩
  · cases hnext

variable (haddress : ∀ address ∈ connectedAddress, AccountText strKey address)
include haddress

theorem fetchAuctionPage_eq_ok {page : IndexerPage} :
    fetchAuctionPage strKey toLowerCase store (buildAuctionQuery view connectedAddress cursor limit) =
      .ok page ↔
    Accepted view limit ∧ ∃ c, parseCursor cursor = .ok c ∧ page = toIndexerPage
      (store.query toLowerCase { listQuery view connectedAddress limit with cursor := c }) := by
  have hfetch : fetchAuctionPage strKey toLowerCase store
      (buildAuctionQuery view connectedAddress cursor limit) = .ok page ↔
      ∃ q, readAuctionQuery strKey (buildAuctionQuery view connectedAddress cursor limit) = .ok q ∧
        toIndexerPage (store.query toLowerCase q) = page := by
    rw [fetchAuctionPage, getAuctions]
    cases readAuctionQuery strKey (buildAuctionQuery view connectedAddress cursor limit) with
    | error e => simp [bind, Except.bind, Except.map]
    | ok q => simp [bind, Except.bind, pure, Except.pure, Except.map]
  rw [hfetch]
  simp only [readAuctionQuery_build haddress]
  constructor
  · rintro ⟨q, ⟨haccepted, hcursor, hq⟩, rfl⟩
    exact ⟨haccepted, q.cursor, hcursor, by rw [← hq]⟩
  · rintro ⟨haccepted, c, hcursor, rfl⟩
    exact ⟨_, ⟨haccepted, hcursor, rfl⟩, rfl⟩

theorem Pages.accepted {pages : List IndexerPage}
    (hp : Pages strKey toLowerCase store view connectedAddress limit cursor pages) :
    Accepted view limit := by
  cases hp with
  | last fetched _ => exact ((fetchAuctionPage_eq_ok haddress).mp fetched).1
  | more fetched _ _ => exact ((fetchAuctionPage_eq_ok haddress).mp fetched).1

/-- The pages that the page fetches are the pages of the query that the API reads. -/
theorem Pages.paged {pages : List IndexerPage} {c : Option AuctionCursor} (i : ℕ)
    (hp : Pages strKey toLowerCase store view connectedAddress limit cursor pages)
    (hcursor : parseCursor cursor = .ok c) :
    ∃ served, Paged toLowerCase (fun _ => store) (listQuery view connectedAddress limit) i c served ∧
      pages = served.map toIndexerPage := by
  induction hp generalizing i c with
  | last fetched final =>
    obtain ⟨-, c', hc, rfl⟩ := (fetchAuctionPage_eq_ok haddress).mp fetched
    rw [hcursor] at hc
    cases hc
    exact ⟨[_], .last rfl final, rfl⟩
  | more fetched continued _ ih =>
    obtain ⟨-, c', hc, rfl⟩ := (fetchAuctionPage_eq_ok haddress).mp fetched
    rw [hcursor] at hc
    cases hc
    obtain ⟨next, hnext⟩ := query_next continued
    obtain ⟨served, hserved, rfl⟩ := ih (i + 1) (parseCursor_some hnext)
    exact ⟨_ :: served, .more rfl continued hnext hserved, rfl⟩

theorem Paged.pages {served : List AuctionPage} {c : Option AuctionCursor} {i : ℕ}
    (haccepted : Accepted view limit) (hcursor : parseCursor cursor = .ok c)
    (hp : Paged toLowerCase (fun _ => store) (listQuery view connectedAddress limit) i c served) :
    Pages strKey toLowerCase store view connectedAddress limit cursor
      (served.map toIndexerPage) := by
  induction hp generalizing cursor with
  | last answer final =>
    subst answer
    exact .last ((fetchAuctionPage_eq_ok haddress).mpr ⟨haccepted, _, hcursor, rfl⟩) final
  | more answer chained decoded _ ih =>
    subst answer
    exact .more ((fetchAuctionPage_eq_ok haddress).mpr ⟨haccepted, _, hcursor, rfl⟩) chained
      (ih (parseCursor_some decoded))

end Walk

end SealedStellar.Web
