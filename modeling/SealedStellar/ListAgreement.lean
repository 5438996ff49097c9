import SealedStellar.ListQuery
import SealedStellar.QueryFilter

/-! The two data paths of the auctions list: the pages of the indexer, and the selection from the
auctions on chain. -/
namespace SealedStellar.Web
open Indexer

section Mirror

structure RowOf (view : AuctionView) (row : AuctionDbRow) : Prop where
  id : row.id = view.id
  seller : row.seller = view.seller
  rwaToken : row.rwaToken = view.rwaToken
  lotSymbol : row.lotSymbol = view.lotSymbol
  lotAmount : row.lotAmount = toString view.lotAmount
  paymentToken : row.paymentToken = view.paymentToken
  paymentSymbol : row.paymentSymbol = view.paymentSymbol
  maxPrice : row.maxPrice = toString view.maxPrice
  commitDeadline : row.commitDeadline = view.commitDeadlineSeconds
  gracePeriod : row.gracePeriod = view.gracePeriodSeconds
  status : row.status = statusName view.status
  filledSlots : row.filledSlots = view.bids.length
  lotReclaimed : row.lotReclaimed = if view.lotReclaimed then 1 else 0

structure Mirrors (auctions : List AuctionView) (store : AuctionStore) : Prop where
  distinct : (auctions.map AuctionView.id).Nodup
  slots : ∀ view ∈ auctions, view.bids.length ≤ maxBidSlots
  view : ∀ row ∈ store.auctions.rows, ∃ view ∈ auctions, RowOf view row
  row : ∀ view ∈ auctions, ∃ row ∈ store.auctions.rows, RowOf view row
  bids : ∀ view ∈ auctions, ∀ bidder, (∃ bid ∈ store.bids.rows, bid.auctionId = view.id ∧
    bid.bidder = bidder) ↔ ∃ bid ∈ view.bids, bid.bidder = bidder

def listed (view : AuctionView) : AuctionView :=
  { view with bids := placeholderBids view.bids.length, operatorEncPubkey := [], whitelistRoot := 0 }

variable {view : AuctionView} {row : AuctionDbRow}

theorem RowOf.listed (h : RowOf view row) : rowToView (toListRow row) = Web.listed view := by
  have hamount : ∀ n : ℤ, parseBigIntOrZero (toString n) = n := by
    intro n
    rw [parseBigIntOrZero, BigIntText.parse_toString, Option.getD_some]
  have hreclaimed : ((if view.lotReclaimed then 1 else 0 : ℕ) == 1) = view.lotReclaimed := by
    cases view.lotReclaimed <;> rfl
  simp only [rowToView, toListRow, Web.listed, h.id, h.seller, h.rwaToken, h.lotSymbol, h.lotAmount,
    h.paymentToken, h.paymentSymbol, h.maxPrice, h.commitDeadline, h.gracePeriod, h.status,
    h.filledSlots, h.lotReclaimed, hamount, hreclaimed, parseStatus_statusName]

end Mirror

section Order
variable (sort : AuctionSort)

def viewKey (view : AuctionView) : ℤ ×ₗ ℤ :=
  match sort with
  | .bids => toLex (-(countFilledSlots view : ℤ), -(view.id : ℤ))
  | .newest | .closing => toLex (0, -(view.id : ℤ))

theorem compareForSort_iff {sort : AuctionSort} (hsort : sort = .newest ∨ sort = .bids)
    (nowSeconds : ℕ) (a b : AuctionView) :
    compareForSort sort nowSeconds a b ≤ 0 ↔ viewKey sort a ≤ viewKey sort b := by
  cases hsort with
  | inl h =>
    subst h
    simp only [compareForSort, viewKey, Prod.Lex.toLex_le_toLex, lt_irrefl, true_and, false_or]
    omega
  | inr h =>
    subst h
    simp only [compareForSort, viewKey, Prod.Lex.toLex_le_toLex]
    split <;> omega

theorem viewKey_listed (view : AuctionView) : viewKey sort (listed view) = viewKey sort view := by
  have hslots : countFilledSlots (listed view) = countFilledSlots view := by
    simp [countFilledSlots, listed, placeholderBids]
  cases sort <;> simp only [viewKey, hslots] <;> rfl

theorem RowOf.orderKey {view : AuctionView} {row : AuctionDbRow} (h : RowOf view row)
    (hslots : view.bids.length ≤ maxBidSlots) {sort : AuctionSort}
    (hsort : sort = .newest ∨ sort = .bids) : orderKey (sortOf sort) row = viewKey sort view := by
  have hfilled : countFilledSlots view = row.filledSlots := by
    rw [countFilledSlots, h.filledSlots, Nat.min_eq_left hslots]
  cases hsort with
  | inl hs => simp [hs, sortOf, SealedStellar.orderKey, viewKey, h.id]
  | inr hs => simp [hs, sortOf, SealedStellar.orderKey, viewKey, h.id, hfilled]

end Order

section Selection
variable (toLowerCase : String → String) (view : AuctionsListView) (connectedAddress : Option String)

def sqlText (auction : AuctionView) : Prop :=
  (∀ symbol ∈ trimmed view.assetSymbol, lower auction.lotSymbol = toLowerCase symbol ∨
    lower auction.paymentSymbol = toLowerCase symbol) ∧
  ∀ search ∈ searchParam view, toString auction.id = search ∨
    Matches toLowerCase search auction.lotSymbol ∨ Matches toLowerCase search auction.paymentSymbol

def pageText (auction : AuctionView) : Prop :=
  matchesSearch toLowerCase auction view.search ∧ matchesAssetChip toLowerCase auction view.assetSymbol

def segmentSelected (auction : AuctionView) : Prop :=
  (view.segment = .settled → auction.status ≠ .Open) ∧
  ∀ address ∈ bidderParam view connectedAddress, ∃ bid ∈ auction.bids, bid.bidder = address

variable {toLowerCase view connectedAddress} {store : AuctionStore} {auctions : List AuctionView}
variable {auction : AuctionView} {row : AuctionDbRow} {nowSeconds : ℕ}
variable (hsegment : view.segment = .all ∨ view.segment = .settled ∨ view.segment = .yours)
include hsegment

theorem statuses_selected (limit : ℕ) (h : RowOf auction row) :
    (0 < (listQuery view connectedAddress limit).statuses.length ∧
      (listQuery view connectedAddress limit).statuses.length < 3 →
      statusCondition (listQuery view connectedAddress limit) row) ↔
      (view.segment = .settled → auction.status ≠ .Open) := by
  rw [statusCondition_iff ⟨auction.status, h.status⟩, h.status, parseStatus_statusName, listQuery]
  obtain hs | hs | hs := hsegment
  · simp [hs, segmentStatus]
  · cases hstatus : auction.status <;> simp [hs, segmentStatus]
  · simp [hs, segmentStatus]

theorem conditions_selected (limit : ℕ) (hmirror : Mirrors auctions store)
    (hauction : auction ∈ auctions) (h : RowOf auction row) :
    ((store.conditions toLowerCase (listQuery view connectedAddress limit)).all
      fun condition => condition row) ↔
      segmentSelected view connectedAddress auction ∧ sqlText toLowerCase view auction := by
  have hassets : (∀ a ∈ trimmed view.assetSymbol, assetCondition toLowerCase a row) ↔
      ∀ symbol ∈ trimmed view.assetSymbol, lower auction.lotSymbol = toLowerCase symbol ∨
        lower auction.paymentSymbol = toLowerCase symbol := by
    simp only [assetCondition_iff, h.lotSymbol, h.paymentSymbol]
  have hsearch : (∀ s ∈ (listQuery view connectedAddress limit).search,
      searchCondition toLowerCase s row) ↔
      ∀ search ∈ searchParam view, toString auction.id = search ∨
        Matches toLowerCase search auction.lotSymbol ∨
        Matches toLowerCase search auction.paymentSymbol := by
    simp only [listQuery, searchCondition_iff, h.lotSymbol, h.paymentSymbol, h.id]
  have hbidder : (∀ b ∈ bidderParam view connectedAddress, store.bidderCondition b row) ↔
      ∀ address ∈ bidderParam view connectedAddress, ∃ bid ∈ auction.bids, bid.bidder = address := by
    simp only [bidderCondition_iff, h.id, hmirror.bids auction hauction]
  rw [conditions_iff, segmentSelected, sqlText, ← hassets, ← hsearch, ← hbidder,
    ← @statuses_selected view connectedAddress auction row hsegment limit h]
  constructor
  · rintro ⟨hs, ha, ht, hb⟩
    exact ⟨⟨hs, hb⟩, ha, ht⟩
  · rintro ⟨⟨hs, hb⟩, ha, ht⟩
    exact ⟨hs, ha, ht, hb⟩

theorem matchesSegment_iff : matchesSegment auction view.segment nowSeconds connectedAddress ↔
    segmentSelected view connectedAddress auction ∧
      (view.segment = .yours → connectedAddress ≠ none) := by
  obtain hs | hs | hs := hsegment
  · simp [hs, matchesSegment, segmentSelected, bidderParam]
  · cases hstatus : auction.status with
    | Open =>
      by_cases hnow : nowSeconds < auction.commitDeadlineSeconds <;>
        simp [hs, matchesSegment, segmentSelected, bidderParam, deriveAuctionTone, hstatus, hnow]
    | Settled => simp [hs, matchesSegment, segmentSelected, bidderParam, deriveAuctionTone, hstatus]
    | Refunded => simp [hs, matchesSegment, segmentSelected, bidderParam, deriveAuctionTone, hstatus]
  · cases connectedAddress with
    | none => simp [hs, matchesSegment]
    | some address => simp [hs, matchesSegment, segmentSelected, bidderParam]

end Selection

section Lists
variable {toLowerCase : String → String} {view : AuctionsListView} {connectedAddress : Option String}
variable {store : AuctionStore} {auctions : List AuctionView} {limit nowSeconds : ℕ}

theorem listed_inj (hmirror : Mirrors auctions store) {a b : AuctionView} (ha : a ∈ auctions)
    (hb : b ∈ auctions) (he : listed a = listed b) : a = b := by
  have hid : (listed a).id = (listed b).id := congrArg AuctionView.id he
  exact List.inj_on_of_nodup_map hmirror.distinct ha hb hid

theorem mem_matching (hsegment : view.segment = .all ∨ view.segment = .settled ∨ view.segment = .yours)
    (limit : ℕ) (hmirror : Mirrors auctions store) (x : AuctionView) :
    (∃ row ∈ store.matching toLowerCase (listQuery view connectedAddress limit),
      rowToView (toListRow row) = x) ↔
    ∃ auction ∈ auctions, (segmentSelected view connectedAddress auction ∧
      sqlText toLowerCase view auction) ∧ listed auction = x := by
  constructor
  · rintro ⟨row, hrow, rfl⟩
    obtain ⟨hmem, hall⟩ := List.mem_filter.mp hrow
    obtain ⟨auction, hauction, h⟩ := hmirror.view row hmem
    exact ⟨auction, hauction, (conditions_selected hsegment limit hmirror hauction h).mp hall,
      h.listed.symm⟩
  · rintro ⟨auction, hauction, hselected, rfl⟩
    obtain ⟨row, hrow, h⟩ := hmirror.row auction hauction
    have hall := (conditions_selected hsegment limit hmirror hauction h).mpr hselected
    exact ⟨row, List.mem_filter.mpr ⟨hrow, hall⟩, h.listed⟩

theorem mem_visible (x : AuctionView) :
    x ∈ (selectVisibleAuctions toLowerCase auctions view nowSeconds connectedAddress).map listed ↔
    ∃ auction ∈ auctions, (matchesSegment auction view.segment nowSeconds connectedAddress ∧
      pageText toLowerCase view auction) ∧ listed auction = x := by
  simp only [selectVisibleAuctions, List.mem_map, List.mem_insertionSort, List.mem_filter,
    Bool.and_eq_true, pageText, and_assoc]

theorem visible_sorted (hsort : view.sort = .newest ∨ view.sort = .bids)
    (hmirror : Mirrors auctions store) :
    ((selectVisibleAuctions toLowerCase auctions view nowSeconds connectedAddress).map
      listed).Pairwise fun a b => viewKey view.sort a < viewKey view.sort b := by
  have hkeyed : ∀ l : List AuctionView, (l.map AuctionView.id).Nodup →
      (l.map (viewKey view.sort)).Nodup := by
    intro l hl
    refine List.pairwise_map.mpr ((List.pairwise_map.mp hl).imp fun {a b} hne he => hne ?_)
    obtain hs | hs := hsort <;> simp only [hs, viewKey, toLex_inj, Prod.mk.injEq] at he <;> omega
  have hsorted : selectVisibleAuctions toLowerCase auctions view nowSeconds connectedAddress =
      Keyset.sorted (viewKey view.sort) (auctions.filter fun auction =>
        matchesSegment auction view.segment nowSeconds connectedAddress &&
          matchesSearch toLowerCase auction view.search &&
          matchesAssetChip toLowerCase auction view.assetSymbol) := by
    simp only [selectVisibleAuctions, Keyset.sorted, compareForSort_iff hsort]
  rw [hsorted, List.pairwise_map]
  simp only [viewKey_listed]
  exact Keyset.pairwise_sorted (hkeyed _ (hmirror.distinct.sublist (List.filter_sublist.map _)))

theorem found_sorted (hsort : view.sort = .newest ∨ view.sort = .bids)
    (hmirror : Mirrors auctions store) {found : List AuctionDbRow} (hrows : found ⊆ store.auctions.rows)
    (hids : (found.map AuctionDbRow.id).Nodup)
    (hordered : found.Pairwise fun a b => inOrder (planOrder (sortOf view.sort) none).orderBy a b) :
    (found.map fun row => rowToView (toListRow row)).Pairwise
      fun a b => viewKey view.sort a < viewKey view.sort b := by
  have hkey : ∀ row ∈ found, viewKey view.sort (rowToView (toListRow row)) =
      orderKey (sortOf view.sort) row := by
    intro row hrow
    obtain ⟨auction, hauction, h⟩ := hmirror.view row (hrows hrow)
    rw [h.listed, viewKey_listed, h.orderKey (hmirror.slots auction hauction) hsort]
  have hne := List.pairwise_map.mp (orderKey_keyed (sortOf view.sort) found hids)
  rw [List.pairwise_map]
  refine (hordered.and hne).imp_of_mem fun {a b} ha hb h => ?_
  rw [hkey a ha, hkey b hb]
  exact lt_of_le_of_ne ((inOrder_iff _ none a b).mp h.1) h.2

/-- Both lists are in the same order, so they agree when they hold the same auctions. -/
theorem lists_eq_iff (hsegment : view.segment = .all ∨ view.segment = .settled ∨ view.segment = .yours)
    (hsort : view.sort = .newest ∨ view.sort = .bids) (hmirror : Mirrors auctions store)
    {found : List AuctionDbRow}
    (hperm : found.Perm (store.matching toLowerCase (listQuery view connectedAddress limit)))
    (hordered : found.Pairwise fun a b => inOrder (planOrder (sortOf view.sort) none).orderBy a b) :
    (found.map fun row => rowToView (toListRow row)) =
      (selectVisibleAuctions toLowerCase auctions view nowSeconds connectedAddress).map listed ↔
    ∀ auction ∈ auctions,
      (segmentSelected view connectedAddress auction ∧ sqlText toLowerCase view auction ↔
        matchesSegment auction view.segment nowSeconds connectedAddress ∧
          pageText toLowerCase view auction) := by
  have hfound : ∀ x, x ∈ (found.map fun row => rowToView (toListRow row)) ↔
      ∃ auction ∈ auctions, (segmentSelected view connectedAddress auction ∧
        sqlText toLowerCase view auction) ∧ listed auction = x := by
    intro x
    rw [List.mem_map, ← mem_matching hsegment limit hmirror]
    simp only [hperm.mem_iff]
  have hvisible := @mem_visible toLowerCase view connectedAddress auctions nowSeconds
  have hone : ∀ (P : AuctionView → Prop) (auction : AuctionView), auction ∈ auctions →
      ((∃ a ∈ auctions, P a ∧ listed a = listed auction) ↔ P auction) := by
    intro P auction hauction
    constructor
    · rintro ⟨a, ha, hP, he⟩
      exact listed_inj hmirror ha hauction he ▸ hP
    · exact fun hP => ⟨auction, hauction, hP, rfl⟩
  constructor
  · intro he auction hauction
    have hsql := hone (fun a => segmentSelected view connectedAddress a ∧ sqlText toLowerCase view a)
      auction hauction
    have hpage := hone (fun a => matchesSegment a view.segment nowSeconds connectedAddress ∧
      pageText toLowerCase view a) auction hauction
    rw [← hfound, he] at hsql
    rw [← hvisible] at hpage
    exact hsql.symm.trans hpage
  · intro hall
    have hkeyed : ∀ a b : AuctionView, viewKey view.sort a < viewKey view.sort b →
        viewKey view.sort b < viewKey view.sort a → a = b := fun a b hab hba => absurd hab hba.not_gt
    have hfoundRows : found ⊆ store.auctions.rows :=
      fun row hrow => (List.mem_filter.mp (hperm.mem_iff.mp hrow)).1
    have hids : (found.map AuctionDbRow.id).Nodup :=
      (hperm.map AuctionDbRow.id).nodup_iff.mpr (matching_keyed toLowerCase store _)
    have : Std.Antisymm fun a b => viewKey view.sort a < viewKey view.sort b := ⟨hkeyed⟩
    have : Std.Irrefl fun a b => viewKey view.sort a < viewKey view.sort b :=
      ⟨fun a => lt_irrefl (viewKey view.sort a)⟩
    refine (found_sorted hsort hmirror hfoundRows hids hordered).eq_of_mem_iff
      (visible_sorted hsort hmirror) fun x => ?_
    rw [hfound, hvisible]
    exact exists_congr fun auction => and_congr_right fun hauction =>
      and_congr_left' (hall auction hauction)

end Lists

/-- All pages of the indexer together list what the page selects on chain, in the same order. -/
structure SameList (strKey : StrKey) (toLowerCase : String → String) (store : AuctionStore)
    (auctions : List AuctionView) (view : AuctionsListView) (connectedAddress : Option String)
    (limit nowSeconds : ℕ) : Prop where
  answered : ∃ pages, Pages strKey toLowerCase store view connectedAddress limit none pages
  same : ∀ pages, Pages strKey toLowerCase store view connectedAddress limit none pages →
    (pages.flatMap IndexerPage.items).map AuctionListItem.view =
      (selectVisibleAuctions toLowerCase auctions view nowSeconds connectedAddress).map listed

section Agreement
variable {strKey : StrKey} {toLowerCase : String → String} {view : AuctionsListView}
variable {connectedAddress : Option String} {store : AuctionStore} {auctions : List AuctionView}
variable {limit nowSeconds : ℕ}

theorem items_views (served : List AuctionPage) :
    ((served.map toIndexerPage).flatMap IndexerPage.items).map AuctionListItem.view =
      (served.flatMap AuctionPage.rows).map rowToView := by
  induction served with
  | nil => rfl
  | cons page served ih =>
    simp only [List.map_cons, List.flatMap_cons, List.map_append, ih]
    simp [toIndexerPage, Function.comp_def]

variable (hmirror : Mirrors auctions store)
variable (hsegment : view.segment = .all ∨ view.segment = .settled ∨ view.segment = .yours)
variable (hsort : view.sort = .newest ∨ view.sort = .bids)
variable (haddress : ∀ address ∈ connectedAddress, AccountText strKey address)
include hmirror hsegment hsort haddress

/-- The two paths list the same when each auction is selected by both or by neither. -/
theorem sameList_iff : SameList strKey toLowerCase store auctions view connectedAddress limit
    nowSeconds ↔
    Accepted view limit ∧ ∀ auction ∈ auctions,
      (segmentSelected view connectedAddress auction ∧ sqlText toLowerCase view auction ↔
        matchesSegment auction view.segment nowSeconds connectedAddress ∧
          pageText toLowerCase view auction) := by
  have hpages : ∀ served, 1 ≤ limit → Paged toLowerCase (fun _ => store)
      (listQuery view connectedAddress limit) 0 none served →
      (((served.map toIndexerPage).flatMap IndexerPage.items).map AuctionListItem.view =
        (selectVisibleAuctions toLowerCase auctions view nowSeconds connectedAddress).map listed ↔
      ∀ auction ∈ auctions,
        (segmentSelected view connectedAddress auction ∧ sqlText toLowerCase view auction ↔
          matchesSegment auction view.segment nowSeconds connectedAddress ∧
            pageText toLowerCase view auction)) := by
    intro served hlimit hserved
    obtain ⟨⟨found, hperm, hordered, hrows⟩, -⟩ := (pagination_complete toLowerCase store
      (listQuery view connectedAddress limit) hlimit).2.1 served hserved
    rw [items_views, hrows, List.map_map]
    exact lists_eq_iff hsegment hsort hmirror hperm hordered
  constructor
  · intro h
    obtain ⟨pages, hp⟩ := h.answered
    have haccepted := hp.accepted haddress
    obtain ⟨served, hserved, rfl⟩ := hp.paged haddress 0 rfl
    exact ⟨haccepted, (hpages served haccepted.limit.1 hserved).mp (h.same _ hp)⟩
  · rintro ⟨haccepted, hall⟩
    refine ⟨?_, fun pages hp => ?_⟩
    · obtain ⟨served, hserved⟩ := (pagination_complete toLowerCase store
        (listQuery view connectedAddress limit) haccepted.limit.1).1
      exact ⟨_, Paged.pages haddress haccepted rfl hserved⟩
    · obtain ⟨served, hserved, rfl⟩ := hp.paged haddress 0 rfl
      exact (hpages served haccepted.limit.1 hserved).mpr hall

end Agreement

section Texts
variable {toLowerCase : String → String} {view : AuctionsListView} {auction : AuctionView}

/-- toLowerCase leaves digits alone, no text vanishes, and what came out of it stays as it is. -/
structure LowersText (toLowerCase : String → String) : Prop extends LowersAscii toLowerCase where
  digits : ∀ (n : ℕ) (text : String), toLowerCase text = toString n ↔ text = toString n
  blank : ∀ text, toLowerCase text = "" ↔ text = ""
  small : ∀ text : String, (∀ c ∈ text.toList, ∃ other, c ∈ (toLowerCase other).toList) →
    toLowerCase text = text

/-- SQLite lowers the symbol as toLowerCase does, and reads it to its end. -/
structure AsciiSymbol (toLowerCase : String → String) (symbol : String) : Prop where
  lowered : toLowerCase symbol = lower symbol
  nulFree : NulFree symbol

def AsciiSymbols (toLowerCase : String → String) (auctions : List AuctionView) : Prop :=
  ∀ auction ∈ auctions, AsciiSymbol toLowerCase auction.lotSymbol ∧
    AsciiSymbol toLowerCase auction.paymentSymbol

/-- The view looks at the symbols of the auctions. -/
def AsksText (view : AuctionsListView) : Prop := trim view.search ≠ "" ∨ view.assetSymbol ≠ none

/-- Both paths read the view alike: "yours" comes with a wallet, white space around the asset symbol
makes no difference, and the search has no wildcard and no NUL, or the asset symbol contains it. -/
structure ReadAlike (toLowerCase : String → String) (view : AuctionsListView)
    (connectedAddress : Option String) : Prop where
  wallet : view.segment = .yours → connectedAddress ≠ none
  asset : ∀ a ∈ view.assetSymbol, trim a ≠ "" ∧ toLowerCase (trim a) = toLowerCase a
  search : Literal (trim view.search).toList ∨
    ∃ a ∈ view.assetSymbol, includes (toLowerCase a) (toLowerCase (trim view.search))

theorem searchParam_ne (h : trim view.search ≠ "") : searchParam view = some (trim view.search) :=
  if_pos h

theorem matchesSearch_iff (hlaws : LowersText toLowerCase) :
    matchesSearch toLowerCase auction view.search ↔
      ∀ search ∈ searchParam view, toString auction.id = search ∨
        (toLowerCase search).toList <:+: (toLowerCase auction.lotSymbol).toList ∨
        (toLowerCase search).toList <:+: (toLowerCase auction.paymentSymbol).toList := by
  by_cases hblank : trim view.search = ""
  · simp [searchParam, matchesSearch, hblank, (hlaws.blank "").mpr rfl]
  · have hnot : toLowerCase (trim view.search) ≠ "" := mt (hlaws.blank _).mp hblank
    have hid : auction.id.repr = toLowerCase (trim view.search) ↔
        auction.id.repr = trim view.search := by
      rw [eq_comm, @eq_comm _ auction.id.repr]
      exact hlaws.digits auction.id _
    simp [searchParam, matchesSearch, hblank, hnot, includes, hid]

theorem matchesAssetChip_iff (hasset : ∀ a ∈ view.assetSymbol,
      trim a ≠ "" ∧ toLowerCase (trim a) = toLowerCase a)
    (hlot : AsciiSymbol toLowerCase auction.lotSymbol)
    (hpay : AsciiSymbol toLowerCase auction.paymentSymbol) :
    matchesAssetChip toLowerCase auction view.assetSymbol ↔
      ∀ symbol ∈ trimmed view.assetSymbol, lower auction.lotSymbol = toLowerCase symbol ∨
        lower auction.paymentSymbol = toLowerCase symbol := by
  cases hsymbol : view.assetSymbol with
  | none => simp [trimmed, matchesAssetChip]
  | some symbol =>
    obtain ⟨hne, htrim⟩ := hasset symbol (Option.mem_def.mpr hsymbol)
    simp [trimmed, matchesAssetChip, htrim, hne, hlot.lowered, hpay.lowered]

theorem matches_of_part {search symbol : String} (hsymbol : NulFree symbol)
    (hpart : (toLowerCase search).toList <:+: (lower symbol).toList) :
    Matches toLowerCase search symbol := by
  have htext : '\x00' ∉ (lower symbol).toList :=
    (lower_special (.inr (.inr rfl)) symbol).not.mpr hsymbol
  rw [Matches]
  obtain ⟨before, after, he⟩ := hpart
  rw [← he] at htext ⊢
  refine like_inside (covers_self _) (fun hmem => htext ?_) before after htext
  exact List.mem_append_left _ (List.mem_append_right _ hmem)

theorem text_plain (hlaws : LowersText toLowerCase) {connectedAddress : Option String}
    (halike : ReadAlike toLowerCase view connectedAddress)
    (hlot : AsciiSymbol toLowerCase auction.lotSymbol)
    (hpay : AsciiSymbol toLowerCase auction.paymentSymbol) :
    sqlText toLowerCase view auction ↔ pageText toLowerCase view auction := by
  rw [sqlText, pageText, matchesSearch_iff hlaws, matchesAssetChip_iff halike.asset hlot hpay,
    and_comm, hlot.lowered, hpay.lowered]
  refine and_congr_left fun hassets => ?_
  obtain hliteral | ⟨a, ha, hinside⟩ := halike.search
  · refine forall₂_congr fun search hsearch => ?_
    have hpattern : Literal (toLowerCase search).toList := by
      rw [searchParam] at hsearch
      split at hsearch
      · cases hsearch
        exact hlaws.literal hliteral
      · cases hsearch
    rw [matches_literal hpattern hlot.nulFree, matches_literal hpattern hpay.nulFree, hlaws.lowered]
  · obtain ⟨hne, htrim⟩ := halike.asset a ha
    have hsymbol := hassets (trim a) (by simp [trimmed, Option.mem_def.mp ha, hne])
    rw [htrim] at hsymbol
    have hpart : (toLowerCase (trim view.search)).toList <:+: (toLowerCase a).toList :=
      of_decide_eq_true hinside
    have hfound : ∀ search ∈ searchParam view, search = trim view.search := by
      intro search hsearch
      rw [searchParam] at hsearch
      split at hsearch
      · cases hsearch
        rfl
      · cases hsearch
    refine iff_of_true (fun search hsearch => .inr ?_) fun search hsearch => .inr ?_
    · rw [hfound search hsearch]
      obtain he | he := hsymbol
      · exact .inl (matches_of_part hlot.nulFree (he ▸ hpart))
      · exact .inr (matches_of_part hpay.nulFree (he ▸ hpart))
    · rw [hfound search hsearch]
      obtain he | he := hsymbol
      · exact .inl (he ▸ hpart)
      · exact .inr (he ▸ hpart)

theorem text_unasked (hlaws : LowersText toLowerCase) (hnone : ¬ AsksText view) :
    sqlText toLowerCase view auction ∧ pageText toLowerCase view auction := by
  obtain ⟨hsearch, hasset⟩ := not_or.mp hnone
  rw [not_not] at hsearch hasset
  have hfound : searchParam view = none := if_neg (not_not.mpr hsearch)
  refine ⟨⟨fun symbol hsymbol => ?_, fun search hs => ?_⟩, (matchesSearch_iff hlaws).mpr fun search hs => ?_,
    by simp [hasset, matchesAssetChip]⟩
  · rw [hasset] at hsymbol
    cases hsymbol
  · rw [hfound] at hs
    cases hs
  · rw [hfound] at hs
    cases hs

theorem trim_nul {text : String} (hnul : ¬ NulFree text) : ¬ NulFree (trim text) := by
  have hkept : ∀ l : List Char, '\x00' ∈ l → '\x00' ∈ l.dropWhile BigIntText.isWhiteSpace := by
    intro l hmem
    rw [← @List.takeWhile_append_dropWhile _ BigIntText.isWhiteSpace l] at hmem
    refine (List.mem_append.mp hmem).resolve_left fun hblank => ?_
    exact absurd (List.mem_takeWhile_imp hblank) (by decide)
  rw [NulFree, not_not] at hnul ⊢
  rw [trim, String.toList_ofList, BigIntText.trim, List.rdropWhile, List.mem_reverse]
  exact hkept _ (List.mem_reverse.mpr (hkept _ hnul))

theorem text_nul (hlaws : LowersText toLowerCase) {a : String} (ha : a ∈ view.assetSymbol)
    (hnul : ¬ NulFree a) (hlot : AsciiSymbol toLowerCase auction.lotSymbol)
    (hpay : AsciiSymbol toLowerCase auction.paymentSymbol) :
    ¬ sqlText toLowerCase view auction ∧ ¬ pageText toLowerCase view auction := by
  have hother : ∀ symbol text : String, NulFree symbol → ¬ NulFree text →
      lower symbol ≠ toLowerCase text := by
    intro symbol text hsymbol htext he
    rw [NulFree, ← hlaws.symbols _ (.inr (.inr rfl)), ← he, lower_special (.inr (.inr rfl))] at htext
    exact htext hsymbol
  have htrim := trim_nul hnul
  have hne : trim a ≠ "" := by
    intro he
    rw [he] at htrim
    exact htrim (by decide)
  constructor
  · intro hsql
    obtain he | he := hsql.1 (trim a) (by simp [trimmed, Option.mem_def.mp ha, hne])
    · exact hother _ _ hlot.nulFree htrim he
    · exact hother _ _ hpay.nulFree htrim he
  · intro hpage
    have hchip := hpage.2
    rw [Option.mem_def.mp ha] at hchip
    simp only [matchesAssetChip, hlot.lowered, hpay.lowered, Bool.decide_or, Bool.or_eq_true,
      decide_eq_true_eq] at hchip
    obtain he | he := hchip
    · exact hother _ _ hlot.nulFree hnul he
    · exact hother _ _ hpay.nulFree hnul he

theorem lower_laws_text : LowersText lower := by
  refine ⟨lower_laws, fun n text => ⟨fun he => ?_, ?_⟩, fun text => ⟨fun he => ?_, ?_⟩, fun text h => ?_⟩
  · rw [← he]
    refine (lower_eq_self fun c hc => toLower_digit (.inr (BigIntText.repr_digits n _ ?_))).symm
    have hlower : (lower text).toList = n.repr.toList := congrArg String.toList he
    rw [← hlower, lower_toList]
    exact List.mem_map_of_mem hc
  · rintro rfl
    exact lower_eq_self fun c hc => toLower_digit (.inl (BigIntText.repr_digits n c hc))
  · have hnil : text.toList.map Char.toLower = [] := by
      rw [← lower_toList, he]
      rfl
    exact String.toList_injective (List.map_eq_nil_iff.mp hnil)
  · rintro rfl
    exact lower_eq_self fun c hc => absurd hc List.not_mem_nil
  · refine lower_eq_self fun c hc => ?_
    obtain ⟨other, hother⟩ := h c hc
    exact lower_laws.fixed hother

end Texts

section Needed
variable {strKey : StrKey} {toLowerCase : String → String} {view : AuctionsListView}
  {connectedAddress : Option String} {limit id : ℕ} {lotSymbol paymentSymbol bidder : String}
  {status : AuctionStatus}

def oneView (id : ℕ) (lotSymbol paymentSymbol : String) (status : AuctionStatus) (bidder : String) :
    AuctionView :=
  ⟨id, "G", "C", 7, "C", 5, 10, 3, status, [⟨bidder, 4⟩], false, [], 0, lotSymbol, paymentSymbol⟩

theorem one_mirrors (id : ℕ) (lotSymbol paymentSymbol : String) (status : AuctionStatus)
    (bidder : String) : Mirrors [oneView id lotSymbol paymentSymbol status bidder]
      (single id lotSymbol paymentSymbol status bidder) := by
  have hrow : RowOf (oneView id lotSymbol paymentSymbol status bidder)
      (singleRow id lotSymbol paymentSymbol status) :=
    ⟨rfl, rfl, rfl, rfl, rfl, rfl, rfl, rfl, rfl, rfl, rfl, rfl, rfl⟩
  refine ⟨List.nodup_singleton _, ?_, ?_, ?_, ?_⟩
  · simp [oneView, maxBidSlots]
  · simpa [single_auctions] using hrow
  · simpa [single_auctions] using hrow
  · simp [single_bids, oneView]

theorem LowersText.asciiSymbol (hlaws : LowersText toLowerCase) {text : String} (hnul : NulFree text)
    (hsmall : ∀ c ∈ text.toList, ∃ other, c ∈ (toLowerCase other).toList) :
    AsciiSymbol toLowerCase text ∧ toLowerCase text = text := by
  have hsame := hlaws.small text hsmall
  have hlower := hlaws.lowered text
  rw [hsame] at hlower
  exact ⟨⟨hsame.trans hlower.symm, hnul⟩, hsame⟩

theorem LowersText.lowered_symbol (hlaws : LowersText toLowerCase) {text : String}
    (hnul : NulFree text) :
    AsciiSymbol toLowerCase (toLowerCase text) ∧ toLowerCase (toLowerCase text) = toLowerCase text :=
  hlaws.asciiSymbol (hlaws.nulFree hnul) fun _ hc => ⟨text, hc⟩

theorem LowersText.zero (hlaws : LowersText toLowerCase) : '0' ∈ (toLowerCase "0").toList := by
  have hzero : toLowerCase "0" = "0" := (hlaws.digits 0 "0").mpr rfl
  rw [hzero]
  decide

theorem LowersText.pattern_symbol (hlaws : LowersText toLowerCase) (search : String) :
    AsciiSymbol toLowerCase (patternText toLowerCase search) ∧
      toLowerCase (patternText toLowerCase search) = patternText toLowerCase search := by
  refine hlaws.asciiSymbol (patternText_nulFree toLowerCase search) fun c hc => ⟨search, ?_⟩
  rw [patternText, String.toList_ofList] at hc
  exact (List.takeWhile_sublist _).subset hc

theorem LowersText.exists_matched (hlaws : LowersText toLowerCase) (search text : String) :
    ∃ symbol, AsciiSymbol toLowerCase symbol ∧ toLowerCase symbol ≠ text ∧
      Matches toLowerCase search symbol := by
  obtain ⟨hascii, hsame⟩ := hlaws.pattern_symbol search
  by_cases he : patternText toLowerCase search = text
  · have hlong : ∀ c ∈ (String.ofList ('0' :: cString (toLowerCase search).toList)).toList,
        c ≠ '\x00' ∧ ∃ other, c ∈ (toLowerCase other).toList := by
      intro c hc
      rw [String.toList_ofList] at hc
      obtain rfl | hc := List.mem_cons.mp hc
      · exact ⟨by decide, "0", hlaws.zero⟩
      · refine ⟨fun hnul => nul_cString _ (hnul ▸ hc), search, (List.takeWhile_sublist _).subset hc⟩
    obtain ⟨hascii', hsame'⟩ := hlaws.asciiSymbol (fun hmem => (hlong _ hmem).1 rfl)
      fun c hc => (hlong c hc).2
    refine ⟨_, hascii', fun hsym => ?_, ?_⟩
    · have hlength := congrArg (fun text => text.toList.length) (hsame'.symm.trans (hsym.trans he.symm))
      simp [patternText] at hlength
    · have hlike := like_cString ['0'] (toLowerCase search).toList (by decide)
      rw [Matches, ← hascii'.lowered, hsame', String.toList_ofList]
      exact hlike
  · exact ⟨_, hascii, fun hsym => he (hsame ▸ hsym), hlaws.matches_patternText search⟩

/-- A search with a wildcard or a NUL is matched by a symbol that does not contain it. -/
theorem LowersText.exists_unread (hlaws : LowersText toLowerCase) {search : String}
    (hsearch : ¬ Literal search.toList) :
    ∃ symbol, AsciiSymbol toLowerCase symbol ∧ Matches toLowerCase search symbol ∧
      ¬ (toLowerCase search).toList <:+: (toLowerCase symbol).toList := by
  by_cases hnul : NulFree search
  · have hpattern : '\x00' ∉ (toLowerCase search).toList := hlaws.nulFree hnul
    have hfilled : NulFree (.ofList (filledIn (toLowerCase search).toList)) := by
      rw [NulFree, String.toList_ofList]
      exact nul_filledIn hpattern
    obtain ⟨hascii, hsame⟩ := hlaws.asciiSymbol hfilled fun c hc => by
      rw [String.toList_ofList] at hc
      obtain ⟨d, hd, rfl⟩ := List.mem_map.mp hc
      split
      · exact ⟨"0", hlaws.zero⟩
      · exact ⟨search, hd⟩
    refine ⟨_, hascii, ?_, fun hpart => hsearch fun c hc hspecial => ?_⟩
    · rw [Matches, hlaws.lower_filledIn, String.toList_ofList]
      exact like_filledIn hpattern
    · rw [hsame, String.toList_ofList] at hpart
      have hmem := hpart.subset ((hlaws.symbols c hspecial search).mpr hc)
      have hplain := filledIn_plain (toLowerCase search).toList
      obtain rfl | rfl | rfl := hspecial
      · exact hplain.1 hmem
      · exact hplain.2 hmem
      · exact nul_filledIn hpattern hmem
  · obtain ⟨hascii, hsame⟩ := hlaws.pattern_symbol search
    refine ⟨_, hascii, hlaws.matches_patternText search, fun hpart => ?_⟩
    rw [hsame] at hpart
    rw [NulFree, not_not] at hnul
    exact patternText_nulFree toLowerCase search
      (hpart.subset ((hlaws.symbols _ (.inr (.inr rfl)) search).mpr hnul))

variable (hsegment : view.segment = .all ∨ view.segment = .settled ∨ view.segment = .yours)
  (hsort : view.sort = .newest ∨ view.sort = .bids)
  (haddress : ∀ address ∈ connectedAddress, AccountText strKey address)
  (hall : ∀ store auctions nowSeconds, Mirrors auctions store → AsciiSymbols toLowerCase auctions →
    SameList strKey toLowerCase store auctions view connectedAddress limit nowSeconds)
include hsegment hsort haddress hall

theorem found_shown (hlot : AsciiSymbol toLowerCase lotSymbol)
    (hpay : AsciiSymbol toLowerCase paymentSymbol)
    (hassets : ∀ symbol ∈ trimmed view.assetSymbol, lower lotSymbol = toLowerCase symbol)
    (hsearch : trim view.search ≠ "" → Matches toLowerCase (trim view.search) paymentSymbol) :
    let auction := oneView 1 lotSymbol paymentSymbol .Settled (connectedAddress.getD "G")
    matchesSegment auction view.segment 0 connectedAddress ∧ pageText toLowerCase view auction := by
  intro auction
  have hsymbols : AsciiSymbols toLowerCase [auction] := by
    intro other hother
    rw [List.mem_singleton] at hother
    subst hother
    exact ⟨hlot, hpay⟩
  have hmirror : Mirrors [auction] _ := one_mirrors 1 lotSymbol paymentSymbol .Settled _
  have hiff := ((sameList_iff hmirror hsegment hsort haddress).mp (hall _ _ 0 hmirror hsymbols)).2
    auction (List.mem_singleton_self _)
  refine hiff.mp ⟨⟨fun _ => nofun, fun address haddress => ?_⟩, fun symbol hsymbol =>
    .inl (hassets symbol hsymbol), fun search hfound => .inr (.inr ?_)⟩
  · refine ⟨⟨connectedAddress.getD "G", 4⟩, List.mem_singleton_self _, ?_⟩
    rw [bidderParam] at haddress
    split at haddress
    · rw [Option.mem_def.mp haddress, Option.getD_some]
    · cases haddress
  · rw [searchParam] at hfound
    split at hfound
    · rename_i hne
      cases hfound
      exact hsearch hne
    · cases hfound

omit hsegment hsort haddress hall

theorem trim_nulFree {text : String} (h : NulFree text) : NulFree (trim text) := by
  intro hmem
  rw [trim, String.toList_ofList, BigIntText.trim] at hmem
  exact h ((List.dropWhile_suffix _).subset ((List.rdropWhile_prefix _ _).subset hmem))

def askedSymbol (toLowerCase : String → String) (view : AuctionsListView) : String :=
  ((trimmed view.assetSymbol).map toLowerCase).getD ""

theorem askedSymbol_ascii (hlaws : LowersText toLowerCase)
    (hassets : ∀ a ∈ view.assetSymbol, NulFree a) :
    AsciiSymbol toLowerCase (askedSymbol toLowerCase view) ∧
      toLowerCase (askedSymbol toLowerCase view) = askedSymbol toLowerCase view := by
  rw [askedSymbol]
  cases hasset : trimmed view.assetSymbol with
  | none =>
    have hempty : NulFree "" := List.not_mem_nil
    exact hlaws.asciiSymbol hempty fun c hc => absurd hc List.not_mem_nil
  | some symbol =>
    obtain ⟨a, ha, hsymbol⟩ := Option.bind_eq_some_iff.mp hasset
    split at hsymbol
    · cases hsymbol
    · cases hsymbol
      exact hlaws.lowered_symbol (trim_nulFree (hassets a ha))

theorem askedSymbol_asked (hlaws : LowersText toLowerCase) :
    ∀ symbol ∈ trimmed view.assetSymbol, lower (askedSymbol toLowerCase view) = toLowerCase symbol := by
  intro symbol hsymbol
  rw [askedSymbol, Option.mem_def.mp hsymbol, Option.map_some, Option.getD_some, hlaws.lowered]

include hsegment hsort haddress hall

variable (hlaws : LowersText toLowerCase) (hassets : ∀ a ∈ view.assetSymbol, NulFree a)
include hlaws hassets

theorem needed_wallet (hyours : view.segment = .yours) : connectedAddress ≠ none := by
  intro hnone
  obtain ⟨hmatch, -⟩ := found_shown hsegment hsort haddress hall (askedSymbol_ascii hlaws hassets).1
    (hlaws.pattern_symbol (trim view.search)).1 (askedSymbol_asked hlaws)
    fun _ => hlaws.matches_patternText _
  rw [hyours, hnone] at hmatch
  exact absurd hmatch (by simp [matchesSegment])

theorem needed_asset (a : String) (ha : a ∈ view.assetSymbol) :
    trim a ≠ "" ∧ toLowerCase (trim a) = toLowerCase a := by
  obtain ⟨symbol, hascii, hne, hmatches⟩ := hlaws.exists_matched (trim view.search) (toLowerCase a)
  have hpage : ∀ lot, AsciiSymbol toLowerCase lot →
      (∀ asked ∈ trimmed view.assetSymbol, lower lot = toLowerCase asked) →
      toLowerCase lot = toLowerCase a := by
    intro lot hlot hasked
    obtain ⟨-, hpage⟩ := found_shown hsegment hsort haddress hall hlot hascii hasked fun _ => hmatches
    have hchip := hpage.2
    rw [Option.mem_def.mp ha] at hchip
    exact (of_decide_eq_true hchip).resolve_right hne
  by_cases hblank : trim a = ""
  · have hnone : trimmed view.assetSymbol = none := by
      simp [trimmed, Option.mem_def.mp ha, hblank]
    refine absurd (hpage symbol hascii fun asked hasked => ?_) hne
    rw [hnone] at hasked
    cases hasked
  · have hsome : trimmed view.assetSymbol = some (trim a) := by
      simp [trimmed, Option.mem_def.mp ha, hblank]
    have hlot := askedSymbol_ascii hlaws hassets
    refine ⟨hblank, ?_⟩
    rw [← hpage _ hlot.1 (askedSymbol_asked hlaws), hlot.2, askedSymbol, hsome]
    rfl

theorem needed_search : Literal (trim view.search).toList ∨
    ∃ a ∈ view.assetSymbol, includes (toLowerCase a) (toLowerCase (trim view.search)) := by
  by_contra hnot
  obtain ⟨hliteral, hpinned⟩ := not_or.mp hnot
  have hne : trim view.search ≠ "" := by
    intro hblank
    rw [hblank] at hliteral
    exact hliteral (by decide)
  obtain ⟨symbol, hascii, hmatches, hunread⟩ := hlaws.exists_unread hliteral
  have hlot := askedSymbol_ascii hlaws hassets
  obtain ⟨-, hpage⟩ := found_shown hsegment hsort haddress hall hlot.1 hascii
    (askedSymbol_asked hlaws) fun _ => hmatches
  obtain hid | hpart | hpart := (matchesSearch_iff hlaws).mp hpage.1 _ (searchParam_ne hne)
  · have hone : Literal (toString 1).toList := by decide
    have hid' : toString 1 = trim view.search := hid
    rw [← hid'] at hliteral
    exact hliteral hone
  · have hinside : (toLowerCase (trim view.search)).toList <:+:
        (toLowerCase (askedSymbol toLowerCase view)).toList := hpart
    rw [hlot.2, askedSymbol] at hinside
    cases hasset : view.assetSymbol with
    | none =>
      rw [hasset] at hinside
      exact hne ((hlaws.blank _).mp (String.toList_injective (List.infix_nil.mp hinside)))
    | some a =>
      obtain ⟨hblank, htrim⟩ := needed_asset hsegment hsort haddress hall hlaws hassets a hasset
      have hsome : trimmed (some a) = some (trim a) := by simp [trimmed, hblank]
      rw [hasset, hsome, Option.map_some, Option.getD_some, htrim] at hinside
      exact hpinned ⟨a, hasset, decide_eq_true hinside⟩
  · exact hunread hpart

end Needed

def sampleView (status : AuctionStatus) : AuctionView := oneView 1 "RWA" "USD" status "G"

theorem sample_mirrors (status : AuctionStatus) :
    Mirrors [sampleView status] (single 1 "RWA" "USD" status "G") :=
  one_mirrors 1 "RWA" "USD" status "G"

/-- A symbol that only toLowerCase lowers is found by its own chip on the page, and not in SQL. -/
theorem chip_not_found (strKey : StrKey) {toLowerCase : String → String}
    (hlaws : LowersText toLowerCase) {symbol : String} (htrim : trim symbol = symbol)
    (hne : symbol ≠ "") (hcase : toLowerCase symbol ≠ lower symbol)
    {sort : AuctionSort} (hsort : sort = .newest ∨ sort = .bids) (limit nowSeconds : ℕ) :
    ¬ SameList strKey toLowerCase (single 1 symbol symbol .Open "G") [oneView 1 symbol symbol .Open "G"]
      ⟨.all, "", some symbol, sort⟩ none limit nowSeconds := by
  intro hsame
  have hiff := ((sameList_iff (one_mirrors 1 symbol symbol .Open "G") (.inl rfl) hsort
    fun _ h => absurd h (Option.not_mem_none _)).mp hsame).2 _ (List.mem_singleton_self _)
  have hpage : pageText toLowerCase ⟨.all, "", some symbol, sort⟩
      (oneView 1 symbol symbol .Open "G") := by
    have hblank : toLowerCase (trim "") = "" := (hlaws.blank "").mpr rfl
    exact ⟨decide_eq_true (.inl hblank), decide_eq_true (.inl rfl)⟩
  obtain ⟨-, hsql⟩ := hiff.mpr ⟨rfl, hpage⟩
  obtain he | he := hsql.1 symbol (by simp [trimmed, htrim, hne])
  · exact hcase he.symm
  · exact hcase he.symm

end SealedStellar.Web
