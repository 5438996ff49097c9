import SealedStellar.AuctionApi
import SealedStellar.LikePattern
import SealedStellar.Pagination

/-! The filter of the list API: the auctions that a query string asks for, and the query strings
that get them. -/
namespace SealedStellar.Indexer
variable (toLowerCase : String → String)

section Contents

/-- The stores that the writes of the ingester make. -/
inductive Built : AuctionStore → Prop
  | empty : Built .empty
  | upsertCore {store : AuctionStore} (core : AuctionCore) (built : Built store) :
    Built (store.upsertCore core)
  | recordBid {store : AuctionStore} (auctionId : ℕ) (slotIndex : ℤ) (bidder : String)
    (built : Built store) : Built (store.recordBid auctionId slotIndex bidder)
  | markSettled {store : AuctionStore} (auctionId : ℕ) (clearingPrice winner : String)
    (settleTxHash : Option String) (built : Built store) :
    Built (store.markSettled auctionId clearingPrice winner settleTxHash)
  | markRefunded {store : AuctionStore} (auctionId : ℕ) (built : Built store) :
    Built (store.markRefunded auctionId)
  | setLotReclaimed {store : AuctionStore} (auctionId : ℕ) (reclaimed : Bool) (built : Built store) :
    Built (store.setLotReclaimed auctionId reclaimed)
  | setCursor {store : AuctionStore} (lastLedger : Option ℕ) (lastCursor : Option String)
    (built : Built store) : Built (store.setCursor lastLedger lastCursor)

def Typed (row : AuctionDbRow) : Prop := ∃ status, row.status = statusName status

theorem typed_updateAuction {store : AuctionStore} {auctionId : ℕ} {f : AuctionDbRow → AuctionDbRow}
    {hf : ∀ row, (f row).id = row.id} (hstore : ∀ row ∈ store.auctions.rows, Typed row)
    (hwrite : ∀ row, Typed row → Typed (f row)) :
    ∀ row ∈ (store.updateAuction auctionId f hf).auctions.rows, Typed row := by
  intro row hrow
  obtain ⟨r, hr, he⟩ := @Table.mem_update _ _ _ _ _ _ _ hf _ hrow
  cases he with
  | inl hsame => exact hsame ▸ hstore r hr
  | inr hnew => exact hnew ▸ hwrite r (hstore r hr)

theorem Built.typed {store : AuctionStore} (hbuilt : Built store) :
    ∀ row ∈ store.auctions.rows, Typed row := by
  induction hbuilt with
  | empty => exact fun _ hrow => absurd hrow List.not_mem_nil
  | upsertCore core _ ih =>
    intro row hrow
    cases Table.mem_upsert hrow with
    | inl hnew => exact ⟨core.status, hnew ▸ rfl⟩
    | inr hold =>
      obtain ⟨r, hr, he⟩ := hold
      cases he with
      | inl hsame => exact hsame ▸ ih r hr
      | inr hupdated => exact ⟨core.status, hupdated ▸ rfl⟩
  | recordBid auctionId slotIndex bidder _ ih => exact typed_updateAuction ih fun _ h => h
  | markSettled => exact typed_updateAuction (by assumption) fun _ _ => ⟨.Settled, rfl⟩
  | markRefunded => exact typed_updateAuction (by assumption) fun _ _ => ⟨.Refunded, rfl⟩
  | setLotReclaimed => exact typed_updateAuction (by assumption) fun _ h => h
  | setCursor _ _ _ ih => exact ih

end Contents

section Meaning

/-- The symbol contains the search term, ignoring ASCII case. -/
def Contains (search symbol : String) : Prop := (lower search).toList <:+: (lower symbol).toList

instance (search symbol : String) : Decidable (Contains search symbol) :=
  inferInstanceAs (Decidable (_ <:+: _))

variable (store : AuctionStore) (q : AuctionQuery)

def Admits (row : AuctionDbRow) : Prop :=
  (q.statuses ≠ [] → parseStatus row.status ∈ q.statuses) ∧
  (∀ a ∈ q.assetSymbol, lower row.lotSymbol = lower a ∨ lower row.paymentSymbol = lower a) ∧
  (∀ s ∈ q.search, toString row.id = s ∨ Contains s row.lotSymbol ∨ Contains s row.paymentSymbol) ∧
  ∀ b ∈ q.bidder, ∃ bid ∈ store.bids.rows, bid.auctionId = row.id ∧ bid.bidder = b

instance : DecidablePred (Admits store q) := fun _ =>
  inferInstanceAs (Decidable (_ ∧ _ ∧ _ ∧ _))

def admitted : List AuctionDbRow := store.auctions.rows.filter fun row => Admits store q row

/-- Every page counts the auctions that the query asks for, and all pages together list them. -/
structure FilterExact : Prop where
  counted : ∀ cursor, (store.query toLowerCase { q with cursor := cursor }).totalCount =
    (admitted store q).length
  answered : ∃ pages, Paged toLowerCase (fun _ => store) q 0 none pages
  returned : ∀ pages, Paged toLowerCase (fun _ => store) q 0 none pages →
    (pages.flatMap AuctionPage.rows).Perm ((admitted store q).map toListRow)

def Matches (search symbol : String) : Prop :=
  like ('%' :: (toLowerCase search).toList ++ ['%']) (lower symbol).toList

/-- A search term that JavaScript and SQLite lower alike, without a wildcard or a NUL. -/
def LiteralText (search : String) : Prop := toLowerCase search = lower search ∧ Literal search.toList

/-- The parameters mean in SQL what they mean in the query: the search term is read as a text, or it is
found either way in every symbol that passes the asset filter. -/
structure Plain (reads : String → Prop) : Prop where
  statuses : q.statuses.length < 3 ∨ ∀ status, status ∈ q.statuses
  assetSymbol : ∀ a ∈ q.assetSymbol, toLowerCase a = lower a
  search : ∀ s ∈ q.search, reads s ∨ ∃ a ∈ q.assetSymbol, Matches toLowerCase s a ∧ Contains s a

def HasSymbols (Kind : String → Prop) : Prop :=
  ∀ row ∈ store.auctions.rows, Kind row.lotSymbol ∧ Kind row.paymentSymbol

/-- SQLite defines no result for a text with a NUL in it. -/
def NulFree (text : String) : Prop := '\x00' ∉ text.toList

instance (text : String) : Decidable (NulFree text) := inferInstanceAs (Decidable (_ ∉ _))

end Meaning

section Conditions
variable {toLowerCase} {store : AuctionStore} {q : AuctionQuery} {row : AuctionDbRow}

theorem assetCondition_iff {a : String} : assetCondition toLowerCase a row ↔
    lower row.lotSymbol = toLowerCase a ∨ lower row.paymentSymbol = toLowerCase a := by
  simp [assetCondition]

theorem searchCondition_iff {s : String} : searchCondition toLowerCase s row ↔
    toString row.id = s ∨ Matches toLowerCase s row.lotSymbol ∨
      Matches toLowerCase s row.paymentSymbol := by
  simp [searchCondition, Matches, or_assoc]

theorem bidderCondition_iff {b : String} : store.bidderCondition b row ↔
    ∃ bid ∈ store.bids.rows, bid.auctionId = row.id ∧ bid.bidder = b := by
  simp [AuctionStore.bidderCondition]

theorem statusCondition_iff (htyped : Typed row) :
    statusCondition q row ↔ parseStatus row.status ∈ q.statuses := by
  obtain ⟨status, he⟩ := htyped
  have hinj : ∀ status', statusName status' = statusName status ↔ status' = status := by
    intro status'
    refine ⟨fun h => ?_, congrArg statusName⟩
    rw [← parseStatus_statusName status', h, parseStatus_statusName]
  simp [statusCondition, he, hinj, parseStatus_statusName]

theorem conditions_iff : ((store.conditions toLowerCase q).all fun condition => condition row) ↔
    (0 < q.statuses.length ∧ q.statuses.length < 3 → statusCondition q row) ∧
    (∀ a ∈ q.assetSymbol, assetCondition toLowerCase a row) ∧
    (∀ s ∈ q.search, searchCondition toLowerCase s row) ∧
    ∀ b ∈ q.bidder, store.bidderCondition b row := by
  have hoption : ∀ (o : Option String) (f : String → AuctionDbRow → Bool),
      ((o.map f).toList.all fun condition => condition row) ↔ ∀ x ∈ o, f x row := by
    intro o f
    cases o <;> simp
  rw [AuctionStore.conditions, List.all_append, List.all_append, List.all_append]
  simp only [Bool.and_eq_true, hoption, and_assoc]
  refine and_congr_left' ?_
  split
  case isTrue h => simp [h]
  case isFalse h => simp [h]

end Conditions

section Sufficient
variable {toLowerCase} {store : AuctionStore} {q : AuctionQuery} {row : AuctionDbRow}

theorem matches_literal {s symbol : String} (h : Literal (toLowerCase s).toList)
    (hsymbol : NulFree symbol) :
    Matches toLowerCase s symbol ↔ (lower (toLowerCase s)).toList <:+: (lower symbol).toList := by
  have htext : '\x00' ∉ (lower symbol).toList :=
    (lower_special (.inr (.inr rfl)) symbol).not.mpr hsymbol
  rw [Matches, like_contains h htext, ← lower_toList, ← lower_toList, lower_lower]

theorem literal_lower {s : String} (h : Literal s.toList) : Literal (lower s).toList :=
  fun c hc hspecial => h c ((lower_special hspecial s).mp hc) hspecial

theorem matches_plain {s symbol : String} (h : LiteralText toLowerCase s) (hsymbol : NulFree symbol) :
    Matches toLowerCase s symbol ↔ Contains s symbol := by
  have hliteral : Literal (toLowerCase s).toList := by
    rw [h.1]
    exact literal_lower h.2
  rw [matches_literal hliteral hsymbol, h.1, lower_lower, Contains]

theorem matches_congr {symbol symbol' : String} (h : lower symbol = lower symbol') (s : String) :
    (Matches toLowerCase s symbol ↔ Matches toLowerCase s symbol') ∧
      (Contains s symbol ↔ Contains s symbol') := by
  rw [Matches, Matches, Contains, Contains, h]
  exact ⟨Iff.rfl, Iff.rfl⟩

variable {reads Kind : String → Prop}

theorem statuses_plain (hq : Plain toLowerCase q reads) (htyped : Typed row) :
    (0 < q.statuses.length ∧ q.statuses.length < 3 → statusCondition q row) ↔
      (q.statuses ≠ [] → parseStatus row.status ∈ q.statuses) := by
  rw [statusCondition_iff htyped, ← List.length_pos_iff]
  cases hq.statuses with
  | inl hshort => exact ⟨fun h hpos => h ⟨hpos, hshort⟩, fun h hpos => h hpos.1⟩
  | inr hall => exact iff_of_true (fun _ => hall _) fun _ => hall _

variable (hreads : ∀ s symbol, reads s → Kind symbol →
  (Matches toLowerCase s symbol ↔ Contains s symbol))
include hreads

theorem search_plain (hq : Plain toLowerCase q reads) (hlot : Kind row.lotSymbol)
    (hpay : Kind row.paymentSymbol) {s : String} (hs : s ∈ q.search)
    (hasset : ∀ a ∈ q.assetSymbol, lower row.lotSymbol = lower a ∨ lower row.paymentSymbol = lower a) :
    (Matches toLowerCase s row.lotSymbol ∨ Matches toLowerCase s row.paymentSymbol) ↔
      (Contains s row.lotSymbol ∨ Contains s row.paymentSymbol) := by
  cases hq.search s hs with
  | inl hplain => exact or_congr (hreads s _ hplain hlot) (hreads s _ hplain hpay)
  | inr hboth =>
    obtain ⟨a, ha, hmatches, hcontains⟩ := hboth
    cases hasset a ha with
    | inl hsame =>
      have hcongr := @matches_congr toLowerCase _ _ hsame s
      exact iff_of_true (.inl (hcongr.1.mpr hmatches)) (.inl (hcongr.2.mpr hcontains))
    | inr hsame =>
      have hcongr := @matches_congr toLowerCase _ _ hsame s
      exact iff_of_true (.inr (hcongr.1.mpr hmatches)) (.inr (hcongr.2.mpr hcontains))

theorem conditions_admits (hq : Plain toLowerCase q reads) (htyped : Typed row)
    (hlot : Kind row.lotSymbol) (hpay : Kind row.paymentSymbol) :
    ((store.conditions toLowerCase q).all fun condition => condition row) ↔ Admits store q row := by
  have hasset : (∀ a ∈ q.assetSymbol, assetCondition toLowerCase a row) ↔
      ∀ a ∈ q.assetSymbol, lower row.lotSymbol = lower a ∨ lower row.paymentSymbol = lower a := by
    refine forall₂_congr fun a ha => ?_
    rw [assetCondition_iff, hq.assetSymbol a ha]
  simp only [conditions_iff, statuses_plain hq htyped, hasset, bidderCondition_iff, Admits]
  refine and_congr_right fun _ => and_congr_right fun hassets => and_congr_left' ?_
  refine forall₂_congr fun s hs => ?_
  rw [searchCondition_iff]
  exact or_congr_right (search_plain hreads hq hlot hpay hs hassets)

omit hreads in
theorem filterExact_of_conditions (hlimit : 1 ≤ q.limit)
    (hsame : ∀ row ∈ store.auctions.rows,
      (((store.conditions toLowerCase q).all fun condition => condition row) ↔ Admits store q row)) :
    FilterExact toLowerCase store q := by
  have hmatching : store.matching toLowerCase q = admitted store q := by
    refine List.filter_congr fun row hrow => ?_
    rw [Bool.eq_iff_iff, decide_eq_true_eq]
    exact hsame row hrow
  obtain ⟨hends, hpages, -⟩ := pagination_complete toLowerCase store q hlimit
  refine ⟨fun _ => congrArg List.length hmatching, hends, fun pages hp => ?_⟩
  obtain ⟨⟨found, hperm, -, hrows⟩, -⟩ := hpages pages hp
  rw [hrows]
  exact (hmatching ▸ hperm).map toListRow

theorem filterExact_of_plain (hlimit : 1 ≤ q.limit) (hq : Plain toLowerCase q reads)
    (hbuilt : Built store) (hsymbols : HasSymbols store Kind) : FilterExact toLowerCase store q :=
  filterExact_of_conditions hlimit fun row hrow =>
    conditions_admits hreads hq (hbuilt.typed row hrow) (hsymbols row hrow).1 (hsymbols row hrow).2

end Sufficient

section Necessary
variable {toLowerCase} {q : AuctionQuery}

/-- toLowerCase leaves no ASCII capital, and keeps wildcards and NULs. -/
structure LowersAscii (toLowerCase : String → String) : Prop where
  lowered : ∀ text, lower (toLowerCase text) = toLowerCase text
  symbols : ∀ symbol, Special symbol → ∀ text : String,
    symbol ∈ (toLowerCase text).toList ↔ symbol ∈ text.toList

theorem filterExact_of_nul {store : AuctionStore} (hlaws : LowersAscii toLowerCase)
    (hlimit : 1 ≤ q.limit) (hsymbols : HasSymbols store NulFree) {a : String} (ha : a ∈ q.assetSymbol)
    (hnul : ¬ NulFree a) : FilterExact toLowerCase store q := by
  have hother : ∀ symbol text : String, NulFree symbol → ¬ NulFree text → lower symbol ≠ text := by
    intro symbol text hsymbol htext he
    rw [NulFree, ← he, lower_special (.inr (.inr rfl))] at htext
    exact htext hsymbol
  have hcase : ¬ NulFree (toLowerCase a) := by
    rw [NulFree, hlaws.symbols _ (.inr (.inr rfl))]
    exact hnul
  have hlower : ¬ NulFree (lower a) := by
    rw [NulFree, lower_special (.inr (.inr rfl))]
    exact hnul
  refine filterExact_of_conditions hlimit fun row hrow => iff_of_false (fun hall => ?_)
    fun hadmits => ?_
  · obtain hlot | hpay := assetCondition_iff.mp ((conditions_iff.mp hall).2.1 a ha)
    · exact hother _ _ (hsymbols row hrow).1 hcase hlot
    · exact hother _ _ (hsymbols row hrow).2 hcase hpay
  · obtain hlot | hpay := hadmits.2.1 a ha
    · exact hother _ _ (hsymbols row hrow).1 hlower hlot
    · exact hother _ _ (hsymbols row hrow).2 hlower hpay

def single (id : ℕ) (lotSymbol paymentSymbol : String) (status : AuctionStatus) (bidder : String) :
    AuctionStore :=
  (AuctionStore.empty.upsertCore ⟨id, "G", "C", lotSymbol, "7", "C", paymentSymbol, "5", 10, 3, status,
    false⟩).recordBid id 0 bidder

def singleRow (id : ℕ) (lotSymbol paymentSymbol : String) (status : AuctionStatus) : AuctionDbRow :=
  ⟨id, "G", "C", lotSymbol, "7", "C", paymentSymbol, "5", 10, 3, statusName status, 1, 0, none, none,
    none⟩

variable {id : ℕ} {lotSymbol paymentSymbol bidder : String} {status : AuctionStatus}

theorem single_built : Built (single id lotSymbol paymentSymbol status bidder) :=
  (Built.empty.upsertCore _).recordBid _ _ _

theorem single_auctions : (single id lotSymbol paymentSymbol status bidder).auctions.rows =
    [singleRow id lotSymbol paymentSymbol status] := by
  simp [single, AuctionStore.recordBid, AuctionStore.refreshCount, AuctionStore.updateAuction,
    AuctionStore.insertBid, AuctionStore.upsertCore, AuctionStore.empty, AuctionStore.bidCount,
    Table.upsert, Table.update, Table.insertOrIgnore, Table.empty, AuctionCore.inserted,
    AuctionDbRow.counted, singleRow]

theorem single_bids : (single id lotSymbol paymentSymbol status bidder).bids.rows =
    [⟨id, 0, bidder⟩] := by
  simp [single, AuctionStore.recordBid, AuctionStore.refreshCount, AuctionStore.updateAuction,
    AuctionStore.insertBid, AuctionStore.upsertCore, AuctionStore.empty, Table.insertOrIgnore,
    Table.empty]

theorem single_exact
    (hexact : FilterExact toLowerCase (single id lotSymbol paymentSymbol status bidder) q) :
    (((single id lotSymbol paymentSymbol status bidder).conditions toLowerCase q).all
        fun condition => condition (singleRow id lotSymbol paymentSymbol status)) ↔
      Admits (single id lotSymbol paymentSymbol status bidder) q
        (singleRow id lotSymbol paymentSymbol status) := by
  have hcount : (List.filter (fun row => ((single id lotSymbol paymentSymbol status
      bidder).conditions toLowerCase q).all fun condition => condition row)
      [singleRow id lotSymbol paymentSymbol status]).length =
      (List.filter (fun row => Admits (single id lotSymbol paymentSymbol status bidder) q row)
      [singleRow id lotSymbol paymentSymbol status]).length := by
    rw [← single_auctions]
    exact hexact.counted none
  by_cases hall : ((single id lotSymbol paymentSymbol status bidder).conditions toLowerCase q).all
      fun condition => condition (singleRow id lotSymbol paymentSymbol status)
  · by_cases hadmits : Admits (single id lotSymbol paymentSymbol status bidder) q
        (singleRow id lotSymbol paymentSymbol status)
    · exact iff_of_true hall hadmits
    · simp [hall, hadmits] at hcount
  · by_cases hadmits : Admits (single id lotSymbol paymentSymbol status bidder) q
        (singleRow id lotSymbol paymentSymbol status)
    · simp [hall, hadmits] at hcount
    · exact iff_of_false hall hadmits

def askedBidder (q : AuctionQuery) : String := q.bidder.getD ""

theorem single_iff
    (hexact : FilterExact toLowerCase (single id lotSymbol paymentSymbol status (askedBidder q)) q) :
    ((0 < q.statuses.length ∧ q.statuses.length < 3 → status ∈ q.statuses) ∧
      (∀ a ∈ q.assetSymbol, lower lotSymbol = toLowerCase a ∨ lower paymentSymbol = toLowerCase a) ∧
      ∀ s ∈ q.search, toString id = s ∨ Matches toLowerCase s lotSymbol ∨
        Matches toLowerCase s paymentSymbol) ↔
    (q.statuses ≠ [] → status ∈ q.statuses) ∧
      (∀ a ∈ q.assetSymbol, lower lotSymbol = lower a ∨ lower paymentSymbol = lower a) ∧
      ∀ s ∈ q.search, toString id = s ∨ Contains s lotSymbol ∨ Contains s paymentSymbol := by
  have hstatus : statusCondition q (singleRow id lotSymbol paymentSymbol status) ↔
      status ∈ q.statuses := by
    rw [statusCondition_iff ⟨status, rfl⟩, singleRow, parseStatus_statusName]
  have hbidder : ∀ b ∈ q.bidder, ∃ bid ∈ (single id lotSymbol paymentSymbol status
      (askedBidder q)).bids.rows, bid.auctionId = id ∧ bid.bidder = b := by
    intro b hb
    refine ⟨⟨id, 0, askedBidder q⟩, ?_, rfl, ?_⟩
    · rw [single_bids]
      exact List.mem_singleton_self _
    · rw [askedBidder, Option.mem_def.mp hb, Option.getD_some]
  have h := single_exact hexact
  simp only [conditions_iff, hstatus, assetCondition_iff, searchCondition_iff, bidderCondition_iff,
    Admits] at h
  simpa only [singleRow, parseStatus_statusName, and_iff_left hbidder] using h

theorem exists_status (q : AuctionQuery) : ∃ status, q.statuses ≠ [] → status ∈ q.statuses := by
  cases hq : q.statuses with
  | nil => exact ⟨.Open, fun h => absurd rfl h⟩
  | cons status statuses => exact ⟨status, fun _ => List.mem_cons_self⟩

theorem LowersAscii.literal (hlaws : LowersAscii toLowerCase) {s : String} (h : Literal s.toList) :
    Literal (toLowerCase s).toList :=
  fun c hc hspecial => h c ((hlaws.symbols c hspecial s).mp hc) hspecial

theorem LowersAscii.nulFree (hlaws : LowersAscii toLowerCase) {s : String} (h : NulFree s) :
    NulFree (toLowerCase s) :=
  (hlaws.symbols _ (.inr (.inr rfl)) s).not.mpr h

theorem literal_nulFree {text : String} (h : Literal text.toList) : NulFree text :=
  fun hmem => h _ hmem (.inr (.inr rfl))

theorem contains_nulFree {s symbol : String} (h : Contains s symbol) (hsymbol : NulFree symbol) :
    NulFree s := by
  intro hmem
  have hnul : Special '\x00' := .inr (.inr rfl)
  exact hsymbol ((lower_special hnul symbol).mp (h.subset ((lower_special hnul s).mpr hmem)))

theorem LowersAscii.fixed (hlaws : LowersAscii toLowerCase) {s : String} {c : Char}
    (hc : c ∈ (toLowerCase s).toList) : c.toLower = c := by
  have hlowered := congrArg String.toList (hlaws.lowered s)
  rw [lower_toList] at hlowered
  exact List.map_inj_left.mp (hlowered.trans (List.map_id _).symm) c hc

/-- A search term of letters that is lowered differently tells itself and what it is lowered to
apart. -/
theorem LowersAscii.letter_mismatch (hlaws : LowersAscii toLowerCase) {s : String}
    (hliteral : Literal s.toList) (hne : toLowerCase s ≠ lower s) :
    ∃ w, NulFree w ∧ ¬ (Matches toLowerCase s w ↔ Contains s w) := by
  have hpattern := hlaws.literal hliteral
  by_contra hall
  push Not at hall
  have hpat := (hall (toLowerCase s) (literal_nulFree hpattern)).mp
    ((matches_literal hpattern (literal_nulFree hpattern)).mpr (List.infix_refl _))
  have hself := (matches_literal hpattern (literal_nulFree hliteral)).mp
    ((hall s (literal_nulFree hliteral)).mpr (List.infix_refl _))
  rw [Contains, hlaws.lowered] at hpat
  rw [hlaws.lowered] at hself
  have hsame : (toLowerCase s).toList = (lower s).toList := hself.eq_of_length_le hpat.length_le
  exact hne (String.toList_injective hsame)

theorem LowersAscii.lower_filledIn (hlaws : LowersAscii toLowerCase) (s : String) :
    lower (.ofList (filledIn (toLowerCase s).toList)) = .ofList (filledIn (toLowerCase s).toList) := by
  refine lower_eq_self fun c hc => ?_
  rw [String.toList_ofList] at hc
  obtain ⟨d, hd, rfl⟩ := List.mem_map.mp hc
  split
  · decide
  · exact hlaws.fixed hd

/-- A wildcard matches a text where it does not stand. -/
theorem LowersAscii.wildcard_mismatch (hlaws : LowersAscii toLowerCase) {s : String}
    (hnul : NulFree s) (hwild : '%' ∈ s.toList ∨ '_' ∈ s.toList) :
    ∃ w, NulFree w ∧ ¬ (Matches toLowerCase s w ↔ Contains s w) := by
  have hpattern : '\x00' ∉ (toLowerCase s).toList := hlaws.nulFree hnul
  have hmatches : Matches toLowerCase s (.ofList (filledIn (toLowerCase s).toList)) := by
    rw [Matches, hlaws.lower_filledIn, String.toList_ofList]
    exact like_filledIn hpattern
  have hplain := filledIn_plain (toLowerCase s).toList
  refine ⟨.ofList (filledIn (toLowerCase s).toList), ?_, fun hiff => ?_⟩
  · rw [NulFree, String.toList_ofList]
    exact nul_filledIn hpattern
  · have hcontains := hiff.mp hmatches
    rw [Contains, hlaws.lower_filledIn, String.toList_ofList] at hcontains
    obtain h | h := hwild
    · exact hplain.1 (hcontains.subset ((lower_special (.inl rfl) s).mpr h))
    · exact hplain.2 (hcontains.subset ((lower_special (.inr (.inl rfl)) s).mpr h))

def patternText (toLowerCase : String → String) (s : String) : String :=
  .ofList (cString (toLowerCase s).toList)

theorem patternText_nulFree (toLowerCase : String → String) (s : String) :
    NulFree (patternText toLowerCase s) := by
  rw [NulFree, patternText, String.toList_ofList]
  exact nul_cString _

theorem LowersAscii.matches_patternText (hlaws : LowersAscii toLowerCase) (s : String) :
    Matches toLowerCase s (patternText toLowerCase s) := by
  have hlower : lower (patternText toLowerCase s) = patternText toLowerCase s := by
    refine lower_eq_self fun c hc => ?_
    rw [patternText, String.toList_ofList] at hc
    exact hlaws.fixed ((List.takeWhile_sublist _).subset hc)
  rw [Matches, hlower, patternText, String.toList_ofList]
  exact like_cString [] _ List.not_mem_nil

theorem LowersAscii.exists_mismatch (hlaws : LowersAscii toLowerCase) {s : String}
    (hs : ¬ LiteralText toLowerCase s) :
    ∃ w, NulFree w ∧ ¬ (Matches toLowerCase s w ↔ Contains s w) := by
  by_cases hnul : NulFree s
  · by_cases hwild : '%' ∈ s.toList ∨ '_' ∈ s.toList
    · exact hlaws.wildcard_mismatch hnul hwild
    · have hliteral : Literal s.toList := by
        rintro c hc (rfl | rfl | rfl)
        · exact hwild (.inl hc)
        · exact hwild (.inr hc)
        · exact hnul hc
      exact hlaws.letter_mismatch hliteral fun he => hs ⟨he, hliteral⟩
  · refine ⟨patternText toLowerCase s, patternText_nulFree toLowerCase s, fun hiff => hnul ?_⟩
    exact contains_nulFree (hiff.mp (hlaws.matches_patternText s)) (patternText_nulFree toLowerCase s)

theorem LowersAscii.exists_symbol_mismatch (hlaws : LowersAscii toLowerCase) {s : String}
    (hs : s ≠ "") : ∃ w, ¬ (Matches toLowerCase s w ↔ Contains s w) := by
  by_cases hliteral : LiteralText toLowerCase s
  · have hbehind : (lower (.ofList ('\x00' :: s.toList))).toList = '\x00' :: (lower s).toList := by
      rw [lower_toList, lower_toList, String.toList_ofList, List.map_cons]
      rfl
    refine ⟨.ofList ('\x00' :: s.toList), fun hiff => hs ?_⟩
    have hcontains : Contains s (.ofList ('\x00' :: s.toList)) := by
      rw [Contains, hbehind]
      exact (List.suffix_cons _ _).isInfix
    have hmatches := hiff.mpr hcontains
    have hpattern := hlaws.literal hliteral.2
    rw [Matches, hbehind, like, cString_wrapped (literal_nulFree hpattern)] at hmatches
    have hempty := (compare_contains hpattern).mp hmatches
    have hnil : (toLowerCase s).toList = [] := List.map_eq_nil_iff.mp (List.infix_nil.mp hempty)
    rw [hliteral.1, lower_toList, List.map_eq_nil_iff] at hnil
    exact String.toList_injective hnil
  · obtain ⟨w, -, hw⟩ := hlaws.exists_mismatch hliteral
    exact ⟨w, hw⟩

theorem exists_pair {Kind : String → Prop} {s w : String} (hkind : Kind w)
    (hw : ¬ (Matches toLowerCase s w ↔ Contains s w)) (hassets : ∀ a ∈ q.assetSymbol, Kind a)
    (hasset : ∀ a ∈ q.assetSymbol, Matches toLowerCase s a → ¬ Contains s a) :
    ∃ lot pay, (Kind lot ∧ Kind pay) ∧ (∀ a ∈ q.assetSymbol, lower lot = lower a) ∧
      ¬ (Matches toLowerCase s lot ∨ Matches toLowerCase s pay ↔ Contains s lot ∨ Contains s pay) := by
  cases ha : q.assetSymbol with
  | none =>
    exact ⟨w, w, ⟨hkind, hkind⟩, fun _ h => absurd h (Option.not_mem_none _), by rwa [or_self, or_self]⟩
  | some a =>
    have hsame : ∀ a' ∈ some a, lower a = lower a' := by
      intro a' h
      rw [Option.some.inj (Option.mem_def.mp h)]
    have hlot := hassets a ha
    by_cases hsplit : Matches toLowerCase s a ↔ Contains s a
    · have hneither : ¬ Contains s a := fun h => hasset a ha (hsplit.mpr h) h
      refine ⟨a, w, ⟨hlot, hkind⟩, hsame, ?_⟩
      rwa [or_iff_right (mt hsplit.mp hneither), or_iff_right hneither]
    · exact ⟨a, a, ⟨hlot, hlot⟩, hsame, by rwa [or_self, or_self]⟩

theorem exists_other_symbol (q : AuctionQuery) (asset : String) :
    ∃ pay, (pay = q.search.getD "" ∨ pay = q.search.getD "" ++ "x") ∧ lower pay ≠ asset ∧
      ∀ s ∈ q.search, Contains s pay := by
  have hsearch : ∀ s ∈ q.search, s = q.search.getD "" := by
    intro s hs
    rw [Option.mem_def.mp hs, Option.getD_some]
  by_cases hfirst : lower (q.search.getD "") = asset
  · refine ⟨q.search.getD "" ++ "x", .inr rfl, fun he => ?_, fun s hs => ?_⟩
    · have hlength := congrArg (fun text => text.toList.length) (he.trans hfirst.symm)
      simp [lower_toList] at hlength
    · rw [hsearch s hs, Contains, lower_toList, lower_toList, String.toList_append, List.map_append]
      exact List.infix_append' [] _ _
  · refine ⟨_, .inl rfl, hfirst, fun s hs => ?_⟩
    rw [hsearch s hs, Contains]

theorem single_symbols {Kind : String → Prop} (hlot : Kind lotSymbol) (hpay : Kind paymentSymbol) :
    HasSymbols (single id lotSymbol paymentSymbol status bidder) Kind := by
  intro row hrow
  rw [single_auctions, List.mem_singleton] at hrow
  subst hrow
  exact ⟨hlot, hpay⟩

def askedLot (toLowerCase : String → String) (q : AuctionQuery) : String :=
  (q.assetSymbol.map toLowerCase).getD ""

def askedPayment (toLowerCase : String → String) (q : AuctionQuery) : String :=
  patternText toLowerCase (q.search.getD "")

theorem askedLot_kind {Kind : String → Prop} (hempty : Kind "")
    (hcase : ∀ a ∈ q.assetSymbol, Kind (toLowerCase a)) : Kind (askedLot toLowerCase q) := by
  rw [askedLot]
  cases ha : q.assetSymbol with
  | none => exact hempty
  | some a => exact hcase a ha

variable {Kind : String → Prop}
  (hexact : ∀ store, Built store → HasSymbols store Kind → FilterExact toLowerCase store q)
  (hplain : ∀ text, NulFree text → Kind text)
include hexact

theorem exact_single (hlot : Kind lotSymbol) (hpay : Kind paymentSymbol) :
    ((0 < q.statuses.length ∧ q.statuses.length < 3 → status ∈ q.statuses) ∧
      (∀ a ∈ q.assetSymbol, lower lotSymbol = toLowerCase a ∨ lower paymentSymbol = toLowerCase a) ∧
      ∀ s ∈ q.search, toString id = s ∨ Matches toLowerCase s lotSymbol ∨
        Matches toLowerCase s paymentSymbol) ↔
    (q.statuses ≠ [] → status ∈ q.statuses) ∧
      (∀ a ∈ q.assetSymbol, lower lotSymbol = lower a ∨ lower paymentSymbol = lower a) ∧
      ∀ s ∈ q.search, toString id = s ∨ Contains s lotSymbol ∨ Contains s paymentSymbol :=
  single_iff (hexact _ single_built (single_symbols hlot hpay))

theorem exact_assetSymbol (hsearch : Kind (q.search.getD "") ∧ Kind (q.search.getD "" ++ "x"))
    (hassets : ∀ a ∈ q.assetSymbol, Kind a) : ∀ a ∈ q.assetSymbol, toLowerCase a = lower a := by
  intro a ha
  by_contra hne
  obtain ⟨status, hstatus⟩ := exists_status q
  obtain ⟨pay, hform, hpay, hcontains⟩ := exists_other_symbol q (toLowerCase a)
  have hkind : Kind pay := by
    obtain rfl | rfl := hform
    · exact hsearch.1
    · exact hsearch.2
  have hiff := @exact_single toLowerCase q 1 a pay status Kind hexact (hassets a ha) hkind
  have hselected := hiff.mpr ⟨hstatus, fun a' ha' => .inl (by rw [Option.mem_unique ha ha']),
    fun s hs => .inr (.inr (hcontains s hs))⟩
  cases hselected.2.1 a ha with
  | inl hlot => exact hne hlot.symm
  | inr h => exact hpay h

variable (hlaws : LowersAscii toLowerCase)
include hlaws hplain

theorem exact_selected (hcase : ∀ a ∈ q.assetSymbol, Kind (toLowerCase a)) (id : ℕ)
    (hstatus : 0 < q.statuses.length ∧ q.statuses.length < 3 → status ∈ q.statuses) :
    (q.statuses ≠ [] → status ∈ q.statuses) ∧
      ∀ s ∈ q.search, toString id = s ∨ Contains s (askedLot toLowerCase q) ∨
        Contains s (askedPayment toLowerCase q) := by
  have hlot : Kind (askedLot toLowerCase q) := askedLot_kind (hplain "" (by decide)) hcase
  have hpay : Kind (askedPayment toLowerCase q) := hplain _ (patternText_nulFree toLowerCase _)
  have hiff := @exact_single toLowerCase q id _ _ status Kind hexact hlot hpay
  have hadmits := hiff.mp ⟨hstatus, fun a ha => .inl ?_, fun s hs => .inr (.inr ?_)⟩
  · exact ⟨hadmits.1, hadmits.2.2⟩
  · rw [askedLot, Option.mem_def.mp ha, Option.map_some, Option.getD_some, hlaws.lowered]
  · rw [askedPayment, Option.mem_def.mp hs, Option.getD_some]
    exact hlaws.matches_patternText s

theorem exact_statuses (hcase : ∀ a ∈ q.assetSymbol, Kind (toLowerCase a)) :
    q.statuses.length < 3 ∨ ∀ status, status ∈ q.statuses := by
  refine or_iff_not_imp_left.mpr fun hlong status => ?_
  have hne : q.statuses ≠ [] := by
    intro he
    simp [he] at hlong
  exact (exact_selected hexact hplain hlaws hcase 1 fun h => absurd h.2 hlong).1 hne

omit hplain hlaws in
theorem exact_search {reads : String → Prop} (hassets : ∀ a ∈ q.assetSymbol, Kind a)
    (hcase : ∀ a ∈ q.assetSymbol, toLowerCase a = lower a)
    (hmismatch : ∀ s ∈ q.search, ¬ reads s →
      ∃ w, Kind w ∧ ¬ (Matches toLowerCase s w ↔ Contains s w)) :
    ∀ s ∈ q.search, reads s ∨ ∃ a ∈ q.assetSymbol, Matches toLowerCase s a ∧ Contains s a := by
  intro s hs
  by_contra hnot
  push Not at hnot
  obtain ⟨hreads, hasset⟩ := hnot
  obtain ⟨w, hkind, hw⟩ := hmismatch s hs hreads
  obtain ⟨lot, pay, ⟨hlot, hpay⟩, hsame, hpair⟩ := exists_pair hkind hw hassets hasset
  obtain ⟨status, hstatus⟩ := exists_status q
  have hid : ∃ id : ℕ, toString id ≠ s := by
    by_contra hall
    push Not at hall
    exact absurd ((hall 1).trans (hall 2).symm) (by decide)
  obtain ⟨id, hid⟩ := hid
  have hiff := @exact_single toLowerCase q id lot pay status Kind hexact hlot hpay
  refine hpair ⟨fun hmatches => ?_, fun hcontains => ?_⟩
  · have hadmits := hiff.mp ⟨fun h => hstatus (List.length_pos_iff.mp h.1),
      fun a ha => .inl (by rw [hcase a ha, hsame a ha]), fun s' hs' => .inr (by
        rwa [Option.mem_unique hs' hs])⟩
    exact (hadmits.2.2 s hs).resolve_left hid
  · have hselected := hiff.mpr ⟨hstatus, fun a ha => .inl (hsame a ha), fun s' hs' => .inr (by
        rwa [Option.mem_unique hs' hs])⟩
    exact (hselected.2.2 s hs).resolve_left hid

end Necessary

section Domains
variable {toLowerCase} {q : AuctionQuery}

/-- On symbols without a NUL, a search term with one is not read to its end. -/
theorem exact_nulFree (hlaws : LowersAscii toLowerCase) (hassets : ∀ a ∈ q.assetSymbol, NulFree a)
    (hexact : ∀ store, Built store → HasSymbols store NulFree → FilterExact toLowerCase store q) :
    ∀ s ∈ q.search, NulFree s := by
  intro s hs
  by_contra hnul
  obtain ⟨status, hstatus⟩ := exists_status q
  have hcase : ∀ a ∈ q.assetSymbol, NulFree (toLowerCase a) := fun a ha => hlaws.nulFree (hassets a ha)
  have hfound := (exact_selected hexact (fun _ h => h) hlaws hcase 1 fun h =>
    hstatus (List.length_pos_iff.mp h.1)).2 s hs
  obtain he | hlot | hpay := hfound
  · exact hnul (he ▸ by decide)
  · exact hnul (contains_nulFree hlot (askedLot_kind (by decide) hcase))
  · exact hnul (contains_nulFree hpay (patternText_nulFree toLowerCase _))

theorem exact_nulFree_iff (hlaws : LowersAscii toLowerCase) (hlimit : 1 ≤ q.limit) :
    (∀ store, Built store → HasSymbols store NulFree → FilterExact toLowerCase store q) ↔
      (∃ a ∈ q.assetSymbol, ¬ NulFree a) ∨ Plain toLowerCase q (LiteralText toLowerCase) := by
  constructor
  · intro hexact
    refine or_iff_not_imp_left.mpr fun hnone => ?_
    have hassets : ∀ a ∈ q.assetSymbol, NulFree a := by
      intro a ha
      by_contra hnul
      exact hnone ⟨a, ha, hnul⟩
    have hnul := exact_nulFree hlaws hassets hexact
    have hsearch : NulFree (q.search.getD "") ∧ NulFree (q.search.getD "" ++ "x") := by
      cases hs : q.search with
      | none => exact ⟨by decide, by decide⟩
      | some s =>
        have hfree : NulFree s := hnul s hs
        rw [Option.getD_some]
        refine ⟨hfree, ?_⟩
        rw [NulFree, String.toList_append, List.mem_append, not_or]
        exact ⟨hfree, by decide⟩
    have hcase := exact_assetSymbol hexact hsearch hassets
    refine ⟨exact_statuses hexact (fun _ h => h) hlaws fun a ha => hlaws.nulFree (hassets a ha), hcase,
      exact_search hexact hassets hcase fun s _ hs => hlaws.exists_mismatch hs⟩
  · rintro (⟨a, ha, hnul⟩ | hplain) store hbuilt hsymbols
    · exact filterExact_of_nul hlaws hlimit hsymbols ha hnul
    · exact filterExact_of_plain (fun _ _ => matches_plain) hlimit hplain hbuilt hsymbols

/-- With symbols of any kind no search term is found that the asset filter does not find. -/
theorem exact_any_iff (hlaws : LowersAscii toLowerCase) (hlimit : 1 ≤ q.limit)
    (hsearch : ∀ s ∈ q.search, s ≠ "") :
    (∀ store, Built store → FilterExact toLowerCase store q) ↔ Plain toLowerCase q fun _ => False := by
  have hany : ∀ store, HasSymbols store fun _ => True := fun _ _ _ => ⟨trivial, trivial⟩
  constructor
  · intro hexact
    have hexact' : ∀ store, Built store → HasSymbols store (fun _ => True) →
        FilterExact toLowerCase store q := fun store hbuilt _ => hexact store hbuilt
    have hcase := exact_assetSymbol hexact' ⟨trivial, trivial⟩ fun _ _ => trivial
    refine ⟨exact_statuses hexact' (fun _ _ => trivial) hlaws fun _ _ => trivial, hcase,
      exact_search hexact' (fun _ _ => trivial) hcase fun s hs _ => ?_⟩
    obtain ⟨w, hw⟩ := hlaws.exists_symbol_mismatch (hsearch s hs)
    exact ⟨w, trivial, hw⟩
  · intro hplain store hbuilt
    exact filterExact_of_plain (fun _ _ h => h.elim) hlimit hplain hbuilt (hany store)

end Domains

theorem lower_laws : LowersAscii lower :=
  ⟨lower_lower, fun _ hsymbol text => lower_special hsymbol text⟩

end SealedStellar.Indexer
