import SealedStellar.Store
import SealedStellar.Lib.Keyset
import Mathlib.Data.Prod.Lex

/-! A client of the list API asks for page after page. Whatever the filter, the sort and the page
size, it sees every auction that matched its first request exactly once. -/
namespace SealedStellar
variable (toLowerCase : String → String) {store : AuctionStore} {q : AuctionQuery}

section Cursor

theorem splitOn_colon (m n : ℕ) : (toString m ++ ":" ++ toString n).toList.splitOn ':' =
    [m.repr.toList, n.repr.toList] := by
  have hcolon : ∀ k : ℕ, ':' ∉ k.repr.toList :=
    fun k hk => absurd (BigIntText.repr_digits k _ hk) (by decide)
  have htext : (toString m ++ ":" ++ toString n).toList =
      [':'].intercalate [m.repr.toList, n.repr.toList] := by simp [List.intercalate]
  rw [htext, List.splitOn_intercalate ':' ?_ (List.cons_ne_nil _ _)]
  intro text htext
  simp only [List.mem_cons, List.not_mem_nil, or_false] at htext
  cases htext with
  | inl he => exact he ▸ hcolon m
  | inr he => exact he ▸ hcolon n

theorem decodeCursor_encodeCursor (sortValue id : ℕ) :
    decodeCursor (encodeCursor sortValue id) = some ⟨sortValue, id⟩ := by
  have hutf8 : ∀ text : String, String.fromUTF8? ⟨text.toUTF8.data.toList.toArray⟩ = some text := by
    intro text
    rw [String.toUTF8_eq_toByteArray, Array.toArray_toList, String.fromUTF8?,
      dif_pos text.isValidUTF8]
    rfl
  have hint : ((id : ℚ).isInt ∧ 0 ≤ (id : ℚ)) := ⟨rfl, Nat.cast_nonneg id⟩
  rw [decodeCursor, encodeCursor, String.toList_ofList, Base64Url.decode_encode, hutf8,
    Option.bind_some, splitOn_colon]
  simp only [NumberText.parse_repr, Option.bind_some, if_pos hint, Rat.num_natCast, Int.toNat_natCast]

end Cursor

section Order

def orderKey (sort : AuctionSort) (row : AuctionDbRow) : ℤ ×ₗ ℤ :=
  match sort with
  | .mostBids => toLex (-(row.filledSlots : ℤ), -(row.id : ℤ))
  | .closingSoonest => toLex ((closingSortExpr row : ℤ), (row.id : ℤ))
  | .newest => toLex (0, -(row.id : ℤ))

theorem inOrder_iff (sort : AuctionSort) (cursor : Option AuctionCursor) (a b : AuctionDbRow) :
    inOrder (planOrder sort cursor).orderBy a b ↔ orderKey sort a ≤ orderKey sort b := by
  cases sort <;> simp only [planOrder, inOrder, orderKey, Prod.Lex.toLex_le_toLex'] <;>
    split_ifs <;> simp_all <;> omega

def cursorOf (sort : AuctionSort) (row : AuctionDbRow) : AuctionCursor :=
  ⟨sortValueOf row sort, row.id⟩

theorem sortValueOf_closing (row : AuctionDbRow) :
    sortValueOf row .closingSoonest = closingSortExpr row := by
  rw [sortValueOf, closingSortExpr]

/-- The three spellings of the order agree: a row passes the cursor clause of another one exactly
when it comes after it. -/
theorem cursorClause_iff (sort : AuctionSort) (l row : AuctionDbRow) :
    ((planOrder sort (some (cursorOf sort l))).cursorClause.toList.all fun c => c row) ↔
      orderKey sort l < orderKey sort row := by
  cases sort with
  | closingSoonest =>
    simp only [planOrder, cursorOf, Option.map_some, Option.toList_some, List.all_cons,
      List.all_nil, Bool.and_true, decide_eq_true_eq, orderKey, Prod.Lex.toLex_lt_toLex,
      Nat.cast_lt, Nat.cast_inj, sortValueOf_closing]
    exact or_congr_right (and_congr_left' eq_comm)
  | newest => simp [planOrder, cursorOf, orderKey, Prod.Lex.toLex_lt_toLex]
  | mostBids =>
    simp only [planOrder, cursorOf, Option.map_some, Option.toList_some, List.all_cons,
      List.all_nil, Bool.and_true, decide_eq_true_eq, orderKey, Prod.Lex.toLex_lt_toLex,
      sortValueOf, Nat.cast_lt, Nat.cast_inj]
    omega

theorem orderKey_keyed (sort : AuctionSort) (rows : List AuctionDbRow)
    (hkeyed : (rows.map AuctionDbRow.id).Nodup) : (rows.map (orderKey sort)).Nodup := by
  have hid : rows.Pairwise fun a b => a.id ≠ b.id := List.pairwise_map.mp hkeyed
  refine List.pairwise_map.mpr (hid.imp fun {a b} hne he => hne ?_)
  cases sort <;> simp only [orderKey, toLex_inj, Prod.mk.injEq] at he <;> omega

end Order

def AuctionStore.matching (store : AuctionStore) (q : AuctionQuery) : List AuctionDbRow :=
  store.select (store.conditions toLowerCase q)

section Page

theorem matching_keyed (store : AuctionStore) (q : AuctionQuery) :
    ((store.matching toLowerCase q).map AuctionDbRow.id).Nodup :=
  store.auctions.keyed.sublist (List.filter_sublist.map _)

variable (store : AuctionStore) (q : AuctionQuery) (last : Option AuctionDbRow)

theorem query_found :
    (store.select (store.conditions toLowerCase q ++
      (planOrder q.sort (last.map (cursorOf q.sort))).cursorClause.toList)).insertionSort
        (fun a b => inOrder (planOrder q.sort (last.map (cursorOf q.sort))).orderBy a b) =
      Keyset.sorted (orderKey q.sort)
        (Keyset.after (orderKey q.sort) last (store.matching toLowerCase q)) := by
  have hselect : store.select (store.conditions toLowerCase q ++
      (planOrder q.sort (last.map (cursorOf q.sort))).cursorClause.toList) =
      Keyset.after (orderKey q.sort) last (store.matching toLowerCase q) := by
    rw [AuctionStore.select, Keyset.after, AuctionStore.matching, AuctionStore.select,
      List.filter_filter]
    refine List.filter_congr fun row _ => ?_
    rw [List.all_append, Bool.and_comm]
    congr 1
    cases last with
    | none => cases q.sort <;> rfl
    | some l =>
      rw [Option.map_some, Bool.eq_iff_iff, cursorClause_iff, Option.all_some, decide_eq_true_eq]
  rw [hselect, Keyset.sorted]
  congr 1
  funext a b
  exact propext (inOrder_iff q.sort _ a b)

theorem pageRows_eq {found : List AuctionDbRow} {limit : ℕ} :
    (if decide (limit < (found.take (limit + 1)).length) then (found.take (limit + 1)).take limit
      else found.take (limit + 1)) = found.take limit := by
  by_cases hmore : limit < (found.take (limit + 1)).length
  · rw [if_pos (by simpa using hmore), List.take_take, Nat.min_eq_left (Nat.le_succ limit)]
  · have hlength : found.length ≤ limit := by
      rw [List.length_take] at hmore
      omega
    rw [if_neg (by simpa using hmore), List.take_of_length_le hlength,
      List.take_of_length_le (Nat.le_succ_of_le hlength)]

theorem query_eq :
    store.query toLowerCase { q with cursor := last.map (cursorOf q.sort) } =
      { rows := (Keyset.page (orderKey q.sort) q.limit last
          (store.matching toLowerCase q)).map toListRow
        nextCursor := (Keyset.next (orderKey q.sort) q.limit last
          (store.matching toLowerCase q)).map fun r => encodeCursor (sortValueOf r q.sort) r.id
        totalCount := (store.matching toLowerCase q).length } := by
  have hfound := query_found toLowerCase store q last
  have hconditions : store.conditions toLowerCase { q with cursor := last.map (cursorOf q.sort) } =
      store.conditions toLowerCase q := rfl
  simp only [AuctionStore.query, hconditions, hfound, pageRows_eq]
  refine congrArg₂ (fun rows nextCursor => AuctionPage.mk rows nextCursor _) rfl ?_
  rw [Keyset.next]
  by_cases hmore : q.limit < ((Keyset.sorted (orderKey q.sort) (Keyset.after (orderKey q.sort) last
      (store.matching toLowerCase q))).take (q.limit + 1)).length
  · rw [if_pos (by simpa using hmore), if_pos hmore]
    rfl
  · rw [if_neg (by simpa using hmore), if_neg hmore]
    rfl

end Page

section Walk

/-- A client asks for page after page, with the decoded cursor of the page before; its i-th request
meets store i. -/
inductive Paged (stores : ℕ → AuctionStore) (q : AuctionQuery) :
    ℕ → Option AuctionCursor → List AuctionPage → Prop
  | last {i : ℕ} {cursor : Option AuctionCursor} {page : AuctionPage}
      (answer : (stores i).query toLowerCase { q with cursor := cursor } = page)
      (final : page.nextCursor = none) : Paged stores q i cursor [page]
  | more {i : ℕ} {cursor : Option AuctionCursor} {page : AuctionPage} {rawCursor : String}
      {c : AuctionCursor} {pages : List AuctionPage}
      (answer : (stores i).query toLowerCase { q with cursor := cursor } = page)
      (chained : page.nextCursor = some rawCursor) (decoded : decodeCursor rawCursor = some c)
      (rest : Paged stores q (i + 1) (some c) pages) : Paged stores q i cursor (page :: pages)

variable {toLowerCase} {stores : ℕ → AuctionStore} {i : ℕ} {last : Option AuctionDbRow}

/-- The requests of a client are a walk through the matching rows by key. -/
theorem Paged.walk {cursor : Option AuctionCursor} {pages : List AuctionPage}
    (hp : Paged toLowerCase stores q i cursor pages)
    (hcursor : cursor = last.map (cursorOf q.sort)) :
    ∃ found, Keyset.Walk (orderKey q.sort) q.limit (fun i => (stores i).matching toLowerCase q)
      i last found ∧ pages.map AuctionPage.rows = found.map (List.map toListRow) := by
  induction hp generalizing last with
  | @last i cursor page answer final =>
    subst hcursor
    rw [query_eq] at answer
    subst answer
    exact ⟨_, .last (Option.map_eq_none_iff.mp final), rfl⟩
  | @more i cursor page rawCursor c pages answer chained decoded _ ih =>
    subst hcursor
    rw [query_eq] at answer
    subst answer
    obtain ⟨r, hr, rfl⟩ := Option.map_eq_some_iff.mp chained
    rw [decodeCursor_encodeCursor] at decoded
    cases decoded
    obtain ⟨found, hw, hrows⟩ := @ih (some r) rfl
    exact ⟨_, .more hr hw, by rw [List.map_cons, hrows, List.map_cons]⟩

theorem paged_of_walk {found : List (List AuctionDbRow)}
    (hw : Keyset.Walk (orderKey q.sort) q.limit (fun i => (stores i).matching toLowerCase q)
      i last found) :
    ∃ pages, Paged toLowerCase stores q i (last.map (cursorOf q.sort)) pages := by
  induction hw with
  | last final => exact ⟨_, .last (query_eq ..) (Option.map_eq_none_iff.mpr final)⟩
  | more continued _ ih =>
    obtain ⟨pages, hp⟩ := ih
    exact ⟨_, .more (query_eq ..) (Option.map_eq_some_iff.mpr ⟨_, continued, rfl⟩)
      (decodeCursor_encodeCursor _ _) hp⟩

theorem Paged.totalCount {cursor : Option AuctionCursor} {pages : List AuctionPage}
    (hp : Paged toLowerCase stores q i cursor pages) :
    ∀ page ∈ pages, ∃ j, page.totalCount = ((stores j).matching toLowerCase q).length := by
  induction hp with
  | @last i cursor page answer _ =>
    intro page' hpage
    rw [List.mem_singleton.mp hpage, ← answer]
    exact ⟨i, rfl⟩
  | @more i cursor page _ _ _ answer _ _ _ ih =>
    intro page' hpage
    cases List.mem_cons.mp hpage with
    | inl he =>
      rw [he, ← answer]
      exact ⟨i, rfl⟩
    | inr hrest => exact ih page' hrest

end Walk

section Grows

/-- What is in the store stays as it is; more may be in the later one. -/
structure AuctionStore.Grows (store later : AuctionStore) : Prop where
  auctions : store.auctions.rows ⊆ later.auctions.rows
  bids : store.bids.rows ⊆ later.bids.rows

theorem AuctionStore.Grows.refl (store : AuctionStore) : store.Grows store :=
  ⟨List.Subset.refl _, List.Subset.refl _⟩

theorem AuctionStore.Grows.trans {a b c : AuctionStore} (hab : a.Grows b) (hbc : b.Grows c) :
    a.Grows c :=
  ⟨List.Subset.trans hab.auctions hbc.auctions, List.Subset.trans hab.bids hbc.bids⟩

theorem upsertCore_grows {core : AuctionCore} (hnew : store.hasAuction core.id = false) :
    store.Grows (store.upsertCore core) := by
  have hkey : core.inserted.id ∉ store.auctions.rows.map AuctionDbRow.id := by
    rw [← Table.find_eq_none, ← Option.not_isSome_iff_eq_none, Bool.not_eq_true]
    exact hnew
  have hrows : (store.upsertCore core).auctions.rows = store.auctions.rows ++ [core.inserted] :=
    Table.upsert_new hkey core.updated fun _ => rfl
  exact ⟨hrows ▸ List.subset_append_left _ _, List.Subset.refl _⟩

variable {toLowerCase}

theorem AuctionStore.Grows.matching {later : AuctionStore} (hg : store.Grows later) :
    store.matching toLowerCase q ⊆ later.matching toLowerCase q := by
  have hbidder : ∀ (bidder : String) (row : AuctionDbRow),
      store.bidderCondition bidder row → later.bidderCondition bidder row := by
    intro bidder row hb
    obtain ⟨bid, hbid, he⟩ := List.any_eq_true.mp hb
    exact List.any_eq_true.mpr ⟨bid, hg.bids hbid, he⟩
  intro row hrow
  rw [AuctionStore.matching, AuctionStore.select, List.mem_filter] at hrow ⊢
  refine ⟨hg.auctions hrow.1, ?_⟩
  have hall := hrow.2
  cases hq : q.bidder with
  | none =>
    simp only [AuctionStore.conditions, hq, Option.map_none] at hall ⊢
    exact hall
  | some bidder =>
    simp only [AuctionStore.conditions, hq, Option.map_some, Option.toList_some, List.all_append,
      List.all_cons, List.all_nil, Bool.and_true, Bool.and_eq_true] at hall ⊢
    exact ⟨hall.1, hbidder bidder row hall.2⟩

theorem grows_from {stores : ℕ → AuctionStore} (hgrow : ∀ i, (stores i).Grows (stores (i + 1)))
    (i : ℕ) : (stores 0).Grows (stores i) := by
  induction i with
  | zero => exact .refl _
  | succ i ih => exact ih.trans (hgrow i)

end Grows

/-- With pages of at least one row, every query lists its matching auctions once each and in
order, and still does so for those that matched first when auctions arrive between the pages. -/
theorem pagination_complete (store : AuctionStore) (q : AuctionQuery) (hlimit : 1 ≤ q.limit) :
    (∃ pages, Paged toLowerCase (fun _ => store) q 0 none pages) ∧
    (∀ pages, Paged toLowerCase (fun _ => store) q 0 none pages →
      (∃ found : List AuctionDbRow, found.Perm (store.matching toLowerCase q) ∧
        (found.Pairwise fun a b => inOrder (planOrder q.sort none).orderBy a b) ∧
        pages.flatMap AuctionPage.rows = found.map toListRow) ∧
      ∀ page ∈ pages, page.totalCount = (store.matching toLowerCase q).length) ∧
    ∀ stores : ℕ → AuctionStore, stores 0 = store → (∀ i, (stores i).Grows (stores (i + 1))) →
      (∀ m, (∀ i, m ≤ i → stores i = stores m) →
        ∃ pages, Paged toLowerCase stores q 0 none pages) ∧
      ∀ pages, Paged toLowerCase stores q 0 none pages →
        ∀ row ∈ store.matching toLowerCase q,
          (pages.flatMap AuctionPage.rows).filter (fun r => r.id = row.id) = [toListRow row] := by
  have hkeyed : ∀ (stores : ℕ → AuctionStore) (i : ℕ),
      (((stores i).matching toLowerCase q).map (orderKey q.sort)).Nodup :=
    fun stores i => orderKey_keyed q.sort _ (matching_keyed toLowerCase (stores i) q)
  have hends : ∀ (stores : ℕ → AuctionStore) (m : ℕ), (∀ i, m ≤ i → stores i = stores m) →
      ∃ pages, Paged toLowerCase stores q 0 none pages := by
    intro stores m hm
    have hwalk : ∃ found, Keyset.Walk (orderKey q.sort) q.limit
        (fun i => (stores i).matching toLowerCase q) 0 none found :=
      Keyset.walk_exists (fun j hj => congrArg (fun s => s.matching toLowerCase q) (hm j hj)) 0 none
    obtain ⟨found, hw⟩ := hwalk
    exact paged_of_walk hw
  refine ⟨hends _ 0 fun _ _ => rfl, fun pages hp => ⟨?_, ?_⟩, ?_⟩
  · obtain ⟨found, hw, hrows⟩ := @Paged.walk _ _ _ _ none _ _ hp rfl
    have hflat := hw.constant hlimit (hkeyed (fun _ => store) 0)
    refine ⟨found.flatten, ?_, ?_, ?_⟩
    · rw [hflat]
      exact Keyset.perm_sorted
    · refine (hw.pairwise (hkeyed _)).imp fun {a b} hlt => ?_
      exact (inOrder_iff q.sort none a b).mpr hlt.le
    · rw [List.flatMap_def, hrows, List.map_flatten]
  · intro page hpage
    obtain ⟨_, htotal⟩ := hp.totalCount page hpage
    exact htotal
  · intro stores hstores hgrow
    refine ⟨hends stores, fun pages hp row hrow => ?_⟩
    subst hstores
    obtain ⟨found, hw, hrows⟩ := @Paged.walk _ _ _ _ none _ _ hp rfl
    have hmem : row ∈ found.flatten :=
      hw.complete hlimit (hkeyed stores) (fun i => (hgrow i).matching) row (by rwa [Keyset.after_none])
    have hnodup : found.flatten.Nodup :=
      (hw.pairwise (hkeyed stores)).imp fun hlt he => absurd (he ▸ hlt) (lt_irrefl _)
    have hone : found.flatten.filter (fun r => r.id = row.id) = [row] := by
      have hsame : ∀ r ∈ found.flatten, decide (r.id = row.id) = decide (r = row) := by
        intro r hr
        obtain ⟨⟨j, hj⟩, -⟩ := hw.mem r hr
        rw [decide_eq_decide]
        refine ⟨fun hid => ?_, fun he => by rw [he]⟩
        exact List.inj_on_of_nodup_map (matching_keyed toLowerCase (stores j) q) hj
          ((grows_from hgrow j).matching hrow) hid
      rw [List.filter_congr hsame, List.filter_eq, List.count_eq_one_of_mem hnodup hmem,
        List.replicate_one]
    rw [List.flatMap_def, hrows, ← List.map_flatten, List.filter_map]
    exact congrArg (List.map toListRow) hone

/-- Three auctions in pages of one, the most bids first: two of them share a count. -/
theorem pagination_complete_witness :
    let core : ℕ → AuctionCore := fun id => ⟨id, "G", "C", "RWA", "7", "C", "USD", "5", 10, 3, .Open,
      false⟩
    let store := (((AuctionStore.empty.upsertCore (core 1)).upsertCore (core 2)).upsertCore
      (core 3)).recordBid 2 0 "G"
    let q : AuctionQuery := ⟨[], none, some "rw", none, .mostBids, 1, none⟩
    ∃ pages, Paged id (fun _ => store) q 0 none pages ∧
      (pages.flatMap AuctionPage.rows).length = 3 := by
  intro core store q
  obtain ⟨hends, hpages, -⟩ := pagination_complete id store q (Nat.le_refl 1)
  obtain ⟨pages, hp⟩ := hends
  obtain ⟨⟨found, hperm, -, hrows⟩, -⟩ := hpages pages hp
  refine ⟨pages, hp, ?_⟩
  rw [hrows, List.length_map, hperm.length_eq]
  decide +kernel

end SealedStellar
