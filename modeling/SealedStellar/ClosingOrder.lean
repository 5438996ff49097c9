import SealedStellar.LifecycleInvariant
import SealedStellar.Pagination
import SealedStellar.Sac
import SealedStellar.Lib.PackedKey

/-! The closing-soonest order packs "open first" and the deadline into one number. Deadlines are
any u64, and the multiplier keeps the two apart only below 1e13. -/
namespace SealedStellar.Indexer
open PackedKey
variable {W : Type}

/-- The rows of the store are those of the contract's auctions. -/
structure Indexed (s : State W) (store : AuctionStore) : Prop where
  row : ∀ row ∈ store.auctions.rows, ∃ auction, s.auctions row.id = some auction ∧
    row.status = statusName auction.status ∧ row.commitDeadline = auction.commitDeadline
  auction : ∀ k auction, s.auctions k = some auction → ∃ row ∈ store.auctions.rows, row.id = k

def closingPair (row : AuctionDbRow) : ℕ × ℕ :=
  (if row.status = "Open" then 0 else 1, row.commitDeadline)

theorem closingSortExpr_eq (row : AuctionDbRow) :
    closingSortExpr row = pack openRankMultiplier (closingPair row) := rfl

def openRank (status : AuctionStatus) : ℕ := if status = .Open then 0 else 1

/-- Open auctions first, then by deadline, then by id. -/
def ListedBefore (a b : AuctionListRow) : Prop :=
  toLex (openRank a.status, toLex (a.commitDeadlineSeconds, a.id)) ≤
    toLex (openRank b.status, toLex (b.commitDeadlineSeconds, b.id))

structure ClosingExact (toLowerCase : String → String) (store : AuctionStore) : Prop where
  packed : ∀ a ∈ store.auctions.rows, ∀ b ∈ store.auctions.rows,
    closingSortExpr a ≤ closingSortExpr b ↔ toLex (closingPair a) ≤ toLex (closingPair b)
  listed : ∀ (q : AuctionQuery) (pages : List AuctionPage), q.sort = .closingSoonest → 1 ≤ q.limit →
    Paged toLowerCase (fun _ => store) q 0 none pages →
    (pages.flatMap AuctionPage.rows).Pairwise ListedBefore

section Rows
variable {s : State W} {store : AuctionStore} {a b : AuctionDbRow}

theorem closingPair_rank {status : AuctionStatus} (h : a.status = statusName status) :
    (closingPair a).1 = openRank status ∧ (toListRow a).status = status := by
  rw [closingPair, toListRow, h]
  refine ⟨?_, parseStatus_statusName status⟩
  cases status <;> rfl

theorem listed_of_order (hab : closingSortExpr a ≤ closingSortExpr b ↔
      toLex (closingPair a) ≤ toLex (closingPair b))
    (hba : closingSortExpr b ≤ closingSortExpr a ↔ toLex (closingPair b) ≤ toLex (closingPair a))
    (ha : (closingPair a).1 = openRank (toListRow a).status)
    (hb : (closingPair b).1 = openRank (toListRow b).status)
    (horder : orderKey .closingSoonest a ≤ orderKey .closingSoonest b) :
    ListedBefore (toListRow a) (toListRow b) := by
  have hfields : ∀ row : AuctionDbRow, (toListRow row).commitDeadlineSeconds = (closingPair row).2 ∧
      (toListRow row).id = row.id := fun _ => ⟨rfl, rfl⟩
  rw [Prod.Lex.toLex_le_toLex] at hab hba
  simp only [orderKey, Prod.Lex.toLex_le_toLex, Nat.cast_lt, Nat.cast_inj, Nat.cast_le] at horder
  simp only [ListedBefore, ← ha, ← hb, hfields, Prod.Lex.toLex_le_toLex]
  cases horder with
  | inl hlt =>
    have hnot := mt hba.mpr (not_le.mpr hlt)
    omega
  | inr heq =>
    have hle := hab.mp heq.1.le
    have hge := hba.mp heq.1.ge
    omega

def auctionPair (auction : Auction) : ℕ × ℕ := (openRank auction.status, auction.commitDeadline)

theorem Indexed.pair (hindexed : Indexed s store) {row : AuctionDbRow}
    (hrow : row ∈ store.auctions.rows) : ∃ auction, s.auctions row.id = some auction ∧
      closingPair row = auctionPair auction ∧ (toListRow row).status = auction.status := by
  obtain ⟨auction, ha, hstatus, hdeadline⟩ := hindexed.row row hrow
  have hrank := closingPair_rank hstatus
  exact ⟨auction, ha, Prod.ext hrank.1 hdeadline, hrank.2⟩

theorem Indexed.pairs (hindexed : Indexed s store) (x : ℕ × ℕ) :
    (∃ row ∈ store.auctions.rows, closingPair row = x) ↔
      ∃ k auction, s.auctions k = some auction ∧ auctionPair auction = x := by
  constructor
  · rintro ⟨row, hrow, rfl⟩
    obtain ⟨auction, ha, hpair, -⟩ := hindexed.pair hrow
    exact ⟨row.id, auction, ha, hpair.symm⟩
  · rintro ⟨k, auction, ha, rfl⟩
    obtain ⟨row, hrow, rfl⟩ := hindexed.auction k auction ha
    obtain ⟨auction', ha', hpair, -⟩ := hindexed.pair hrow
    rw [ha] at ha'
    cases ha'
    exact ⟨row, hrow, hpair⟩

theorem fits_iff (a b : Auction) : Fits openRankMultiplier (auctionPair a) (auctionPair b) ↔
    (a.status = .Open → b.status ≠ .Open →
      a.commitDeadline < b.commitDeadline + openRankMultiplier) := by
  cases ha : a.status <;> cases hb : b.status <;> simp [Fits, auctionPair, openRank, ha, hb]

theorem packed_iff (hindexed : Indexed s store) :
    (∀ a ∈ store.auctions.rows, ∀ b ∈ store.auctions.rows,
      closingSortExpr a ≤ closingSortExpr b ↔ toLex (closingPair a) ≤ toLex (closingPair b)) ↔
    ∀ i j a b, s.auctions i = some a → s.auctions j = some b → a.status = .Open → b.status ≠ .Open →
      a.commitDeadline < b.commitDeadline + openRankMultiplier := by
  have horder := @pack_order_iff openRankMultiplier
    {x | ∃ row ∈ store.auctions.rows, closingPair row = x}
  constructor
  · intro hpacked i j a b hi hj
    have hfits := horder.mp (by
      rintro _ ⟨a, ha, rfl⟩ _ ⟨b, hb, rfl⟩
      exact hpacked a ha b hb)
    exact (fits_iff a b).mp (hfits _ ((hindexed.pairs _).mpr ⟨i, a, hi, rfl⟩) _
      ((hindexed.pairs _).mpr ⟨j, b, hj, rfl⟩))
  · intro hclose a ha b hb
    rw [closingSortExpr_eq, closingSortExpr_eq]
    refine horder.mpr (fun x hx y hy => ?_) _ ⟨a, ha, rfl⟩ _ ⟨b, hb, rfl⟩
    obtain ⟨i, a, hi, rfl⟩ := (hindexed.pairs x).mp hx
    obtain ⟨j, b, hj, rfl⟩ := (hindexed.pairs y).mp hy
    exact (fits_iff a b).mpr (hclose i j a b hi hj)

end Rows

/-- The closing-soonest order is right on the auctions of a contract state exactly when no open
auction closes 1e13 seconds or more after one that is settled or refunded. -/
theorem closing_order_iff (toLowerCase : String → String) (s : State W) (store : AuctionStore)
    (hindexed : Indexed s store) : ClosingExact toLowerCase store ↔
      ∀ i j a b, s.auctions i = some a → s.auctions j = some b → a.status = .Open →
        b.status ≠ .Open → a.commitDeadline < b.commitDeadline + openRankMultiplier := by
  constructor
  · exact fun hexact => (packed_iff hindexed).mp hexact.packed
  · intro hclose
    have hpacked := (packed_iff hindexed).mpr hclose
    refine ⟨hpacked, fun q pages hsort hlimit hp => ?_⟩
    obtain ⟨⟨found, hperm, hsorted, hrows⟩, -⟩ :=
      (pagination_complete toLowerCase store q hlimit).2.1 pages hp
    have hmem : ∀ row ∈ found, row ∈ store.auctions.rows :=
      fun row hrow => (List.mem_filter.mp (hperm.mem_iff.mp hrow)).1
    have hrank : ∀ row ∈ found, (closingPair row).1 = openRank (toListRow row).status := by
      intro row hrow
      obtain ⟨auction, -, hpair, hstatus⟩ := hindexed.pair (hmem row hrow)
      rw [hpair, hstatus, auctionPair]
    rw [hrows, List.pairwise_map]
    refine hsorted.imp_of_mem fun {a b} ha hb horder => ?_
    rw [inOrder_iff, hsort] at horder
    exact listed_of_order (hpacked a (hmem a ha) b (hmem b hb)) (hpacked b (hmem b hb) a (hmem a ha))
      (hrank a ha) (hrank b hb) horder

section Sample

def openAndRefunded (deadline : ℕ) : State SacState :=
  let seller : Address := .account (keyOf 2)
  let args : ℕ → CreateArgs := fun commitDeadline => ⟨seller, .contract (keyOf 10), 7,
    .contract (keyOf 11), 5, commitDeadline, 3, 0, keyOf 9⟩
  runFrom (sacHost (.contract (keyOf 0)) (fun _ _ _ => some true) firstInput)
    ⟨.contract (keyOf 1), evenTokens 100, 0, 1⟩
    [.call [seller] (.createAuction (args deadline)), .call [seller] (.createAuction (args 10)),
      .closeLedger 20 2, .call [] (.refundAll 2)]

def openAndRefundedStore (deadline : ℕ) : AuctionStore :=
  ((AuctionStore.empty.upsertCore ⟨1, "G", "C", "RWA", "7", "C", "USD", "5", deadline, 3, .Open,
    false⟩).upsertCore ⟨2, "G", "C", "RWA", "7", "C", "USD", "5", 10, 3, .Refunded, true⟩)

def openRow (deadline : ℕ) : AuctionDbRow :=
  ⟨1, "G", "C", "RWA", "7", "C", "USD", "5", deadline, 3, "Open", 0, 0, none, none, none⟩

def refundedRow : AuctionDbRow :=
  ⟨2, "G", "C", "RWA", "7", "C", "USD", "5", 10, 3, "Refunded", 0, 1, none, none, none⟩

theorem openAndRefundedStore_rows (deadline : ℕ) :
    (openAndRefundedStore deadline).auctions.rows = [openRow deadline, refundedRow] := rfl

def statusAndDeadline (auction : Auction) : AuctionStatus × ℕ :=
  (auction.status, auction.commitDeadline)

structure TwoAuctions (deadline : ℕ) : Prop where
  first : ((openAndRefunded deadline).auctions 1).map statusAndDeadline = some (.Open, deadline)
  second : ((openAndRefunded deadline).auctions 2).map statusAndDeadline = some (.Refunded, 10)
  next : (openAndRefunded deadline).nextId = 3

variable {deadline : ℕ}

theorem TwoAuctions.ids (h : TwoAuctions deadline) {k : ℕ} {auction : Auction}
    (hk : (openAndRefunded deadline).auctions k = some auction) :
    (k = 1 ∧ statusAndDeadline auction = (.Open, deadline)) ∨
      (k = 2 ∧ statusAndDeadline auction = (.Refunded, 10)) := by
  have hrange : 1 ≤ k ∧ k < (openAndRefunded deadline).nextId :=
    (run_intact _ _).ids k |>.mp ⟨auction, hk⟩
  rw [h.next] at hrange
  have hid : k = 1 ∨ k = 2 := by omega
  refine hid.imp (fun he => ⟨he, ?_⟩) fun he => ⟨he, ?_⟩
  · have hfirst := h.first
    rw [he] at hk
    rw [hk] at hfirst
    exact Option.some.inj hfirst
  · have hsecond := h.second
    rw [he] at hk
    rw [hk] at hsecond
    exact Option.some.inj hsecond

theorem TwoAuctions.indexed (h : TwoAuctions deadline) :
    Indexed (openAndRefunded deadline) (openAndRefundedStore deadline) := by
  obtain ⟨first, hfirst, he1⟩ := Option.map_eq_some_iff.mp h.first
  obtain ⟨second, hsecond, he2⟩ := Option.map_eq_some_iff.mp h.second
  rw [statusAndDeadline, Prod.mk.injEq] at he1 he2
  refine ⟨fun row hrow => ?_, fun k auction hk => ?_⟩
  · rw [openAndRefundedStore_rows, List.mem_pair] at hrow
    cases hrow with
    | inl h => exact h ▸ ⟨first, hfirst, by rw [he1.1]; rfl, he1.2.symm⟩
    | inr h => exact h ▸ ⟨second, hsecond, by rw [he2.1]; rfl, he2.2.symm⟩
  · rw [openAndRefundedStore_rows]
    cases h.ids hk with
    | inl h => exact ⟨openRow deadline, List.mem_cons_self, h.1.symm⟩
    | inr h => exact ⟨refundedRow, List.mem_cons_of_mem _ List.mem_cons_self, h.1.symm⟩

end Sample

theorem closing_order_iff_witness : ClosingExact id (openAndRefundedStore 30) := by
  have htwo : TwoAuctions 30 := ⟨by decide +kernel, by decide +kernel, by decide +kernel⟩
  refine (closing_order_iff id (openAndRefunded 30) _ htwo.indexed).mpr ?_
  intro i j a b hi _ _ _
  have hdeadline : a.commitDeadline < openRankMultiplier := by
    cases htwo.ids hi with
    | inl h => exact (congrArg Prod.snd h.2).trans_lt (by decide)
    | inr h => exact (congrArg Prod.snd h.2).trans_lt (by decide)
  omega

/-- An auction that is open until 2e13 is listed after one that closed at 10. -/
theorem open_listed_last :
    Indexed (openAndRefunded 20000000000000) (openAndRefundedStore 20000000000000) ∧
    ((openAndRefundedStore 20000000000000).query id ⟨[], none, none, none, .closingSoonest, 24,
      none⟩).rows.map (fun row => (row.id, row.status)) = [(2, .Refunded), (1, .Open)] ∧
    ¬ ClosingExact id (openAndRefundedStore 20000000000000) := by
  have htwo : TwoAuctions 20000000000000 := ⟨by decide +kernel, by decide +kernel, by decide +kernel⟩
  refine ⟨htwo.indexed, by decide +kernel, fun hexact => ?_⟩
  have hpacked := hexact.packed (openRow 20000000000000) List.mem_cons_self refundedRow
    (List.mem_cons_of_mem _ List.mem_cons_self)
  exact absurd (hpacked.mpr (by decide)) (by decide)

end SealedStellar.Indexer
