import SealedStellar.LifecycleInvariant
import SealedStellar.Sac
import SealedStellar.WebChain

/-! The probe loop of listAuctions against the contract: the error that ends the id space is also
one that the token of an auction can give. -/
namespace SealedStellar.Web
open Checked Indexer

section Symbols
variable (view : ChainView)

def SameSymbols (cache cache' : String → Option String) : Prop :=
  ∀ token, (getTokenSymbol view cache' token).1 = (getTokenSymbol view cache token).1

variable {view} {cache cache' cache'' : String → Option String}

theorem SameSymbols.trans (h : SameSymbols view cache cache') (h' : SameSymbols view cache' cache'') :
    SameSymbols view cache cache'' := fun token => (h' token).trans (h token)

theorem cache_after (token : String) : (getTokenSymbol view cache token).2 = cache ∨
    cache token = none ∧ ∃ symbol, simulateView (view.tokens.symbol token) = .ok (some symbol) ∧
      (getTokenSymbol view cache token).2 = Function.update cache token (some symbol) := by
  rw [getTokenSymbol, Indexer.getTokenSymbol]
  cases hcache : cache token with
  | some cached => exact .inl rfl
  | none =>
    cases hanswer : simulateView (view.tokens.symbol token) with
    | error e => exact .inl rfl
    | ok symbol =>
      cases symbol with
      | none => exact .inl rfl
      | some symbol => exact .inr ⟨rfl, symbol, rfl, rfl⟩

/-- What a read caches, a later read would have found anyway. -/
theorem getTokenSymbol_same (token : String) :
    SameSymbols view cache (getTokenSymbol view cache token).2 := by
  intro other
  cases @cache_after view cache token with
  | inl hsame => rw [hsame]
  | inr hfound =>
    obtain ⟨hcache, symbol, hanswer, hupdate⟩ := hfound
    rw [hupdate]
    by_cases hother : other = token
    · subst hother
      simp only [getTokenSymbol, Indexer.getTokenSymbol, Function.update_self, hcache, hanswer]
    · simp only [getTokenSymbol, Indexer.getTokenSymbol, Function.update_of_ne hother]
      cases cache other with
      | some cached => rfl
      | none =>
        cases simulateView (view.tokens.symbol other) with
        | error e => rfl
        | ok answer => cases answer <;> rfl

def symbolOf (view : ChainView) (cache : String → Option String) (token : String) :
    Except ChainError String := (getTokenSymbol view cache token).1

def fetchedAuction (view : ChainView) (cache : String → Option String) (auctionId : ℕ) :
    Except ChainError AuctionView := do
  let (rawRecord, status) ← readRecord view auctionId
  let lotSymbol ← symbolOf view cache rawRecord.rwaToken
  let paymentSymbol ← symbolOf view cache rawRecord.paymentToken
  return viewOf auctionId rawRecord status lotSymbol paymentSymbol

theorem getAuction_spec (auctionId : ℕ) :
    (getAuction view cache auctionId).1 = fetchedAuction view cache auctionId ∧
      SameSymbols view cache (getAuction view cache auctionId).2 := by
  have hrefl : SameSymbols view cache cache := fun _ => rfl
  rw [getAuction, fetchedAuction]
  cases hrecord : readRecord view auctionId with
  | error e => exact ⟨rfl, hrefl⟩
  | ok read =>
    obtain ⟨rawRecord, status⟩ := read
    have hlotSame := @getTokenSymbol_same view cache rawRecord.rwaToken
    simp only [symbolOf, bind, Except.bind]
    cases hlot : getTokenSymbol view cache rawRecord.rwaToken with
    | mk lotResult cache1 =>
      rw [hlot] at hlotSame
      cases lotResult with
      | error e => exact ⟨rfl, hlotSame⟩
      | ok lotSymbol =>
        have hpaySame := hlotSame.trans (@getTokenSymbol_same view cache1 rawRecord.paymentToken)
        have hpayResult := hlotSame rawRecord.paymentToken
        simp only
        rw [← hpayResult]
        cases hpay : getTokenSymbol view cache1 rawRecord.paymentToken with
        | mk payResult cache2 =>
          rw [hpay] at hpaySame
          cases payResult with
          | error e => exact ⟨rfl, hpaySame⟩
          | ok paymentSymbol => exact ⟨rfl, hpaySame⟩

theorem fetchedAuction_same (h : SameSymbols view cache cache') (auctionId : ℕ) :
    fetchedAuction view cache' auctionId = fetchedAuction view cache auctionId := by
  simp only [fetchedAuction, symbolOf, h _]

end Symbols

section Probe
variable {view : ChainView} {cache : String → Option String}

def Fetched (view : ChainView) (cache : String → Option String) (ids : List ℕ)
    (views : List AuctionView) : Prop :=
  List.Forall₂ (fun k v => fetchedAuction view cache k = .ok v) ids views

theorem fetched_exists {ids : List ℕ} (hids : ∀ k ∈ ids, ∃ v, fetchedAuction view cache k = .ok v) :
    ∃ views, Fetched view cache ids views := by
  induction ids with
  | nil => exact ⟨[], .nil⟩
  | cons k ids ih =>
    obtain ⟨v, hv⟩ := hids k List.mem_cons_self
    obtain ⟨views, hviews⟩ := ih fun j hj => hids j (List.mem_cons_of_mem k hj)
    exact ⟨v :: views, .cons hv hviews⟩

/-- The loop collects the auctions that it can read, and then meets the next one. -/
theorem probe_append {pre : List ℕ} {views : List AuctionView} (hpre : Fetched view cache pre views)
    (rest : List ℕ) (collected : List AuctionView) : ∃ cache', SameSymbols view cache cache' ∧
      probe view (pre ++ rest) collected cache = probe view rest (collected ++ views) cache' := by
  induction pre generalizing collected cache views with
  | nil =>
    cases hpre
    exact ⟨cache, fun _ => rfl, by rw [List.append_nil, List.nil_append]⟩
  | cons k pre ih =>
    cases hpre with
    | @cons _ v _ views hk hrest =>
      obtain ⟨hresult, hsame⟩ := @getAuction_spec view cache k
      have hrest' : Fetched view (getAuction view cache k).2 pre views := by
        simpa only [Fetched, fetchedAuction_same hsame] using hrest
      obtain ⟨cache', hsame', hprobe⟩ := ih hrest' (collected ++ [v])
      refine ⟨cache', hsame.trans hsame', ?_⟩
      have hread : getAuction view cache k = (.ok v, (getAuction view cache k).2) :=
        Prod.ext (hresult.trans hk) rfl
      rw [List.cons_append, probe, hread]
      simp only
      rw [hprobe, List.append_assoc, List.singleton_append]

def ended (collected : List AuctionView) : ChainError → Except ChainError (List AuctionView)
  | .contract_error _ => .ok collected
  | e => .error e

theorem probe_error {k : ℕ} {e : ChainError} (hk : fetchedAuction view cache k = .error e)
    (rest : List ℕ) (collected : List AuctionView) :
    probe view (k :: rest) collected cache = ended collected e := by
  have hresult := (@getAuction_spec view cache k).1
  rw [hk] at hresult
  have hread : getAuction view cache k = (.error e, (getAuction view cache k).2) :=
    Prod.ext hresult rfl
  rw [probe, hread]
  cases e <;> rfl

theorem listAuctions_all {views : List AuctionView}
    (hall : Fetched view cache (List.range' 1 maxAuctionProbes) views) :
    listAuctions view cache = .ok views := by
  obtain ⟨cache', -, hprobe⟩ := probe_append hall [] []
  rw [List.append_nil] at hprobe
  rw [listAuctions, hprobe, List.nil_append, probe]

theorem listAuctions_ended {n : ℕ} {views : List AuctionView} {e : ChainError}
    (hn : 1 ≤ n ∧ n ≤ maxAuctionProbes) (hpre : Fetched view cache (List.range' 1 (n - 1)) views)
    (hk : fetchedAuction view cache n = .error e) : listAuctions view cache = ended views e := by
  have hids : List.range' 1 maxAuctionProbes =
      List.range' 1 (n - 1) ++ n :: List.range' (n + 1) (maxAuctionProbes - n) := by
    have hcut : maxAuctionProbes = (n - 1) + (1 + (maxAuctionProbes - n)) := by omega
    have hnext : 1 + 1 * (n - 1) = n := by omega
    conv_lhs => rw [hcut]
    rw [← List.range'_append, ← List.range'_append, hnext]
    simp
  obtain ⟨cache', hsame, hprobe⟩ :=
    probe_append hpre (n :: List.range' (n + 1) (maxAuctionProbes - n)) []
  rw [listAuctions, hids, hprobe, List.nil_append]
  exact probe_error ((fetchedAuction_same hsame n).trans hk) _ views

end Probe

section Contract
variable {W : Type} {h : Host W} {strKey : StrKey} {s : State W}

def rawRecord (strKey : StrKey) (auction : Auction) : RawAuctionRecord where
  seller := strKey.encode auction.seller
  rwaToken := strKey.encode auction.rwaToken
  lotAmount := auction.lotAmount
  paymentToken := strKey.encode auction.paymentToken
  maxPrice := auction.maxPrice
  commitDeadline := auction.commitDeadline
  gracePeriod := auction.gracePeriod
  status := .array [statusName auction.status]
  bids := auction.bids.map fun bid => ⟨strKey.encode bid.bidder, bid.commitment.toNat⟩
  lotReclaimed := auction.lotReclaimed
  operatorEncPubkey := auction.operatorEncPubkey.toList
  whitelistRoot := auction.whitelistRoot.toNat

def candidate (r : RawAuctionRecord) : Candidate :=
  ⟨some r.seller, some r.rwaToken, some r.lotAmount, some r.paymentToken, some r.maxPrice,
    some r.commitDeadline, r.gracePeriod, r.status, some r.bids, r.lotReclaimed, r.operatorEncPubkey,
    r.whitelistRoot⟩

/-- The server answers every request: for the auctions from the contract in state s, and for the
symbols what the tokens give. -/
structure ChainView.Answers (view : ChainView) (strKey : StrKey) (s : State W) : Prop where
  found : ∀ k auction, s.auctions k = some auction →
    view.auction k = .result (candidate (rawRecord strKey auction))
  missing : ∀ k, s.auctions k = none → ∃ text, view.auction k = .error text ∧
    parseContractErrorCode text = some auctionNotFoundCode
  answered : ∀ token detail, view.symbol token ≠ .unreachable detail

variable {view : ChainView} {cache : String → Option String} {k : ℕ} {auction : Auction}

theorem readRecord_found (hview : view.Answers strKey s) (hk : s.auctions k = some auction) :
    readRecord view k = .ok (rawRecord strKey auction, auction.status) := by
  have hstatus : decodeStatus (rawRecord strKey auction).status = .ok auction.status :=
    okOr_eq_ok.mpr (decodeStatus_array auction.status)
  simp only [readRecord, hview.found k auction hk, bind_eq_ok, pure_eq_ok, okOr_eq_ok]
  exact ⟨_, rfl, _, rfl, _, hstatus, rfl⟩

theorem fetched_missing (hview : view.Answers strKey s) (hk : s.auctions k = none) :
    fetchedAuction view cache k = .error (.contract_error auctionNotFoundCode) := by
  obtain ⟨text, htext, hcode⟩ := hview.missing k hk
  simp only [fetchedAuction, readRecord, simulateContractView, htext, simulateView, hcode]
  rfl

def Refuses (view : ChainView) (cache : String → Option String) (token : String) : Prop :=
  cache token = none ∧ ∃ text, view.symbol token = .error text ∧
    (parseContractErrorCode text).isSome

theorem symbolOf_cases (token : String) :
    (view.tokens.Symbol cache token ∧ ∃ symbol, symbolOf view cache token = .ok symbol) ∨
    (¬ view.tokens.Symbol cache token ∧ ∃ e, symbolOf view cache token = .error e ∧
      ((∃ code, e = .contract_error code) ↔ Refuses view cache token)) := by
  have hsymbol := @getTokenSymbol_ok view.tokens cache token
  rw [← hsymbol]
  rw [symbolOf, Refuses, getTokenSymbol, Indexer.getTokenSymbol, ChainView.tokens]
  cases hcache : cache token with
  | some cached => exact .inl ⟨⟨cached, rfl⟩, cached, rfl⟩
  | none =>
    cases hanswer : view.symbol token with
    | unreachable detail => simp [simulateView, hanswer]
    | noResult => simp [simulateView, hanswer]
    | result symbol => cases symbol <;> simp [simulateView, hanswer]
    | error text =>
      cases hcode : parseContractErrorCode text <;> simp [simulateView, hanswer, hcode]

def Readable (view : ChainView) (cache : String → Option String) (strKey : StrKey)
    (auction : Auction) : Prop :=
  view.tokens.Symbol cache (strKey.encode auction.rwaToken) ∧
    view.tokens.Symbol cache (strKey.encode auction.paymentToken)

def EndsTheList (view : ChainView) (cache : String → Option String) (strKey : StrKey)
    (auction : Auction) : Prop :=
  Refuses view cache (strKey.encode auction.rwaToken) ∨
    view.tokens.Symbol cache (strKey.encode auction.rwaToken) ∧
      Refuses view cache (strKey.encode auction.paymentToken)

theorem Refuses.not_symbol {token : String} (h : Refuses view cache token) :
    ¬ view.tokens.Symbol cache token := by
  obtain ⟨hcache, text, htext, -⟩ := h
  rw [ChainView.Symbol, hcache]
  simp [ChainView.tokens, htext]

theorem fetched_readable (hview : view.Answers strKey s) (hk : s.auctions k = some auction)
    (hread : Readable view cache strKey auction) :
    ∃ v, fetchedAuction view cache k = .ok v ∧ v.id = k := by
  obtain ⟨-, lotSymbol, hlot⟩ := (symbolOf_cases _).resolve_right fun hc => hc.1 hread.1
  obtain ⟨-, paymentSymbol, hpay⟩ := (symbolOf_cases _).resolve_right fun hc => hc.1 hread.2
  have hrecord := readRecord_found hview hk
  refine ⟨viewOf k (rawRecord strKey auction) auction.status lotSymbol paymentSymbol, ?_, rfl⟩
  simp only [fetchedAuction, bind_eq_ok, pure_eq_ok]
  exact ⟨_, hrecord, lotSymbol, hlot, paymentSymbol, hpay, rfl⟩

theorem fetched_unreadable (hview : view.Answers strKey s) (hk : s.auctions k = some auction)
    (hread : ¬ Readable view cache strKey auction) :
    ∃ e, fetchedAuction view cache k = .error e ∧
      ((∃ code, e = .contract_error code) ↔ EndsTheList view cache strKey auction) := by
  have hrecord := readRecord_found hview hk
  have hlotToken : (rawRecord strKey auction).rwaToken = strKey.encode auction.rwaToken := rfl
  have hpayToken : (rawRecord strKey auction).paymentToken = strKey.encode auction.paymentToken := rfl
  rw [fetchedAuction, hrecord, EndsTheList]
  simp only [bind, Except.bind, hlotToken, hpayToken]
  cases @symbolOf_cases view cache (strKey.encode auction.rwaToken) with
  | inr hlot =>
    obtain ⟨hno, e, he, hiff⟩ := hlot
    refine ⟨e, by rw [he], ?_⟩
    rw [hiff]
    exact ⟨.inl, fun hor => hor.resolve_right fun hc => hno hc.1⟩
  | inl hlot =>
    obtain ⟨hyes, lotSymbol, hlot⟩ := hlot
    obtain ⟨-, e, he, hiff⟩ := (@symbolOf_cases view cache
      (strKey.encode auction.paymentToken)).resolve_left fun hc => hread ⟨hyes, hc.1⟩
    refine ⟨e, by rw [hlot, he], ?_⟩
    rw [hiff]
    exact ⟨fun hpay => .inr ⟨hyes, hpay⟩, fun hor => (hor.resolve_left fun hc => hc.not_symbol hyes).2⟩

end Contract

section Listing
variable {W : Type} {h : Host W} {strKey : StrKey} {s : State W} {view : ChainView}
variable {cache : String → Option String} {k n : ℕ} {auction : Auction}

def ListsReadable (view : ChainView) (cache : String → Option String) (strKey : StrKey)
    (s : State W) : Prop :=
  ∃ views, listAuctions view cache = .ok views ∧ ∀ k auction, k ≤ maxAuctionProbes →
    s.auctions k = some auction → Readable view cache strKey auction → ∃ v ∈ views, v.id = k

structure FirstUnreadable (view : ChainView) (cache : String → Option String) (strKey : StrKey)
    (s : State W) (n : ℕ) (auction : Auction) : Prop where
  stored : s.auctions n = some auction
  unreadable : ¬ Readable view cache strKey auction
  first : ∀ k before, k < n → s.auctions k = some before → Readable view cache strKey before

theorem fetched_before (hview : view.Answers strKey s)
    (hids : ∀ k, (∃ auction, s.auctions k = some auction) ↔ 1 ≤ k ∧ k < s.nextId)
    (hn : n ≤ max s.nextId 1)
    (hall : ∀ k auction, k < n → s.auctions k = some auction → Readable view cache strKey auction) :
    ∃ views, Fetched view cache (List.range' 1 (n - 1)) views := by
  refine fetched_exists fun k hk => ?_
  rw [List.mem_range'_1] at hk
  obtain ⟨auction, ha⟩ := (hids k).mpr ⟨hk.1, by omega⟩
  obtain ⟨v, hv, -⟩ := fetched_readable hview ha (hall k auction (by omega) ha)
  exact ⟨v, hv⟩

theorem fetched_listed (hview : view.Answers strKey s) {ids : List ℕ} {views : List AuctionView}
    (hviews : Fetched view cache ids views) (hk : k ∈ ids) (ha : s.auctions k = some auction)
    (hread : Readable view cache strKey auction) : ∃ v ∈ views, v.id = k := by
  obtain ⟨v, hmem, hv⟩ := Checked.result_of_mem hviews hk
  obtain ⟨v', hv', hid⟩ := fetched_readable hview ha hread
  rw [hv] at hv'
  cases hv'
  exact ⟨v, hmem, hid⟩

theorem listed_fetched {ids : List ℕ} {views : List AuctionView}
    (hviews : Fetched view cache ids views) {v : AuctionView} (hv : v ∈ views) : v.id ∈ ids := by
  obtain ⟨k, hk, hfetched⟩ := Checked.source_of_mem hviews hv
  have hid : v.id = k := by
    simp only [fetchedAuction, bind_eq_ok, pure_eq_ok] at hfetched
    obtain ⟨_, -, _, -, _, -, rfl⟩ := hfetched
    rfl
  exact hid ▸ hk

theorem lists_all (hview : view.Answers strKey s)
    (hids : ∀ k, (∃ auction, s.auctions k = some auction) ↔ 1 ≤ k ∧ k < s.nextId)
    (hall : ∀ k auction, k ≤ maxAuctionProbes → s.auctions k = some auction →
      Readable view cache strKey auction) : ListsReadable view cache strKey s := by
  by_cases hmany : maxAuctionProbes < s.nextId
  · obtain ⟨views, hviews⟩ := @fetched_before _ strKey s view cache (maxAuctionProbes + 1) hview hids
      (by omega) fun k auction hk => hall k auction (by omega)
    rw [Nat.add_sub_cancel] at hviews
    refine ⟨views, listAuctions_all hviews, fun k auction hk ha hread => ?_⟩
    have hpos := ((hids k).mp ⟨auction, ha⟩).1
    exact fetched_listed hview hviews (List.mem_range'_1.mpr ⟨hpos, by omega⟩) ha hread
  · obtain ⟨views, hviews⟩ := @fetched_before _ strKey s view cache (max s.nextId 1) hview hids
      le_rfl fun k auction hk ha => hall k auction (by omega) ha
    have hmissing : s.auctions (max s.nextId 1) = none := by
      by_contra hsome
      have hlast := (hids (max s.nextId 1)).mp (Option.ne_none_iff_exists'.mp hsome)
      omega
    have hprobed : 1 ≤ max s.nextId 1 ∧ max s.nextId 1 ≤ maxAuctionProbes := by
      have hfifty : maxAuctionProbes = 50 := rfl
      omega
    refine ⟨views, listAuctions_ended hprobed hviews (fetched_missing hview hmissing),
      fun k auction hk ha hread => ?_⟩
    have hrange := (hids k).mp ⟨auction, ha⟩
    exact fetched_listed hview hviews (List.mem_range'_1.mpr ⟨hrange.1, by omega⟩) ha hread

theorem lists_until (hview : view.Answers strKey s)
    (hids : ∀ k, (∃ auction, s.auctions k = some auction) ↔ 1 ≤ k ∧ k < s.nextId)
    (hn : n ≤ maxAuctionProbes) (hfirst : FirstUnreadable view cache strKey s n auction) :
    ListsReadable view cache strKey s ↔ EndsTheList view cache strKey auction ∧
      ∀ k later, n < k → k ≤ maxAuctionProbes → s.auctions k = some later →
        ¬ Readable view cache strKey later := by
  have hrange := (hids n).mp ⟨auction, hfirst.stored⟩
  obtain ⟨views, hviews⟩ := @fetched_before _ strKey s view cache n hview hids (by omega)
    hfirst.first
  obtain ⟨e, he, hends⟩ := fetched_unreadable hview hfirst.stored hfirst.unreadable
  have hlist := listAuctions_ended ⟨hrange.1, hn⟩ hviews he
  rw [ListsReadable, hlist, ← hends]
  constructor
  · rintro ⟨listed, hlisted, hall⟩
    cases e with
    | contract_error code =>
      cases hlisted
      refine ⟨⟨code, rfl⟩, fun k later hk hlast hlater hread => ?_⟩
      obtain ⟨v, hv, rfl⟩ := hall k later hlast hlater hread
      have hmem := List.mem_range'_1.mp (listed_fetched hviews hv)
      omega
    | rpc_unreachable detail => cases hlisted
    | simulation_failed detail => cases hlisted
    | decode_failed detail => cases hlisted
  · rintro ⟨⟨code, rfl⟩, hlater⟩
    refine ⟨views, rfl, fun k before hk hbefore hread => ?_⟩
    have hpos := ((hids k).mp ⟨before, hbefore⟩).1
    obtain hlt | heq | hgt := lt_trichotomy k n
    · exact fetched_listed hview hviews (List.mem_range'_1.mpr ⟨hpos, by omega⟩) hbefore hread
    · subst heq
      rw [hfirst.stored] at hbefore
      cases hbefore
      exact absurd hread hfirst.unreadable
    · exact absurd hread (hlater k before hgt hk hbefore)

theorem exists_first (hk : s.auctions k = some auction)
    (hread : ¬ Readable view cache strKey auction) :
    ∃ n first, n ≤ k ∧ FirstUnreadable view cache strKey s n first := by
  induction k using Nat.strong_induction_on generalizing auction with
  | h k ih =>
    by_cases hall : ∀ j before, j < k → s.auctions j = some before →
        Readable view cache strKey before
    · exact ⟨k, auction, le_refl k, hk, hread, hall⟩
    · push Not at hall
      obtain ⟨j, before, hj, hbefore, hno⟩ := hall
      obtain ⟨n, first, hn, hfirst⟩ := ih j hj hbefore hno
      exact ⟨n, first, hn.trans hj.le, hfirst⟩

end Listing

section Sample
variable {W : Type} {strKey : StrKey} {s : State W}

def stateView (strKey : StrKey) (s : State W) (symbol : String → Simulation (Option String)) :
    ChainView where
  auction k :=
    match s.auctions k with
    | some auction => .result (candidate (rawRecord strKey auction))
    | none => .error "HostError: Error(Contract, #1)"
  symbol := symbol

theorem stateView_answers {symbol : String → Simulation (Option String)}
    (hsymbol : ∀ token detail, symbol token ≠ .unreachable detail) :
    (stateView strKey s symbol).Answers strKey s where
  found := by
    intro k auction ha
    simp only [stateView, ha]
  missing := by
    intro k hk
    refine ⟨"HostError: Error(Contract, #1)", by simp only [stateView, hk], by decide +kernel⟩
  answered := hsymbol

def sampleHost : Host SacState :=
  sacHost (.contract (keyOf 0)) (fun _ _ _ => some true) firstInput

def sampleGenesis : Genesis SacState := ⟨.contract (keyOf 1), evenTokens 100, 0, 1⟩

def sampleArgs (rwaToken : Address) : CreateArgs :=
  ⟨.account (keyOf 2), rwaToken, 7, .contract (keyOf 11), 5, 10, 3, 0, keyOf 9⟩

def sampleActions : List (Action SacState) :=
  [.call [.account (keyOf 2)] (.createAuction (sampleArgs (.contract (keyOf 10)))),
   .call [.account (keyOf 2)] (.createAuction (sampleArgs (.contract (keyOf 12))))]

def refusing (token : String) : Simulation (Option String) :=
  if token = sep23.encode (.contract (keyOf 10)) then .error "HostError: Error(Contract, #9)"
  else .result (some "RWA")

theorem refusing_refuses : Refuses (stateView strKey s refusing) (fun _ => none)
    (sep23.encode (.contract (keyOf 10))) := by
  refine ⟨rfl, "HostError: Error(Contract, #9)", ?_, by decide +kernel⟩
  simp only [stateView, refusing, if_true]

theorem refusing_gives {token : String} (hne : token ≠ sep23.encode (.contract (keyOf 10))) :
    (stateView strKey s refusing).tokens.Symbol (fun _ => none) token := by
  refine .inr ⟨"RWA", ?_⟩
  simp only [ChainView.tokens, stateView, refusing, if_neg hne]

theorem refusing_answers (token detail : String) : refusing token ≠ .unreachable detail := by
  rw [refusing]
  split <;> nofun

end Sample

/-- listAuctions lists every auction among the first fifty that can be read exactly when the first
that cannot ends the list with a contract error and none that can be read comes after it. -/
theorem listAuctions_complete_iff {W : Type} (h : Host W) (g : Genesis W) (actions : List (Action W))
    (strKey : StrKey) (view : ChainView) (cache : String → Option String)
    (hview : view.Answers strKey (runFrom h g actions)) :
    ListsReadable view cache strKey (runFrom h g actions) ↔
      ∀ n auction, n ≤ maxAuctionProbes →
        FirstUnreadable view cache strKey (runFrom h g actions) n auction →
        EndsTheList view cache strKey auction ∧
        ∀ k later, n < k → k ≤ maxAuctionProbes → (runFrom h g actions).auctions k = some later →
          ¬ Readable view cache strKey later := by
  have hids := (@run_intact W h g actions).ids
  constructor
  · exact fun hlists n auction hn hfirst => (lists_until hview hids hn hfirst).mp hlists
  · intro hends
    by_cases hall : ∀ k auction, k ≤ maxAuctionProbes →
        (runFrom h g actions).auctions k = some auction → Readable view cache strKey auction
    · exact lists_all hview hids hall
    · push Not at hall
      obtain ⟨k, auction, hk, ha, hno⟩ := hall
      obtain ⟨n, first, hn, hfirst⟩ := exists_first ha hno
      exact (lists_until hview hids (hn.trans hk) hfirst).mpr (hends n first (hn.trans hk) hfirst)

/-- Every token gives its symbol. -/
theorem listAuctions_complete_iff_witness :
    ListsReadable (stateView sep23 (runFrom sampleHost sampleGenesis sampleActions)
      fun _ => .result (some "RWA")) (fun _ => none) sep23
      (runFrom sampleHost sampleGenesis sampleActions) := by
  refine (listAuctions_complete_iff sampleHost sampleGenesis sampleActions sep23 _ _
    (stateView_answers fun _ _ => by nofun)).mpr fun n auction _ hfirst => ?_
  have hread : ∀ token, (stateView sep23 (runFrom sampleHost sampleGenesis sampleActions)
      fun _ => .result (some "RWA")).tokens.Symbol (fun _ => none) token :=
    fun _ => .inr ⟨"RWA", rfl⟩
  exact absurd ⟨hread _, hread _⟩ hfirst.unreadable

/-- The token of auction 1 refuses, and the list is empty although auction 2 can be read. -/
theorem list_cut_short :
    let s := runFrom sampleHost sampleGenesis sampleActions
    (stateView sep23 s refusing).Answers sep23 s ∧
      listAuctions (stateView sep23 s refusing) (fun _ => none) = .ok [] ∧
      ¬ ListsReadable (stateView sep23 s refusing) (fun _ => none) sep23 s := by
  intro s
  have hfirst : s.auctions 1 = some (newAuction (sampleArgs (.contract (keyOf 10)))) := by
    decide +kernel
  have hsecond : s.auctions 2 = some (newAuction (sampleArgs (.contract (keyOf 12)))) := by
    decide +kernel
  have hview : (stateView sep23 s refusing).Answers sep23 s := stateView_answers refusing_answers
  have hrefuses : Refuses (stateView sep23 s refusing) (fun _ => none)
      (sep23.encode (.contract (keyOf 10))) := refusing_refuses
  have hunreadable : ¬ Readable (stateView sep23 s refusing) (fun _ => none) sep23
      (newAuction (sampleArgs (.contract (keyOf 10)))) := fun hread => hrefuses.not_symbol hread.1
  obtain ⟨e, he, hends⟩ := fetched_unreadable hview hfirst hunreadable
  obtain ⟨code, rfl⟩ := hends.mpr (.inl hrefuses)
  have hnone : Fetched (stateView sep23 s refusing) (fun _ => none) (List.range' 1 (1 - 1)) [] := .nil
  have hlist : listAuctions (stateView sep23 s refusing) (fun _ => none) = .ok [] :=
    listAuctions_ended (by decide) hnone he
  refine ⟨hview, hlist, fun hlists => ?_⟩
  obtain ⟨views, hviews, hall⟩ := hlists
  rw [hlist] at hviews
  cases hviews
  obtain ⟨v, hv, -⟩ := hall 2 _ (by decide) hsecond ⟨refusing_gives (by decide +kernel),
    refusing_gives (by decide +kernel)⟩
  exact List.not_mem_nil hv

end SealedStellar.Web
