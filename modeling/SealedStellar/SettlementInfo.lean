import SealedStellar.WebChain
import SealedStellar.IndexerEvents
import SealedStellar.AddressLeaf

/-! web/src/lib/chain.ts: the settlement of an auction, looked up in its AuctionSettled event and
cached for the session. -/
namespace SealedStellar.Web
open Indexer

structure SettlementInfo where
  winner : Native
  winningPrice : Native
  txHash : Option String
  deriving DecidableEq

/-- The value as decodeEventScVal yields it: an error is thrown, none is no object. -/
structure RawEventRecord where
  value : Except String (Option (List (String × Native)))
  txHash : Option String

structure EventsResponse where
  events : List RawEventRecord
  cursor : Option String

/-- What the server answers to one call of getSettlementInfo, its pages by index and auction. -/
structure SettlementRpc where
  getLatestLedger : Except String ℕ
  getEvents : ℕ → ℕ → Indexer.EventsRequest → Except String EventsResponse

abbrev SettlementCache := ℕ → Option (Option SettlementInfo)

def eventLookbackLedgers : ℕ := 100000

section Scan
variable (rpc : SettlementRpc) (auctionId : ℕ)

/-- The page loop, with n pages to go; an empty cursor is falsy. -/
def matchPages : ℕ → ℕ → Indexer.EventsRequest → List RawEventRecord →
    Except String (List RawEventRecord)
  | 0, _, _, matchedEvents => .ok matchedEvents
  | n + 1, pageIndex, request, matchedEvents => do
    let eventsResponse ← rpc.getEvents pageIndex auctionId request
    let matchedEvents := matchedEvents ++ eventsResponse.events
    match eventsResponse.cursor.filter fun pageCursor => pageCursor ≠ "" with
    | none => return matchedEvents
    | some pageCursor => matchPages n (pageIndex + 1) (.cursor pageCursor) matchedEvents

def firstSettlement : List RawEventRecord → Except String (Option SettlementInfo)
  | [] => .ok none
  | eventRecord :: rest => do
    match ← eventRecord.value with
    | none => firstSettlement rest
    | some eventData =>
      match eventData.lookup "winner", eventData.lookup "winning_price" with
      | some winner, some winningPrice => return some ⟨winner, winningPrice, eventRecord.txHash⟩
      | _, _ => firstSettlement rest

def unreachable {α : Type} : Except String α → Except ChainError α :=
  Except.mapError .rpc_unreachable

def scanSettlement : Except ChainError (Option SettlementInfo) := unreachable do
  let latestLedgerSequence ← rpc.getLatestLedger
  let matchedEvents ← matchPages rpc auctionId 30 0
    (.startLedger (max 1 (latestLedgerSequence - eventLookbackLedgers))) []
  firstSettlement matchedEvents

end Scan

def cacheSettlement (settlementCache : SettlementCache) (auctionId : ℕ) :
    Except ChainError (Option SettlementInfo) → SettlementCache
  | .ok settlementInfo => Function.update settlementCache auctionId (some settlementInfo)
  | .error _ => settlementCache

/-- A call of getSettlementInfo; it has no answer yet while it waits for the server. -/
structure Lookup where
  auctionId : ℕ
  rpc : SettlementRpc
  answer : Option (Except ChainError (Option SettlementInfo))

structure Session where
  settlementCache : SettlementCache
  lookups : List Lookup

/-- A call runs without a pause up to its first request, and again from its last answer on. -/
inductive SessionStep where
  | call (auctionId : ℕ) (rpc : SettlementRpc)
  | answered (index : ℕ)

def Session.call (session : Session) (auctionId : ℕ) (rpc : SettlementRpc) : Session :=
  let cachedInfo := session.settlementCache auctionId
  { session with lookups := session.lookups ++ [⟨auctionId, rpc, cachedInfo.map .ok⟩] }

def Session.answered (session : Session) (index : ℕ) : Session :=
  match session.lookups[index]? with
  | some ⟨auctionId, rpc, none⟩ =>
    let answer := scanSettlement rpc auctionId
    { settlementCache := cacheSettlement session.settlementCache auctionId answer
      lookups := session.lookups.set index ⟨auctionId, rpc, some answer⟩ }
  | _ => session

def sessionStep (session : Session) : SessionStep → Session
  | .call auctionId rpc => session.call auctionId rpc
  | .answered index => session.answered index

def sessionAfter (steps : List SessionStep) : Session :=
  Runs.run sessionStep ⟨fun _ => none, []⟩ steps

section Log
variable {W : Type} {h : Host W} (strKey : StrKey) (txHash : ℕ × Event → Option String)

def settledRecord (e : ℕ × Event) : RawEventRecord :=
  ⟨.ok (some (Event.data strKey e.2).2), txHash e⟩

def settlementInfo (ledger auctionId : ℕ) (winner : Address) (winningPrice : ℤ) : SettlementInfo :=
  ⟨.text (strKey.encode winner), .bigint winningPrice,
    txHash (ledger, .AuctionSettled auctionId winner winningPrice)⟩

def Sent (s : State W) (auctionId : ℕ) (eventRecord : RawEventRecord) : Prop :=
  ∃ ledger winner winningPrice, (ledger, .AuctionSettled auctionId winner winningPrice) ∈ s.events ∧
    eventRecord = settledRecord strKey txHash (ledger, .AuctionSettled auctionId winner winningPrice)

/-- The server sends only events of the log that pass the filter. It may fail, and it may have
indexed less than the log. -/
def SettlementRpc.Serves (rpc : SettlementRpc) (s : State W) : Prop :=
  ∀ pageIndex auctionId request response,
    rpc.getEvents pageIndex auctionId request = .ok response →
    ∀ eventRecord ∈ response.events, Sent strKey txHash s auctionId eventRecord

def SessionStep.Serves (s : State W) : SessionStep → Prop
  | .call _ rpc => rpc.Serves strKey txHash s
  | .answered _ => True

def SettledAs (s : State W) (auctionId : ℕ) (info : SettlementInfo) : Prop :=
  ∃ ledger winner winningPrice, (ledger, .AuctionSettled auctionId winner winningPrice) ∈ s.events ∧
    info = settlementInfo strKey txHash ledger auctionId winner winningPrice

def Lookup.Coherent (s : State W) (lookup : Lookup) : Prop :=
  ∀ answer, lookup.answer = some answer → ∀ info, SettledAs strKey txHash s lookup.auctionId info →
    scanSettlement lookup.rpc lookup.auctionId = .ok (some info) → answer = .ok (some info)

/-- A call whose scan would find the event is not made while a miss is cached for its auction. -/
def Unmissed (session : Session) : SessionStep → Prop
  | .call auctionId rpc => session.settlementCache auctionId = some none →
      ∀ info, scanSettlement rpc auctionId ≠ .ok (some info)
  | .answered _ => True

variable {strKey txHash} {s : State W} {rpc : SettlementRpc} {auctionId : ℕ}

theorem SettledAs.unique (hr : Recounted s) {info info' : SettlementInfo}
    (hi : SettledAs strKey txHash s auctionId info)
    (hi' : SettledAs strKey txHash s auctionId info') : info = info' := by
  obtain ⟨ledger, winner, winningPrice, he, rfl⟩ := hi
  obtain ⟨ledger', winner', winningPrice', he', rfl⟩ := hi'
  cases hr.settled_once he he' rfl rfl
  rfl

section Scan

theorem unreachable_ok {α : Type} {x : Except String α} {a : α} :
    unreachable x = .ok a ↔ x = .ok a := by
  cases x <;> simp [unreachable, Except.mapError]

theorem matchPages_sent (hrpc : rpc.Serves strKey txHash s) {n pageIndex : ℕ}
    {request : Indexer.EventsRequest} {matchedEvents found : List RawEventRecord}
    (hmatched : ∀ r ∈ matchedEvents, Sent strKey txHash s auctionId r)
    (hfound : matchPages rpc auctionId n pageIndex request matchedEvents = .ok found) :
    ∀ r ∈ found, Sent strKey txHash s auctionId r := by
  induction n generalizing pageIndex request matchedEvents with
  | zero =>
    cases hfound
    exact hmatched
  | succ n ih =>
    rw [matchPages, Checked.bind_eq_ok] at hfound
    obtain ⟨response, hresponse, hfound⟩ := hfound
    have hall : ∀ r ∈ matchedEvents ++ response.events, Sent strKey txHash s auctionId r :=
      List.forall_mem_append.mpr ⟨hmatched, hrpc _ _ _ _ hresponse⟩
    cases hcursor : response.cursor.filter fun pageCursor => pageCursor ≠ "" with
    | none =>
      simp only [hcursor] at hfound
      cases hfound
      exact hall
    | some pageCursor =>
      simp only [hcursor] at hfound
      exact ih hall hfound

theorem firstSettlement_sent {found : List RawEventRecord} {info : SettlementInfo}
    (hsent : ∀ r ∈ found, Sent strKey txHash s auctionId r)
    (hinfo : firstSettlement found = .ok (some info)) : SettledAs strKey txHash s auctionId info := by
  cases found with
  | nil => cases hinfo
  | cons eventRecord rest =>
    obtain ⟨ledger, winner, winningPrice, he, rfl⟩ := hsent eventRecord List.mem_cons_self
    refine ⟨ledger, winner, winningPrice, he, ?_⟩
    cases hinfo
    rfl

theorem scan_settledAs (hrpc : rpc.Serves strKey txHash s) {info : SettlementInfo}
    (hscan : scanSettlement rpc auctionId = .ok (some info)) :
    SettledAs strKey txHash s auctionId info := by
  rw [scanSettlement, unreachable_ok, Checked.bind_eq_ok] at hscan
  obtain ⟨latestLedgerSequence, -, hscan⟩ := hscan
  obtain ⟨found, hfound, hinfo⟩ := Checked.bind_eq_ok.mp hscan
  exact firstSettlement_sent (matchPages_sent hrpc (List.forall_mem_nil _) hfound) hinfo

end Scan

section Session
variable {session : Session}

structure Session.Kept (strKey : StrKey) (txHash : ℕ × Event → Option String) (s : State W)
    (session : Session) : Prop where
  hits : ∀ auctionId info, session.settlementCache auctionId = some (some info) →
    SettledAs strKey txHash s auctionId info
  servers : ∀ lookup ∈ session.lookups, lookup.rpc.Serves strKey txHash s
  answers : ∀ lookup ∈ session.lookups, ∀ info, lookup.answer = some (.ok (some info)) →
    SettledAs strKey txHash s lookup.auctionId info

theorem start_kept : Session.Kept strKey txHash s ⟨fun _ => none, []⟩ :=
  ⟨fun _ _ hhit => (nomatch hhit), List.forall_mem_nil _, List.forall_mem_nil _⟩

theorem answered_eq {index : ℕ} (hindex : session.lookups[index]? = some ⟨auctionId, rpc, none⟩) :
    session.answered index =
      ⟨cacheSettlement session.settlementCache auctionId (scanSettlement rpc auctionId),
        session.lookups.set index ⟨auctionId, rpc, some (scanSettlement rpc auctionId)⟩⟩ := by
  rw [Session.answered, hindex]

theorem answered_cases (session : Session) (index : ℕ) : session.answered index = session ∨
    ∃ auctionId rpc, session.lookups[index]? = some ⟨auctionId, rpc, none⟩ := by
  rw [Session.answered]
  split
  case h_1 auctionId rpc hindex => exact .inr ⟨auctionId, rpc, hindex⟩
  case h_2 => exact .inl rfl

theorem cacheSettlement_hit {settlementCache : SettlementCache} {k : ℕ} {info : SettlementInfo}
    {answer : Except ChainError (Option SettlementInfo)}
    (hhit : cacheSettlement settlementCache auctionId answer k = some (some info)) :
    settlementCache k = some (some info) ∨ k = auctionId ∧ answer = .ok (some info) := by
  cases answer with
  | error e => exact .inl hhit
  | ok found =>
    rw [cacheSettlement] at hhit
    by_cases hk : k = auctionId
    · subst hk
      rw [Function.update_self, Option.some.injEq] at hhit
      exact .inr ⟨rfl, congrArg _ hhit⟩
    · rw [Function.update_of_ne hk] at hhit
      exact .inl hhit

theorem kept_step (hk : session.Kept strKey txHash s) {a : SessionStep}
    (ha : a.Serves strKey txHash s) : (sessionStep session a).Kept strKey txHash s := by
  cases a with
  | call auctionId rpc =>
    refine ⟨hk.hits, List.forall_mem_append.mpr ⟨hk.servers, List.forall_mem_singleton.mpr ha⟩,
      List.forall_mem_append.mpr ⟨hk.answers, List.forall_mem_singleton.mpr fun info hinfo => ?_⟩⟩
    obtain ⟨cachedInfo, hcached, hhit⟩ := Option.map_eq_some_iff.mp hinfo
    cases hhit
    exact hk.hits auctionId info hcached
  | answered index =>
    rw [sessionStep]
    cases answered_cases session index with
    | inl hsame =>
      rw [hsame]
      exact hk
    | inr hpending =>
      obtain ⟨auctionId, rpc, hindex⟩ := hpending
      have hrpc := hk.servers _ (List.mem_of_getElem? hindex)
      rw [answered_eq hindex]
      refine ⟨?_, ?_, ?_⟩
      · intro k info hhit
        cases cacheSettlement_hit hhit with
        | inl hold => exact hk.hits k info hold
        | inr hnew =>
          obtain ⟨rfl, hscan⟩ := hnew
          exact scan_settledAs hrpc hscan
      · intro lookup hlookup
        cases List.mem_or_eq_of_mem_set hlookup with
        | inl hold => exact hk.servers lookup hold
        | inr hnew =>
          subst hnew
          exact hrpc
      · intro lookup hlookup info hinfo
        cases List.mem_or_eq_of_mem_set hlookup with
        | inl hold => exact hk.answers lookup hold info hinfo
        | inr hnew =>
          subst hnew
          exact scan_settledAs hrpc (Option.some.inj hinfo)

theorem coherent_scanned : Lookup.Coherent strKey txHash s
    ⟨auctionId, rpc, some (scanSettlement rpc auctionId)⟩ := by
  intro answer hanswer info _ hscan
  cases hanswer
  exact hscan

theorem coherent_waiting : Lookup.Coherent strKey txHash s ⟨auctionId, rpc, none⟩ :=
  fun _ hanswer => nomatch hanswer

theorem coherent_call (hr : Recounted s) (hk : session.Kept strKey txHash s)
    (hrpc : rpc.Serves strKey txHash s) :
    Lookup.Coherent strKey txHash s
        ⟨auctionId, rpc, (session.settlementCache auctionId).map .ok⟩ ↔
      Unmissed session (.call auctionId rpc) := by
  rw [Unmissed]
  cases hcached : session.settlementCache auctionId with
  | none => exact iff_of_true coherent_waiting (by simp)
  | some cachedInfo =>
    cases cachedInfo with
    | none =>
      constructor
      · intro hcoherent _ info hscan
        have hanswer := hcoherent _ rfl info (scan_settledAs hrpc hscan) hscan
        cases hanswer
      · intro hunmissed answer _ info _ hscan
        exact absurd hscan (hunmissed rfl info)
    | some cached =>
      refine iff_of_true ?_ (by simp)
      intro answer hanswer info hinfo _
      cases hanswer
      rw [(hk.hits auctionId cached hcached).unique hr hinfo]

/-- Calls stay coherent in a step exactly when it is not an answer out of a stale miss. -/
theorem coherent_step (hr : Recounted s) (hk : session.Kept strKey txHash s) {a : SessionStep}
    (ha : a.Serves strKey txHash s) :
    (∀ lookup ∈ (sessionStep session a).lookups, lookup.Coherent strKey txHash s) ↔
      (∀ lookup ∈ session.lookups, lookup.Coherent strKey txHash s) ∧ Unmissed session a := by
  cases a with
  | call auctionId rpc =>
    rw [← coherent_call hr hk ha, sessionStep, Session.call]
    exact List.forall_mem_append.trans (and_congr_right' List.forall_mem_singleton)
  | answered index =>
    rw [sessionStep, Unmissed, and_true]
    cases answered_cases session index with
    | inl hsame => rw [hsame]
    | inr hpending =>
      obtain ⟨auctionId, rpc, hindex⟩ := hpending
      rw [answered_eq hindex]
      refine ⟨fun hset lookup hlookup => ?_, fun hall lookup hlookup => ?_⟩
      · obtain ⟨i, hi⟩ := List.mem_iff_getElem?.mp hlookup
        by_cases hii : index = i
        · rw [← hii, hindex] at hi
          cases hi
          exact coherent_waiting
        · exact hset lookup (List.mem_of_getElem? ((List.getElem?_set_ne hii).trans hi))
      · obtain hold | rfl := List.mem_or_eq_of_mem_set hlookup
        · exact hall lookup hold
        · exact coherent_scanned

theorem coherent_run (hr : Recounted s) (hk : session.Kept strKey txHash s)
    {steps : List SessionStep} (hsteps : ∀ a ∈ steps, a.Serves strKey txHash s) :
    (∀ lookup ∈ (Runs.run sessionStep session steps).lookups, lookup.Coherent strKey txHash s) ↔
      (∀ lookup ∈ session.lookups, lookup.Coherent strKey txHash s) ∧
        Runs.Along sessionStep Unmissed session steps := by
  induction steps generalizing session with
  | nil => simp [Runs.Along]
  | cons a steps ih =>
    rw [List.forall_mem_cons] at hsteps
    rw [Runs.run_cons, ih (kept_step hk hsteps.1) hsteps.2, coherent_step hr hk hsteps.1, Runs.Along,
      and_assoc]

theorem lookup_settledAs {steps : List SessionStep}
    (hsteps : ∀ a ∈ steps, a.Serves strKey txHash s) {lookup : Lookup}
    (hlookup : lookup ∈ (sessionAfter steps).lookups) {info : SettlementInfo}
    (hinfo : lookup.answer = some (.ok (some info))) :
    SettledAs strKey txHash s lookup.auctionId info := by
  have hkept : (sessionAfter steps).Kept strKey txHash s :=
    Runs.run_invariant (P := Session.Kept strKey txHash s) (fun _ _ hk ha => kept_step hk ha)
      start_kept (Runs.along_of_mem hsteps _)
  exact hkept.answers lookup hlookup info hinfo

theorem answered_answer {index : ℕ} (hindex : session.lookups[index]? = some ⟨auctionId, rpc, none⟩) :
    (session.answered index).lookups[index]? =
      some ⟨auctionId, rpc, some (scanSettlement rpc auctionId)⟩ := by
  rw [answered_eq hindex]
  exact List.getElem?_set_self (List.getElem?_eq_some_iff.mp hindex).1

end Session

/-- Every call that waits gets its answer, and the calls of a session all answer with the event that
their scan would find exactly when none of these is made while a miss is cached for its auction. -/
theorem settlement_lookups (g : Genesis W) (actions : List (Action W)) (steps : List SessionStep)
    (hserves : ∀ a ∈ steps, a.Serves strKey txHash (runFrom h g actions)) :
    (∀ index auctionId rpc, (sessionAfter steps).lookups[index]? = some ⟨auctionId, rpc, none⟩ →
      ∃ answer, ((sessionAfter steps).answered index).lookups[index]? =
        some ⟨auctionId, rpc, some answer⟩) ∧
    ((∀ lookup ∈ (sessionAfter steps).lookups,
        lookup.Coherent strKey txHash (runFrom h g actions)) ↔
      Runs.Along sessionStep Unmissed ⟨fun _ => none, []⟩ steps) := by
  constructor
  · intro index auctionId rpc hindex
    exact ⟨_, answered_answer hindex⟩
  · rw [sessionAfter, coherent_run (run_recounted g actions) start_kept hserves]
    exact and_iff_right (List.forall_mem_nil _)

end Log

section Fixture

def settledActions : List (Action SacState) :=
  markActions (.account (keyOf 3)) ++ [.call [] (.settle 1 0 2 (.account (keyOf 3)) noProof)]

def settledEvent : ℕ × Event := (2, .AuctionSettled 1 (.account (keyOf 3)) 2)

def earlyRpc : SettlementRpc := ⟨.ok 2, fun _ _ _ => .ok ⟨[], none⟩⟩

def lateRpc : SettlementRpc where
  getLatestLedger := .ok 2
  getEvents _ auctionId _ := .ok
    ⟨if auctionId = 1 then [settledRecord sep23 (fun _ => some "ab") settledEvent] else [], none⟩

theorem settledEvent_mem :
    settledEvent ∈ (runFrom markHost markGenesis settledActions).events :=
  List.mem_of_getElem? (i := 3) rfl

def settledInfo : SettlementInfo :=
  settlementInfo sep23 (fun _ => some "ab") 2 1 (.account (keyOf 3)) 2

theorem settledInfo_told : SettledAs sep23 (fun _ => some "ab")
    (runFrom markHost markGenesis settledActions) 1 settledInfo :=
  ⟨2, _, 2, settledEvent_mem, rfl⟩

theorem lateRpc_scan : scanSettlement lateRpc 1 = .ok (some settledInfo) := rfl

theorem earlyRpc_serves : earlyRpc.Serves sep23 (fun _ => some "ab")
    (runFrom markHost markGenesis settledActions) := by
  intro pageIndex auctionId request response hresponse
  cases hresponse
  exact List.forall_mem_nil _

theorem lateRpc_serves : lateRpc.Serves sep23 (fun _ => some "ab")
    (runFrom markHost markGenesis settledActions) := by
  intro pageIndex auctionId request response hresponse
  cases hresponse
  dsimp only
  split
  case isTrue hone =>
    subst hone
    exact List.forall_mem_singleton.mpr ⟨2, _, 2, settledEvent_mem, rfl⟩
  case isFalse => exact List.forall_mem_nil _

end Fixture

/-- After a hit the cache answers the second call, and both answers are the event. -/
theorem settlement_lookups_witness :
    (∀ lookup ∈ (sessionAfter [.call 1 lateRpc, .answered 0, .call 1 lateRpc]).lookups,
      lookup.Coherent sep23 (fun _ => some "ab") (runFrom markHost markGenesis settledActions)) ∧
    (sessionAfter [.call 1 lateRpc, .answered 0, .call 1 lateRpc]).lookups.map Lookup.answer =
      [some (.ok (some settledInfo)), some (.ok (some settledInfo))] := by
  refine ⟨(settlement_lookups markGenesis settledActions _ ?_).2.mpr ?_, rfl⟩
  · simp [SessionStep.Serves, lateRpc_serves]
  · exact ⟨fun hmiss => (nomatch hmiss), trivial, fun hmiss => (nomatch hmiss), trivial⟩

/-- The second call answers with the miss of the first, though the server has the event by now. -/
theorem settlement_lookups_stale :
    (∀ a ∈ [SessionStep.call 1 earlyRpc, .answered 0, .call 1 lateRpc],
      a.Serves sep23 (fun _ => some "ab") (runFrom markHost markGenesis settledActions)) ∧
    ∃ lookup ∈ (sessionAfter [.call 1 earlyRpc, .answered 0, .call 1 lateRpc]).lookups,
      lookup.answer = some (.ok none) ∧
      scanSettlement lookup.rpc lookup.auctionId = .ok (some settledInfo) ∧
      ¬lookup.Coherent sep23 (fun _ => some "ab")
        (runFrom markHost markGenesis settledActions) := by
  refine ⟨by simp [SessionStep.Serves, earlyRpc_serves, lateRpc_serves],
    ⟨1, lateRpc, some (.ok none)⟩, List.mem_of_getElem? (i := 1) rfl, rfl, lateRpc_scan, ?_⟩
  intro hcoherent
  cases hcoherent _ rfl settledInfo settledInfo_told lateRpc_scan

end SealedStellar.Web
