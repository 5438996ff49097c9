import SealedStellar.IndexerEvents
import SealedStellar.Sac

/-! Which events one call of syncEvents applies. The walk stops after 60 pages, and the ledger that
it saves is the tip of the network, however far the walk got. -/
namespace SealedStellar.Indexer
variable {W : Type} {h : Host W} {strKey : StrKey} {txHash : ℕ × Event → Option String}
  {server : EventsServer}

/-- The feed is what is left to serve at each request: an answer takes a page off it, and reports
the tip. An answer without a cursor leaves out nothing before its tip. -/
def EventsServer.Feeds (server : EventsServer) (raw : ℕ × Event → RawEvent)
    (feed : EventsRequest → List (ℕ × Event)) : Prop :=
  ∀ i request response, server i request = .ok response → ∃ page rest tip,
    feed request = page ++ rest ∧ response.events = page.map raw ∧
    response.latestLedger = some tip ∧
    match response.next with
    | none => ∀ e ∈ rest, tip ≤ e.1
    | some pageCursor => feed (.cursor pageCursor) = rest

/-- The server pages the log from the requested ledger on, each answer continuing where its request
points. -/
def EventsServer.Serves (server : EventsServer) (raw : ℕ × Event → RawEvent)
    (log : List (ℕ × Event)) : Prop :=
  ∃ feed : EventsRequest → List (ℕ × Event),
    (∀ ledger, feed (.startLedger ledger) = log.filter fun e => ledger ≤ e.1) ∧
    server.Feeds raw feed

inductive EventsServer.Walked (server : EventsServer) :
    ℕ → ℕ → EventsRequest → List EventsResponse → Prop
  | stop (i : ℕ) (request : EventsRequest) : Walked server 0 i request []
  | last {n i : ℕ} {request : EventsRequest} {response : EventsResponse}
      (answer : server i request = .ok response) (final : response.next = none) :
      Walked server (n + 1) i request [response]
  | more {n i : ℕ} {request : EventsRequest} {response : EventsResponse} {pageCursor : String}
      {responses : List EventsResponse} (answer : server i request = .ok response)
      (chained : response.next = some pageCursor)
      (rest : Walked server n (i + 1) (.cursor pageCursor) responses) :
      Walked server (n + 1) i request (response :: responses)

def held (responses : List EventsResponse) : ℕ :=
  (responses.map fun response => response.events.length).sum

def decoded (responses : List EventsResponse) : List IndexedEvent :=
  responses.flatMap fun response => response.events.filterMap toIndexedEvent

def tipOf (ledger : ℕ) (responses : List EventsResponse) : ℕ :=
  responses.foldl (fun ledger response => response.latestLedger.getD ledger) ledger

theorem fetchPages_walked {n i : ℕ} {request : EventsRequest} {before fetched : Fetched}
    (hf : fetchPages server n i request before = .ok fetched) :
    ∃ responses, server.Walked n i request responses ∧
      fetched.events = before.events ++ decoded responses ∧
      fetched.latestLedger = tipOf before.latestLedger responses := by
  induction n generalizing i request before with
  | zero =>
    cases hf
    exact ⟨[], .stop i request, by simp [decoded], rfl⟩
  | succ n ih =>
    rw [fetchPages] at hf
    cases hanswer : server i request with
    | error detail =>
      rw [hanswer] at hf
      cases hf
    | ok response =>
      rw [hanswer] at hf
      cases hnext : response.next with
      | none =>
        simp only [hnext] at hf
        cases hf
        exact ⟨[response], .last hanswer hnext, by simp [decoded], rfl⟩
      | some pageCursor =>
        simp only [hnext] at hf
        obtain ⟨responses, hw, hevents, htip⟩ := ih hf
        refine ⟨response :: responses, .more hanswer hnext hw, ?_, htip⟩
        rw [hevents, decoded, decoded, List.flatMap_cons, List.append_assoc]

section Served
variable {log : List (ℕ × Event)}

/-- The answers of a walk hold the log from its start on, up to where the walk stops. -/
theorem walked_prefix {feed : EventsRequest → List (ℕ × Event)} {raw : ℕ × Event → RawEvent}
    (hfeed : server.Feeds raw feed) {n i : ℕ} {request : EventsRequest}
    {responses : List EventsResponse}
    (hw : server.Walked n i request responses) :
    ∃ served, served <+: feed request ∧
      responses.flatMap EventsResponse.events = served.map raw := by
  induction hw with
  | stop => exact ⟨[], List.nil_prefix, rfl⟩
  | last answer =>
    obtain ⟨page, rest, tip, hsplit, hevents, -⟩ := hfeed _ _ _ answer
    exact ⟨page, ⟨rest, hsplit.symm⟩, by simpa using hevents⟩
  | more answer chained _ ih =>
    obtain ⟨page, rest, tip, hsplit, hevents, -, hnext⟩ := hfeed _ _ _ answer
    rw [chained] at hnext
    obtain ⟨served, hpages, hserved⟩ := ih
    refine ⟨page ++ served, ?_, by rw [List.flatMap_cons, hevents, hserved, List.map_append]⟩
    rw [hsplit]
    exact (List.prefix_append_right_inj page).mpr (hnext ▸ hpages)

/-- A walk that ends before its page bound leaves out nothing before the tip. -/
theorem walked_end {feed : EventsRequest → List (ℕ × Event)} {raw : ℕ × Event → RawEvent}
    (hfeed : server.Feeds raw feed) {n i : ℕ} {request : EventsRequest}
    {responses : List EventsResponse}
    (hw : server.Walked n i request responses) (hshort : responses.length < n) (ledger : ℕ) :
    ((feed request).filter fun e => e.1 < tipOf ledger responses).length ≤ held responses := by
  induction hw generalizing ledger with
  | stop => exact absurd hshort (Nat.not_lt_zero _)
  | last answer final =>
    obtain ⟨page, rest, tip, hsplit, hevents, htip, hnext⟩ := hfeed _ _ _ answer
    rw [final] at hnext
    have hrest : rest.filter (fun e => e.1 < tip) = [] := by
      rw [List.filter_eq_nil_iff]
      intro e he
      simpa using hnext e he
    simp only [tipOf, List.foldl_cons, List.foldl_nil, htip, Option.getD_some, held, List.map_cons,
      List.map_nil, List.sum_singleton, hevents, List.length_map]
    rw [hsplit, List.filter_append, hrest, List.append_nil]
    exact List.length_filter_le _ _
  | @more n i request response pageCursor responses answer chained _ ih =>
    obtain ⟨page, rest, tip, hsplit, hevents, htip, hnext⟩ := hfeed _ _ _ answer
    rw [chained] at hnext
    have hlength : responses.length < n := by simpa using hshort
    have hlater := ih hlength tip
    have htips : tipOf ledger (response :: responses) = tipOf tip responses := by
      rw [tipOf, List.foldl_cons, htip, Option.getD_some, tipOf]
    rw [hsplit, List.filter_append, List.length_append, htips, held, List.map_cons, List.sum_cons,
      hevents, List.length_map]
    refine Nat.add_le_add (List.length_filter_le _ _) ?_
    rw [← hnext]
    exact hlater

end Served

def due (log : List (ℕ × Event)) (start saved : ℕ) : List (ℕ × Event) :=
  log.filter fun e => start ≤ e.1 ∧ e.1 < saved

theorem filter_lt_prefix {log : List (ℕ × Event)}
    (hsorted : log.Pairwise fun e e' => e.1 ≤ e'.1) (saved : ℕ) :
    log.filter (fun e => e.1 < saved) <+: log := by
  induction log with
  | nil => exact List.prefix_rfl
  | cons e log ih =>
    obtain ⟨hhead, htail⟩ := List.pairwise_cons.mp hsorted
    by_cases hlt : e.1 < saved
    · rw [List.filter_cons_of_pos (by simpa using hlt)]
      exact (List.prefix_cons_inj e).mpr (ih htail)
    · have hnil : (e :: log).filter (fun e => e.1 < saved) = [] := by
        rw [List.filter_eq_nil_iff]
        intro e' he'
        have hle : e.1 ≤ e'.1 := by
          cases List.mem_cons.mp he' with
          | inl heq => rw [heq]
          | inr hmem => exact hhead e' hmem
        simp only [decide_eq_true_eq]
        omega
      rw [hnil]
      exact List.nil_prefix

theorem due_eq (log : List (ℕ × Event)) (start saved : ℕ) : due log start saved =
    (log.filter fun e => start ≤ e.1).filter fun e => e.1 < saved := by
  rw [due, List.filter_filter]
  exact List.filter_congr fun e _ => by rw [Bool.decide_and, Bool.and_comm]

theorem due_prefix {log : List (ℕ × Event)} (hsorted : log.Pairwise fun e e' => e.1 ≤ e'.1)
    (start saved : ℕ) : due log start saved <+: log.filter fun e => start ≤ e.1 := by
  rw [due_eq]
  exact filter_lt_prefix (hsorted.sublist List.filter_sublist) saved

theorem syncEvents_ok {tick : Tick} {ix : IndexerState} {fetched : Fetched}
    (hf : tick.fetched ix = .ok fetched) : (syncEvents ix tick).store =
      (applyEvents ix (tick.applied fetched)).store.setCursor (some fetched.latestLedger) none := by
  rw [syncEvents, hf]

theorem applied_events (tick : Tick) (fetched : Fetched) :
    (tick.applied fetched).map Applied.event = fetched.events := by
  rw [Tick.applied, List.map_map]
  exact List.zipIdx_map_fst 0 fetched.events

theorem tick_fetched {tick : Tick} {ix : IndexerState} {latest : ℕ} {fetched : Fetched}
    (hlatest : tick.latest = .ok latest) (hf : tick.fetched ix = .ok fetched) :
    fetchContractEvents tick.server (startLedger ix latest) = .ok fetched := by
  rw [Tick.fetched, hlatest] at hf
  exact hf

theorem fetched_served {log : List (ℕ × Event)} {start : ℕ} {fetched : Fetched}
    (hserver : server.Serves (rawEvent strKey txHash) log) (hid : ∀ e ∈ log, 1 ≤ e.2.auctionId)
    (hf : fetchContractEvents server start = .ok fetched) :
    ∃ responses served, server.Walked maxEventPages 0 (.startLedger start) responses ∧
      served <+: log.filter (fun e => start ≤ e.1) ∧
      fetched.events = served.map (indexedEvent strKey txHash) ∧
      fetched.latestLedger = tipOf start responses ∧ held responses = served.length := by
  obtain ⟨responses, hw, hevents, htip⟩ := fetchPages_walked hf
  obtain ⟨feed, hstart, hfeed⟩ := hserver
  obtain ⟨served, hpages, hserved⟩ := walked_prefix hfeed hw
  rw [hstart] at hpages
  refine ⟨responses, served, hw, hpages, ?_, htip, ?_⟩
  · rw [hevents, List.nil_append, decoded, ← List.filterMap_flatMap, hserved]
    exact decode_events fun e he => hid e (List.mem_of_mem_filter (hpages.subset he))
  · rw [held, ← List.length_flatMap, hserved, List.length_map]

/-- A tick that saves a ledger has applied every event before it exactly when the pages of its walk
are enough for the backlog. -/
theorem synced_iff (h : Host W) (g : Genesis W) (actions : List (Action W)) (strKey : StrKey)
    (txHash : ℕ × Event → Option String) (ix : IndexerState) (tick : Tick) (latest : ℕ)
    (hlatest : tick.latest = .ok latest)
    (hserver : tick.server.Serves (rawEvent strKey txHash) (runFrom h g actions).events)
    (fetched : Fetched) (hf : tick.fetched ix = .ok fetched) :
    ∃ responses,
      tick.server.Walked maxEventPages 0 (.startLedger (startLedger ix latest)) responses ∧
      fetched.latestLedger = tipOf (startLedger ix latest) responses ∧
      (syncEvents ix tick).store.getCursor.lastLedger = some fetched.latestLedger ∧
      (((due (runFrom h g actions).events (startLedger ix latest) fetched.latestLedger).map
          (indexedEvent strKey txHash)).Sublist ((tick.applied fetched).map Applied.event) ↔
        (due (runFrom h g actions).events (startLedger ix latest)
          (tipOf (startLedger ix latest) responses)).length ≤ held responses) := by
  obtain ⟨responses, served, hw, hpages, happlied, htip, hheld⟩ := fetched_served hserver
    (fun e he => (run_event_auction g actions he).1) (tick_fetched hlatest hf)
  refine ⟨responses, hw, htip, by rw [syncEvents_ok hf]; rfl, ?_⟩
  have hdue := due_prefix (run_dated (h := h) g actions).1 (startLedger ix latest)
    (tipOf (startLedger ix latest) responses)
  rw [applied_events, happlied, hheld, ← htip]
  rw [← htip] at hdue
  constructor
  · intro hsub
    simpa using hsub.length_le
  · intro hle
    exact ((List.prefix_of_prefix_length_le hdue hpages hle).map _).sublist

theorem fetchPages_empty {pageCursor : String} {tip n i : ℕ} (hcursor : pageCursor ≠ "")
    (hempty : ∀ j, j < i + n →
      server j (.cursor pageCursor) = .ok ⟨[], some pageCursor, some tip⟩) :
    fetchPages server n i (.cursor pageCursor) ⟨[], tip⟩ = .ok ⟨[], tip⟩ := by
  induction n generalizing i with
  | zero => rfl
  | succ n ih =>
    have hnext : (⟨[], some pageCursor, some tip⟩ : EventsResponse).next = some pageCursor := by
      simpa [EventsResponse.next] using hcursor
    rw [fetchPages, hempty i (by omega)]
    simp only [hnext]
    exact ih fun j hj => hempty j (by omega)

/-- One event, on the page that a walk of 60 empty pages does not reach. -/
theorem sync_skips :
    let h := sacHost (.contract (keyOf 0)) (fun _ _ _ => none) firstInput
    let g : Genesis SacState := ⟨.contract (keyOf 1), evenTokens 100, 0, 1⟩
    let args : CreateArgs := ⟨.account (keyOf 2), .contract (keyOf 10), 7, .contract (keyOf 11), 5,
      10, 3, 0, keyOf 9⟩
    let actions : List (Action SacState) := [.call [.account (keyOf 2)] (.createAuction args)]
    let raw := rawEvent sep23 fun _ => none
    let log := (runFrom h g actions).events
    let server : EventsServer := fun i request =>
      match request with
      | .startLedger ledger =>
        if ledger = 1 then .ok ⟨[], some "0", some 50⟩ else .error "not asked for"
      | .cursor _ => if i < 60 then .ok ⟨[], some "0", some 50⟩ else .ok ⟨log.map raw, none, some 50⟩
    let tick : Tick := ⟨.ok 50, server, fun _ => ⟨fun _ => .noResult, fun _ => .noResult⟩⟩
    let ix : IndexerState := ⟨.empty, fun _ => none⟩
    server.Serves raw log ∧ tick.fetched ix = .ok ⟨[], 50⟩ ∧
      (syncEvents ix tick).store.getCursor.lastLedger = some 50 ∧
      ¬((due log (startLedger ix 50) 50).map (indexedEvent sep23 fun _ => none)).Sublist
        ((tick.applied ⟨[], 50⟩).map Applied.event) := by
  intro h g args actions raw log server tick ix
  have hlog : log = [(1, .AuctionCreated 1 (.account (keyOf 2)) 5 10)] := rfl
  have hfetched : tick.fetched ix = .ok ⟨[], 50⟩ := by
    have hwalk : fetchPages server 59 1 (.cursor "0") ⟨[], 50⟩ = .ok ⟨[], 50⟩ :=
      fetchPages_empty (by decide) fun j hj => if_pos hj
    have hstart : startLedger ix 50 = 1 := rfl
    have hfirst : server 0 (.startLedger 1) = .ok ⟨[], some "0", some 50⟩ := rfl
    change fetchContractEvents server (startLedger ix 50) = _
    rw [hstart, fetchContractEvents, maxEventPages, fetchPages, hfirst]
    exact hwalk
  refine ⟨⟨fun request => match request with
    | .startLedger ledger => log.filter fun e => ledger ≤ e.1
    | .cursor _ => log, fun _ => rfl, ?_⟩, hfetched, by rw [syncEvents_ok hfetched]; rfl, ?_⟩
  · intro i request response hanswer
    cases request with
    | startLedger ledger =>
      by_cases hone : ledger = 1
      · subst hone
        cases hanswer
        exact ⟨[], log, 50, rfl, rfl, rfl, rfl⟩
      · simp only [server, if_neg hone] at hanswer
        cases hanswer
    | cursor pageCursor =>
      by_cases hi : i < 60
      · simp only [server, if_pos hi] at hanswer
        cases hanswer
        exact ⟨[], log, 50, rfl, rfl, rfl, rfl⟩
      · simp only [server, if_neg hi] at hanswer
        cases hanswer
        exact ⟨log, [], 50, by rw [List.append_nil], rfl, rfl, fun _ h => absurd h List.not_mem_nil⟩
  · intro hsub
    have hnil := List.sublist_nil.mp hsub
    rw [hlog] at hnil
    cases hnil

/-- With the event on its first page, the tick applies it. -/
theorem synced_iff_witness :
    let h := sacHost (.contract (keyOf 0)) (fun _ _ _ => none) firstInput
    let g : Genesis SacState := ⟨.contract (keyOf 1), evenTokens 100, 0, 1⟩
    let args : CreateArgs := ⟨.account (keyOf 2), .contract (keyOf 10), 7, .contract (keyOf 11), 5,
      10, 3, 0, keyOf 9⟩
    let actions : List (Action SacState) := [.call [.account (keyOf 2)] (.createAuction args)]
    let raw := rawEvent sep23 fun _ => none
    let log := (runFrom h g actions).events
    let server : EventsServer := fun _ request =>
      match request with
      | .startLedger ledger => .ok ⟨(log.filter fun e => ledger ≤ e.1).map raw, none, some 50⟩
      | .cursor _ => .error "not asked for"
    let tick : Tick := ⟨.ok 50, server, fun _ => ⟨fun _ => .noResult, fun _ => .noResult⟩⟩
    let ix : IndexerState := ⟨.empty, fun _ => none⟩
    ∃ fetched, tick.fetched ix = .ok fetched ∧
      ((due log 1 fetched.latestLedger).map (indexedEvent sep23 fun _ => none)).Sublist
        ((tick.applied fetched).map Applied.event) := by
  intro h g args actions raw log server tick ix
  have hserver : server.Serves raw log := by
    refine ⟨fun request => match request with
      | .startLedger ledger => log.filter fun e => ledger ≤ e.1
      | .cursor _ => [], fun _ => rfl, ?_⟩
    intro i request response hanswer
    cases request with
    | startLedger ledger =>
      cases hanswer
      exact ⟨_, [], 50, by rw [List.append_nil], rfl, rfl, fun _ h => absurd h List.not_mem_nil⟩
    | cursor pageCursor => cases hanswer
  obtain ⟨responses, hw, -, -, hiff⟩ := synced_iff h g actions sep23 (fun _ => none) ix tick 50 rfl
    hserver _ rfl
  refine ⟨_, rfl, hiff.mpr ?_⟩
  cases hw with
  | last answer =>
    cases answer
    decide
  | more answer chained =>
    cases answer
    cases chained

theorem short_walk_enough {log : List (ℕ × Event)} {raw : ℕ × Event → RawEvent} {start n : ℕ}
    {responses : List EventsResponse} (hserver : server.Serves raw log)
    (hw : server.Walked n 0 (.startLedger start) responses) (hshort : responses.length < n) :
    (due log start (tipOf start responses)).length ≤ held responses := by
  obtain ⟨feed, hstart, hfeed⟩ := hserver
  have hend := walked_end hfeed hw hshort start
  rw [hstart, ← due_eq] at hend
  exact hend

end SealedStellar.Indexer
