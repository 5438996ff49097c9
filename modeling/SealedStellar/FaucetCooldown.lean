import SealedStellar.Faucet
import SealedStellar.Lib.Cooldown
import SealedStellar.Lib.Runs

/-! The faucet's process as a cooldown machine: a request is a task, its mints are the effects. -/
namespace SealedStellar.Faucet

section Limit

def mintedIn (mints : List Mint) (token : Token) (address : String) (start stop : ℚ) : ℕ :=
  ((mints.filter fun m =>
    m.address = address ∧ m.token = token ∧ start ≤ m.atMs ∧ m.atMs < stop).map Mint.amount).sum

def Limited (config : Config) (p : Process) : Prop :=
  ∀ token address start,
    mintedIn p.mints token address start (start + config.cooldownMs) ≤ config.amount token

def Granting.Open (granting : Granting) (token : Token) : Prop :=
  granting.txs token = .sent ∨
    granting.txs token = .unsent ∧ token ∈ granting.planned ∧ granting.response = none

/-- The requests of an address that passed the check are through with their mints, and each of the
mints is on record, by the success of its request, or a cooldown old. -/
structure Settled (config : Config) (p : Process) (address : String) : Prop where
  through : ∀ i granting, p.granting i = some granting → granting.address = address →
    ∀ token, ¬granting.Open token
  known : ∀ m ∈ p.mints, m.address = address →
    (∃ granting, p.granting m.request = some granting ∧ granting.planned = []) ∨
      m.atMs + config.cooldownMs ≤ p.nowMs

end Limit

section Refinement
variable {service : Service} {config : Config} {p p' : Process} {i : ℕ} {granting : Granting}

def Granting.task (granting : Granting) : Cooldown.Task String Token :=
  ⟨granting.address, { token | granting.Open token }, granting.planned = []⟩

def Mint.effect (m : Mint) : Cooldown.Effect ℕ String Token ℚ := ⟨m.request, m.address, m.token, m.atMs⟩

def Process.machine (p : Process) : Cooldown.State ℕ String Token ℚ where
  now := p.nowMs
  last := p.lastGrantMsByAddress
  tasks i := (p.granting i).map Granting.task
  effects := p.mints.map Mint.effect

theorem Settled.clear {address : String} (h : Settled config p address) :
    Cooldown.Clear config.cooldownMs p.machine address where
  done := by
    intro i task hi hkey
    obtain ⟨granting, hgranting, rfl⟩ := Option.map_eq_some_iff.mp hi
    exact Set.eq_empty_of_forall_notMem fun token => h.through i granting hgranting hkey token
  known := by
    intro e he hkey
    obtain ⟨m, hm, rfl⟩ := List.mem_map.mp he
    cases h.known m hm hkey with
    | inl hgranted =>
      obtain ⟨granting, hgranting, hplanned⟩ := hgranted
      exact .inl ⟨granting.task, by simp [Process.machine, Mint.effect, hgranting], hplanned⟩
    | inr hold => exact .inr hold

def Granting.Confirmed (granting : Granting) : Prop :=
  ∀ token, token ∉ granting.planned → granting.txs token = .executed

structure Sound (config : Config) (p : Process) : Prop where
  confirmed : ∀ i granting, p.granting i = some granting → granting.Confirmed
  amounts : ∀ m ∈ p.mints, m.amount = config.amount m.token

theorem limited_of_kept (hs : Sound config p) (hk : Cooldown.Kept config.cooldownMs p.machine) :
    Limited config p := by
  intro token address start
  have hone := hk.window address token start
  simp only [Process.machine, List.filter_map, List.length_map, Function.comp_def, Mint.effect]
    at hone
  rw [mintedIn]
  have hamount : ∀ n ∈ (p.mints.filter fun m => m.address = address ∧ m.token = token ∧
      start ≤ m.atMs ∧ m.atMs < start + config.cooldownMs).map Mint.amount,
      n ≤ config.amount token := by
    intro n hn
    obtain ⟨m, hm, rfl⟩ := List.mem_map.mp hn
    obtain ⟨hmem, hfilter⟩ := List.mem_filter.mp hm
    obtain ⟨-, htoken, -⟩ := of_decide_eq_true hfilter
    rw [hs.amounts m hmem, htoken]
  calc
    _ ≤ _ • config.amount token := List.sum_le_card_nsmul _ _ hamount
    _ ≤ 1 • config.amount token := by
      rw [List.length_map]
      exact Nat.mul_le_mul_right _ hone
    _ = config.amount token := one_nsmul _

theorem granting_lt (hi : p.granting i = some granting) : i < p.requests.length := by
  by_contra hge
  simp [Process.granting, not_lt.mp hge] at hi

theorem granting_set {request : Request} (hi : i < p.requests.length) (j : ℕ) :
    (p.setRequest i request).granting j = if j = i then request.granting else p.granting j := by
  by_cases hji : j = i
  · subst hji
    simp [Process.granting, Process.setRequest, hi]
  · simp [Process.granting, Process.setRequest, hji, List.getElem?_set_ne (Ne.symm hji)]

theorem granting_append {request : Request} (j : ℕ) :
    ({ p with requests := p.requests ++ [request] } : Process).granting j =
      if j = p.requests.length then request.granting else p.granting j := by
  by_cases hj : j = p.requests.length
  · simp [Process.granting, hj]
  · rw [if_neg hj, Process.granting, Process.granting]
    by_cases hlt : j < p.requests.length
    · rw [List.getElem?_append_left hlt]
    · rw [List.getElem?_append_right (not_lt.mp hlt), List.getElem?_eq_none (not_lt.mp hlt),
        List.getElem?_eq_none]
      simp
      omega

theorem machine_set (hi : p.granting i = some granting) (granting' : Granting) :
    (p.setRequest i (.admitted granting')).machine = p.machine.setTask i granting'.task := by
  have htasks : (fun j => ((p.setRequest i (.admitted granting')).granting j).map Granting.task) =
      Function.update (fun j => (p.granting j).map Granting.task) i (some granting'.task) := by
    funext j
    by_cases hji : j = i
    · simp [granting_set (granting_lt hi), hji, Request.granting]
    · simp [granting_set (granting_lt hi), hji]
  rw [Process.machine, htasks]
  rfl

theorem machine_start {p' : Process} {address : String}
    (hgranting : ∀ j, p'.granting j =
      if j = i then (grantTestTokens address).granting else p.granting j)
    (hnow : p'.nowMs = p.nowMs) (hlast : p'.lastGrantMsByAddress = p.lastGrantMsByAddress)
    (hmints : p'.mints = p.mints) :
    p'.machine = p.machine.setTask i ⟨address, Set.univ, False⟩ := by
  have htask : (grantTestTokens address).granting.map Granting.task =
      some ⟨address, Set.univ, False⟩ := by
    have hopen : { token | Granting.Open ⟨address, plannedGrants, [], fun _ => .unsent, none⟩ token } =
        Set.univ := by
      apply Set.eq_univ_of_forall
      intro token
      cases token <;> simp [Granting.Open, plannedGrants]
    have hplanned : plannedGrants ≠ [] := List.cons_ne_nil _ _
    simp [grantTestTokens, Request.granting, Granting.task, hopen, hplanned]
  have htasks : (fun j => (p'.granting j).map Granting.task) =
      Function.update (fun j => (p.granting j).map Granting.task) i
        (some ⟨address, Set.univ, False⟩) := by
    funext j
    by_cases hji : j = i
    · simp [hgranting, hji, htask]
    · simp [hgranting, hji]
  rw [Process.machine, htasks, hnow, hlast, hmints]
  rfl

theorem machine_same {p' : Process} (hgranting : ∀ j, p'.granting j = p.granting j)
    (hnow : p'.nowMs = p.nowMs) (hlast : p'.lastGrantMsByAddress = p.lastGrantMsByAddress)
    (hmints : p'.mints = p.mints) : p'.machine = p.machine := by
  simp only [Process.machine, hgranting, hnow, hlast, hmints]

theorem awaited_eq_some {token : Token} {rest : List Token} :
    granting.awaited = some (token, rest) ↔
      granting.response = none ∧ granting.planned = token :: rest := by
  rw [Granting.awaited]
  split
  case h_1 next rest' hresponse hplanned => simp [hresponse, hplanned]
  case h_2 hother =>
    refine iff_of_false (by simp) ?_
    rintro ⟨hresponse, hplanned⟩
    exact hother token rest hresponse hplanned

theorem open_setTx {token other : Token} {tx : Tx} : (granting.setTx token tx).Open other ↔
    if other = token then tx = .sent ∨ tx = .unsent ∧ token ∈ granting.planned ∧
      granting.response = none
    else granting.Open other := by
  by_cases hother : other = token
  · simp [Granting.Open, Granting.setTx, hother]
  · simp [Granting.Open, Granting.setTx, hother]

theorem not_open_executed {token : Token} (h : granting.txs token = .executed) :
    ¬granting.Open token := by
  simp [Granting.Open, h]

structure Granting.Leads (granting granting' : Granting) : Prop where
  address : granting'.address = granting.address
  planned : granting'.planned = [] ↔ granting.planned = []
  opened : ∀ token, granting'.Open token → granting.Open token
  confirmed : granting.Confirmed → granting'.Confirmed

inductive Move (config : Config) (p : Process) : Process → Prop
  | stay : Move config p p
  | wait (ms : ℚ) (h : 0 ≤ ms) : Move config p { p with nowMs := p.nowMs + ms }
  | lead (i : ℕ) (granting granting' : Granting) (hi : p.granting i = some granting)
      (hl : granting.Leads granting') : Move config p (p.setRequest i (.admitted granting'))
  | execute (i : ℕ) (granting : Granting) (token : Token) (hi : p.granting i = some granting)
      (hsent : granting.txs token = .sent) :
      Move config p { p.setRequest i (.admitted (granting.setTx token .executed)) with
        mints := p.mints ++ [⟨i, token, granting.address, config.amount token, p.nowMs⟩] }
  | record (i : ℕ) (granting granting' : Granting) (hi : p.granting i = some granting)
      (haddress : granting'.address = granting.address) (hplanned : granting'.planned = [])
      (htxs : granting'.txs = granting.txs)
      (hdone : granting.Confirmed → ∀ token, granting.txs token = .executed) :
      Move config p (record p i granting')

theorem leads_setTx {token : Token} {tx : Tx} (hne : granting.txs token ≠ .executed)
    (hopen : tx = .sent → granting.Open token) (htx : tx ≠ .unsent) :
    granting.Leads (granting.setTx token tx) where
  address := rfl
  planned := Iff.rfl
  opened := by
    intro other hother
    rw [open_setTx] at hother
    split at hother
    case isTrue heq =>
      subst heq
      simp only [htx, false_and, or_false] at hother
      exact hopen hother
    case isFalse => exact hother
  confirmed := by
    intro hconfirmed other hother
    have hneq : other ≠ token := by
      rintro rfl
      exact hne (hconfirmed other hother)
    simp [Granting.setTx, hneq, hconfirmed other hother]

theorem send_move (h : send p i = some p') : Move config p p' := by
  simp only [send, Option.bind_eq_bind, Option.bind_eq_some_iff, Prod.exists] at h
  obtain ⟨granting, hi, token, rest, hawaited, h⟩ := h
  obtain ⟨hresponse, hplanned⟩ := awaited_eq_some.mp hawaited
  split at h
  case isFalse => cases h
  case isTrue hunsent =>
    cases h
    refine .lead i granting _ hi (leads_setTx ?_ ?_ ?_)
    · simp [hunsent]
    · intro _
      simp [Granting.Open, hunsent, hplanned, hresponse]
    · simp

theorem drop_move {token : Token} (h : drop p i token = some p') : Move config p p' := by
  simp only [drop, Option.bind_eq_bind, Option.bind_eq_some_iff] at h
  obtain ⟨granting, hi, h⟩ := h
  split at h
  case isFalse => cases h
  case isTrue hsent =>
    cases h
    refine .lead i granting _ hi (leads_setTx ?_ ?_ ?_) <;> simp [hsent]

theorem execute_move {token : Token} (h : execute service p i token = some p') :
    Move service.config p p' := by
  simp only [execute, Option.bind_eq_bind, Option.bind_eq_some_iff] at h
  obtain ⟨granting, hi, h⟩ := h
  split at h
  case isFalse => cases h
  case isTrue hsent =>
    cases h
    exact .execute i granting token hi hsent

theorem leads_response (response : Response) :
    granting.Leads { granting with response := some response } where
  address := rfl
  planned := Iff.rfl
  opened := by
    intro token hopen
    simp only [Granting.Open, reduceCtorEq, and_false, or_false] at hopen
    exact .inl hopen
  confirmed := id

theorem leads_next {token : Token} {rest : List Token} (grants : List TokenGrant)
    (hplanned : granting.planned = token :: rest) (hrest : rest ≠ [])
    (hexecuted : granting.txs token = .executed) :
    granting.Leads { granting with planned := rest, grants := grants } where
  address := rfl
  planned := by simp [hplanned, hrest]
  opened := by
    intro other hopen
    simp only [Granting.Open, hplanned] at hopen ⊢
    exact hopen.imp_right fun hunsent =>
      ⟨hunsent.1, List.mem_cons_of_mem token hunsent.2.1, hunsent.2.2⟩
  confirmed := by
    intro hconfirmed other hother
    by_cases heq : other = token
    · rw [heq]
      exact hexecuted
    · apply hconfirmed
      simpa [hplanned, heq] using hother

theorem minted_move {answers : service.Answers} (h : minted service p i answers = some p') :
    Move config p p' := by
  simp only [minted, Option.bind_eq_bind, Option.bind_eq_some_iff, Prod.exists] at h
  obtain ⟨granting, hi, token, rest, hawaited, h⟩ := h
  obtain ⟨hresponse, hplanned⟩ := awaited_eq_some.mp hawaited
  cases hmint : service.mintToken answers with
  | error e =>
    simp only [hmint, Option.some.injEq] at h
    subst h
    exact .lead i granting _ hi (leads_response _)
  | ok txHash =>
    simp only [hmint] at h
    split at h
    case isTrue => cases h
    case isFalse hexecuted =>
      rw [not_not] at hexecuted
      split at h
      case isTrue hlast =>
        cases h
        subst hlast
        refine .record i granting _ hi rfl rfl rfl fun hconfirmed other => ?_
        by_cases heq : other = token
        · rw [heq, hexecuted]
        · apply hconfirmed
          simp [hplanned, heq]
      case isFalse hmore =>
        cases h
        exact .lead i granting _ hi (leads_next _ hplanned hmore hexecuted)

theorem step_move (e : Event service.Answers) : Move service.config p (service.step p e) := by
  have hstay : ∀ op : Option Process, (∀ p', op = some p' → Move service.config p p') →
      Move service.config p (op.getD p) := by
    intro op h
    cases op with
    | none => exact .stay
    | some p' => exact h p' rfl
  cases e with
  | wait ms =>
    apply hstay
    intro p' h
    rw [wait] at h
    split at h
    case isTrue hms =>
      cases h
      exact .wait ms hms
    case isFalse => cases h
  | send i => exact hstay _ fun p' h => send_move h
  | execute i token => exact hstay _ fun p' h => execute_move h
  | drop i token => exact hstay _ fun p' h => drop_move h
  | minted i answers => exact hstay _ fun p' h => minted_move h

theorem machine_tasks (hi : p.granting i = some granting) :
    p.machine.tasks i = some granting.task := by
  simp [Process.machine, hi]

/-- A move of the process is a step of the machine. -/
theorem Move.refines (h : Move config p p') (hs : Sound config p) : p'.machine = p.machine ∨
    Cooldown.Step config.cooldownMs p.machine p'.machine := by
  cases h with
  | stay => exact .inl rfl
  | wait ms hms => exact .inr (.wait p.machine _ (le_add_of_nonneg_right hms))
  | lead i granting granting' hi hl =>
    right
    have htask : granting'.task =
        { granting.task with pending := { token | granting'.Open token } } := by
      simp only [Granting.task, hl.address, hl.planned]
    rw [machine_set hi, htask]
    exact .giveUp _ i _ _ (machine_tasks hi) hl.opened
  | execute i granting token hi hsent =>
    right
    have htask : (granting.setTx token .executed).task =
        { granting.task with pending := granting.task.pending \ {token} } := by
      simp only [Granting.task, Granting.setTx]
      congr 1
      ext other
      have hset := @open_setTx granting token other .executed
      by_cases hother : other = token <;> simp_all [Granting.setTx]
    have hstep : Cooldown.Step config.cooldownMs p.machine _ :=
      .act p.machine i _ token (machine_tasks hi) (.inl hsent)
    let m : Mint := ⟨i, token, granting.address, config.amount token, p.nowMs⟩
    change Cooldown.Step _ _ { (p.setRequest i (.admitted (granting.setTx token .executed))).machine
      with effects := (p.mints ++ [m]).map Mint.effect }
    rw [machine_set hi, htask, List.map_append]
    exact hstep
  | record i granting granting' hi haddress hplanned htxs hdone =>
    right
    have hexecuted := hdone (hs.confirmed i granting hi)
    let answered : Granting :=
      { granting' with response := some ⟨200, .granted granting'.address granting'.grants, none⟩ }
    have hempty : { token | granting.Open token } = ∅ :=
      Set.eq_empty_of_forall_notMem fun token => not_open_executed (hexecuted token)
    have hempty' : { token | answered.Open token } = ∅ :=
      Set.eq_empty_of_forall_notMem fun token =>
        not_open_executed ((congrFun htxs token).trans (hexecuted token))
    have htask : answered.task = { granting.task with recorded := True } := by
      rw [Granting.task, hempty', Granting.task, hempty]
      simp only [answered, hplanned, haddress]
    have hstep : Cooldown.Step config.cooldownMs p.machine _ :=
      .record p.machine i _ (machine_tasks hi) hempty
    change Cooldown.Step _ _ { (p.setRequest i (.admitted answered)).machine with
      last := Function.update p.lastGrantMsByAddress granting'.address (some p.nowMs) }
    rw [machine_set hi, htask, haddress]
    exact hstep

theorem sound_set {granting' : Granting} (hs : Sound config p) (hi : p.granting i = some granting)
    (htx : granting.Confirmed → granting'.Confirmed)
    (hmints : ∀ m ∈ p'.mints, m.amount = config.amount m.token)
    (hgranting : p'.granting = (p.setRequest i (.admitted granting')).granting) :
    Sound config p' where
  confirmed := by
    intro j other hj
    rw [hgranting, granting_set (granting_lt hi)] at hj
    split at hj
    case isTrue =>
      cases hj
      exact htx (hs.confirmed i granting hi)
    case isFalse => exact hs.confirmed j other hj
  amounts := hmints

theorem Move.sound (h : Move config p p') (hs : Sound config p) : Sound config p' := by
  cases h with
  | stay => exact hs
  | wait ms hms => exact ⟨hs.confirmed, hs.amounts⟩
  | lead i granting granting' hi hl => exact sound_set hs hi hl.confirmed hs.amounts rfl
  | execute i granting token hi hsent =>
    refine sound_set hs hi ?_ ?_ rfl
    · intro hconfirmed other hother
      by_cases heq : other = token
      · simp [Granting.setTx, heq]
      · simpa [Granting.setTx, heq] using hconfirmed other hother
    · exact List.forall_mem_append.mpr ⟨hs.amounts, List.forall_mem_singleton.mpr rfl⟩
  | record i granting granting' hi haddress hplanned htxs hdone =>
    refine sound_set hs hi ?_ hs.amounts rfl
    intro hconfirmed other _
    exact (congrFun htxs other).trans (hdone hconfirmed other)

end Refinement

section Admission
variable {config : Config} {p p' : Process} {i : ℕ} {request : Request}

/-- A request that is let in found no grant to its address on record that is not a cooldown old. -/
def Cooled (config : Config) (p : Process) (request : Request) : Prop :=
  ∀ granting, request = .admitted granting → request = grantTestTokens granting.address ∧
    ∀ lastMs, p.lastGrantMsByAddress granting.address = some lastMs →
      lastMs + config.cooldownMs ≤ p.nowMs

def Kept (config : Config) (p : Process) : Prop :=
  Sound config p ∧ Cooldown.Kept config.cooldownMs p.machine

theorem Move.kept (h : Move config p p') (hk : Kept config p) : Kept config p' := by
  refine ⟨h.sound hk.1, ?_⟩
  cases h.refines hk.1 with
  | inl hsame =>
    rw [hsame]
    exact hk.2
  | inr hstep => exact hstep.kept hk.2

structure Takes (p p' : Process) (i : ℕ) (request : Request) : Prop where
  free : p.granting i = none
  granting : ∀ j, p'.granting j = if j = i then request.granting else p.granting j
  nowMs : p'.nowMs = p.nowMs
  lastGrantMsByAddress : p'.lastGrantMsByAddress = p.lastGrantMsByAddress
  mints : p'.mints = p.mints

theorem takes_arrival : Takes p { p with requests := p.requests ++ [request] } p.requests.length
    request where
  free := by simp [Process.granting]
  granting := granting_append
  nowMs := rfl
  lastGrantMsByAddress := rfl
  mints := rfl

theorem takes_reading (hreading : p.requests[i]? = some .reading) :
    Takes p (p.setRequest i request) i request where
  free := by simp [Process.granting, hreading, Request.granting]
  granting := granting_set (List.getElem?_eq_some_iff.mp hreading).1
  nowMs := rfl
  lastGrantMsByAddress := rfl
  mints := rfl

theorem Takes.kept_other (ht : Takes p p' i request) (hk : Kept config p)
    (hnone : request.granting = none) : Kept config p' := by
  have hgranting : ∀ j, p'.granting j = p.granting j := by
    intro j
    rw [ht.granting, hnone]
    split
    case isTrue hji => rw [hji, ht.free]
    case isFalse => rfl
  have hsame := machine_same hgranting ht.nowMs ht.lastGrantMsByAddress ht.mints
  refine ⟨⟨?_, ht.mints ▸ hk.1.amounts⟩, hsame ▸ hk.2⟩
  intro j other hj
  exact hk.1.confirmed j other (hgranting j ▸ hj)

/-- The check and the settled address together keep the cooldown. -/
theorem Takes.kept (ht : Takes p p' i request) (hk : Kept config p) (hcooled : Cooled config p request)
    (hsettled : ∀ granting, request = .admitted granting → Settled config p granting.address) :
    Kept config p' := by
  cases request with
  | admitted granting =>
    obtain ⟨hgrant, hlast⟩ := hcooled granting rfl
    have hstep : Cooldown.Step config.cooldownMs p.machine p'.machine := by
      rw [machine_start (hgrant ▸ ht.granting) ht.nowMs ht.lastGrantMsByAddress ht.mints]
      exact .start p.machine i _ (by simp [Process.machine, ht.free]) hlast
        (hsettled granting rfl).clear
    refine ⟨⟨?_, ht.mints ▸ hk.1.amounts⟩, hstep.kept hk.2⟩
    intro j other hj
    rw [ht.granting] at hj
    split at hj
    case isTrue =>
      rw [hgrant] at hj
      cases hj
      intro token hplanned
      cases token <;> simp [plannedGrants] at hplanned
    case isFalse => exact hk.1.confirmed j other hj
  | refused response => exact ht.kept_other hk rfl
  | reading => exact ht.kept_other hk rfl

theorem launch_kept (nowMs : ℚ) : Kept config (launch nowMs) where
  left := ⟨fun i granting hi => by simp [launch, Process.granting] at hi, List.forall_mem_nil _⟩
  right :=
    { spaced := List.Pairwise.nil
      cooled := fun i task kind hi => by simp [launch, Process.granting, Process.machine] at hi
      alone := fun i j task task' hi => by simp [launch, Process.granting, Process.machine] at hi
      owned := List.forall_mem_nil _
      served := List.forall_mem_nil _
      finished := fun i task hi => by simp [launch, Process.granting, Process.machine] at hi }

theorem launch_settled (nowMs : ℚ) (address : String) : Settled config (launch nowMs) address where
  through := fun i granting hi => by simp [launch, Process.granting] at hi
  known := List.forall_mem_nil _

theorem settled_of_granted (hs : Sound config p)
    (hall : ∀ i granting, p.granting i = some granting → granting.planned = [])
    (hmints : ∀ m ∈ p.mints, (p.granting m.request).isSome) (address : String) :
    Settled config p address where
  through := by
    intro i granting hi _ token
    apply not_open_executed
    apply hs.confirmed i granting hi
    simp [hall i granting hi]
  known := by
    intro m hm _
    obtain ⟨granting, hgranting⟩ := Option.isSome_iff_exists.mp (hmints m hm)
    exact .inl ⟨granting, hgranting, hall m.request granting hgranting⟩

theorem Kept.limited (hk : Kept config p) : Limited config p := limited_of_kept hk.1 hk.2

end Admission

section Handlers
variable {strKey : StrKey} {publicKey : String → Option String} {env : Serverless.Environment}
  {stellarBin : String} {config : Config} {p : Process}

theorem cooled_refused (response : Response) : Cooled config p (.refused response) :=
  fun _ hadmitted => nomatch hadmitted

theorem cooled_grantTestTokens {address : String}
    (hcool : ∀ lastMs, p.lastGrantMsByAddress address = some lastMs →
      lastMs + config.cooldownMs ≤ p.nowMs) : Cooled config p (grantTestTokens address) := by
  intro granting hadmitted
  cases hadmitted
  exact ⟨rfl, hcool⟩

theorem handler_cooled (req : Serverless.VercelRequest) :
    Cooled config p (Serverless.handler strKey publicKey env config p req) := by
  rw [Serverless.handler]
  split
  case isTrue => exact cooled_refused _
  split
  case h_1 => exact cooled_refused _
  dsimp only
  split
  case isTrue => exact cooled_refused _
  split
  case h_1 hnone =>
    apply cooled_grantTestTokens
    simp [hnone]
  case h_2 lastMs hlast =>
    split
    case isTrue => exact cooled_refused _
    case isFalse hold =>
      apply cooled_grantTestTokens
      intro lastMs' hlast'
      rw [hlast, Option.some.injEq] at hlast'
      subst hlast'
      linarith

theorem postFaucet_cooled (json : Option Json) :
    Cooled config p (Standalone.postFaucet strKey config p json) := by
  cases json with
  | none => exact cooled_refused _
  | some json =>
    rw [Standalone.postFaucet]
    dsimp only
    split
    case isTrue => exact cooled_refused _
    split
    case isTrue => exact cooled_refused _
    case isFalse hold =>
      apply cooled_grantTestTokens
      intro lastMs hlast
      simp only [Standalone.cooldownRemainingMs, hlast] at hold
      split at hold
      case isTrue helapsed => linarith
      case isFalse hshort =>
        exact absurd (sub_pos.mpr (not_le.mp hshort)) hold

/-- The serverless handler lets an address in only when what went before is settled. -/
def Serverless.Unshared (strKey : StrKey) (publicKey : String → Option String)
    (env : Serverless.Environment) (config : Config) (p : Process) : Serverless.Action → Prop
  | .arrive req => ∀ granting, Serverless.handler strKey publicKey env config p req =
      .admitted granting → Settled config p granting.address
  | .go _ => True

/-- The standalone service does so once the body of a request is there. -/
def Standalone.Unshared (strKey : StrKey) (config : Config) (server : Standalone.Server) :
    Standalone.Action → Prop
  | .body i json => server.process.requests[i]? = some .reading →
      ∀ granting, Standalone.postFaucet strKey config server.process json = .admitted granting →
        Settled config server.process granting.address
  | _ => True

theorem serverless_kept (hk : Kept config p) (a : Serverless.Action)
    (ha : Serverless.Unshared strKey publicKey env config p a) :
    Kept config (Serverless.step strKey publicKey env config p a) := by
  cases a with
  | arrive req => exact takes_arrival.kept hk (handler_cooled req) ha
  | go event => exact (@step_move (Serverless.service config) p event).kept hk

theorem limit_kept (hk : Kept config p) (granted : Bool) :
    Kept config { p with requests := p.requests ++ [Standalone.limit granted] } := by
  apply takes_arrival.kept_other hk
  cases granted <;> rfl

theorem standalone_kept {server : Standalone.Server} (hk : Kept config server.process)
    (a : Standalone.Action) (ha : Standalone.Unshared strKey config server a) :
    Kept config (Standalone.step stellarBin strKey config server a).process := by
  cases a with
  | arrive clientIp => exact limit_kept hk _
  | body i json =>
    rw [Standalone.step, Standalone.readBody]
    split
    case h_1 hreading =>
      exact (takes_reading hreading).kept hk (postFaucet_cooled json) (ha hreading)
    case h_2 => exact hk
  | go event => exact (@step_move (Standalone.service stellarBin config) _ event).kept hk

end Handlers

/-- Both faucets keep to one grant a cooldown in every run in which an address is let in only when
its earlier mints are on record or a cooldown old, with none under way. -/
theorem faucet_limited (strKey : StrKey) (publicKey : String → Option String)
    (env : Serverless.Environment) (stellarBin : String) (config : Config) (nowMs : ℚ) :
    (∀ actions, Runs.Along (Serverless.step strKey publicKey env config)
        (Serverless.Unshared strKey publicKey env config) (launch nowMs) actions →
      Limited config (Runs.run (Serverless.step strKey publicKey env config) (launch nowMs)
        actions)) ∧
    ∀ actions, Runs.Along (Standalone.step stellarBin strKey config)
        (Standalone.Unshared strKey config) ⟨launch nowMs, fun _ => none⟩ actions →
      Limited config (Runs.run (Standalone.step stellarBin strKey config)
        ⟨launch nowMs, fun _ => none⟩ actions).process := by
  constructor
  · intro actions hactions
    have hrun := Runs.run_invariant (P := Kept config)
      (fun p a hk ha => serverless_kept hk a ha) (launch_kept nowMs) hactions
    exact hrun.limited
  · intro actions hactions
    have hrun := Runs.run_invariant (P := fun server => Kept config server.process)
      (fun server a hk ha => @standalone_kept strKey stellarBin config server hk a ha)
      (launch_kept nowMs) hactions
    exact hrun.limited

section Fixture

def tester : String := "GBVBAPDDM6TSSFHSYS3YBY373V6KJK7Z7IMNEKNDAFGAVAVXNJBZD6KM"

def testerRequest : Serverless.VercelRequest := ⟨"POST", .parsed ⟨some tester⟩⟩

def testnet : Serverless.Environment := ⟨none, some "seed"⟩

def issuerOf : String → Option String := fun _ => some Serverless.expectedIssuer

def minting : Serverless.MintAnswers := ⟨.ok (), .ok (), .ok ("PENDING", "ab"), fun _ => some "SUCCESS"⟩

def untrusted : Serverless.MintAnswers := ⟨.ok (), .error "no trustline", .error "", fun _ => none⟩

def sharedCheck : List Serverless.Action :=
  [.arrive testerRequest, .go (.send 0), .arrive testerRequest, .go (.wait 5000),
    .go (.execute 0 .tUSDC), .go (.send 1), .go (.wait 5000), .go (.execute 1 .tUSDC)]

def halfGrant : List Serverless.Action :=
  [.arrive testerRequest, .go (.send 0), .go (.wait 5000), .go (.execute 0 .tUSDC),
    .go (.minted 0 minting), .go (.minted 0 untrusted), .arrive testerRequest, .go (.send 1),
    .go (.wait 5000), .go (.execute 1 .tUSDC)]

def stellarDone : Standalone.MintAnswers := ⟨none, ""⟩

def stellarRefused : Standalone.MintAnswers := ⟨some ⟨"failed", false, none⟩, "no trustline"⟩

def sharedCheck' : List Standalone.Action :=
  [.arrive "ip", .body 0 (some ⟨some tester⟩), .go (.send 0), .arrive "ip",
    .body 1 (some ⟨some tester⟩), .go (.wait 5000), .go (.execute 0 .tUSDC), .go (.send 1),
    .go (.wait 5000), .go (.execute 1 .tUSDC)]

def halfGrant' : List Standalone.Action :=
  [.arrive "ip", .body 0 (some ⟨some tester⟩), .go (.send 0), .go (.wait 5000),
    .go (.execute 0 .tUSDC), .go (.minted 0 stellarDone), .go (.minted 0 stellarRefused),
    .arrive "ip", .body 1 (some ⟨some tester⟩), .go (.send 1), .go (.wait 5000),
    .go (.execute 1 .tUSDC)]

def firstGrant : List Serverless.Action :=
  [.arrive testerRequest, .go (.send 0), .go (.execute 0 .tUSDC), .go (.minted 0 minting),
    .go (.send 0), .go (.execute 0 .tBENJI), .go (.minted 0 minting), .go (.wait 60000)]

def firstGranted : Process :=
  Runs.run (Serverless.step sep23 issuerOf testnet defaults) (launch 0) firstGrant

theorem firstGranted_kept : Kept defaults firstGranted := by
  have hfirst : Runs.Along (Serverless.step sep23 issuerOf testnet defaults)
      (Serverless.Unshared sep23 issuerOf testnet defaults) (launch 0) firstGrant :=
    ⟨fun granting _ => launch_settled 0 granting.address, trivial, trivial, trivial, trivial, trivial,
      trivial, trivial, trivial⟩
  rw [firstGranted]
  exact Runs.run_invariant (P := Kept defaults) (fun p a hk ha => serverless_kept hk a ha)
    (launch_kept 0) hfirst

theorem firstGranted_settled (address : String) : Settled defaults firstGranted address := by
  have hlength : firstGranted.requests.length = 1 := by decide +kernel
  have hplanned : (firstGranted.granting 0).map Granting.planned = some [] := by decide +kernel
  have hrequests : firstGranted.mints.map Mint.request = [0, 0] := by decide +kernel
  apply settled_of_granted firstGranted_kept.1
  · intro i granting hi
    have hzero : i = 0 := Nat.lt_one_iff.mp ((granting_lt hi).trans_eq hlength)
    subst hzero
    rw [hi] at hplanned
    exact Option.some.inj hplanned
  · intro m hm
    have hzero : m.request ∈ [0, 0] := hrequests ▸ List.mem_map_of_mem hm
    have hrequest : m.request = 0 := by simpa using hzero
    rw [hrequest]
    simpa using congrArg Option.isSome hplanned

theorem twice_unlimited {p : Process}
    (h : p.mints = [⟨0, .tUSDC, tester, 500000, 5000⟩, ⟨1, .tUSDC, tester, 500000, 10000⟩]) :
    ¬Limited defaults p := by
  intro hlimited
  have htwo := hlimited .tUSDC tester 0
  rw [h] at htwo
  norm_num [mintedIn, defaults, List.filter_cons] at htwo

end Fixture

/-- Requests that share a check, and a grant that fails half way, mint twice at once, in the
serverless handler and in the standalone service. -/
theorem faucet_unlimited :
    ¬Limited defaults (Runs.run (Serverless.step sep23 issuerOf testnet defaults) (launch 0)
        sharedCheck) ∧
      ¬Limited defaults (Runs.run (Serverless.step sep23 issuerOf testnet defaults) (launch 0)
        halfGrant) ∧
      ¬Limited defaults (Runs.run (Standalone.step "stellar" sep23 defaults)
        ⟨launch 0, fun _ => none⟩ sharedCheck').process ∧
      ¬Limited defaults (Runs.run (Standalone.step "stellar" sep23 defaults)
        ⟨launch 0, fun _ => none⟩ halfGrant').process := by
  refine ⟨twice_unlimited ?_, twice_unlimited ?_, twice_unlimited ?_, twice_unlimited ?_⟩
  · decide +kernel
  · decide +kernel
  · decide +kernel
  · decide +kernel

/-- The first grant is on record when the second is let in, and a cooldown old. -/
theorem faucet_limited_witness :
    Limited defaults (Runs.run (Serverless.step sep23 issuerOf testnet defaults) (launch 0)
      (firstGrant ++ [.arrive testerRequest, .go (.send 1), .go (.execute 1 .tUSDC)])) := by
  apply (faucet_limited sep23 issuerOf testnet "stellar" defaults 0).1
  exact ⟨fun granting _ => launch_settled 0 granting.address, trivial, trivial, trivial, trivial,
    trivial, trivial, trivial, fun granting _ => firstGranted_settled granting.address, trivial,
    trivial, trivial⟩

end SealedStellar.Faucet
