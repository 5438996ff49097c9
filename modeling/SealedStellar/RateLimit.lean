import SealedStellar.Lib.Runs
import SealedStellar.Lib.TokenBucket
import Mathlib.Algebra.Order.Field.Rat
import Mathlib.Data.List.Sort

/-! indexer/src/api.ts and faucet/src/api.ts: the token bucket of each client. Times and tokens are
exact rationals. -/
namespace SealedStellar

structure RateBucket where
  tokens : ℚ
  lastRefillMs : ℚ

abbrev RateBuckets := String → Option RateBucket

def takeToken (rateCapacity rateRefillPerSecond : ℚ) (rateBuckets : RateBuckets) (clientIp : String)
    (nowMs : ℚ) : Bool × RateBuckets :=
  let bucket := (rateBuckets clientIp).getD ⟨rateCapacity, nowMs⟩
  let elapsedSeconds := (nowMs - bucket.lastRefillMs) / 1000
  let tokens := min rateCapacity (bucket.tokens + elapsedSeconds * rateRefillPerSecond)
  if tokens < 1 then (false, Function.update rateBuckets clientIp (some ⟨tokens, nowMs⟩))
  else (true, Function.update rateBuckets clientIp (some ⟨tokens - 1, nowMs⟩))

def Indexer.takeToken : RateBuckets → String → ℚ → Bool × RateBuckets := SealedStellar.takeToken 60 30

def Faucet.takeToken : RateBuckets → String → ℚ → Bool × RateBuckets :=
  SealedStellar.takeToken 10 (1 / 5)

namespace RateLimit

structure TokenRequest where
  clientIp : String
  nowMs : ℚ
  deriving DecidableEq

abbrev Limiter := RateBuckets → String → ℚ → Bool × RateBuckets

section Process
variable (limiter : Limiter)

def bucketsAfter (rateBuckets : RateBuckets) (requests : List TokenRequest) : RateBuckets :=
  Runs.run (fun buckets r => (limiter buckets r.clientIp r.nowMs).2) rateBuckets requests

def answers : RateBuckets → List TokenRequest → List (TokenRequest × Bool)
  | _, [] => []
  | rateBuckets, r :: requests => (r, (limiter rateBuckets r.clientIp r.nowMs).1) ::
    answers (limiter rateBuckets r.clientIp r.nowMs).2 requests

def grantsIn (clientIp : String) (s t : ℚ) (log : List (TokenRequest × Bool)) : ℕ :=
  log.countP fun e => e.2 ∧ e.1.clientIp = clientIp ∧ s ≤ e.1.nowMs ∧ e.1.nowMs ≤ t

structure Limits (capacity refillPerSecond : ℚ) : Prop where
  bounded : ∀ requests : List TokenRequest, (requests.map TokenRequest.nowMs).Pairwise (· ≤ ·) →
    ∀ clientIp s t, s ≤ t → (grantsIn clientIp s t (answers limiter (fun _ => none) requests) : ℚ) ≤
      capacity + refillPerSecond * ((t - s) / 1000)
  stored : ∀ requests : List TokenRequest, (requests.map TokenRequest.nowMs).Pairwise (· ≤ ·) →
    ∀ clientIp bucket, bucketsAfter limiter (fun _ => none) requests clientIp = some bucket →
      0 ≤ bucket.tokens ∧ bucket.tokens ≤ capacity
  separate : ∀ (requests : List TokenRequest) (clientIp : String),
    (answers limiter (fun _ => none) requests).filter (fun e => e.1.clientIp = clientIp) =
      answers limiter (fun _ => none) (requests.filter fun r => r.clientIp = clientIp)

end Process

section Buckets
variable {capacity refill : ℚ} {rateBuckets : RateBuckets} {clientIp : String} {nowMs : ℚ}

/-- A client's bucket; where there is none yet, the full one that a request at nowMs starts with. -/
def bucketOf (capacity : ℚ) (rateBuckets : RateBuckets) (clientIp : String) (nowMs : ℚ) :
    TokenBucket.Bucket ℚ :=
  let bucket := (rateBuckets clientIp).getD ⟨capacity, nowMs⟩
  ⟨bucket.tokens, bucket.lastRefillMs⟩

/-- The library's bucket at the same rate, counted in milliseconds. -/
def taken (capacity refill : ℚ) (rateBuckets : RateBuckets) (clientIp : String) (nowMs : ℚ) :
    Bool × TokenBucket.Bucket ℚ :=
  TokenBucket.take capacity (refill / 1000) (bucketOf capacity rateBuckets clientIp nowMs) nowMs

theorem takeToken_eq : takeToken capacity refill rateBuckets clientIp nowMs =
    ((taken capacity refill rateBuckets clientIp nowMs).1,
      Function.update rateBuckets clientIp
        (some ⟨(taken capacity refill rateBuckets clientIp nowMs).2.tokens,
          (taken capacity refill rateBuckets clientIp nowMs).2.last⟩)) := by
  have hrate : ∀ elapsed : ℚ, elapsed / 1000 * refill = elapsed * (refill / 1000) := by
    intro elapsed
    ring
  simp only [takeToken, taken, TokenBucket.take, TokenBucket.Bucket.level, bucketOf, hrate]
  split
  case isTrue h => simp only [h, if_true]
  case isFalse h => simp only [h, if_false]

theorem takeToken_own : (takeToken capacity refill rateBuckets clientIp nowMs).2 clientIp =
    some ⟨(taken capacity refill rateBuckets clientIp nowMs).2.tokens,
      (taken capacity refill rateBuckets clientIp nowMs).2.last⟩ := by
  simp [takeToken_eq]

theorem bucketOf_takeToken {capacity' later : ℚ} :
    bucketOf capacity' (takeToken capacity refill rateBuckets clientIp nowMs).2 clientIp later =
      (taken capacity refill rateBuckets clientIp nowMs).2 := by
  rw [bucketOf, takeToken_own]
  rfl

theorem takeToken_other {other : String} (hne : other ≠ clientIp) :
    (takeToken capacity refill rateBuckets clientIp nowMs).2 other = rateBuckets other := by
  simp [takeToken_eq, hne]

theorem takeToken_congr {rateBuckets' : RateBuckets}
    (h : rateBuckets clientIp = rateBuckets' clientIp) :
    (takeToken capacity refill rateBuckets clientIp nowMs).1 =
        (takeToken capacity refill rateBuckets' clientIp nowMs).1 ∧
      (takeToken capacity refill rateBuckets clientIp nowMs).2 clientIp =
        (takeToken capacity refill rateBuckets' clientIp nowMs).2 clientIp := by
  simp [takeToken_eq, taken, bucketOf, h]

end Buckets

section Runs
variable {capacity refill : ℚ} {requests : List TokenRequest} {clientIp : String}

theorem answers_filter {rateBuckets rateBuckets' : RateBuckets}
    (h : rateBuckets clientIp = rateBuckets' clientIp) :
    (answers (takeToken capacity refill) rateBuckets requests).filter
        (fun e => e.1.clientIp = clientIp) =
      answers (takeToken capacity refill) rateBuckets'
        (requests.filter fun r => r.clientIp = clientIp) := by
  induction requests generalizing rateBuckets rateBuckets' with
  | nil => rfl
  | cons r requests ih =>
    by_cases hr : r.clientIp = clientIp
    · subst hr
      obtain ⟨hanswer, hbucket⟩ := @takeToken_congr capacity refill rateBuckets r.clientIp r.nowMs _ h
      simp [answers, hanswer, ih hbucket]
    · have hbucket := @takeToken_other capacity refill rateBuckets r.clientIp r.nowMs _ (Ne.symm hr)
      simp [answers, hr, ih (hbucket.trans h)]

def timesOf (clientIp : String) (requests : List TokenRequest) : List ℚ :=
  (requests.filter fun r => r.clientIp = clientIp).map TokenRequest.nowMs

/-- The grants of a client are those of its own bucket. -/
theorem grantsIn_answers {rateBuckets : RateBuckets} {s t : ℚ} :
    grantsIn clientIp s t (answers (takeToken capacity refill) rateBuckets requests) =
      TokenBucket.grantedIn capacity (refill / 1000) s t
        (bucketOf capacity rateBuckets clientIp ((timesOf clientIp requests).headD 0))
        (timesOf clientIp requests) := by
  induction requests generalizing rateBuckets with
  | nil => rfl
  | cons r requests ih =>
    by_cases hr : r.clientIp = clientIp
    · subst hr
      have htimes : timesOf r.clientIp (r :: requests) = r.nowMs :: timesOf r.clientIp requests := by
        simp [timesOf]
      rw [htimes, List.headD_cons, TokenBucket.grantedIn, ← taken, ← bucketOf_takeToken, ← ih,
        answers, grantsIn, List.countP_cons, grantsIn, add_comm, takeToken_eq]
      simp
    · have htimes : timesOf clientIp (r :: requests) = timesOf clientIp requests := by
        simp [timesOf, hr]
      have hbucket : bucketOf capacity (takeToken capacity refill rateBuckets r.clientIp r.nowMs).2
          clientIp = bucketOf capacity rateBuckets clientIp := by
        funext nowMs
        rw [bucketOf, takeToken_other (Ne.symm hr), bucketOf]
      rw [htimes, ← hbucket, ← ih, answers, grantsIn, List.countP_cons]
      simp [hr, grantsIn]

def Kept (capacity : ℚ) (requests : List TokenRequest) (rateBuckets : RateBuckets) : Prop :=
  ∀ clientIp bucket, rateBuckets clientIp = some bucket →
    (0 ≤ bucket.tokens ∧ bucket.tokens ≤ capacity) ∧ ∀ r ∈ requests, bucket.lastRefillMs ≤ r.nowMs

theorem kept_step {r : TokenRequest} {rateBuckets : RateBuckets} (hcapacity : 0 < capacity)
    (hrefill : 0 < refill) (hsorted : ∀ later ∈ requests, r.nowMs ≤ later.nowMs)
    (hk : Kept capacity (r :: requests) rateBuckets) :
    Kept capacity requests (takeToken capacity refill rateBuckets r.clientIp r.nowMs).2 := by
  intro clientIp bucket hbucket
  by_cases hr : clientIp = r.clientIp
  · subst hr
    have hwithin : (bucketOf capacity rateBuckets r.clientIp r.nowMs).Within capacity ∧
        (bucketOf capacity rateBuckets r.clientIp r.nowMs).last ≤ r.nowMs := by
      rw [bucketOf]
      cases hold : rateBuckets r.clientIp with
      | none => exact ⟨⟨hcapacity.le, le_refl capacity⟩, le_refl r.nowMs⟩
      | some old =>
        obtain ⟨hbounds, hlast⟩ := hk r.clientIp old hold
        exact ⟨hbounds, hlast r List.mem_cons_self⟩
    have hrate : 0 ≤ refill / 1000 := div_nonneg hrefill.le (by norm_num)
    have htaken := hwithin.1.take hrate hwithin.2
    rw [takeToken_own, Option.some.injEq] at hbucket
    subst hbucket
    exact ⟨htaken, by simpa [taken] using hsorted⟩
  · rw [takeToken_other hr] at hbucket
    obtain ⟨hbounds, hlast⟩ := hk clientIp bucket hbucket
    exact ⟨hbounds, fun later hlater => hlast later (List.mem_cons_of_mem r hlater)⟩

theorem kept_run {rateBuckets : RateBuckets} (hcapacity : 0 < capacity) (hrefill : 0 < refill)
    (hsorted : (requests.map TokenRequest.nowMs).Pairwise (· ≤ ·))
    (hk : Kept capacity requests rateBuckets) :
    Kept capacity [] (bucketsAfter (takeToken capacity refill) rateBuckets requests) := by
  induction requests generalizing rateBuckets with
  | nil => exact hk
  | cons r requests ih =>
    rw [List.map_cons, List.pairwise_cons, List.forall_mem_map] at hsorted
    exact ih hsorted.2 (kept_step hcapacity hrefill hsorted.1 hk)

theorem takeToken_limits (hcapacity : 0 < capacity) (hrefill : 0 < refill) :
    Limits (takeToken capacity refill) capacity refill where
  bounded := by
    intro requests hsorted clientIp s t hst
    have htimes : (timesOf clientIp requests).Pairwise (· ≤ ·) :=
      hsorted.sublist (List.filter_sublist.map _)
    have hbucket : bucketOf capacity (fun _ => none) clientIp ((timesOf clientIp requests).headD 0) =
        ⟨capacity, (timesOf clientIp requests).headD 0⟩ := rfl
    have hlast : ∀ now ∈ timesOf clientIp requests, (timesOf clientIp requests).headD 0 ≤ now := by
      cases hall : timesOf clientIp requests with
      | nil => exact List.forall_mem_nil _
      | cons first later =>
        rw [hall, List.pairwise_cons] at htimes
        exact List.forall_mem_cons.mpr ⟨le_refl first, htimes.1⟩
    have hfull : (TokenBucket.Bucket.mk capacity ((timesOf clientIp requests).headD 0)).Within
        capacity := ⟨hcapacity.le, le_refl capacity⟩
    have hrate : 0 ≤ refill / 1000 := div_nonneg hrefill.le (by norm_num)
    have hgrants := hfull.grantedIn_le_capacity (s := s) hrate htimes hlast hst
    rw [grantsIn_answers, hbucket]
    have hflow : (t - s) * (refill / 1000) = refill * ((t - s) / 1000) := by ring
    rwa [hflow] at hgrants
  stored := by
    intro requests hsorted clientIp bucket hbucket
    have hnone : Kept capacity requests fun _ => none := fun _ _ h => absurd h (by simp)
    exact (kept_run hcapacity hrefill hsorted hnone clientIp bucket hbucket).1
  separate := fun _ _ => answers_filter rfl

end Runs

/-- Both copies keep to the bound of a token bucket, as does one of any capacity and refill. -/
theorem requests_limited :
    (∀ capacity refillPerSecond : ℚ, 0 < capacity → 0 < refillPerSecond →
      Limits (takeToken capacity refillPerSecond) capacity refillPerSecond) ∧
    Limits Indexer.takeToken 60 30 ∧ Limits Faucet.takeToken 10 (1 / 5) := by
  refine ⟨fun _ _ => takeToken_limits, takeToken_limits ?_ ?_, takeToken_limits ?_ ?_⟩ <;> norm_num

/-- Of three requests at once a bucket of two grants two, and a third one half a second later. -/
theorem requests_limited_witness :
    let requests : List TokenRequest := [⟨"a", 0⟩, ⟨"a", 0⟩, ⟨"a", 0⟩, ⟨"b", 100⟩, ⟨"a", 500⟩]
    grantsIn "a" 0 500 (answers (takeToken 2 2) (fun _ => none) requests) = 3 ∧
      (grantsIn "a" 0 500 (answers (takeToken 2 2) (fun _ => none) requests) : ℚ) ≤
        2 + 2 * ((500 - 0) / 1000) := by
  intro requests
  have hlimits := requests_limited.1 2 2 (by norm_num) (by norm_num)
  refine ⟨by decide +kernel, hlimits.bounded requests ?_ "a" 0 500 (by norm_num)⟩
  norm_num [requests]

end RateLimit
end SealedStellar
