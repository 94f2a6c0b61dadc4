import Kyc.Domain.Types
import Kyc.Programs.Retry
import Kyc.Sumsub.Mapping

/-! # Calls to the API of Sumsub

What the adapter makes of the outcomes of its calls. A call is retried while it fails for a
reason that may pass, and the outcome of the last attempt decides on the answer or the error.
-/

namespace Kyc.Sumsub

open Json

variable {ν α β : Type}

/-- What a call throws: an `HttpError`, another error by its name, or anything else. -/
inductive UpstreamError
  | http (status : ℕ) (body : Text)
  | error (name : String)
  | other
  deriving DecidableEq

/-- A client error that is not retried: 429 is transient. -/
def isClientError : UpstreamError → Bool
  | .http status _ => 400 ≤ status ∧ status < 500 ∧ status ≠ 429
  | _ => false

def isNotFoundError : UpstreamError → Bool
  | .http status _ => status = 404
  | _ => false

/-- `NETWORK_ERROR_NAMES`. -/
def networkErrorNames : List String := ["TypeError", "TimeoutError", "AbortError"]

def isNetworkError : UpstreamError → Bool
  | .http _ _ => "HttpError" ∈ networkErrorNames
  | .error name => name ∈ networkErrorNames
  | .other => false

def shouldRetry : UpstreamError → Bool
  | .http status _ => 500 ≤ status ∨ status = 429
  | e => isNetworkError e

/-- `RETRY_CONFIG`. -/
def retryConfig : Retry.Config := ⟨3, 500⟩

/-- `withRetry`; before the first attempt no error has been thrown. -/
def withRetry (fn : ℕ → Except UpstreamError α) : List Retry.Effect × Except UpstreamError α :=
  Retry.loop shouldRetry retryConfig fn retryConfig.maxAttempts 0 .other

structure SumsubApplicant (ν : Type) where
  applicantId : Option (Value ν)
  review : Value ν

/-- The REST client: the outcome of every attempt of a call. -/
structure SumsubClient (ν : Type) where
  createAccessToken : ℕ → (externalUserId levelName : String) → (ttlInSecs : ℤ) →
    Except UpstreamError (Value ν)
  fetchApplicantStatus : ℕ → (applicantId : String) → Except UpstreamError (Value ν)
  fetchApplicantByExternalUserId : ℕ → (externalUserId : String) →
    Except UpstreamError (SumsubApplicant ν)

/-- `v.name`, which `null` does not have. -/
def readField (v : Value ν) (name : String) : Except UpstreamError (Option (Value ν)) :=
  if v.isNull then .error (.error "TypeError") else .ok (v.get? name)

def reviewStatusOf (review : Value ν) : Except UpstreamError VerificationStatus := do
  let reviewStatus ← readField review "reviewStatus"
  let reviewResult ← readField review "reviewResult"
  return mapSumsubStatus reviewStatus reviewResult

/-- A call that is retried, with what is made of its result; an error of either is caught. -/
def upstream (fn : ℕ → Except UpstreamError α) (use : α → Except UpstreamError β)
    (onError : UpstreamError → Except Thrown β) : List Retry.Effect × Except Thrown β :=
  let run := withRetry fn
  (run.1, match run.2.bind use with
    | .ok b => .ok b
    | .error e => onError e)

def getStatus (client : SumsubClient ν) (providerApplicantId : String) :
    List Retry.Effect × Except Thrown VerificationStatus :=
  upstream (client.fetchApplicantStatus · providerApplicantId) reviewStatusOf fun e =>
    .error (if isNotFoundError e then Errors.sessionNotFound
      else if isClientError e then Errors.validationError "Provider rejected the applicant lookup"
      else Errors.providerUnavailable)

structure UserLookup (ν : Type) where
  status : VerificationStatus
  providerApplicantId : Option (Value ν)

/-- Without an applicant yet the status is the initial one. -/
def getStatusByUserId (client : SumsubClient ν) (userId : String) :
    List Retry.Effect × Except Thrown (UserLookup ν) :=
  upstream (client.fetchApplicantByExternalUserId · userId)
    (fun applicant => do
      let status ← reviewStatusOf applicant.review
      return { status, providerApplicantId := applicant.applicantId })
    fun e =>
      if isNotFoundError e then .ok { status := .initial, providerApplicantId := none }
      else .error Errors.providerUnavailable

section Minting

structure MintConfig where
  levelName : String
  tokenTtlSecs : ℤ

structure MintedToken (ν : Type) where
  accessToken : Option (Value ν)
  expiresAt : Text

/-- The largest time that a `Date` can have, in milliseconds. -/
def maxTime : ℤ := 8640000000000000

/-- `new Date(ms).toISOString()`, by the format of a time that a `Date` can have. -/
def toISOString (format : ℤ → Text) (ms : ℤ) : Except UpstreamError Text :=
  if -maxTime ≤ ms ∧ ms ≤ maxTime then .ok (format ms) else .error (.error "RangeError")

variable (format : ℤ → Text) (client : SumsubClient ν) (config : MintConfig) (now : ℤ)

def mintToken (userId : String) (opts : CreateSessionOptions) :
    List Retry.Effect × Except Thrown (MintedToken ν) :=
  upstream
    (client.createAccessToken · userId ((truthy opts.levelName).getD config.levelName)
      config.tokenTtlSecs)
    (fun created => do
      let accessToken ← readField created "token"
      let expiresAt ← toISOString format (now + config.tokenTtlSecs * 1000)
      return { accessToken, expiresAt })
    fun e =>
      .error (if isClientError e then Errors.sessionCreationFailed else Errors.providerUnavailable)

def createSession (userId : String) (opts : CreateSessionOptions) :
    List Retry.Effect × Except Thrown (MintedToken ν) :=
  mintToken format client config now userId opts

def refreshToken (subject : TokenSubject) (opts : CreateSessionOptions) :
    List Retry.Effect × Except Thrown (MintedToken ν) :=
  mintToken format client config now subject.userId opts

end Minting

/-- The errors that are worth another attempt. -/
inductive Retryable : UpstreamError → Prop
  | status {status : ℕ} (h : 500 ≤ status ∨ status = 429) (body : Text) :
      Retryable (.http status body)
  | network {name : String} (h : name ∈ networkErrorNames) : Retryable (.error name)

theorem shouldRetry_iff (e : UpstreamError) : shouldRetry e = true ↔ Retryable e := by
  constructor
  · intro h
    cases e with
    | http status body => exact .status (of_decide_eq_true h) body
    | error name => exact .network (of_decide_eq_true h)
    | other => cases h
  · rintro (⟨h, body⟩ | h)
    · exact decide_eq_true h
    · exact decide_eq_true h

structure Classified (fn : ℕ → Except UpstreamError α)
    (decided : Except UpstreamError α → Except Thrown β)
    (run : List Retry.Effect × Except Thrown β) : Prop where
  calls : ∀ k, Retry.IsFirst shouldRetry fn k → Retry.calls run.1 = min k 3
  all_calls : (∀ k, ¬ Retry.IsFirst shouldRetry fn k) → Retry.calls run.1 = 3
  settled : ∀ k ≤ 3, Retry.IsFirst shouldRetry fn k → run.2 = decided (fn (k - 1))
  exhausted : (∀ k ≤ 3, ¬ Retry.IsFirst shouldRetry fn k) →
    run.2 = .error Errors.providerUnavailable

/-- An operation decides by the outcome that settles the matter, if it comes to nothing else after
errors that were retried. -/
theorem classified_upstream {fn : ℕ → Except UpstreamError α} {use : α → Except UpstreamError β}
    {onError : UpstreamError → Except Thrown β}
    (hretry : ∀ e, Retryable e → onError e = .error Errors.providerUnavailable) :
    Classified fn
      (fun outcome => match outcome.bind use with
        | .ok b => .ok b
        | .error e => onError e)
      (upstream fn use onError) := by
  obtain ⟨first, none, result⟩ :=
    @Retry.loop_result _ _ shouldRetry retryConfig fn (by decide) .other
  rw [← withRetry] at first none result
  refine ⟨first, none, fun k hk hfirst => ?_, fun hnone => ?_⟩
  · have hcalls : Retry.calls (withRetry fn).1 = k := (first k hfirst).trans (min_eq_left hk)
    rw [hcalls] at result
    rw [upstream, result]
  · have hcalls : Retry.calls (withRetry fn).1 = 3 := by
      by_cases some : ∃ k, Retry.IsFirst shouldRetry fn k
      · obtain ⟨k, hk⟩ := some
        have late : 3 ≤ k := by
          by_contra h
          exact hnone k (by omega) hk
        exact (first k hk).trans (min_eq_right late)
      · exact none (not_exists.mp some)
    rw [hcalls] at result
    cases hlast : fn 2 with
    | ok a =>
      obtain ⟨k, hk, hfirst⟩ := Retry.exists_isFirst (show Retry.Settles shouldRetry (fn 2) by
        rw [hlast]
        trivial)
      exact absurd hfirst (hnone k hk)
    | error e =>
      have retried : shouldRetry e = true := by
        by_contra h
        obtain ⟨k, hk, hfirst⟩ := Retry.exists_isFirst (show Retry.Settles shouldRetry (fn 2) by
          rw [hlast]
          exact Bool.eq_false_iff.mpr h)
        exact hnone k hk hfirst
      rw [upstream, result, hlast]
      exact hretry e ((shouldRetry_iff e).mp retried)

theorem Classified.congr {fn : ℕ → Except UpstreamError α}
    {decided decided' : Except UpstreamError α → Except Thrown β}
    {run : List Retry.Effect × Except Thrown β} (h : Classified fn decided run)
    (heq : ∀ outcome, decided outcome = decided' outcome) : Classified fn decided' run :=
  ⟨h.calls, h.all_calls, fun k hk first => (h.settled k hk first).trans (heq _), h.exhausted⟩

/-! ## What an outcome decides -/

def Rejected (status : ℕ) : Prop := 400 ≤ status ∧ status < 500 ∧ status ≠ 429

instance (status : ℕ) : Decidable (Rejected status) :=
  inferInstanceAs (Decidable (400 ≤ status ∧ status < 500 ∧ status ≠ 429))

def statusDecided : Except UpstreamError (Value ν) → Except Thrown VerificationStatus
  | .ok review =>
    if review.isNull then .error Errors.providerUnavailable
    else .ok (mapSumsubStatus (review.get? "reviewStatus") (review.get? "reviewResult"))
  | .error (.http status _) =>
    if status = 404 then .error Errors.sessionNotFound
    else if Rejected status then
      .error (Errors.validationError "Provider rejected the applicant lookup")
    else .error Errors.providerUnavailable
  | .error _ => .error Errors.providerUnavailable

def lookupDecided : Except UpstreamError (SumsubApplicant ν) → Except Thrown (UserLookup ν)
  | .ok applicant =>
    if applicant.review.isNull then .error Errors.providerUnavailable
    else
      .ok
        { status := mapSumsubStatus (applicant.review.get? "reviewStatus")
            (applicant.review.get? "reviewResult")
          providerApplicantId := applicant.applicantId }
  | .error (.http status _) =>
    if status = 404 then .ok { status := .initial, providerApplicantId := none }
    else .error Errors.providerUnavailable
  | .error _ => .error Errors.providerUnavailable

def mintDecided (format : ℤ → Text) (expiry : ℤ) :
    Except UpstreamError (Value ν) → Except Thrown (MintedToken ν)
  | .ok created =>
    if created.isNull ∨ ¬ (-maxTime ≤ expiry ∧ expiry ≤ maxTime) then
      .error Errors.providerUnavailable
    else .ok { accessToken := created.get? "token", expiresAt := format expiry }
  | .error (.http status _) =>
    if Rejected status then .error Errors.sessionCreationFailed
    else .error Errors.providerUnavailable
  | .error _ => .error Errors.providerUnavailable

theorem Retryable.not_rejected {e : UpstreamError} (h : Retryable e) :
    isClientError e = false ∧ isNotFoundError e = false := by
  cases h with
  | status h body =>
    constructor
    · exact decide_eq_false (by omega)
    · exact decide_eq_false (by omega)
  | network h => exact ⟨rfl, rfl⟩

@[simp] theorem isClientError_http (status : ℕ) (body : Text) :
    isClientError (.http status body) = decide (Rejected status) := rfl

@[simp] theorem isNotFoundError_http (status : ℕ) (body : Text) :
    isNotFoundError (.http status body) = decide (status = 404) := rfl

theorem classified_getStatus (client : SumsubClient ν) (providerApplicantId : String) :
    Classified (client.fetchApplicantStatus · providerApplicantId) statusDecided
      (getStatus client providerApplicantId) := by
  refine (classified_upstream fun e he => ?_).congr fun outcome => ?_
  · rw [he.not_rejected.1, he.not_rejected.2]
    rfl
  · cases outcome with
    | ok review => cases review <;> rfl
    | error e =>
      cases e with
      | http status body =>
        dsimp only [Except.bind, statusDecided]
        simp only [isClientError_http, isNotFoundError_http, decide_eq_true_eq]
        split_ifs <;> rfl
      | error name => rfl
      | other => rfl

theorem classified_getStatusByUserId (client : SumsubClient ν) (userId : String) :
    Classified (client.fetchApplicantByExternalUserId · userId) lookupDecided
      (getStatusByUserId client userId) := by
  refine (classified_upstream fun e he => ?_).congr fun outcome => ?_
  · rw [he.not_rejected.2]
    rfl
  · cases outcome with
    | ok applicant =>
      obtain ⟨applicantId, review⟩ := applicant
      cases review <;> rfl
    | error e =>
      cases e with
      | http status body =>
        dsimp only [Except.bind, lookupDecided]
        simp only [isNotFoundError_http, decide_eq_true_eq]
      | error name => rfl
      | other => rfl

theorem classified_mintToken (format : ℤ → Text) (client : SumsubClient ν) (config : MintConfig)
    (now : ℤ) (userId : String) (opts : CreateSessionOptions) :
    Classified
      (client.createAccessToken · userId ((truthy opts.levelName).getD config.levelName)
        config.tokenTtlSecs)
      (mintDecided format (now + config.tokenTtlSecs * 1000))
      (mintToken format client config now userId opts) := by
  refine (classified_upstream fun e he => ?_).congr fun outcome => ?_
  · rw [he.not_rejected.1]
    rfl
  · cases outcome with
    | ok created =>
      dsimp only [Except.bind, mintDecided]
      rw [readField, toISOString]
      by_cases null : created.isNull
      · rw [if_pos null, if_pos (Or.inl null)]
        rfl
      by_cases time : -maxTime ≤ now + config.tokenTtlSecs * 1000 ∧
          now + config.tokenTtlSecs * 1000 ≤ maxTime
      · have fine : ¬ (created.isNull ∨ ¬ (-maxTime ≤ now + config.tokenTtlSecs * 1000 ∧
            now + config.tokenTtlSecs * 1000 ≤ maxTime)) := by
          rintro (h | h)
          · exact null h
          · exact h time
        rw [if_neg null, if_pos time, if_neg fine]
        rfl
      · rw [if_neg null, if_neg time, if_pos (Or.inr time)]
        rfl
    | error e =>
      cases e with
      | http status body =>
        dsimp only [Except.bind, mintDecided]
        simp only [isClientError_http, decide_eq_true_eq]
        split_ifs <;> rfl
      | error name => rfl
      | other => rfl

/-- What the operations of the adapter do, by the outcomes of their calls. -/
structure UpstreamClassified (format : ℤ → Text) (client : SumsubClient ν) (config : MintConfig)
    (now : ℤ) : Prop where
  retried : ∀ e, shouldRetry e = true ↔ Retryable e
  getStatus : ∀ providerApplicantId,
    Classified (client.fetchApplicantStatus · providerApplicantId) statusDecided
      (getStatus client providerApplicantId)
  getStatusByUserId : ∀ userId,
    Classified (client.fetchApplicantByExternalUserId · userId) lookupDecided
      (getStatusByUserId client userId)
  createSession : ∀ userId opts,
    Classified
      (client.createAccessToken · userId ((truthy opts.levelName).getD config.levelName)
        config.tokenTtlSecs)
      (mintDecided format (now + config.tokenTtlSecs * 1000))
      (createSession format client config now userId opts)
  refreshToken : ∀ subject opts,
    Classified
      (client.createAccessToken · subject.userId ((truthy opts.levelName).getD config.levelName)
        config.tokenTtlSecs)
      (mintDecided format (now + config.tokenTtlSecs * 1000))
      (refreshToken format client config now subject opts)

theorem upstream_outcomes_classified (format : ℤ → Text) (client : SumsubClient ν)
    (config : MintConfig) (now : ℤ) : UpstreamClassified format client config now where
  retried := shouldRetry_iff
  getStatus := classified_getStatus client
  getStatusByUserId := classified_getStatusByUserId client
  createSession := classified_mintToken format client config now
  refreshToken subject opts := classified_mintToken format client config now subject.userId opts

def serverErrorRetry : UpstreamError → Bool
  | .http status _ => 500 ≤ status ∧ status < 600 ∨ status = 429
  | e => isNetworkError e

def unusualStatus : SumsubClient ℕ where
  createAccessToken _ _ _ _ := .error .other
  fetchApplicantStatus n _ := if n = 0 then .error (.http 600 []) else .ok (.object [])
  fetchApplicantByExternalUserId _ _ := .error .other

def promptClient (payload : Value ℕ) : SumsubClient ℕ where
  createAccessToken _ _ _ _ := .ok payload
  fetchApplicantStatus _ _ := .ok payload
  fetchApplicantByExternalUserId _ _ := .ok { applicantId := none, review := payload }

def mintedFor (ttl : ℤ) (payload : Value ℕ) : List Retry.Effect × Except Thrown (MintedToken ℕ) :=
  createSession (fun _ => []) (promptClient payload) ⟨"level", ttl⟩ 0 "u" ⟨.web, none, none⟩

/-- A status of 600 is retried, too; and a call that succeeds leaves the operation without a
result if its payload is `null`, or if the token would outlive every `Date`. -/
theorem not_classified_of_unusual :
    (¬ ∀ (client : SumsubClient ℕ) (id : String) (k : ℕ),
      Retry.IsFirst serverErrorRetry (client.fetchApplicantStatus · id) k →
      Retry.calls (getStatus client id).1 = min k 3) ∧
    (¬ ∀ payload, ∃ status, (getStatus (promptClient payload) "a").2 = .ok status) ∧
    (¬ ∀ payload, ∃ found, (getStatusByUserId (promptClient payload) "u").2 = .ok found) ∧
    (¬ ∀ payload, ∃ token, (mintedFor 600 payload).2 = .ok token) ∧
    ¬ ∀ ttl, ∃ token,
      (mintedFor ttl (.object [(lit "token", .string (lit "t"))])).2 = .ok token := by
  refine ⟨fun h => ?_, fun h => ?_, fun h => ?_, fun h => ?_, fun h => ?_⟩
  · have first : Retry.IsFirst serverErrorRetry (unusualStatus.fetchApplicantStatus · "a") 1 :=
      ⟨le_rfl, (by decide : serverErrorRetry (.http 600 []) = false), fun j hj => by omega⟩
    have calls := h unusualStatus "a" 1 first
    revert calls
    decide
  · obtain ⟨status, hs⟩ := h .null
    cases hs
  · obtain ⟨found, hf⟩ := h .null
    cases hf
  · obtain ⟨token, ht⟩ := h .null
    cases ht
  · obtain ⟨token, ht⟩ := h maxTime
    cases ht

end Kyc.Sumsub
