import Kyc.Service.Operations

/-! # The verification service

The calls of `createVerificationService`, as programs over the store, the provider
and the host's effect. Logging and tracing are left out: no result depends on them.
-/

namespace Kyc

structure SessionView where
  sessionId : String
  provider : String
  status : VerificationStatus
  applicantId : Option String
  deriving DecidableEq, Repr

structure StartResult extends SessionView where
  accessToken : String
  url : String
  allowedOrigin : String
  deriving DecidableEq, Repr

structure RefreshResult where
  accessToken : String
  deriving DecidableEq, Repr

inductive WebhookOutcome
  | ignored_unknown_status
  | unknown_session
  | transition (outcome : StatusTransitionOutcome)
  deriving DecidableEq, Repr

inductive HostedPageDecision
  | page (session : SessionRecord) (accessToken : String)
  | not_found (status : ℕ)
  deriving DecidableEq, Repr

/-- Add an audit entry through the given store, its metadata sanitized. -/
def audit (sessionId : String) (action : AuditAction) (metadata : Option AuditMetadata) :
    Tx Unit := do
  let id ← Tx.newId
  Tx.appendAuditEntry { id, sessionId, action, metadata := sanitizeAuditMetadata metadata }

def view (session : SessionRecord) : SessionView :=
  { sessionId := session.id
    provider := session.provider
    status := session.status
    applicantId := session.providerApplicantId }

/-- `getErrorCode(error) ?? 'UNKNOWN_ERROR'`. -/
def auditedErrorCode (error : Thrown) : String := (getErrorCode error).getD "UNKNOWN_ERROR"

/-- The provider's own error when it carries a code, else `PROVIDER_UNAVAILABLE`. -/
def codedOrUnavailable (error : Thrown) : Thrown :=
  match truthy (getErrorCode error) with
  | some _ => error
  | none => Errors.providerUnavailable

variable (deps : VerificationServiceDeps)

/-- The origin of a base URL, or the URL itself when it does not parse. -/
def publicOrigin (base : String) : String := (deps.urlOrigin base).getD base

/-- The page URL of a session, and the origin a client pins. -/
def hostedUrl (sessionId : String) : String × String :=
  match deps.hostedUrlFor with
  | some hostedUrlFor => (hostedUrlFor sessionId, publicOrigin deps (hostedUrlFor sessionId))
  | none =>
    (deps.publicBaseUrl ++ "/hosted/" ++ sessionId, publicOrigin deps deps.publicBaseUrl)

def requireUser (userId : Option String) : Except Thrown String :=
  match truthy userId with
  | some owner => .ok owner
  | none => .error Errors.unauthorized

theorem requireUser_eq_ok {userId : Option String} {owner : String} :
    requireUser userId = .ok owner ↔ truthy userId = some owner := by
  unfold requireUser
  cases truthy userId with
  | none => simp
  | some s => simp

def requireOwned (id userId : String) : Service SessionRecord := do
  match ← Service.direct (Tx.getSessionByIdForUser id userId) with
  | some session => pure session
  | none => throw Errors.sessionNotFound

/-- Tell the host about a committed change; a throwing effect is audited, never passed on. -/
def runEffects (id : String) (source : StatusSource) (transition : StatusTransition)
    (rejectLabels : Option (List String)) : Service Unit :=
  if transition.outcome = .write .updated ∧ deps.onStatusTransition.isSome then
    tryCatch
      (Service.onStatusTransition
        { previousStatus := transition.previousStatus
          session := transition.session
          source
          rejectLabels })
      fun error => Service.direct <| audit id .effect_failed <| some
        { status := some transition.session.status
          previousStatus := some transition.previousStatus
          source := some source
          errorCode := some (auditedErrorCode error) }
  else pure ()

/-- The conditional write of a transaction and its audit row. -/
def updateAndAudit (id : String) (status : VerificationStatus) (source : StatusSource)
    (options : ApplyStatusTransitionOptions) : Tx StatusTransition := do
  let transition ← Tx.updateSessionStatus id status
  match transition.outcome with
  | .updated =>
    audit id .status_updated <| some
      { status := some status
        previousStatus := some transition.previousStatus
        source := some source
        rejectLabels := options.rejectLabels }
  | .rejected_terminal =>
    if source = .webhook then
      audit id .webhook_rejected <| some
        { status := some status
          previousStatus := some transition.previousStatus
          source := some source
          reason := some "terminal_status" }
  | .unchanged => pure ()
  pure ⟨.write transition.outcome, transition.previousStatus, transition.session⟩

/-- The callback of `writeStatus`: the optional binding, then the write. -/
def writeStatusBody (id : String) (status : VerificationStatus) (source : StatusSource)
    (options : ApplyStatusTransitionOptions) : Tx StatusTransition :=
  match truthy options.bindApplicantId with
  | some applicantId => do
    let bound ← Tx.bindApplicantId id applicantId
    if bound.providerApplicantId ≠ some applicantId then
      audit id .webhook_rejected <| some
        { status := some status
          previousStatus := some bound.status
          source := some source
          reason := some "applicant_mismatch" }
      pure ⟨.rejected_unbound, bound.status, bound⟩
    else updateAndAudit id status source options
  | none => updateAndAudit id status source options

/-- The transaction: binding, the conditional write, the audit row. -/
def writeStatus (id : String) (status : VerificationStatus) (source : StatusSource)
    (options : ApplyStatusTransitionOptions) : Service StatusTransition :=
  Service.transaction (writeStatusBody id status source options)

def applyStatusTransition (id : String) (status : VerificationStatus) (source : StatusSource)
    (options : ApplyStatusTransitionOptions) : Service StatusTransition := do
  let transition ← writeStatus id status source options
  runEffects deps id source transition options.rejectLabels
  pure transition

def lookup (session : SessionRecord) : Service (Option UserStatusLookup) :=
  match truthy session.providerApplicantId with
  | some applicantId => do
    let status ← Provider.getStatus applicantId
    pure (some { status, providerApplicantId := none })
  | none =>
    if supportsUserStatusLookup deps.provider then do
      let found ← Provider.getStatusByUserId session.userId
      pure (some found)
    else pure none

/-- Self-heal a non-terminal session against the provider; any failure keeps the stored row. -/
def reconcile (session : SessionRecord) : Service SessionRecord :=
  if session.status.Terminal then pure session
  else tryCatch
    (do
      match ← lookup deps session with
      | some found =>
        let transition ← applyStatusTransition deps session.id found.status .api
          { bindApplicantId := truthy found.providerApplicantId }
        pure transition.session
      | none => pure session)
    fun _ => pure session

/-- The callback of the first transaction of `start`. -/
def persistBody (owner : String) (opts : CreateSessionOptions) : Tx SessionRecord := do
  let id ← Tx.newId
  let created ← Tx.createSession
    { id
      userId := owner
      provider := deps.providerName
      platform := opts.platform
      levelName := opts.levelName
      locale := opts.locale }
  audit created.id .session_created <| some
    { userId := some owner
      provider := some deps.providerName
      platform := some opts.platform
      levelName := opts.levelName }
  pure created

def start (userId : Option String) (input : Option JsonValue) : Service StartResult := do
  let owner ← Program.ofExcept (requireUser userId)
  let opts ← Program.ofExcept (validateStartInput input)
  let session ← tryCatch (Service.transaction (persistBody deps owner opts))
    fun _ => throw Errors.persistenceFailed
  let minted ← tryCatch (Provider.createSession owner opts) fun error => do
    Service.direct <| audit session.id .creation_failed <| some
      { errorCode := some (auditedErrorCode error), source := some .api }
    throw (codedOrUnavailable error)
  match truthy minted.providerApplicantId with
  | some applicantId =>
    let _ ← Service.direct (Tx.bindApplicantId session.id applicantId)
  | none => pure ()
  pure
    { view session with
      accessToken := minted.accessToken
      url := (hostedUrl deps session.id).1
      allowedOrigin := (hostedUrl deps session.id).2
      applicantId := minted.providerApplicantId }

def refresh (userId : Option String) (sessionId : Option String) : Service RefreshResult := do
  let owner ← Program.ofExcept (requireUser userId)
  let id ← Program.ofExcept (requireId sessionId "sessionId")
  let session ← requireOwned id owner
  if session.status.Terminal then throw (Errors.validationError "session is terminal")
  let token ← tryCatch
    (Provider.refreshToken ⟨owner, session.providerApplicantId⟩
      ⟨session.platform, session.levelName, none⟩)
    fun error => throw (codedOrUnavailable error)
  Service.direct <| audit session.id .token_refreshed <| some
    { userId := some owner, source := some .api }
  pure ⟨token.accessToken⟩

def status (userId : Option String) (id : Option String) : Service SessionView := do
  let owner ← Program.ofExcept (requireUser userId)
  let id ← Program.ofExcept (requireId id "id")
  let session ← requireOwned id owner
  let current ← reconcile deps session
  pure (view current)

def latestForUser (userId : Option String) (reconciling : Bool) : Service (Option SessionView) := do
  let owner ← Program.ofExcept (requireUser userId)
  match ← Service.direct (Tx.getLatestSessionForUser owner deps.providerName) with
  | none => pure none
  | some session =>
    let current ← if reconciling then reconcile deps session else pure session
    pure (some (view current))

/-- The session an event is about is on another level than the one the event names. -/
def onAnotherLevel (session : Option SessionRecord) (event : WebhookEvent) : Bool :=
  match session, event.levelName with
  | some s, some level => s.levelName ≠ some level
  | _, _ => false

/-- The write an event makes on the session it was routed to. -/
def applyEvent (event : WebhookEvent) (newStatus : VerificationStatus) (session : SessionRecord)
    (needsBinding : Bool) : Service WebhookOutcome := do
  let transition ← applyStatusTransition deps session.id newStatus .webhook
    { bindApplicantId := if needsBinding then some event.providerApplicantId else none
      rejectLabels := event.rejectLabels }
  pure (.transition transition.outcome)

/-- The fallback of an event whose applicant has no session on its level: the user's newest
unbound session, if any. -/
def unboundFor (event : WebhookEvent) (session : Option SessionRecord) :
    Service (Option SessionRecord) :=
  match truthy event.externalUserId with
  | some userId =>
    if session = none ∨ onAnotherLevel session event then
      Service.direct (Tx.getLatestUnboundSessionForUser userId deps.providerName)
    else pure none
  | none => pure none

def handleWebhookEvent (event : WebhookEvent) : Service WebhookOutcome :=
  match event.status with
  -- not an event to act on: acknowledged, so that the provider stops retrying
  | none => pure .ignored_unknown_status
  | some newStatus => do
    let session ← Service.direct
      (Tx.getSessionByProviderApplicantId event.providerApplicantId ⟨event.levelName⟩)
    match ← unboundFor deps event session, session with
    | some unbound, _ => applyEvent deps event newStatus unbound true
    | none, some session => applyEvent deps event newStatus session false
    | none, none => pure .unknown_session

def hostedPage (sessionId : String) : Service HostedPageDecision := do
  match ← Service.direct (Tx.getSessionById sessionId) with
  | none => pure (.not_found 404)
  | some session =>
    if session.provider ≠ deps.providerName ∨ session.status.Terminal then
      pure (.not_found 404)
    else
      tryCatch
        (do
          let token ← Provider.refreshToken
            ⟨session.userId, session.providerApplicantId⟩
            ⟨session.platform, session.levelName, none⟩
          pure (.page session token.accessToken))
        fun _ => pure (.not_found 502)

/-- A call of the service, with its arguments. -/
inductive Call
  | start (userId : Option String) (input : Option JsonValue)
  | refresh (userId sessionId : Option String)
  | status (userId id : Option String)
  | latestForUser (userId : Option String) (reconciling : Bool)
  | handleWebhookEvent (event : WebhookEvent)
  | hostedPage (sessionId : String)
  | applyStatusTransition (id : String) (status : VerificationStatus) (source : StatusSource)
      (options : ApplyStatusTransitionOptions)

inductive Reply
  | started (result : StartResult)
  | refreshed (result : RefreshResult)
  | viewed (result : Option SessionView)
  | processed (outcome : WebhookOutcome)
  | decided (decision : HostedPageDecision)
  | transitioned (transition : StatusTransition)
  deriving DecidableEq

/-- The program a call runs. -/
def Call.program : Call → Service Reply
  | .start userId input => do pure (.started (← Kyc.start deps userId input))
  | .refresh userId sessionId => do pure (.refreshed (← Kyc.refresh userId sessionId))
  | .status userId id => do pure (.viewed (some (← Kyc.status deps userId id)))
  | .latestForUser userId reconciling => do
    pure (.viewed (← Kyc.latestForUser deps userId reconciling))
  | .handleWebhookEvent event => do pure (.processed (← Kyc.handleWebhookEvent deps event))
  | .hostedPage sessionId => do pure (.decided (← Kyc.hostedPage deps sessionId))
  | .applyStatusTransition id newStatus source options => do
    pure (.transitioned (← Kyc.applyStatusTransition deps id newStatus source options))

def Call.after (c : Call) (w : World) : World := ((c.program deps).run (exec deps) w).2

/-- The service running any number of calls at once. -/
abbrev ServicePool := Pool ServiceSig Thrown World Reply Call

/-- Let a service take calls and steps in the given order. -/
def runService (w : World) (events : List (Event Call)) : ServicePool :=
  (Pool.idle w : ServicePool).run (exec deps) (Call.program deps) events

end Kyc
