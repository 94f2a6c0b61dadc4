import Kyc.Domain.Types

/-! # The client's state machine

What the verification screen shows, the sessions and events it runs on, and the two
pure functions the hooks of every platform share: the reducer, and the plan of what an
event does to the state and to the host.
-/

namespace Kyc.Client

/-- `ClientErrorCodes` of the core package. -/
inductive ClientErrorCode
  | networkError
  | permissionDenied
  | sdkUnavailable
  | tokenExpired
  | tokenRefreshFailed
  | bridgeProtocol
  deriving DecidableEq, Repr

def ClientErrorCode.name : ClientErrorCode → String
  | networkError => "NETWORK_ERROR"
  | permissionDenied => "PERMISSION_DENIED"
  | sdkUnavailable => "SDK_UNAVAILABLE"
  | tokenExpired => "TOKEN_EXPIRED"
  | tokenRefreshFailed => "TOKEN_REFRESH_FAILED"
  | bridgeProtocol => "BRIDGE_PROTOCOL"

def unknownErrorCode : String := "UNKNOWN_ERROR"

/-- The copy that is shown for a code. -/
def getErrorMessage (code : String) (serverMessage : Option String) : String :=
  if code = ErrorCode.unauthorized.name then
    "You are not authorized to start identity verification."
  else if code = ErrorCode.validationError.name then
    (truthy serverMessage).getD "Invalid input. Please check your information."
  else if code = ErrorCode.providerUnavailable.name then
    "Verification service temporarily unavailable. Please try again later."
  else if code = ErrorCode.sessionNotFound.name then
    "Verification session not found. Please start again."
  else if code = ErrorCode.sessionCreationFailed.name then
    "Unable to start identity verification. Please try again."
  else if code = ErrorCode.persistenceFailed.name then
    "Your verification session could not be saved. Please try again."
  else if code = ClientErrorCode.networkError.name then
    "Connection lost. Please check your network and try again."
  else if code = ClientErrorCode.permissionDenied.name then
    "Camera access is required to verify your identity."
  else if code = ClientErrorCode.sdkUnavailable.name then
    "Identity verification is unavailable in this build."
  else if code = ClientErrorCode.tokenExpired.name then
    "Your verification session expired. Please start again."
  else if code = ClientErrorCode.tokenRefreshFailed.name then
    "Could not refresh your verification session. Please try again."
  else if code = ClientErrorCode.bridgeProtocol.name then
    "The verification page sent an unsupported message. Please update the app."
  else (truthy serverMessage).getD "An error occurred. Please try again."

/-- Normalized events, regardless of provider. -/
inductive VerificationEvent
  | applicantLoaded (applicantId : String)
  | submitted
  | statusChanged (status : VerificationStatus)
  | complete (status : VerificationStatus) (applicantId : Option String)
  | cancel
  | tokenExpired
  | sessionExpired
  | error (code : String) (message : Option String)
  deriving DecidableEq, Repr

structure VerificationSession where
  provider : String
  sessionId : Option String := none
  accessToken : Option String := none
  url : Option String := none
  allowedOrigin : Option String := none
  applicantId : Option String := none
  status : Option VerificationStatus := none
  deriving DecidableEq, Repr

structure IdentityVerificationResult where
  status : VerificationStatus
  applicantId : Option String
  deriving DecidableEq, Repr

/-- What a source rejects with; nothing promises that the code is there. -/
structure VerificationSourceError where
  code : Option String
  message : Option String
  deriving DecidableEq, Repr

inductive VerificationState
  | idle
  | loading
  | verifying
  | pending
  | success
  | permissionDenied
  | error
  | offline
  deriving DecidableEq, Repr

inductive PermissionReason | denied | blocked
  deriving DecidableEq, Repr

structure IdentityVerificationError where
  code : String
  message : String
  deriving DecidableEq, Repr

def toIdentityVerificationError (code : String) (message : Option String) :
    IdentityVerificationError :=
  ⟨code, getErrorMessage code message⟩

def describeFailure (error : Option IdentityVerificationError) : IdentityVerificationError :=
  error.getD (toIdentityVerificationError unknownErrorCode none)

structure MachineState where
  status : VerificationState
  session : Option VerificationSession
  result : Option IdentityVerificationResult
  error : Option IdentityVerificationError
  permissionReason : Option PermissionReason
  deriving DecidableEq, Repr

def initialMachineState : MachineState := ⟨.idle, none, none, none, none⟩

inductive MachineAction
  | begin
  | permission (reason : PermissionReason)
  | offline
  | session (session : VerificationSession)
  | applicant (applicantId : String)
  | awaitReview
  | outcome (result : IdentityVerificationResult)
  | cancelled
  | failed (error : IdentityVerificationError) (keepSession : Bool)
  | clearSession
  deriving DecidableEq, Repr

/-- A host callback that the hook must run, described rather than performed. -/
inductive VerificationEffect
  | statusChange (status : VerificationStatus)
  | complete (result : IdentityVerificationResult) (delayed : Bool)
  | cancel
  | error (error : IdentityVerificationError)
  | refreshToken
  deriving DecidableEq, Repr

structure VerificationPlan where
  action : Option MachineAction
  effect : Option VerificationEffect
  deriving DecidableEq, Repr

def machineReducer (state : MachineState) : MachineAction → MachineState
  | .begin =>
    { state with status := .loading, result := none, error := none, permissionReason := none }
  | .permission reason =>
    { state with status := .permissionDenied, permissionReason := some reason }
  | .offline => { state with status := .offline }
  | .session session => ⟨.verifying, some session, none, none, none⟩
  | .applicant applicantId =>
    { state with session := state.session.map ({ · with applicantId := some applicantId }) }
  | .awaitReview => { state with status := .pending }
  | .outcome result =>
    { state with
      status := if result.status = .approved then .success else .pending
      result := some result
      error := none }
  | .cancelled => initialMachineState
  | .failed error keepSession =>
    ⟨.error, if keepSession then state.session else none, none, some error, none⟩
  | .clearSession => { state with session := none }

def planEvent (event : VerificationEvent) (session : Option VerificationSession) :
    VerificationPlan :=
  match event with
  | .applicantLoaded applicantId => ⟨some (.applicant applicantId), none⟩
  | .submitted => ⟨some .awaitReview, some (.statusChange .pending)⟩
  | .statusChanged status =>
    ⟨if status = .pending then some .awaitReview else none, some (.statusChange status)⟩
  | .complete status applicantId =>
    let result : IdentityVerificationResult :=
      ⟨status, truthy (applicantId.or (session.bind (·.applicantId)))⟩
    ⟨some (.outcome result), some (.complete result (status = .approved))⟩
  | .cancel => ⟨some .cancelled, some .cancel⟩
  | .tokenExpired => ⟨none, some .refreshToken⟩
  | .sessionExpired =>
    let error := toIdentityVerificationError ClientErrorCode.tokenExpired.name none
    ⟨some (.failed error true), some (.error error)⟩
  | .error code message =>
    let error := toIdentityVerificationError code message
    ⟨some (.failed error false), some (.error error)⟩

theorem planEvent_effect_eq_refreshToken_iff {e : VerificationEvent}
    {session : Option VerificationSession} :
    (planEvent e session).effect = some .refreshToken ↔ e = .tokenExpired := by
  cases e <;> simp [planEvent]

/-- The screen of the provider's page or SDK is up. -/
def VerificationState.Embeds (s : VerificationState) : Prop := s = .verifying ∨ s = .pending

instance (s : VerificationState) : Decidable s.Embeds :=
  inferInstanceAs (Decidable (s = .verifying ∨ s = .pending))

end Kyc.Client
