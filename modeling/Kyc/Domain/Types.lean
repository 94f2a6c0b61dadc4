import Mathlib.Data.Int.Notation
import Mathlib.Data.List.Basic
import Kyc.Domain.Errors

/-! # The domain vocabulary

Statuses, platforms, what a provider is asked and answers, webhook events, and the
audit trail's entries with their metadata allow-list.
-/

namespace Kyc

inductive VerificationStatus
  | initial
  | incomplete
  | pending
  | approved
  | declined
  | finallyRejected
  deriving DecidableEq, Repr

/-- `TERMINAL_STATUSES`: the statuses a session can never leave. -/
def terminalStatuses : List VerificationStatus := [.approved, .finallyRejected]

def VerificationStatus.Terminal (s : VerificationStatus) : Prop := s ∈ terminalStatuses

instance (s : VerificationStatus) : Decidable s.Terminal :=
  inferInstanceAs (Decidable (s ∈ terminalStatuses))

@[simp] theorem not_terminal_initial : ¬ VerificationStatus.initial.Terminal := by decide

inductive VerificationPlatform | web | ios | android
  deriving DecidableEq, Repr

structure CreateSessionOptions where
  platform : VerificationPlatform
  levelName : Option String
  locale : Option String
  deriving DecidableEq, Repr

structure TokenSubject where
  userId : String
  providerApplicantId : Option String
  deriving DecidableEq, Repr

structure ProviderSession where
  providerApplicantId : Option String
  accessToken : String
  deriving DecidableEq, Repr

structure ProviderToken where
  accessToken : String
  deriving DecidableEq, Repr

structure UserStatusLookup where
  status : VerificationStatus
  providerApplicantId : Option String
  deriving DecidableEq, Repr

structure WebhookEvent where
  providerApplicantId : String
  externalUserId : Option String
  status : Option VerificationStatus
  rawStatus : String
  levelName : Option String
  rejectLabels : Option (List String)
  deriving DecidableEq, Repr

/-- The webhook parsers only yield events with an applicant id, and no empty level name. -/
structure WebhookEvent.WellFormed (e : WebhookEvent) : Prop where
  applicant : e.providerApplicantId ≠ ""
  level : e.levelName ≠ some ""

inductive AuditAction
  | session_created
  | token_refreshed
  | status_updated
  | webhook_rejected
  | creation_failed
  | effect_failed
  deriving DecidableEq, Repr

inductive StatusSource | api | webhook
  deriving DecidableEq, Repr

structure AuditMetadata where
  userId : Option String := none
  provider : Option String := none
  platform : Option VerificationPlatform := none
  levelName : Option String := none
  status : Option VerificationStatus := none
  previousStatus : Option VerificationStatus := none
  source : Option StatusSource := none
  errorCode : Option String := none
  reason : Option String := none
  rejectLabels : Option (List String) := none
  deriving DecidableEq, Repr

/-- `ALLOWED_METADATA_KEYS`. -/
def allowedMetadataKeys : List String :=
  ["userId", "provider", "platform", "levelName", "status", "previousStatus", "source",
    "errorCode", "reason", "rejectLabels"]

/-- A metadata value, if its key is on the allow-list. -/
def keepAllowed {α : Type} (key : String) (value : Option α) : Option α :=
  if key ∈ allowedMetadataKeys then value else none

/-- The metadata with every key outside the allow-list dropped. -/
def sanitizeAuditMetadata : Option AuditMetadata → AuditMetadata
  | none => {}
  | some m =>
    { userId := keepAllowed "userId" m.userId
      provider := keepAllowed "provider" m.provider
      platform := keepAllowed "platform" m.platform
      levelName := keepAllowed "levelName" m.levelName
      status := keepAllowed "status" m.status
      previousStatus := keepAllowed "previousStatus" m.previousStatus
      source := keepAllowed "source" m.source
      errorCode := keepAllowed "errorCode" m.errorCode
      reason := keepAllowed "reason" m.reason
      rejectLabels := keepAllowed "rejectLabels" m.rejectLabels }

@[simp] theorem sanitizeAuditMetadata_some (m : AuditMetadata) :
    sanitizeAuditMetadata (some m) = m := by
  simp [sanitizeAuditMetadata, keepAllowed, allowedMetadataKeys]

structure AuditEntry where
  id : String
  sessionId : String
  action : AuditAction
  timestamp : ℤ
  metadata : AuditMetadata
  deriving DecidableEq, Repr

end Kyc
