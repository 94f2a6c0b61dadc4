import Kyc.Domain.Types
import Kyc.Tables.Newest

/-! # Session records

What the store keeps and returns, and the shared rule that picks which of an
applicant's sessions an event is about.
-/

namespace Kyc

structure SessionRecord where
  id : String
  userId : String
  provider : String
  providerApplicantId : Option String
  levelName : Option String
  locale : Option String
  platform : VerificationPlatform
  status : VerificationStatus
  createdAt : ℤ
  updatedAt : ℤ
  deriving DecidableEq, Repr

structure NewSession where
  id : String
  userId : String
  provider : String
  platform : VerificationPlatform
  levelName : Option String := none
  locale : Option String := none
  providerApplicantId : Option String := none
  deriving DecidableEq, Repr

structure NewAuditEntry where
  id : String
  sessionId : String
  action : AuditAction
  metadata : AuditMetadata
  deriving DecidableEq, Repr

inductive StatusWriteOutcome | updated | unchanged | rejected_terminal
  deriving DecidableEq, Repr

structure StatusWrite where
  outcome : StatusWriteOutcome
  previousStatus : VerificationStatus
  session : SessionRecord
  deriving DecidableEq, Repr

structure ApplicantLookupOptions where
  levelName : Option String := none
  deriving DecidableEq, Repr

/-- Which of an applicant's sessions an event is about: the newest on the event's level, else
the newest still in progress, else the newest. -/
def pickSessionForApplicant (records : List SessionRecord) (levelName : Option String) :
    Option SessionRecord :=
  let newestFirst : List SessionRecord := newestFirst SessionRecord.createdAt records
  let onLevel := match truthy levelName with
    | some level => newestFirst.find? fun (record : SessionRecord) => record.levelName = some level
    | none => none
  let inProgress := newestFirst.find? fun (record : SessionRecord) => ¬ record.status.Terminal
  (onLevel.or inProgress).or newestFirst.head?

namespace SessionRecord

def boundTo (applicantId : String) (r : SessionRecord) : Bool :=
  r.providerApplicantId = some applicantId

def boundOn (applicantId level : String) (r : SessionRecord) : Bool :=
  r.boundTo applicantId && r.levelName = some level

def inProgressOf (applicantId : String) (r : SessionRecord) : Bool :=
  r.boundTo applicantId && ¬ r.status.Terminal

def ofUser (userId provider : String) (r : SessionRecord) : Bool :=
  r.userId = userId && r.provider = provider

def unboundOf (userId provider : String) (r : SessionRecord) : Bool :=
  r.userId = userId && r.provider = provider && r.providerApplicantId = none

variable {applicantId level userId provider : String} {r : SessionRecord}

@[simp] theorem boundTo_iff : r.boundTo applicantId = true ↔
    r.providerApplicantId = some applicantId := by simp [boundTo]

@[simp] theorem boundOn_iff : r.boundOn applicantId level = true ↔
    r.providerApplicantId = some applicantId ∧ r.levelName = some level := by simp [boundOn]

@[simp] theorem inProgressOf_iff : r.inProgressOf applicantId = true ↔
    r.providerApplicantId = some applicantId ∧ ¬ r.status.Terminal := by simp [inProgressOf]

@[simp] theorem ofUser_iff : r.ofUser userId provider = true ↔
    r.userId = userId ∧ r.provider = provider := by simp [ofUser]

@[simp] theorem unboundOf_iff : r.unboundOf userId provider = true ↔
    r.userId = userId ∧ r.provider = provider ∧ r.providerApplicantId = none := by
  simp [unboundOf, and_assoc]

end SessionRecord

abbrev newestSession (p : SessionRecord → Bool) (rows : List SessionRecord) :
    Option SessionRecord :=
  newest SessionRecord.createdAt p rows

theorem pickSessionForApplicant_congr {records records' : List SessionRecord}
    (h : newestFirst SessionRecord.createdAt records = newestFirst SessionRecord.createdAt records')
    (levelName : Option String) :
    pickSessionForApplicant records levelName = pickSessionForApplicant records' levelName := by
  unfold pickSessionForApplicant
  rw [h]

theorem pickSessionForApplicant_filter (rows : List SessionRecord) (applicantId : String)
    (levelName : Option String) :
    pickSessionForApplicant (rows.filter (·.boundTo applicantId)) levelName =
      ((match truthy levelName with
        | some level => newestSession (·.boundOn applicantId level) rows
        | none => none).or (newestSession (·.inProgressOf applicantId) rows)).or
      (newestSession (·.boundTo applicantId) rows) := by
  unfold pickSessionForApplicant
  simp only [find?_newestFirst_filter, head?_newestFirst_filter]
  rfl

end Kyc
