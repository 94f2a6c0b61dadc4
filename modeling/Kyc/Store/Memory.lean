import Kyc.Store.Records
import Kyc.Tables.Keyed

/-! # The in-memory session store

The two tables of `createMemorySessionStore` and its operations, each given the
reading of the clock it may use. An operation that throws leaves the tables alone.
-/

namespace Kyc

/-- The store's state: the sessions under their ids, and the audit trail, oldest entry first. -/
@[ext] structure Tables where
  sessions : Table SessionRecord.id
  audit : List AuditEntry

namespace Tables

def empty : Tables := ⟨.empty, []⟩

def setSession (t : Tables) (r : SessionRecord) : Tables := { t with sessions := t.sessions.set r }

def addAudit (t : Tables) (e : AuditEntry) : Tables := { t with audit := t.audit ++ [e] }

@[simp] theorem sessions_setSession (t : Tables) (r : SessionRecord) :
    (t.setSession r).sessions = t.sessions.set r := rfl

@[simp] theorem audit_setSession (t : Tables) (r : SessionRecord) :
    (t.setSession r).audit = t.audit := rfl

@[simp] theorem sessions_addAudit (t : Tables) (e : AuditEntry) :
    (t.addAudit e).sessions = t.sessions := rfl

@[simp] theorem audit_addAudit (t : Tables) (e : AuditEntry) :
    (t.addAudit e).audit = t.audit ++ [e] := rfl

end Tables

namespace MemoryStore

variable (now : ℤ) (t : Tables)

def require (id : String) : Except Thrown SessionRecord :=
  match t.sessions.get id with
  | some record => .ok record
  | none => .error (plainError ("Verification session not found: " ++ id))

def createSession (data : NewSession) : SessionRecord × Tables :=
  let record : SessionRecord :=
    { id := data.id
      userId := data.userId
      provider := data.provider
      platform := data.platform
      levelName := data.levelName
      locale := data.locale
      providerApplicantId := data.providerApplicantId
      status := .initial
      createdAt := now
      updatedAt := now }
  (record, t.setSession record)

def getSessionById (id : String) : Option SessionRecord := t.sessions.get id

def getSessionByIdForUser (id userId : String) : Option SessionRecord :=
  match t.sessions.get id with
  | some record => if record.userId = userId then some record else none
  | none => none

def getSessionByProviderApplicantId (providerApplicantId : String)
    (options : ApplicantLookupOptions) : Option SessionRecord :=
  pickSessionForApplicant (t.sessions.rows.filter (·.boundTo providerApplicantId))
    options.levelName

def getLatestUnboundSessionForUser (userId provider : String) : Option SessionRecord :=
  (newestFirst SessionRecord.createdAt
    (t.sessions.rows.filter (·.unboundOf userId provider))).head?

def getLatestSessionForUser (userId provider : String) : Option SessionRecord :=
  (newestFirst SessionRecord.createdAt
    (t.sessions.rows.filter (·.ofUser userId provider))).head?

/-- The conditional status write: an unchanged status, then the terminal guard, then the write. -/
def updateSessionStatus (id : String) (status : VerificationStatus) :
    Except Thrown (StatusWrite × Tables) :=
  match require t id with
  | .error e => .error e
  | .ok current =>
    if current.status = status then .ok (⟨.unchanged, current.status, current⟩, t)
    else if current.status.Terminal then .ok (⟨.rejected_terminal, current.status, current⟩, t)
    else
      let updated := { current with status, updatedAt := now }
      .ok (⟨.updated, current.status, updated⟩, t.setSession updated)

/-- Bind an applicant to a session that is unbound or already bound to it; the row comes back
either way. -/
def bindApplicantId (id providerApplicantId : String) : Except Thrown (SessionRecord × Tables) :=
  match require t id with
  | .error e => .error e
  | .ok current =>
    if current.providerApplicantId ≠ none ∧
        current.providerApplicantId ≠ some providerApplicantId then
      .ok (current, t)
    else
      let bound := { current with
        providerApplicantId := some providerApplicantId, updatedAt := now }
      .ok (bound, t.setSession bound)

def appendAuditEntry (entry : NewAuditEntry) : Tables :=
  t.addAudit ⟨entry.id, entry.sessionId, entry.action, now, entry.metadata⟩

/-- The entries of a session, newest first. -/
def listAuditEntries (sessionId : String) : List AuditEntry :=
  (t.audit.filter (·.sessionId = sessionId)).reverse

end MemoryStore

/-- The operations of the `SessionStore` port. -/
inductive StoreOp
  | createSession (data : NewSession)
  | getSessionById (id : String)
  | getSessionByIdForUser (id userId : String)
  | getSessionByProviderApplicantId (providerApplicantId : String)
      (options : ApplicantLookupOptions)
  | getLatestUnboundSessionForUser (userId provider : String)
  | getLatestSessionForUser (userId provider : String)
  | updateSessionStatus (id : String) (status : VerificationStatus)
  | bindApplicantId (id providerApplicantId : String)
  | appendAuditEntry (entry : NewAuditEntry)
  | listAuditEntries (sessionId : String)
  deriving DecidableEq

@[reducible] def StoreOp.Ans : StoreOp → Type
  | createSession _ => SessionRecord
  | getSessionById _ => Option SessionRecord
  | getSessionByIdForUser _ _ => Option SessionRecord
  | getSessionByProviderApplicantId _ _ => Option SessionRecord
  | getLatestUnboundSessionForUser _ _ => Option SessionRecord
  | getLatestSessionForUser _ _ => Option SessionRecord
  | updateSessionStatus _ _ => StatusWrite
  | bindApplicantId _ _ => SessionRecord
  | appendAuditEntry _ => Unit
  | listAuditEntries _ => List AuditEntry

def settle {α : Type} (t : Tables) : Except Thrown (α × Tables) → Except Thrown α × Tables
  | .ok (a, t') => (.ok a, t')
  | .error e => (.error e, t)

def StoreOp.exec (now : ℤ) (t : Tables) : (o : StoreOp) → Except Thrown o.Ans × Tables
  | createSession data =>
    (.ok (MemoryStore.createSession now t data).1, (MemoryStore.createSession now t data).2)
  | getSessionById id => (.ok (MemoryStore.getSessionById t id), t)
  | getSessionByIdForUser id userId => (.ok (MemoryStore.getSessionByIdForUser t id userId), t)
  | getSessionByProviderApplicantId applicantId options =>
    (.ok (MemoryStore.getSessionByProviderApplicantId t applicantId options), t)
  | getLatestUnboundSessionForUser userId provider =>
    (.ok (MemoryStore.getLatestUnboundSessionForUser t userId provider), t)
  | getLatestSessionForUser userId provider =>
    (.ok (MemoryStore.getLatestSessionForUser t userId provider), t)
  | updateSessionStatus id status => settle t (MemoryStore.updateSessionStatus now t id status)
  | bindApplicantId id applicantId => settle t (MemoryStore.bindApplicantId now t id applicantId)
  | appendAuditEntry entry => (.ok (), MemoryStore.appendAuditEntry now t entry)
  | listAuditEntries sessionId => (.ok (MemoryStore.listAuditEntries t sessionId), t)

end Kyc
