import Kyc.Programs.Scripts
import Kyc.Store.Memory
import Kyc.Tables.Relational

/-! # The Knex session store

The statements of `createKnexSessionStore`, over the two tables of its migrations: both
have a primary key, and every audit entry refers to a stored session. Whether a write
happened is read off the rows that its conditional `update` returned.
-/

namespace Kyc

/-- The tables `VerificationSession` and `AuditLog`, and how many statements were executed. -/
structure Database where
  sessions : Table SessionRecord.id
  auditLog : Table AuditEntry.id
  statements : ℕ

namespace Database

def empty : Database := ⟨.empty, .empty, 0⟩

/-- The database as its next statement finds it. -/
def statement (server : Server Thrown) (db : Database) : Database :=
  { sessions := db.sessions.visit server db.statements
    auditLog := db.auditLog.visit server db.statements
    statements := db.statements + 1 }

end Database

namespace KnexStore

variable (server : Server Thrown) (now : ℤ) (db : Database)

def getSessionById (id : String) : Option SessionRecord × Database :=
  let db := db.statement server
  ((db.sessions.rows.filter fun r => r.id = id).head?, db)

def requireSession (id : String) : Except Thrown SessionRecord × Database :=
  match getSessionById server db id with
  | (some session, db) => (.ok session, db)
  | (none, db) => (.error (plainError ("Verification session not found: " ++ id)), db)

/-- The columns that the insert leaves out take their defaults, both times `now()`. -/
def createSession (data : NewSession) : Except Thrown SessionRecord × Database :=
  let db := db.statement server
  let session : SessionRecord :=
    { id := data.id
      userId := data.userId
      provider := data.provider
      platform := data.platform
      levelName := data.levelName
      locale := data.locale
      providerApplicantId := data.providerApplicantId
      status := .initial
      createdAt := now
      updatedAt := now }
  match db.sessions.insert server session with
  | .ok sessions => (.ok session, { db with sessions })
  | .error e => (.error e, db)

def getSessionByIdForUser (id userId : String) : Option SessionRecord × Database :=
  let db := db.statement server
  ((db.sessions.rows.filter fun r => r.id = id ∧ r.userId = userId).head?, db)

def getSessionByProviderApplicantId (providerApplicantId : String)
    (lookup : ApplicantLookupOptions) : Option SessionRecord × Database :=
  let db := db.statement server
  let records := newestFirst SessionRecord.createdAt
    (db.sessions.rows.filter (·.boundTo providerApplicantId))
  (pickSessionForApplicant records lookup.levelName, db)

def getLatestUnboundSessionForUser (userId provider : String) : Option SessionRecord × Database :=
  let db := db.statement server
  ((newestFirst SessionRecord.createdAt
    ((db.sessions.rows.filter (·.ofUser userId provider)).filter
      (·.providerApplicantId = none))).head?, db)

def getLatestSessionForUser (userId provider : String) : Option SessionRecord × Database :=
  let db := db.statement server
  ((newestFirst SessionRecord.createdAt
    (db.sessions.rows.filter (·.ofUser userId provider))).head?, db)

/-- A read of the row, then the guarded update; when that returned no row, the read says why. -/
def updateSessionStatus (id : String) (status : VerificationStatus) :
    Except Thrown StatusWrite × Database :=
  let db := db.statement server
  match (db.sessions.rows.filter fun r => r.id = id).head? with
  | none => (.error (plainError ("Verification session not found: " ++ id)), db)
  | some current =>
    let db := db.statement server
    let (rows, sessions) := db.sessions.update
      (fun r => r.id = id ∧ r.status ∉ terminalStatuses ∧ r.status ≠ status)
      (fun r => { r with status, updatedAt := now }) (fun _ => rfl)
    let db := { db with sessions }
    match rows.head? with
    | none =>
      (.ok ⟨if current.status = status then .unchanged else .rejected_terminal, current.status,
        current⟩, db)
    | some session => (.ok ⟨.updated, current.status, session⟩, db)

def bindApplicantId (id providerApplicantId : String) : Except Thrown SessionRecord × Database :=
  let db := db.statement server
  let (rows, sessions) := db.sessions.update
    (fun r => r.id = id ∧
      (r.providerApplicantId = none ∨ r.providerApplicantId = some providerApplicantId))
    (fun r => { r with providerApplicantId := some providerApplicantId, updatedAt := now })
    (fun _ => rfl)
  let db := { db with sessions }
  match rows.head? with
  | some session => (.ok session, db)
  | none => requireSession server db id

def appendAuditEntry (entry : NewAuditEntry) : Except Thrown Unit × Database :=
  let db := db.statement server
  match db.auditLog.insert server
    ⟨entry.id, entry.sessionId, entry.action, now, entry.metadata⟩ with
  | .error e => (.error e, db)
  | .ok auditLog => match db.sessions.get entry.sessionId with
    | some _ => (.ok (), { db with auditLog })
    | none => (.error server.foreignKeyViolation, db)

def listAuditEntries (sessionId : String) : List AuditEntry × Database :=
  let db := db.statement server
  (newestFirst AuditEntry.timestamp (db.auditLog.rows.filter fun e => e.sessionId = sessionId), db)

def answer {α : Type} : α × Database → Except Thrown α × Database
  | (a, db) => (.ok a, db)

end KnexStore

def StoreOp.execKnex (server : Server Thrown) (now : ℤ) (db : Database) :
    (o : StoreOp) → Except Thrown o.Ans × Database
  | createSession data => KnexStore.createSession server now db data
  | getSessionById id => KnexStore.answer (KnexStore.getSessionById server db id)
  | getSessionByIdForUser id userId =>
    KnexStore.answer (KnexStore.getSessionByIdForUser server db id userId)
  | getSessionByProviderApplicantId applicantId options =>
    KnexStore.answer (KnexStore.getSessionByProviderApplicantId server db applicantId options)
  | getLatestUnboundSessionForUser userId provider =>
    KnexStore.answer (KnexStore.getLatestUnboundSessionForUser server db userId provider)
  | getLatestSessionForUser userId provider =>
    KnexStore.answer (KnexStore.getLatestSessionForUser server db userId provider)
  | updateSessionStatus id status => KnexStore.updateSessionStatus server now db id status
  | bindApplicantId id applicantId => KnexStore.bindApplicantId server now db id applicantId
  | appendAuditEntry entry => KnexStore.appendAuditEntry server now db entry
  | listAuditEntries sessionId => KnexStore.answer (KnexStore.listAuditEntries server db sessionId)

@[reducible] def StoreSig : Signature := ⟨StoreOp, StoreOp.Ans⟩

/-- `createMemorySessionStore`, under a clock that every operation reads once: a transaction that
throws puts the copies of both tables back. -/
def createMemorySessionStore (clock : ℕ → ℤ) : Implementation StoreSig Thrown (Tables × ℕ) where
  exec o := fun (t, n) => ((o.exec (clock n) t).1, (o.exec (clock n) t).2, n + 1)
  rollback := fun (t, _) (_, n) => (t, n)

/-- `createKnexSessionStore`, under the same clock: a transaction that throws is rolled back by the
server. -/
def createKnexSessionStore (server : Server Thrown) (clock : ℕ → ℤ) :
    Implementation StoreSig Thrown (Database × ℕ) where
  exec o := fun (db, n) =>
    ((o.execKnex server (clock n) db).1, (o.execKnex server (clock n) db).2, n + 1)
  rollback := fun (before, _) (after, n) => ({ before with statements := after.statements }, n)

end Kyc
