import Kyc.Domain.Validation
import Kyc.Programs.Interleaving
import Kyc.Store.Memory
import Mathlib.Logic.Embedding.Basic

/-! # The service's environment

What the verification service depends on, the operations its calls await, and how
a world answers them. A single store call and a whole transaction are one step
each; a transaction that throws leaves both tables as it found them. Providers,
the host's effect and the clock may answer differently at every call.
-/

namespace Kyc

/-- The provider port. The number of provider calls made so far stands for whatever else an
answer depends on. -/
structure VerificationProvider where
  createSession : ℕ → String → CreateSessionOptions → Except Thrown ProviderSession
  refreshToken : ℕ → TokenSubject → CreateSessionOptions → Except Thrown ProviderToken
  getStatus : ℕ → String → Except Thrown VerificationStatus
  getStatusByUserId : Option (ℕ → String → Except Thrown UserStatusLookup)

def supportsUserStatusLookup (provider : VerificationProvider) : Bool :=
  provider.getStatusByUserId.isSome

inductive StatusTransitionOutcome
  | write (outcome : StatusWriteOutcome)
  | rejected_unbound
  deriving DecidableEq, Repr

structure StatusTransition where
  outcome : StatusTransitionOutcome
  previousStatus : VerificationStatus
  session : SessionRecord
  deriving DecidableEq, Repr

structure ApplyStatusTransitionOptions where
  bindApplicantId : Option String := none
  rejectLabels : Option (List String) := none
  deriving DecidableEq, Repr

structure StatusTransitionEvent where
  previousStatus : VerificationStatus
  session : SessionRecord
  source : StatusSource
  rejectLabels : Option (List String)
  deriving DecidableEq, Repr

/-- `VerificationServiceDeps`, with the clock of the in-memory store behind it. Ids from `newId`
are never handed out twice; `urlOrigin` is `new URL(·).origin`, absent when parsing throws. -/
structure VerificationServiceDeps where
  provider : VerificationProvider
  providerName : String
  storeClock : ℕ → ℤ
  publicBaseUrl : String
  newId : ℕ ↪ String
  onStatusTransition : Option (ℕ → StatusTransitionEvent → Except Thrown Unit)
  hostedUrlFor : Option (String → String)
  urlOrigin : String → Option String

/-- What a transaction's callback may await: the store it receives, and the id generator. -/
inductive TxOp
  | store (o : StoreOp)
  | newId
  deriving DecidableEq

@[reducible] def TxOp.Ans : TxOp → Type
  | store o => o.Ans
  | newId => String

@[reducible] def TxSig : Signature := ⟨TxOp, TxOp.Ans⟩

/-- Code that runs against one store, in a transaction or outside. -/
abbrev Tx (α : Type) := Program TxSig Thrown α

inductive ProviderCall
  | createSession (userId : String) (opts : CreateSessionOptions)
  | refreshToken (subject : TokenSubject) (opts : CreateSessionOptions)
  | getStatus (providerApplicantId : String)
  | getStatusByUserId (userId : String)
  deriving DecidableEq, Repr

@[reducible] def ProviderCall.Ans : ProviderCall → Type
  | createSession _ _ => ProviderSession
  | refreshToken _ _ => ProviderToken
  | getStatus _ => VerificationStatus
  | getStatusByUserId _ => UserStatusLookup

def VerificationProvider.answer (p : VerificationProvider) (n : ℕ) :
    (c : ProviderCall) → Except Thrown c.Ans
  | .createSession userId opts => p.createSession n userId opts
  | .refreshToken subject opts => p.refreshToken n subject opts
  | .getStatus applicantId => p.getStatus n applicantId
  | .getStatusByUserId userId => match p.getStatusByUserId with
    | some lookup => lookup n userId
    | none => .error (plainError "provider.getStatusByUserId is not a function")

/-- What a service call may await: one call on the store itself, a transaction, the provider,
or the host's effect. -/
inductive ServiceOp : Type 1
  | direct (o : TxOp)
  | transaction {β : Type} (body : Tx β)
  | provider (c : ProviderCall)
  | onStatusTransition (e : StatusTransitionEvent)

@[reducible] def ServiceOp.Ans : ServiceOp → Type
  | direct o => o.Ans
  | @transaction β _ => β
  | provider c => c.Ans
  | onStatusTransition _ => Unit

@[reducible] def ServiceSig : Signature := ⟨ServiceOp, ServiceOp.Ans⟩

abbrev Service (α : Type) := Program ServiceSig Thrown α

/-- The store, how far the clock and the id generator have been read, and the calls made to the
provider and to the host's effect, oldest first. -/
structure World where
  tables : Tables
  ticks : ℕ
  issued : ℕ
  providerCalls : List ProviderCall
  effects : List StatusTransitionEvent

namespace World

def empty : World := ⟨.empty, 0, 0, [], []⟩

def ticked (w : World) : World := { w with ticks := w.ticks + 1 }

def asked (w : World) (calls : List ProviderCall) : World :=
  { w with providerCalls := w.providerCalls ++ calls }

@[simp] theorem tables_asked (w : World) (calls : List ProviderCall) :
    (w.asked calls).tables = w.tables := rfl

@[simp] theorem tables_ticked (w : World) : w.ticked.tables = w.tables := rfl

@[simp] theorem issued_ticked (w : World) : w.ticked.issued = w.issued := rfl

@[simp] theorem providerCalls_ticked (w : World) :
    w.ticked.providerCalls = w.providerCalls := rfl

@[simp] theorem effects_ticked (w : World) : w.ticked.effects = w.effects := rfl

/-- No session row carries an id that `newId` will still hand out. -/
def Fresh (deps : VerificationServiceDeps) (w : World) : Prop :=
  ∀ r ∈ w.tables.sessions.rows, ∀ n, w.issued ≤ n → r.id ≠ deps.newId n

end World

variable (deps : VerificationServiceDeps)

/-- A single store call or id. -/
def execTx : Handler TxSig Thrown World
  | .store o, w =>
    ((o.exec (deps.storeClock w.ticks) w.tables).1,
      { w with
        tables := (o.exec (deps.storeClock w.ticks) w.tables).2
        ticks := w.ticks + 1 })
  | .newId, w => (.ok (deps.newId w.issued), { w with issued := w.issued + 1 })

/-- Run a transaction's callback in one step; when it throws, both tables are restored. -/
def execTransaction {β : Type} (body : Tx β) (w : World) : Except Thrown β × World :=
  match body.run (execTx deps) w with
  | (.ok b, w') => (.ok b, w')
  | (.error e, w') => (.error e, { w' with tables := w.tables })

def exec : Handler ServiceSig Thrown World
  | .direct o, w => execTx deps o w
  | .transaction body, w => execTransaction deps body w
  | .provider c, w =>
    (deps.provider.answer w.providerCalls.length c,
      { w with providerCalls := w.providerCalls ++ [c] })
  | .onStatusTransition e, w =>
    (match deps.onStatusTransition with
      | some effect => effect w.effects.length e
      | none => .ok (),
      { w with effects := w.effects ++ [e] })

namespace Tx

def store (o : StoreOp) : Tx o.Ans := Program.perform (S := TxSig) (.store o)

def newId : Tx String := Program.perform (S := TxSig) .newId

def createSession (data : NewSession) : Tx SessionRecord := store (.createSession data)

def getSessionById (id : String) : Tx (Option SessionRecord) := store (.getSessionById id)

def getSessionByIdForUser (id userId : String) : Tx (Option SessionRecord) :=
  store (.getSessionByIdForUser id userId)

def getSessionByProviderApplicantId (providerApplicantId : String)
    (options : ApplicantLookupOptions) : Tx (Option SessionRecord) :=
  store (.getSessionByProviderApplicantId providerApplicantId options)

def getLatestUnboundSessionForUser (userId provider : String) : Tx (Option SessionRecord) :=
  store (.getLatestUnboundSessionForUser userId provider)

def getLatestSessionForUser (userId provider : String) : Tx (Option SessionRecord) :=
  store (.getLatestSessionForUser userId provider)

def updateSessionStatus (id : String) (status : VerificationStatus) : Tx StatusWrite :=
  store (.updateSessionStatus id status)

def bindApplicantId (id providerApplicantId : String) : Tx SessionRecord :=
  store (.bindApplicantId id providerApplicantId)

def appendAuditEntry (entry : NewAuditEntry) : Tx Unit := store (.appendAuditEntry entry)

end Tx

namespace Service

/-- Run code against the store itself, every call committed on its own. -/
def direct {α : Type} (body : Tx α) : Service α :=
  body.expand fun o => Program.perform (S := ServiceSig) (.direct o)

def transaction {β : Type} (body : Tx β) : Service β :=
  Program.perform (S := ServiceSig) (.transaction body)

def provider (c : ProviderCall) : Service c.Ans :=
  Program.perform (S := ServiceSig) (.provider c)

def onStatusTransition (e : StatusTransitionEvent) : Service Unit :=
  Program.perform (S := ServiceSig) (.onStatusTransition e)

end Service

namespace Provider

def createSession (userId : String) (opts : CreateSessionOptions) : Service ProviderSession :=
  Service.provider (.createSession userId opts)

def refreshToken (subject : TokenSubject) (opts : CreateSessionOptions) : Service ProviderToken :=
  Service.provider (.refreshToken subject opts)

def getStatus (providerApplicantId : String) : Service VerificationStatus :=
  Service.provider (.getStatus providerApplicantId)

def getStatusByUserId (userId : String) : Service UserStatusLookup :=
  Service.provider (.getStatusByUserId userId)

end Provider

section Run

variable (w : World)

theorem Tx.run_store (o : StoreOp) :
    (Tx.store o).run (execTx deps) w =
      ((o.exec (deps.storeClock w.ticks) w.tables).1,
        { w with
          tables := (o.exec (deps.storeClock w.ticks) w.tables).2
          ticks := w.ticks + 1 }) :=
  Program.run_perform (execTx deps) (TxOp.store o) w

@[simp] theorem Tx.run_newId :
    Tx.newId.run (execTx deps) w = (.ok (deps.newId w.issued), { w with issued := w.issued + 1 }) :=
  Program.run_perform (execTx deps) TxOp.newId w

@[simp] theorem Tx.run_createSession (data : NewSession) :
    (Tx.createSession data).run (execTx deps) w =
      (.ok (MemoryStore.createSession (deps.storeClock w.ticks) w.tables data).1,
        { w with
          tables := (MemoryStore.createSession (deps.storeClock w.ticks) w.tables data).2
          ticks := w.ticks + 1 }) :=
  Tx.run_store deps w (.createSession data)

@[simp] theorem Tx.run_getSessionById (id : String) :
    (Tx.getSessionById id).run (execTx deps) w =
      (.ok (w.tables.sessions.get id), w.ticked) :=
  Tx.run_store deps w (.getSessionById id)

@[simp] theorem Tx.run_getSessionByIdForUser (id userId : String) :
    (Tx.getSessionByIdForUser id userId).run (execTx deps) w =
      (.ok (MemoryStore.getSessionByIdForUser w.tables id userId), w.ticked) :=
  Tx.run_store deps w (.getSessionByIdForUser id userId)

@[simp] theorem Tx.run_getSessionByProviderApplicantId (applicantId : String)
    (options : ApplicantLookupOptions) :
    (Tx.getSessionByProviderApplicantId applicantId options).run (execTx deps) w =
      (.ok (MemoryStore.getSessionByProviderApplicantId w.tables applicantId options), w.ticked) :=
  Tx.run_store deps w (.getSessionByProviderApplicantId applicantId options)

@[simp] theorem Tx.run_getLatestUnboundSessionForUser (userId provider : String) :
    (Tx.getLatestUnboundSessionForUser userId provider).run (execTx deps) w =
      (.ok (MemoryStore.getLatestUnboundSessionForUser w.tables userId provider), w.ticked) :=
  Tx.run_store deps w (.getLatestUnboundSessionForUser userId provider)

@[simp] theorem Tx.run_getLatestSessionForUser (userId provider : String) :
    (Tx.getLatestSessionForUser userId provider).run (execTx deps) w =
      (.ok (MemoryStore.getLatestSessionForUser w.tables userId provider), w.ticked) :=
  Tx.run_store deps w (.getLatestSessionForUser userId provider)

theorem Tx.run_updateSessionStatus (id : String) (status : VerificationStatus) :
    (Tx.updateSessionStatus id status).run (execTx deps) w =
      ((settle w.tables (MemoryStore.updateSessionStatus (deps.storeClock w.ticks) w.tables
          id status)).1,
        { w with
          tables := (settle w.tables (MemoryStore.updateSessionStatus (deps.storeClock w.ticks)
            w.tables id status)).2
          ticks := w.ticks + 1 }) :=
  Tx.run_store deps w (.updateSessionStatus id status)

theorem Tx.run_bindApplicantId (id applicantId : String) :
    (Tx.bindApplicantId id applicantId).run (execTx deps) w =
      ((settle w.tables (MemoryStore.bindApplicantId (deps.storeClock w.ticks) w.tables
          id applicantId)).1,
        { w with
          tables := (settle w.tables (MemoryStore.bindApplicantId (deps.storeClock w.ticks)
            w.tables id applicantId)).2
          ticks := w.ticks + 1 }) :=
  Tx.run_store deps w (.bindApplicantId id applicantId)

@[simp] theorem Tx.run_appendAuditEntry (entry : NewAuditEntry) :
    (Tx.appendAuditEntry entry).run (execTx deps) w =
      (.ok (),
        { w with
          tables := MemoryStore.appendAuditEntry (deps.storeClock w.ticks) w.tables entry
          ticks := w.ticks + 1 }) :=
  Tx.run_store deps w (.appendAuditEntry entry)

@[simp] theorem Service.run_direct {α : Type} (body : Tx α) :
    (Service.direct body).run (exec deps) w = body.run (execTx deps) w := by
  have hf : (fun (o : TxOp) (s : World) =>
      (Program.perform (S := ServiceSig) (ε := Thrown) (.direct o)).run (exec deps) s) =
        execTx deps := by
    funext o s
    exact Program.run_perform (exec deps) (ServiceOp.direct o) s
  rw [Service.direct, Program.run_expand]
  exact congrArg (fun h => body.run h w) hf

@[simp] theorem Service.run_transaction {β : Type} (body : Tx β) :
    (Service.transaction body).run (exec deps) w = execTransaction deps body w :=
  Program.run_perform (exec deps) (ServiceOp.transaction body) w

theorem Service.run_provider (c : ProviderCall) :
    (Service.provider c).run (exec deps) w =
      (deps.provider.answer w.providerCalls.length c, w.asked [c]) :=
  Program.run_perform (exec deps) (ServiceOp.provider c) w

@[simp] theorem Provider.run_createSession (userId : String) (opts : CreateSessionOptions) :
    (Provider.createSession userId opts).run (exec deps) w =
      (deps.provider.createSession w.providerCalls.length userId opts,
        w.asked [.createSession userId opts]) :=
  Service.run_provider ..

@[simp] theorem Provider.run_refreshToken (subject : TokenSubject) (opts : CreateSessionOptions) :
    (Provider.refreshToken subject opts).run (exec deps) w =
      (deps.provider.refreshToken w.providerCalls.length subject opts,
        w.asked [.refreshToken subject opts]) :=
  Service.run_provider ..

@[simp] theorem Provider.run_getStatus (applicantId : String) :
    (Provider.getStatus applicantId).run (exec deps) w =
      (deps.provider.getStatus w.providerCalls.length applicantId,
        w.asked [.getStatus applicantId]) :=
  Service.run_provider ..

theorem Provider.run_getStatusByUserId {userId : String}
    {byUserId : ℕ → String → Except Thrown UserStatusLookup}
    (h : deps.provider.getStatusByUserId = some byUserId) :
    (Provider.getStatusByUserId userId).run (exec deps) w =
      (byUserId w.providerCalls.length userId, w.asked [.getStatusByUserId userId]) := by
  have hrun := Service.run_provider deps w (.getStatusByUserId userId)
  simp only [VerificationProvider.answer, h] at hrun
  exact hrun

@[simp] theorem Service.run_onStatusTransition (e : StatusTransitionEvent) :
    (Service.onStatusTransition e).run (exec deps) w =
      (match deps.onStatusTransition with
        | some effect => effect w.effects.length e
        | none => .ok (),
        { w with effects := w.effects ++ [e] }) :=
  Program.run_perform (exec deps) (ServiceOp.onStatusTransition e) w

theorem providerCalls_run_execTx {α : Type} (body : Tx α) (w : World) :
    (body.run (execTx deps) w).2.providerCalls = w.providerCalls := by
  induction body generalizing w with
  | ret | err => rfl
  | await o k ih =>
    have ho : (execTx deps o w).2.providerCalls = w.providerCalls := by cases o <;> rfl
    exact (ih _ _).trans ho

theorem providerCalls_exec (o : ServiceOp) :
    w.providerCalls <+: (exec deps o w).2.providerCalls := by
  cases o with
  | direct o => cases o <;> exact List.prefix_rfl
  | transaction body =>
    have calls := providerCalls_run_execTx deps body w
    rw [exec, execTransaction]
    rcases hrun : body.run (execTx deps) w with ⟨b | e, w'⟩
    · rw [hrun] at calls
      exact calls ▸ List.prefix_rfl
    · rw [hrun] at calls
      exact calls ▸ List.prefix_rfl
  | provider c => exact List.prefix_append ..
  | onStatusTransition e => exact List.prefix_rfl

end Run

end Kyc
