import Kyc.Service.Atomicity

/-! # What a start leaves behind

`start` on every outcome of its first transaction and of the provider's answer: what it
returns or throws, what is stored by then, and what is stored when the provider is called.
-/

namespace Kyc

/-- How a transaction may fail: one of its operations throws, after it has taken effect or
before, or its commit does. -/
inductive TxFault
  | operation (late : Bool) (n : ℕ)
  | commit

def TxFault.inject {α : Type} (e : Thrown) (body : Tx α) : TxFault → Tx α
  | operation late n => body.failAt e late n
  | commit => do
    let _ ← body
    throw e

variable (deps : VerificationServiceDeps)

/-- The callback of the first transaction of `start`, with a failure in it or without. -/
def persistFailing (fault : Option (TxFault × Thrown)) (owner : String)
    (opts : CreateSessionOptions) : Tx SessionRecord :=
  match fault with
  | some (fault, e) => fault.inject e (persistBody deps owner opts)
  | none => persistBody deps owner opts

/-- `start` with a failure in its first transaction, or without. -/
def startFailing (fault : Option (TxFault × Thrown)) (userId : Option String)
    (input : Option JsonValue) : Service StartResult := do
  let owner ← Program.ofExcept (requireUser userId)
  let opts ← Program.ofExcept (validateStartInput input)
  let session ← tryCatch (Service.transaction (persistFailing deps fault owner opts))
    fun _ => throw Errors.persistenceFailed
  let minted ← tryCatch (Provider.createSession owner opts) fun error => do
    Service.direct <| audit session.id .creation_failed <| some
      { errorCode := some (auditedErrorCode error), source := some .api }
    throw (codedOrUnavailable error)
  match truthy minted.providerApplicantId with
  | some applicantId =>
    let _ ← Service.direct (Tx.bindApplicantId session.id applicantId)
  | none => pure ()
  pure
    { view session with
      accessToken := minted.accessToken
      url := (hostedUrl deps session.id).1
      allowedOrigin := (hostedUrl deps session.id).2
      applicantId := minted.providerApplicantId }

theorem startFailing_none (userId : Option String) (input : Option JsonValue) :
    startFailing deps none userId input = start deps userId input := rfl

variable (w : World) (owner : String) (opts : CreateSessionOptions)

/-- The tables hold one more row, initial and unbound, and one more entry, about its creation. -/
structure Persisted (t : Tables) : Prop where
  sessions : t.sessions = w.tables.sessions.set (newRecord deps w owner opts)
  entry : ∃ entry, t.audit = w.tables.audit ++ [entry] ∧
    entry.sessionId = (newRecord deps w owner opts).id ∧ entry.action = .session_created

/-- The start rejected before it stored anything, and the provider was not called. -/
structure Unstarted (r : Except Thrown StartResult × World) : Prop where
  thrown : r.1 = .error Errors.persistenceFailed
  tables : r.2.tables = w.tables
  providerCalls : r.2.providerCalls = w.providerCalls

/-- The start rejected with what the provider threw, and an entry accounts for the new row. -/
structure Abandoned (error : Thrown) (r : Except Thrown StartResult × World) : Prop where
  thrown : r.1 = .error (codedOrUnavailable error)
  sessions : r.2.tables.sessions = w.tables.sessions.set (newRecord deps w owner opts)
  entries : ∃ created failed, r.2.tables.audit = w.tables.audit ++ [created, failed] ∧
    created.sessionId = (newRecord deps w owner opts).id ∧ created.action = .session_created ∧
    failed.sessionId = (newRecord deps w owner opts).id ∧ failed.action = .creation_failed ∧
    failed.metadata.errorCode = some (auditedErrorCode error) ∧ failed.metadata.source = some .api

/-- The start resolved with the new session, bound to the minted applicant if there is one. -/
structure Started (minted : ProviderSession) (r : Except Thrown StartResult × World) :
    Prop where
  result : ∃ result, r.1 = .ok result ∧ result.sessionId = (newRecord deps w owner opts).id ∧
    result.accessToken = minted.accessToken ∧ result.applicantId = minted.providerApplicantId
  row : ∃ row, r.2.tables.sessions = w.tables.sessions.set row ∧
    row.identity = (newRecord deps w owner opts).identity ∧ row.status = .initial ∧
    row.providerApplicantId = truthy minted.providerApplicantId
  entry : ∃ entry, r.2.tables.audit = w.tables.audit ++ [entry] ∧
    entry.sessionId = (newRecord deps w owner opts).id ∧ entry.action = .session_created

section Body

open Program

theorem propagates_persistBody : (persistBody deps owner opts).Propagates := by
  apply Propagates.bind (propagates_perform _)
  intro id
  apply Propagates.bind (propagates_perform _)
  intro created
  exact Propagates.bind (propagates_audit ..) fun _ => trivial

variable {deps w owner opts}

theorem run_persistFailing_of_ok {fault : Option (TxFault × Thrown)} {session : SessionRecord}
    (h : ((persistFailing deps fault owner opts).run (execTx deps) w).1 = .ok session) :
    (persistFailing deps fault owner opts).run (execTx deps) w =
      (.ok (newRecord deps w owner opts), w.withNew deps owner opts) := by
  have hrun := run_persistBody deps w owner opts
  cases fault with
  | none => exact hrun
  | some f =>
    obtain ⟨fault, e⟩ := f
    cases fault with
    | operation late n =>
      simp only [persistFailing, TxFault.inject] at h ⊢
      by_cases hn : n < ((persistBody deps owner opts).performed (execTx deps) w).length
      · rw [(propagates_persistBody deps owner opts).run_failAt hn] at h
        cases h
      · rw [run_failAt_of_le e late (Nat.le_of_not_lt hn), hrun]
    | commit =>
      simp only [persistFailing, TxFault.inject, run_bind, hrun, run_throw] at h
      cases h

variable (deps) in
theorem run_persistFailing_none (w : World) (owner : String) (opts : CreateSessionOptions) :
    ((persistFailing deps none owner opts).run (execTx deps) w).1 =
      .ok (newRecord deps w owner opts) :=
  congrArg Prod.fst (run_persistBody deps w owner opts)

variable (deps w owner opts) in
theorem persisted_withNew : Persisted deps w owner opts (w.withNew deps owner opts).tables where
  sessions := rfl
  entry := ⟨_, rfl, rfl, rfl⟩

theorem uses_direct_ne_provider {α : Type} (body : Tx α) :
    (Service.direct body).Uses fun o : ServiceOp => ∀ c, o ≠ .provider c := by
  have all : body.Uses fun _ => True := by
    induction body with
    | ret | err => trivial
    | await o k ih => exact ⟨trivial, ih⟩
  exact all.expand fun o _ => uses_perform.mpr fun c hc => by cases hc

end Body

section Runs

variable {deps w owner opts} {fault : Option (TxFault × Thrown)} {userId : Option String}
  {input : Option JsonValue}

theorem run_startFailing_of_refused {e : Thrown}
    (h : requireUser userId = .error e ∨
      (∃ owner, requireUser userId = .ok owner) ∧ validateStartInput input = .error e) :
    (startFailing deps fault userId input).run (exec deps) w = (.error e, w) := by
  rcases h with h | ⟨⟨owner, ho⟩, h⟩
  · simp only [startFailing, Program.run_bind, Program.run_ofExcept, h]
  · simp only [startFailing, Program.run_bind, Program.run_ofExcept, ho, h]

variable (ho : requireUser userId = .ok owner) (hv : validateStartInput input = .ok opts)
include ho hv

theorem run_startFailing_of_error {e : Thrown}
    (h : ((persistFailing deps fault owner opts).run (execTx deps) w).1 = .error e) :
    Unstarted w ((startFailing deps fault userId input).run (exec deps) w) := by
  have calls := providerCalls_run_execTx deps (persistFailing deps fault owner opts) w
  rcases hrun : (persistFailing deps fault owner opts).run (execTx deps) w with ⟨res, w'⟩
  rw [hrun] at h calls
  obtain rfl : res = .error e := h
  simp only [startFailing, Program.run_bind, Program.run_ofExcept, ho, hv, Program.run_tryCatch,
    Service.run_transaction, execTransaction, hrun, Program.run_throw]
  exact ⟨rfl, rfl, calls⟩

theorem run_startFailing_of_rejected {session : SessionRecord} {error : Thrown}
    (h : ((persistFailing deps fault owner opts).run (execTx deps) w).1 = .ok session)
    (hr : deps.provider.createSession w.providerCalls.length owner opts = .error error) :
    Abandoned deps w owner opts error
      ((startFailing deps fault userId input).run (exec deps) w) := by
  have before : (w.withNew deps owner opts).providerCalls = w.providerCalls := rfl
  simp only [startFailing, Program.run_bind, Program.run_ofExcept, ho, hv, Program.run_tryCatch,
    Service.run_transaction, execTransaction, run_persistFailing_of_ok h,
    Provider.run_createSession, before, hr, Service.run_direct, run_audit, Program.run_throw]
  exact ⟨rfl, rfl, _, _, List.append_assoc _ _ _, rfl, rfl, rfl, rfl, rfl, rfl⟩

theorem run_startFailing_of_minted {session : SessionRecord} {minted : ProviderSession}
    (h : ((persistFailing deps fault owner opts).run (execTx deps) w).1 = .ok session)
    (hm : deps.provider.createSession w.providerCalls.length owner opts = .ok minted) :
    Started deps w owner opts minted
      ((startFailing deps fault userId input).run (exec deps) w) := by
  have before : (w.withNew deps owner opts).providerCalls = w.providerCalls := rfl
  simp only [startFailing, Program.run_bind, Program.run_ofExcept, ho, hv, Program.run_tryCatch,
    Service.run_transaction, execTransaction, run_persistFailing_of_ok h,
    Provider.run_createSession, before, hm]
  cases ha : truthy minted.providerApplicantId with
  | none => exact ⟨⟨_, rfl, rfl, rfl, rfl⟩, ⟨_, rfl, rfl, rfl, ha.symm ▸ rfl⟩, _, rfl, rfl, rfl⟩
  | some a =>
    have stored : ((w.withNew deps owner opts).asked
        [.createSession owner opts]).tables.sessions.get (newRecord deps w owner opts).id =
          some (newRecord deps w owner opts) := Table.get_set_self _ _
    have accepts : (newRecord deps w owner opts).Accepts a := Or.inl rfl
    simp only [Program.run_bind, Service.run_direct, Program.run_pure,
      run_bindApplicantId stored]
    refine ⟨⟨_, rfl, rfl, rfl, rfl⟩, ⟨_, Table.set_set ?_, ?_, ?_, ?_⟩, _, rfl, rfl, rfl⟩
    · exact SessionRecord.id_withApplicant ..
    · exact SessionRecord.identity_withApplicant ..
    · exact SessionRecord.status_withApplicant ..
    · rw [SessionRecord.applicant_withApplicant, if_pos accepts, ha]

/-- Whenever a start calls the provider, its row and its first entry are committed. -/
theorem persisted_of_visited {v : ServiceOp × World} {c : ProviderCall}
    (hv' : v ∈ (startFailing deps fault userId input).visited (exec deps) w)
    (hc : v.1 = .provider c) :
    c = .createSession owner opts ∧ Persisted deps w owner opts v.2.tables := by
  have apart : ∀ {α : Type} (body : Tx α) {w' : World},
      v ∉ (Service.direct body).visited (exec deps) w' := fun body w' h =>
    (uses_direct_ne_provider body).visited h c hc
  have begun : v ∉ (Service.transaction (persistFailing deps fault owner opts)).visited
      (exec deps) w := fun h => by
    rw [Service.transaction, Program.visited_perform] at h
    obtain rfl := List.mem_singleton.mp h
    cases hc
  simp only [startFailing] at hv'
  rcases Program.mem_visited_bind hv' with hv' | ⟨owner', w₀, hrun, hv'⟩
  · rw [Program.visited_ofExcept] at hv'
    cases hv'
  rw [Program.run_ofExcept, ho] at hrun
  cases hrun
  rcases Program.mem_visited_bind hv' with hv' | ⟨opts', w₀, hrun, hv'⟩
  · rw [Program.visited_ofExcept] at hv'
    cases hv'
  rw [Program.run_ofExcept, hv] at hrun
  cases hrun
  rcases Program.mem_visited_bind hv' with hv' | ⟨session, w₁, hrun, hv'⟩
  · rcases Program.mem_visited_tryCatch hv' with hv' | ⟨e, w₁, -, hv'⟩
    · exact absurd hv' begun
    · cases hv'
  have committed : session = newRecord deps w owner opts ∧ w₁ = w.withNew deps owner opts := by
    simp only [Program.run_tryCatch, Service.run_transaction, execTransaction] at hrun
    cases hok : ((persistFailing deps fault owner opts).run (execTx deps) w).1 with
    | ok r =>
      rw [run_persistFailing_of_ok hok] at hrun
      cases hrun
      exact ⟨rfl, rfl⟩
    | error e =>
      rw [← Prod.eta ((persistFailing deps fault owner opts).run (execTx deps) w), hok] at hrun
      cases hrun
  obtain ⟨rfl, rfl⟩ := committed
  rcases Program.mem_visited_bind hv' with hv' | ⟨minted, w₂, -, hv'⟩
  · rcases Program.mem_visited_tryCatch hv' with hv' | ⟨e, w₂, -, hv'⟩
    · rw [Provider.createSession, Service.provider, Program.visited_perform] at hv'
      obtain rfl := List.mem_singleton.mp hv'
      obtain rfl := ServiceOp.provider.inj hc
      exact ⟨rfl, persisted_withNew deps w owner opts⟩
    · rcases Program.mem_visited_bind hv' with hv' | ⟨-, w₃, -, hv'⟩
      · exact absurd hv' (apart _)
      · cases hv'
  · cases ha : truthy minted.providerApplicantId with
    | none =>
      rw [ha] at hv'
      cases hv'
    | some a =>
      rw [ha] at hv'
      rcases Program.mem_visited_bind hv' with hv' | ⟨-, w₃, -, hv'⟩
      · exact absurd hv' (apart _)
      · cases hv'

end Runs

/-- `start` persists first and accounts for every failure. -/
theorem start_accounts_for_failures (fault : Option (TxFault × Thrown)) (userId : Option String)
    (input : Option JsonValue) :
    let p := startFailing deps fault userId input
    match requireUser userId, validateStartInput input with
    | .error e, _ => p.run (exec deps) w = (.error e, w)
    | .ok _, .error e => p.run (exec deps) w = (.error e, w)
    | .ok owner, .ok opts =>
      (∀ v ∈ p.visited (exec deps) w, ∀ c, v.1 = .provider c →
        c = .createSession owner opts ∧ Persisted deps w owner opts v.2.tables) ∧
      match ((persistFailing deps fault owner opts).run (execTx deps) w).1,
        deps.provider.createSession w.providerCalls.length owner opts with
      | .error _, _ => Unstarted w (p.run (exec deps) w)
      | .ok _, .error error => Abandoned deps w owner opts error (p.run (exec deps) w)
      | .ok _, .ok minted => Started deps w owner opts minted (p.run (exec deps) w) := by
  intro p
  cases ho : requireUser userId with
  | error e => exact run_startFailing_of_refused (Or.inl ho)
  | ok owner =>
    cases hv : validateStartInput input with
    | error e => exact run_startFailing_of_refused (Or.inr ⟨⟨owner, ho⟩, hv⟩)
    | ok opts =>
      refine ⟨fun v hv' c hc => persisted_of_visited ho hv hv' hc, ?_⟩
      cases h : ((persistFailing deps fault owner opts).run (execTx deps) w).1 with
      | error e => exact run_startFailing_of_error ho hv h
      | ok session =>
        cases hm : deps.provider.createSession w.providerCalls.length owner opts with
        | error error => exact run_startFailing_of_rejected ho hv h hm
        | ok minted => exact run_startFailing_of_minted ho hv h hm

end Kyc
