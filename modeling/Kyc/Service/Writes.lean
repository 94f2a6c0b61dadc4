import Kyc.Service.Sessions
import Kyc.Store.Changes

/-! # The service's transactions

How the two transaction bodies run. The one behind every status change throws on an
unknown session and changes nothing, otherwise it replaces that session's row and
adds at most one audit entry; `applyStatusTransition` adds the host's effect to it.
The other one creates a session.
-/

namespace Kyc

variable (deps : VerificationServiceDeps)

namespace World

def withAudit (w : World) (sessionId : String) (action : AuditAction)
    (metadata : AuditMetadata) : World :=
  { w with
    tables := w.tables.addAudit
      ⟨deps.newId w.issued, sessionId, action, deps.storeClock w.ticks, metadata⟩
    ticks := w.ticks + 1
    issued := w.issued + 1 }

def withEntry (w : World) (sessionId : String) : Option (AuditAction × AuditMetadata) → World
  | some (action, metadata) => w.withAudit deps sessionId action metadata
  | none => w

def withSession (w : World) (r : SessionRecord) : World :=
  { w with tables := w.tables.setSession r, ticks := w.ticks + 1 }

variable (w : World) (sessionId : String) (action : AuditAction) (metadata : AuditMetadata)
  (entry : Option (AuditAction × AuditMetadata))

@[simp] theorem sessions_withAudit :
    (w.withAudit deps sessionId action metadata).tables.sessions = w.tables.sessions := rfl

@[simp] theorem sessions_withEntry :
    (w.withEntry deps sessionId entry).tables.sessions = w.tables.sessions := by
  cases entry <;> rfl

@[simp] theorem providerCalls_withEntry :
    (w.withEntry deps sessionId entry).providerCalls = w.providerCalls := by
  cases entry <;> rfl

@[simp] theorem effects_withEntry :
    (w.withEntry deps sessionId entry).effects = w.effects := by
  cases entry <;> rfl

theorem issued_le_withEntry : w.issued ≤ (w.withEntry deps sessionId entry).issued := by
  cases entry with
  | none => exact le_rfl
  | some e => exact Nat.le_succ _

variable {deps w sessionId action metadata entry}

theorem evolves_withAudit (ha : action ≠ .status_updated) :
    Evolves w.tables (w.withAudit deps sessionId action metadata).tables :=
  .single (.noted ha)

end World

@[simp] theorem run_audit (w : World) (sessionId : String) (action : AuditAction)
    (metadata : AuditMetadata) :
    (audit sessionId action (some metadata)).run (execTx deps) w =
      (.ok (), w.withAudit deps sessionId action metadata) := by
  simp [audit, World.withAudit, MemoryStore.appendAuditEntry]

/-- The entry the conditional write leaves, by its outcome. -/
def updateEntry (previousStatus status : VerificationStatus) (source : StatusSource)
    (options : ApplyStatusTransitionOptions) : Option (AuditAction × AuditMetadata) :=
  match StatusWriteOutcome.of previousStatus status with
  | .updated => some (.status_updated,
      { status := some status
        previousStatus := some previousStatus
        source := some source
        rejectLabels := options.rejectLabels })
  | .rejected_terminal =>
    if source = .webhook then some (.webhook_rejected,
      { status := some status
        previousStatus := some previousStatus
        source := some source
        reason := some "terminal_status" })
    else none
  | .unchanged => none

/-- What a committed write of `new` did to the session `r`, and what the host was told. -/
structure Written (w : World) (r : SessionRecord) (new : VerificationStatus)
    (binding : Option String) (told : List StatusTransitionEvent)
    (transition : StatusTransition) (w' : World) : Prop where
  sessions : w'.tables.sessions = w.tables.sessions.set transition.session
  identity : transition.session.identity = r.identity
  previousStatus : transition.previousStatus = r.status
  status : transition.session.status =
    if r.AcceptsBinding binding then r.status.write new else r.status
  applicant : transition.session.providerApplicantId =
    if r.AcceptsBinding binding then binding.or r.providerApplicantId else r.providerApplicantId
  outcome : transition.outcome =
    if r.AcceptsBinding binding then .write (.of r.status new) else .rejected_unbound
  evolves : Evolves w.tables w'.tables
  issued : w.issued ≤ w'.issued
  providerCalls : w'.providerCalls = w.providerCalls
  effects : w'.effects = w.effects ++ told

namespace Written

variable {w w' : World} {r : SessionRecord} {new : VerificationStatus} {binding : Option String}
  {told : List StatusTransitionEvent} {transition : StatusTransition}

theorem id (h : Written w r new binding told transition w') : transition.session.id = r.id :=
  SessionRecord.id_of_identity h.identity

theorem get_self (h : Written w r new binding told transition w') :
    w'.tables.sessions.get r.id = some transition.session := by
  rw [h.sessions, ← h.id, Table.get_set_self]

theorem get_of_ne (h : Written w r new binding told transition w') {id : String}
    (hid : id ≠ r.id) : w'.tables.sessions.get id = w.tables.sessions.get id := by
  rw [h.sessions, Table.get_set_of_ne (by rwa [h.id])]

theorem standing_self (h : Written w r new binding told transition w') :
    w'.tables.standing r.id = some transition.session.standing :=
  Tables.standing_of_get h.get_self

theorem standing_of_ne (h : Written w r new binding told transition w') {id : String}
    (hid : id ≠ r.id) : w'.tables.standing id = w.tables.standing id := by
  rw [Tables.standing, Tables.standing, h.get_of_ne hid]

/-- The row stands as it did exactly when the write is refused or finds nothing to change. -/
theorem standing_eq_iff (h : Written w r new binding told transition w') :
    transition.session.standing = r.standing ↔ r.Stands new binding := by
  unfold SessionRecord.standing SessionRecord.Stands
  rw [Prod.mk.injEq, h.status, h.applicant]
  by_cases hacc : r.AcceptsBinding binding
  · rw [if_pos hacc, if_pos hacc]
    constructor
    · rintro ⟨hs, ha⟩ -
      constructor
      · by_contra hn
        obtain ⟨hnt, hne⟩ := not_or.mp hn
        rw [VerificationStatus.write_of_not_terminal hnt] at hs
        exact hne hs.symm
      · rintro a rfl
        exact ha.symm
    · intro hst
      obtain ⟨hs, ha⟩ := hst hacc
      constructor
      · rcases hs with ht | rfl
        · exact VerificationStatus.write_of_terminal ht
        · exact VerificationStatus.write_self _
      · cases binding with
        | none => rfl
        | some a => exact (ha a rfl).symm
  · rw [if_neg hacc, if_neg hacc]
    exact ⟨fun _ h => absurd h hacc, fun _ => ⟨rfl, rfl⟩⟩

end Written

section Transaction

variable {deps} {w : World} {id : String} {r : SessionRecord}

theorem run_updateSessionStatus (h : w.tables.sessions.get id = some r)
    (status : VerificationStatus) :
    (Tx.updateSessionStatus id status).run (execTx deps) w =
      (.ok ⟨.of r.status status, r.status, r.withStatus (deps.storeClock w.ticks) status⟩,
        w.withSession (r.withStatus (deps.storeClock w.ticks) status)) := by
  simp [Tx.run_updateSessionStatus, MemoryStore.updateSessionStatus_of_get h, settle,
    World.withSession]

theorem run_bindApplicantId (h : w.tables.sessions.get id = some r) (applicantId : String) :
    (Tx.bindApplicantId id applicantId).run (execTx deps) w =
      (.ok (r.withApplicant (deps.storeClock w.ticks) applicantId),
        w.withSession (r.withApplicant (deps.storeClock w.ticks) applicantId)) := by
  simp [Tx.run_bindApplicantId, MemoryStore.bindApplicantId_of_get h, settle,
    World.withSession]

theorem run_updateSessionStatus_none (h : w.tables.sessions.get id = none)
    (status : VerificationStatus) :
    (Tx.updateSessionStatus id status).run (execTx deps) w =
      (.error (plainError ("Verification session not found: " ++ id)), w.ticked) := by
  simp [Tx.run_updateSessionStatus, MemoryStore.updateSessionStatus,
    MemoryStore.require_of_get_none h, settle, World.ticked]

theorem run_bindApplicantId_none (h : w.tables.sessions.get id = none) (applicantId : String) :
    (Tx.bindApplicantId id applicantId).run (execTx deps) w =
      (.error (plainError ("Verification session not found: " ++ id)), w.ticked) := by
  simp [Tx.run_bindApplicantId, MemoryStore.bindApplicantId,
    MemoryStore.require_of_get_none h, settle, World.ticked]

variable (status : VerificationStatus) (source : StatusSource)
  (options : ApplyStatusTransitionOptions)

variable (deps) in
theorem run_updateAndAudit (h : w.tables.sessions.get id = some r) :
    (updateAndAudit id status source options).run (execTx deps) w =
      (.ok ⟨.write (.of r.status status), r.status,
          r.withStatus (deps.storeClock w.ticks) status⟩,
        (w.withSession (r.withStatus (deps.storeClock w.ticks) status)).withEntry deps id
          (updateEntry r.status status source options)) := by
  simp only [updateAndAudit, Program.run_bind, run_updateSessionStatus h]
  cases ho : StatusWriteOutcome.of r.status status with
  | updated => simp [updateEntry, ho, World.withEntry]
  | unchanged => simp [updateEntry, ho, World.withEntry]
  | rejected_terminal =>
    by_cases hs : source = .webhook <;> simp [updateEntry, ho, hs, World.withEntry]

/-- The conditional write and its entry: a recorded move, a refusal, or nothing. -/
theorem evolves_updateAndAudit (h : w.tables.sessions.get id = some r) (now : ℤ) :
    Evolves w.tables ((w.withSession (r.withStatus now status)).withEntry deps id
      (updateEntry r.status status source options)).tables := by
  have hid := Table.get_key h
  have hr : w.tables.sessions.get r.id = some r := by rwa [hid]
  by_cases hw : r.status.write status = r.status
  · have hself : (w.withSession (r.withStatus now status)).tables = w.tables := by
      have hs : r.withStatus now status = r := SessionRecord.withStatus_of_write_eq hw
      rw [hs]
      simp [World.withSession, Tables.setSession, Table.set_of_get hr]
    have he : ∀ e ∈ updateEntry r.status status source options, e.1 ≠ .status_updated := by
      intro e he
      unfold updateEntry at he
      split at he
      next ho => exact absurd (StatusWriteOutcome.of_eq_updated_iff.mp ho) (not_not.mpr hw)
      next =>
        split at he
        · cases he; simp
        · cases he
      next => cases he
    cases hu : updateEntry r.status status source options with
    | none => simp only [World.withEntry, hself]; exact .refl
    | some e =>
      have hn : Evolves (w.withSession (r.withStatus now status)).tables
          ((w.withSession (r.withStatus now status)).withAudit deps id e.1 e.2).tables :=
        World.evolves_withAudit (he e hu)
      rwa [hself] at hn
  · have ho : StatusWriteOutcome.of r.status status = .updated :=
      StatusWriteOutcome.of_eq_updated_iff.mpr hw
    simp only [updateEntry, ho, World.withEntry]
    exact .single (.moved hr now hw ⟨hid.symm, rfl, rfl, rfl⟩)

theorem run_writeStatusBody_none (h : w.tables.sessions.get id = none) :
    (writeStatusBody id status source options).run (execTx deps) w =
      (.error (plainError ("Verification session not found: " ++ id)), w.ticked) := by
  unfold writeStatusBody updateAndAudit
  split <;> simp [run_bindApplicantId_none h, run_updateSessionStatus_none h]

variable {status source options} in
theorem writeStatusBody_of_plain (hb : truthy options.bindApplicantId = none) :
    writeStatusBody id status source options = updateAndAudit id status source options := by
  unfold writeStatusBody
  rw [hb]

variable {options} in
theorem run_writeStatusBody_of_accepts {a : String} (h : w.tables.sessions.get id = some r)
    (hb : truthy options.bindApplicantId = some a) (ha : r.Accepts a) :
    (writeStatusBody id status source options).run (execTx deps) w =
      (updateAndAudit id status source options).run (execTx deps)
        (w.withSession (r.withApplicant (deps.storeClock w.ticks) a)) := by
  have hap : (r.withApplicant (deps.storeClock w.ticks) a).providerApplicantId = some a := by
    rw [SessionRecord.applicant_withApplicant, if_pos ha]
  simp only [writeStatusBody, hb, Program.run_bind, run_bindApplicantId h]
  rw [if_neg (not_not.mpr hap)]

def mismatchEntry (previousStatus status : VerificationStatus) (source : StatusSource) :
    AuditAction × AuditMetadata :=
  (.webhook_rejected,
    { status := some status
      previousStatus := some previousStatus
      source := some source
      reason := some "applicant_mismatch" })

variable {options} in
theorem run_writeStatusBody_of_refuses {a : String} (h : w.tables.sessions.get id = some r)
    (hb : truthy options.bindApplicantId = some a) (ha : ¬ r.Accepts a) :
    (writeStatusBody id status source options).run (execTx deps) w =
      (.ok ⟨.rejected_unbound, r.status, r⟩,
        (w.withSession r).withEntry deps id (some (mismatchEntry r.status status source))) := by
  have hself : r.withApplicant (deps.storeClock w.ticks) a = r :=
    SessionRecord.withApplicant_of_not_accepts ha
  have hne : r.providerApplicantId ≠ some a := fun hc => ha (Or.inr hc)
  simp only [writeStatusBody, hb, Program.run_bind, run_bindApplicantId h, hself]
  rw [if_pos hne]
  simp only [Program.run_bind, run_audit, Program.run_pure]
  rfl

variable (deps) in
theorem run_writeStatusBody_plain (h : w.tables.sessions.get id = some r)
    (hb : truthy options.bindApplicantId = none) :
    ∃ transition w', (writeStatusBody id status source options).run (execTx deps) w =
      (.ok transition, w') ∧ Written w r status none [] transition w' := by
  have hrun := run_updateAndAudit deps status source options h
  rw [← writeStatusBody_of_plain hb] at hrun
  exact ⟨_, _, hrun,
    { sessions := by simp [World.withSession]
      identity := SessionRecord.identity_withStatus ..
      previousStatus := rfl
      status := by simp [SessionRecord.AcceptsBinding]
      applicant := by simp [SessionRecord.AcceptsBinding]
      outcome := by simp [SessionRecord.AcceptsBinding]
      evolves := evolves_updateAndAudit _ _ _ h _
      issued := World.issued_le_withEntry deps (w.withSession _) id _
      providerCalls := by simp [World.withSession]
      effects := by simp [World.withSession] }⟩

variable (deps) in
theorem run_writeStatusBody_bound {a : String} (h : w.tables.sessions.get id = some r)
    (hb : truthy options.bindApplicantId = some a) (ha : r.Accepts a) :
    ∃ transition w', (writeStatusBody id status source options).run (execTx deps) w =
      (.ok transition, w') ∧ Written w r status (some a) [] transition w' := by
  have hid := Table.get_key h
  have hr : w.tables.sessions.get r.id = some r := by rwa [hid]
  set bound := r.withApplicant (deps.storeClock w.ticks) a with hbound
  have hbid : bound.id = id := by rw [hbound, SessionRecord.id_withApplicant, hid]
  have hap : bound.providerApplicantId = some a := by
    rw [hbound, SessionRecord.applicant_withApplicant, if_pos ha]
  have hst : bound.status = r.status := SessionRecord.status_withApplicant ..
  have hb' : (w.withSession bound).tables.sessions.get id = some bound := by
    rw [← hbid]; exact Table.get_set_self _ _
  have hrun := run_updateAndAudit deps status source options hb'
  rw [hbound, ← run_writeStatusBody_of_accepts status source h hb ha, ← hbound] at hrun
  exact ⟨_, _, hrun,
    { sessions := by
        simp only [World.sessions_withEntry, World.withSession, Tables.sessions_setSession]
        exact Table.set_set (SessionRecord.id_withStatus ..)
      identity := by
        rw [SessionRecord.identity_withStatus, hbound, SessionRecord.identity_withApplicant]
      previousStatus := hst
      status := by simp [SessionRecord.AcceptsBinding, ha, hst]
      applicant := by simp [SessionRecord.AcceptsBinding, ha, hap]
      outcome := by simp [SessionRecord.AcceptsBinding, ha, hst]
      evolves := .head (.bound hr _ a) (evolves_updateAndAudit _ _ _ hb' _)
      issued := World.issued_le_withEntry deps ((w.withSession bound).withSession _) id _
      providerCalls := by simp [World.withSession]
      effects := by simp [World.withSession] }⟩

variable (deps) in
theorem run_writeStatusBody_refused {a : String} (h : w.tables.sessions.get id = some r)
    (hb : truthy options.bindApplicantId = some a) (ha : ¬ r.Accepts a) :
    ∃ transition w', (writeStatusBody id status source options).run (execTx deps) w =
      (.ok transition, w') ∧ Written w r status (some a) [] transition w' := by
  have hid := Table.get_key h
  have hr : w.tables.sessions.get r.id = some r := by rwa [hid]
  have hev : Change w.tables (w.withSession r).tables := by
    have hc := Change.bound hr (deps.storeClock w.ticks) a
    rwa [SessionRecord.withApplicant_of_not_accepts ha] at hc
  exact ⟨_, _, run_writeStatusBody_of_refuses status source h hb ha,
    { sessions := by simp [World.withSession]
      identity := rfl
      previousStatus := rfl
      status := by simp [SessionRecord.AcceptsBinding, ha]
      applicant := by simp [SessionRecord.AcceptsBinding, ha]
      outcome := by simp [SessionRecord.AcceptsBinding, ha]
      evolves := .head hev (World.evolves_withAudit (by simp))
      issued := Nat.le_succ _
      providerCalls := rfl
      effects := (List.append_nil _).symm }⟩

variable (deps) in
theorem run_writeStatusBody (h : w.tables.sessions.get id = some r) :
    ∃ transition w', (writeStatusBody id status source options).run (execTx deps) w =
      (.ok transition, w') ∧
      Written w r status (truthy options.bindApplicantId) [] transition w' := by
  cases hb : truthy options.bindApplicantId with
  | none => exact run_writeStatusBody_plain deps _ _ _ h hb
  | some a =>
    by_cases ha : r.Accepts a
    · exact run_writeStatusBody_bound deps _ _ _ h hb ha
    · exact run_writeStatusBody_refused deps _ _ _ h hb ha

/-- The entry that the transaction leaves on a session, by how it ends. -/
def writtenEntry (r : SessionRecord) (status : VerificationStatus) (source : StatusSource)
    (options : ApplyStatusTransitionOptions) : Option (AuditAction × AuditMetadata) :=
  if r.AcceptsBinding (truthy options.bindApplicantId) then
    updateEntry r.status status source options
  else some (mismatchEntry r.status status source)

variable (deps) in
/-- The transaction adds its entry to the audit trail and no other. -/
theorem run_writeStatusBody_audit (h : w.tables.sessions.get id = some r) :
    ∃ entryId now,
      ((writeStatusBody id status source options).run (execTx deps) w).2.tables.audit =
        w.tables.audit ++ (writtenEntry r status source options).toList.map
          fun e => ⟨entryId, id, e.1, now, e.2⟩ := by
  have hentry : ∀ (w' : World) (entry : Option (AuditAction × AuditMetadata)), ∃ entryId now,
      (w'.withEntry deps id entry).tables.audit =
        w'.tables.audit ++ entry.toList.map fun e => ⟨entryId, id, e.1, now, e.2⟩ := by
    intro w' entry
    cases entry with
    | none => exact ⟨"", 0, (List.append_nil _).symm⟩
    | some e => exact ⟨deps.newId w'.issued, deps.storeClock w'.ticks, rfl⟩
  cases hb : truthy options.bindApplicantId with
  | none =>
    rw [writeStatusBody_of_plain hb, run_updateAndAudit deps status source options h,
      writtenEntry, hb, if_pos (by simp [SessionRecord.AcceptsBinding])]
    exact hentry _ _
  | some a =>
    by_cases ha : r.Accepts a
    · have hbound :
          (w.withSession (r.withApplicant (deps.storeClock w.ticks) a)).tables.sessions.get
          id = some (r.withApplicant (deps.storeClock w.ticks) a) := by
        have hid : (r.withApplicant (deps.storeClock w.ticks) a).id = id := by
          rw [SessionRecord.id_withApplicant, Table.get_key h]
        rw [← hid]
        exact Table.get_set_self _ _
      rw [run_writeStatusBody_of_accepts status source h hb ha,
        run_updateAndAudit deps status source options hbound, writtenEntry, hb,
        if_pos (by simpa [SessionRecord.AcceptsBinding] using ha),
        SessionRecord.status_withApplicant]
      exact hentry _ _
    · rw [run_writeStatusBody_of_refuses status source h hb ha, writtenEntry, hb,
        if_neg (by simpa [SessionRecord.AcceptsBinding] using ha)]
      exact hentry _ _

end Transaction

section Service

variable {deps} {w : World} {id : String} {r : SessionRecord} (status : VerificationStatus)
  (source : StatusSource) (options : ApplyStatusTransitionOptions)

theorem run_writeStatus_none (h : w.tables.sessions.get id = none) :
    (writeStatus id status source options).run (exec deps) w =
      (.error (plainError ("Verification session not found: " ++ id)), w.ticked) := by
  rw [writeStatus, Service.run_transaction, execTransaction,
    run_writeStatusBody_none status source options h]
  rfl

variable (deps) in
theorem run_writeStatus (h : w.tables.sessions.get id = some r) :
    ∃ transition w', (writeStatus id status source options).run (exec deps) w =
      (.ok transition, w') ∧
      Written w r status (truthy options.bindApplicantId) [] transition w' := by
  obtain ⟨transition, w', hrun, hw⟩ := run_writeStatusBody deps status source options h
  refine ⟨transition, w', ?_, hw⟩
  rw [writeStatus, Service.run_transaction, execTransaction, hrun]

/-- What the host is told about a transition: a committed change, if it registered an effect. -/
def StatusTransition.told (deps : VerificationServiceDeps) (source : StatusSource)
    (rejectLabels : Option (List String)) (transition : StatusTransition) :
    List StatusTransitionEvent :=
  if transition.outcome = .write .updated ∧ deps.onStatusTransition.isSome then
    [⟨transition.previousStatus, transition.session, source, rejectLabels⟩]
  else []

variable (deps) in
theorem run_runEffects (w : World) (id : String) (transition : StatusTransition)
    (rejectLabels : Option (List String)) :
    ∃ w', (runEffects deps id source transition rejectLabels).run (exec deps) w = (.ok (), w') ∧
      w'.tables.sessions = w.tables.sessions ∧ Evolves w.tables w'.tables ∧
      w.issued ≤ w'.issued ∧ w'.providerCalls = w.providerCalls ∧
      w'.effects = w.effects ++ transition.told deps source rejectLabels := by
  unfold runEffects StatusTransition.told
  by_cases hc : transition.outcome = .write .updated ∧ deps.onStatusTransition.isSome
  · rw [if_pos hc, if_pos hc, Program.run_tryCatch, Service.run_onStatusTransition]
    obtain ⟨effect, he⟩ := Option.isSome_iff_exists.mp hc.2
    simp only [he]
    cases hr : effect w.effects.length ⟨transition.previousStatus, transition.session, source,
        rejectLabels⟩ with
    | ok _ => exact ⟨_, rfl, rfl, .refl, le_rfl, rfl, rfl⟩
    | error e =>
      simp only [Service.run_direct, run_audit]
      refine ⟨_, rfl, rfl, ?_, Nat.le_succ _, rfl, rfl⟩
      exact .single (.noted (by simp))
  · rw [if_neg hc, if_neg hc]
    exact ⟨w, rfl, rfl, .refl, le_rfl, rfl, (List.append_nil _).symm⟩

theorem run_applyStatusTransition_none (h : w.tables.sessions.get id = none) :
    (applyStatusTransition deps id status source options).run (exec deps) w =
      (.error (plainError ("Verification session not found: " ++ id)), w.ticked) := by
  rw [applyStatusTransition, Program.run_bind, run_writeStatus_none status source options h]

variable (deps) in
theorem run_applyStatusTransition (h : w.tables.sessions.get id = some r) :
    ∃ transition w', (applyStatusTransition deps id status source options).run (exec deps) w =
      (.ok transition, w') ∧
      Written w r status (truthy options.bindApplicantId)
        (transition.told deps source options.rejectLabels) transition w' := by
  obtain ⟨transition, m, hrun, hw⟩ := run_writeStatus deps status source options h
  obtain ⟨w', hrun', hs, he, hi, hp, ht⟩ :=
    run_runEffects deps source m id transition options.rejectLabels
  refine ⟨transition, w', ?_, ?_⟩
  · simp only [applyStatusTransition, Program.run_bind, hrun, hrun', Program.run_pure]
  · exact
      { hw with
        sessions := hs.trans hw.sessions
        evolves := hw.evolves.trans he
        issued := hw.issued.trans hi
        providerCalls := hp.trans hw.providerCalls
        effects := by rw [ht, hw.effects, List.append_nil] }

end Service

section Persist

variable (w : World) (owner : String) (opts : CreateSessionOptions)

/-- The row that `start` persists. -/
def newRecord : SessionRecord :=
  { id := deps.newId w.issued
    userId := owner
    provider := deps.providerName
    platform := opts.platform
    levelName := opts.levelName
    locale := opts.locale
    providerApplicantId := none
    status := .initial
    createdAt := deps.storeClock w.ticks
    updatedAt := deps.storeClock w.ticks }

/-- The world in which `start` has persisted its session. -/
def World.withNew : World :=
  ({ w with issued := w.issued + 1 }.withSession (newRecord deps w owner opts)).withAudit deps
    (newRecord deps w owner opts).id .session_created
    { userId := some owner
      provider := some deps.providerName
      platform := some opts.platform
      levelName := opts.levelName }

theorem run_persistBody : (persistBody deps owner opts).run (execTx deps) w =
    (.ok (newRecord deps w owner opts), w.withNew deps owner opts) := by
  simp only [persistBody, Program.run_bind, Tx.run_newId, Tx.run_createSession, run_audit,
    Program.run_pure]
  rfl

theorem evolves_withNew (hw : w.Fresh deps) :
    Evolves w.tables (w.withNew deps owner opts).tables := by
  have hn : w.tables.sessions.get (newRecord deps w owner opts).id = none :=
    Table.get_eq_none.mpr fun r hr => hw r hr w.issued le_rfl
  have hc : Change w.tables (w.tables.setSession (newRecord deps w owner opts)) :=
    .created hn rfl rfl
  have ha : Change (w.tables.setSession (newRecord deps w owner opts))
      (w.withNew deps owner opts).tables := .noted (by simp)
  exact .head hc (.single ha)

end Persist

end Kyc
