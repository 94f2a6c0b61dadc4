import Kyc.Programs.Faults
import Kyc.Service.Transactions
import Kyc.Service.Writes

/-! # A status change is all or nothing

`applyStatusTransition` on the in-memory store, with any operation of its transaction
failing. Its transaction is the store's own: a copy of both tables that is put back when
the callback throws.
-/

namespace Kyc

variable (deps : VerificationServiceDeps)

/-- The service over the in-memory store, no two transactions of which overlap. -/
def execMemory : Handler ServiceSig Thrown World
  | .transaction body, w => (MemoryStore.transaction body).run (execShared deps) w
  | .direct o, w => execTx deps o w
  | .provider c, w => exec deps (.provider c) w
  | .onStatusTransition e, w => exec deps (.onStatusTransition e) w

theorem execMemory_eq : execMemory deps = exec deps := by
  funext o w
  cases o with
  | transaction body => exact run_transaction deps body w
  | direct | provider | onStatusTransition => rfl

/-- `applyStatusTransition` with a failure of the `n`-th operation in its transaction. -/
def applyStatusTransitionFailing (id : String) (status : VerificationStatus)
    (source : StatusSource) (options : ApplyStatusTransitionOptions) (e : Thrown) (late : Bool)
    (n : ℕ) : Service StatusTransition := do
  let transition ← Service.transaction ((writeStatusBody id status source options).failAt e late n)
  runEffects deps id source transition options.rejectLabels
  pure transition

structure Rejected (w : World) (r : Except Thrown StatusTransition × World) : Prop where
  error : ∃ e, r.1 = .error e
  tables : r.2.tables = w.tables
  effects : r.2.effects = w.effects

/-- The call resolved: of the session at most its status, applicant and `updatedAt` changed, and
at most one entry says so, apart from the one about a throwing effect. -/
structure Resolved (w : World) (id : String) (transition : StatusTransition) (w' : World) :
    Prop where
  session : ∃ r r', w.tables.sessions.get id = some r ∧ r'.identity = r.identity ∧
    w'.tables.sessions = w.tables.sessions.set r'
  entries : ∃ written failed, w'.tables.audit = w.tables.audit ++ written ++ failed ∧
    written.length ≤ 1 ∧
    (∀ entry ∈ written, entry.sessionId = id ∧
      (entry.action = .status_updated ∨ entry.action = .webhook_rejected)) ∧
    (failed = [] ∨ ∃ entry effect event e, failed = [entry] ∧ entry.sessionId = id ∧
      entry.action = .effect_failed ∧ deps.onStatusTransition = some effect ∧
      effect w.effects.length event = .error e ∧ w'.effects = w.effects ++ [event])
  unbound : transition.outcome = .rejected_unbound → w'.tables.sessions = w.tables.sessions

section Body

open Program

variable (id : String) (status : VerificationStatus) (source : StatusSource)
  (options : ApplyStatusTransitionOptions)

theorem propagates_audit (sessionId : String) (action : AuditAction)
    (metadata : Option AuditMetadata) : (audit sessionId action metadata).Propagates :=
  Propagates.bind (propagates_perform _) fun _ => propagates_perform _

theorem propagates_updateAndAudit : (updateAndAudit id status source options).Propagates := by
  apply Propagates.bind (propagates_perform _)
  intro transition
  dsimp only
  cases transition.outcome with
  | updated => exact Propagates.bind (propagates_audit ..) fun _ => trivial
  | unchanged => trivial
  | rejected_terminal =>
    dsimp only
    split
    · exact Propagates.bind (propagates_audit ..) fun _ => trivial
    · trivial

theorem propagates_writeStatusBody : (writeStatusBody id status source options).Propagates := by
  unfold writeStatusBody
  split
  · apply Propagates.bind (propagates_perform _)
    intro bound
    split
    · exact Propagates.bind (propagates_audit ..) fun _ => trivial
    · exact propagates_updateAndAudit ..
  · exact propagates_updateAndAudit ..

theorem effects_run_execTx {α : Type} (body : Tx α) (w : World) :
    (body.run (execTx deps) w).2.effects = w.effects := by
  induction body generalizing w with
  | ret | err => rfl
  | await o k ih =>
    have ho : (execTx deps o w).2.effects = w.effects := by cases o <;> rfl
    exact (ih _ _).trans ho

end Body

section Calls

variable {deps} {w : World} {id : String} {r : SessionRecord} (status : VerificationStatus)
  (source : StatusSource) (options : ApplyStatusTransitionOptions)

theorem rejected_of_error {body : Tx StatusTransition} {e : Thrown}
    (he : (body.run (execTx deps) w).1 = .error e) :
    Rejected w ((do
      let transition ← Service.transaction body
      runEffects deps id source transition options.rejectLabels
      pure transition : Service StatusTransition).run (exec deps) w) := by
  have hw := effects_run_execTx deps body w
  rcases hrun : body.run (execTx deps) w with ⟨res, w'⟩
  rw [hrun] at he hw
  obtain rfl : res = .error e := he
  simp only [Program.run_bind, Service.run_transaction, execTransaction, hrun]
  exact ⟨⟨e, rfl⟩, rfl, hw⟩

variable (deps) in
theorem run_runEffects_audit (id : String) (w : World) (transition : StatusTransition)
    (rejectLabels : Option (List String)) :
    ∃ w' failed, (runEffects deps id source transition rejectLabels).run (exec deps) w =
        (.ok (), w') ∧ w'.tables.sessions = w.tables.sessions ∧
      w'.tables.audit = w.tables.audit ++ failed ∧
      (failed = [] ∨ ∃ entry effect event e, failed = [entry] ∧ entry.sessionId = id ∧
        entry.action = .effect_failed ∧ deps.onStatusTransition = some effect ∧
        effect w.effects.length event = .error e ∧ w'.effects = w.effects ++ [event]) := by
  unfold runEffects
  by_cases hc : transition.outcome = .write .updated ∧ deps.onStatusTransition.isSome
  · rw [if_pos hc, Program.run_tryCatch, Service.run_onStatusTransition]
    obtain ⟨effect, he⟩ := Option.isSome_iff_exists.mp hc.2
    simp only [he]
    cases hr : effect w.effects.length ⟨transition.previousStatus, transition.session, source,
        rejectLabels⟩ with
    | ok _ => exact ⟨_, [], rfl, rfl, (List.append_nil _).symm, Or.inl rfl⟩
    | error e =>
      simp only [Service.run_direct, run_audit]
      exact ⟨_, _, rfl, rfl, rfl, Or.inr ⟨_, effect, _, e, rfl, rfl, rfl, rfl, hr, rfl⟩⟩
  · rw [if_neg hc]
    exact ⟨w, [], rfl, rfl, (List.append_nil _).symm, Or.inl rfl⟩

theorem writtenEntry_action {entry : AuditAction × AuditMetadata}
    (h : writtenEntry r status source options = some entry) :
    entry.1 = .status_updated ∨ entry.1 = .webhook_rejected := by
  unfold writtenEntry updateEntry at h
  split at h
  · split at h
    · cases h; exact Or.inl rfl
    · split at h
      · cases h; exact Or.inr rfl
      · cases h
    · cases h
  · cases h; exact Or.inr rfl

theorem sessions_of_refused {transition : StatusTransition} {w' : World}
    (h : w.tables.sessions.get id = some r)
    (hrun : (writeStatusBody id status source options).run (execTx deps) w = (.ok transition, w'))
    (hacc : ¬ r.AcceptsBinding (truthy options.bindApplicantId)) :
    w'.tables.sessions = w.tables.sessions := by
  cases hb : truthy options.bindApplicantId with
  | none =>
    rw [hb] at hacc
    exact absurd trivial hacc
  | some a =>
    rw [hb] at hacc
    rw [run_writeStatusBody_of_refuses status source h hb hacc] at hrun
    obtain ⟨-, rfl⟩ := Prod.mk.inj hrun
    rw [World.sessions_withEntry]
    exact Table.set_of_get (by rwa [Table.get_key h])

theorem resolved_of_run {transition : StatusTransition} {w' : World}
    (hrun : (applyStatusTransition deps id status source options).run (exec deps) w =
      (.ok transition, w')) : Resolved deps w id transition w' := by
  cases hg : w.tables.sessions.get id with
  | none =>
    rw [run_applyStatusTransition_none status source options hg] at hrun
    cases hrun
  | some r =>
    obtain ⟨transition', m, hbody, hw⟩ := run_writeStatusBody deps status source options hg
    obtain ⟨entryId, now, haudit⟩ := run_writeStatusBody_audit deps status source options hg
    obtain ⟨w'', failed, heffects, hsessions, hfailed, hnote⟩ :=
      run_runEffects_audit deps source id m transition' options.rejectLabels
    simp only [applyStatusTransition, writeStatus, Program.run_bind, Service.run_transaction,
      execTransaction, hbody, heffects, Program.run_pure] at hrun
    obtain ⟨hok, rfl⟩ := Prod.mk.inj hrun
    obtain rfl := Except.ok.inj hok
    rw [hbody] at haudit
    refine ⟨⟨r, transition'.session, hg, hw.identity, hsessions.trans hw.sessions⟩,
      ⟨_, failed, hfailed.trans (congrArg (· ++ failed) haudit), ?_, ?_, ?_⟩, ?_⟩
    · rw [List.length_map]
      cases writtenEntry r status source options with
      | none => exact Nat.zero_le 1
      | some entry => exact le_rfl
    · intro entry hentry
      obtain ⟨e, he, rfl⟩ := List.mem_map.mp hentry
      exact ⟨rfl, writtenEntry_action status source options (Option.mem_toList.mp he)⟩
    · rwa [hw.effects, List.append_nil] at hnote
    · intro hub
      rw [hsessions]
      apply sessions_of_refused status source options hg hbody
      intro hacc
      rw [hw.outcome, if_pos hacc] at hub
      cases hub

end Calls

/-- A status change happens as a whole or not at all. -/
theorem applyStatusTransition_atomic (w : World) (id : String) (status : VerificationStatus)
    (source : StatusSource) (options : ApplyStatusTransitionOptions) :
    (w.tables.sessions.get id = none →
      Rejected w ((applyStatusTransition deps id status source options).run (execMemory deps) w)) ∧
    (∀ transition w',
      (applyStatusTransition deps id status source options).run (execMemory deps) w =
      (.ok transition, w') → Resolved deps w id transition w') ∧
    ∀ e late n,
      if n < ((writeStatusBody id status source options).performed (execTx deps) w).length then
        Rejected w ((applyStatusTransitionFailing deps id status source options e late n).run
          (execMemory deps) w)
      else
        (applyStatusTransitionFailing deps id status source options e late n).run
            (execMemory deps) w =
          (applyStatusTransition deps id status source options).run (execMemory deps) w := by
  rw [execMemory_eq]
  refine ⟨fun hn => ?_, fun transition w' hrun => resolved_of_run status source options hrun,
    fun e late n => ?_⟩
  · exact rejected_of_error source options
      (congrArg Prod.fst (run_writeStatusBody_none status source options hn))
  · split
    next hlt =>
      exact rejected_of_error source options
        ((propagates_writeStatusBody id status source options).run_failAt hlt)
    next hle =>
      have hrun := Program.run_failAt_of_le e late (Nat.le_of_not_lt hle)
      simp only [applyStatusTransitionFailing, applyStatusTransition, writeStatus, Program.run_bind,
        Service.run_transaction, execTransaction, hrun]

/-- An unbound session is bound and approved in four operations, each of which may fail. -/
example : ((writeStatusBody "s" .approved .webhook { bindApplicantId := some "a" }).performed
    (execTx bareDeps) (worldOf [sessionOf "s" "u" none none .pending 0 0] (by simp))) =
      [.store (.bindApplicantId "s" "a"), .store (.updateSessionStatus "s" .approved), .newId,
        .store (.appendAuditEntry
          { id := unaryId 0
            sessionId := "s"
            action := .status_updated
            metadata :=
              { status := some .approved
                previousStatus := some .pending
                source := some .webhook } })] := by
  decide +kernel

end Kyc
