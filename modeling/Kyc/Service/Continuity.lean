import Kyc.Service.Authority
import Kyc.Service.Calls
import Kyc.Service.Tokens

/-! # A session that was started

What `start` hands out is good from then on. However the owner's later calls interleave with
those of others, they find the session: its status is answered, a token is minted while the
session is in progress and the provider answers, and its page is shown.
-/

namespace Kyc

/-- The id names a session of the user with the service's provider. -/
def World.Holds (deps : VerificationServiceDeps) (owner id : String) (w : World) : Prop :=
  ∃ r ∈ w.tables.sessions.rows, r.id = id ∧ r.userId = owner ∧ r.provider = deps.providerName

/-- What a start hands out is a session of the user it was called for. -/
def Call.HandsOut (deps : VerificationServiceDeps) : Call → Except Thrown Reply → World → Prop
  | .start userId _, r, w => ∀ result, r = .ok (.started result) →
    ∃ owner, userId = some owner ∧ owner ≠ "" ∧ isBlank result.sessionId = false ∧
      w.Holds deps owner result.sessionId
  | _, _, _ => True

/-- What all calls count on: fresh ids, and that nothing is forgotten. -/
def continuity (deps : VerificationServiceDeps) : Discipline World where
  Inv := World.Fresh deps
  Le w w' := w.tables.Keeps w'.tables ∧ w.providerCalls <+: w'.providerCalls
  refl := World.follows_refl
  trans := @World.follows_trans

abbrev holding (deps : VerificationServiceDeps) (owner id : String) : Discipline World :=
  (continuity deps).restrict (World.Holds deps owner id)

/-- The provider was asked for a token of the owner's, and failed with the error. -/
def World.Failed (deps : VerificationServiceDeps) (owner : String) (e : Thrown) (w : World) :
    Prop :=
  ∃ n subject opts, w.providerCalls[n]? = some (.refreshToken subject opts) ∧
    deps.provider.answer n (.refreshToken subject opts) = .error e ∧ subject.userId = owner

/-- What the calls of a session's owner about the session are answered, and whoever opens its page:
a token may be refused because the session is finished or because the provider fails. -/
def Call.Served (deps : VerificationServiceDeps) (owner id : String) :
    Call → Except Thrown Reply → World → Prop
  | .status userId sessionId, r, _ => userId = some owner → sessionId = some id →
    ∃ view, r = .ok (.viewed (some view)) ∧ view.sessionId = id ∧
      view.provider = deps.providerName
  | .latestForUser userId _, r, _ => userId = some owner →
    ∃ view, r = .ok (.viewed (some view)) ∧ view.provider = deps.providerName
  | .refresh userId sessionId, r, w => userId = some owner → sessionId = some id →
    (∃ token, r = .ok (.refreshed token)) ∨
      w.Finished id ∧ r = .error (Errors.validationError "session is terminal") ∨
      ∃ e, w.Failed deps owner e ∧ r = .error (codedOrUnavailable e)
  | .hostedPage sessionId, r, w => sessionId = id →
    (∃ session token, r = .ok (.decided (.page session token)) ∧ session.id = id ∧
        session.userId = owner) ∨
      w.Finished id ∧ r = .ok (.decided (.not_found 404)) ∨
      ∃ e, w.Failed deps owner e ∧ r = .ok (.decided (.not_found 502))
  | _, _, _ => True

namespace Continuity

open Program
open Provenance (Read read_of_keeps read_of_mem getElem?_of_appended)

variable {deps : VerificationServiceDeps} {owner id : String} {w w' : World}
  {session : SessionRecord}

section Facts

theorem holds_of_keeps (h : w.Holds deps owner id) (hk : w.tables.Keeps w'.tables) :
    w'.Holds deps owner id := by
  obtain ⟨r, hr, rfl, rfl, hp⟩ := h
  obtain ⟨r', hr', kept⟩ := hk r hr
  exact ⟨r', hr', SessionRecord.id_of_identity kept.identity,
    SessionRecord.userId_of_identity kept.identity,
    (congrArg SessionIdentity.provider kept.identity).trans hp⟩

theorem finished_of_read (h : Read session w) (ht : session.status.Terminal) :
    w.Finished session.id := by
  obtain ⟨r, hget, kept⟩ := h
  exact ⟨r, hget, by rwa [kept.terminal ht]⟩

theorem finished_of_keeps (h : w.Finished id) (hk : w.tables.Keeps w'.tables) :
    w'.Finished id := by
  obtain ⟨r, hget, ht⟩ := h
  obtain ⟨r', hr', kept⟩ := hk r (Table.get_mem hget)
  have hid : r'.id = id := (SessionRecord.id_of_identity kept.identity).trans (Table.get_key hget)
  exact ⟨r', hid ▸ Table.get_of_mem hr', by rwa [kept.terminal ht]⟩

theorem failed_of_appended {e : Thrown} (h : w.Failed deps owner e)
    (hc : w.providerCalls <+: w'.providerCalls) : w'.Failed deps owner e := by
  obtain ⟨n, subject, opts, asked, failed⟩ := h
  exact ⟨n, subject, opts, getElem?_of_appended hc asked, failed⟩

theorem get_of_holds (h : w.Holds deps owner id) : ∃ r, w.tables.sessions.get id = some r ∧
    r.id = id ∧ r.userId = owner ∧ r.provider = deps.providerName := by
  obtain ⟨r, hr, rfl, hu, hp⟩ := h
  exact ⟨r, Table.get_of_mem hr, rfl, hu, hp⟩

theorem keptByCalls (deps : VerificationServiceDeps) : KeptByCalls deps (continuity deps) := by
  intro o w ho hf
  obtain ⟨he, hf'⟩ := ho.advances hf
  exact ⟨hf', he.keeps, providerCalls_exec deps w o⟩

theorem holding_keptByCalls (deps : VerificationServiceDeps) (owner id : String) :
    KeptByCalls deps (holding deps owner id) :=
  (keptByCalls deps).restrict fun _ _ hle h => holds_of_keeps h hle.1

end Facts

abbrev SafeWith (deps : VerificationServiceDeps) (owner id : String) {α : Type}
    (Q : Except Thrown α → World → Prop) (p : Service α) (w : World) : Prop :=
  p.Safe (holding deps owner id) (exec deps) (fun _ _ => True) Q w

section Operations

theorem safe_writeStatus (hr : Read session w) (status : VerificationStatus)
    (source : StatusSource) (options : ApplyStatusTransitionOptions) :
    SafeWith deps owner id
      (fun r _ => ∀ transition, r = .ok transition →
        transition.session.identity = session.identity)
      (writeStatus session.id status source options) w := by
  refine (holding_keptByCalls deps owner id).safe_issued
    (.write session.id status source options) fun w' hle _ _ _ _ transition' hok => ?_
  obtain ⟨r, hget, kept⟩ := read_of_keeps hr hle.1
  obtain ⟨transition, w'', hrun, hw⟩ := run_writeStatusBody deps status source options hget
  rw [exec, execTransaction, hrun] at hok
  obtain rfl := Except.ok.inj hok
  exact hw.identity.trans kept.identity

theorem safe_refreshToken (userId : String) (applicant : Option String)
    (opts : CreateSessionOptions) :
    SafeWith deps owner id (fun r w => ∀ e, r = .error e → w.Failed deps userId e)
      (Provider.refreshToken ⟨userId, applicant⟩ opts) w := by
  refine (holding_keptByCalls deps owner id).safe_issued (.provider (.refreshToken _ opts))
    fun w' _ _ w'' hle _ e failed => ⟨w'.providerCalls.length, _, opts, ?_, failed, rfl⟩
  exact getElem?_of_appended hle.2 List.getElem?_concat_length

end Operations

section Programs

variable (hi : (holding deps owner id).Inv w)

include hi

theorem safe_requireOwned :
    SafeWith deps owner id (fun r w => ∃ session, r = .ok session ∧ Read session w ∧
      session.id = id ∧ session.userId = owner ∧ session.provider = deps.providerName)
      (requireOwned id owner) w := by
  refine Safe.bind (Q := fun r w => ∃ session, r = .ok (some session) ∧ Read session w ∧
    session.id = id ∧ session.userId = owner ∧ session.provider = deps.providerName)
    ?_ hi (fun found w' _ _ hf => ?_) ?_
  · refine (holding_keptByCalls deps owner id).safe_store (o := .getSessionByIdForUser ..)
      trivial fun w' _ hi' w'' hle _ => ?_
    obtain ⟨r, hget, hid, hu, hp⟩ := get_of_holds hi'.2
    refine ⟨r, congrArg Except.ok ?_, read_of_mem (Table.get_mem hget) hle.1, hid, hu, hp⟩
    exact MemoryStore.getSessionByIdForUser_eq_some.mpr ⟨hget, hu⟩
  · obtain ⟨session, hs, hread, facts⟩ := hf
    obtain rfl := Except.ok.inj hs
    exact safe_pure fun w'' hle _ => ⟨session, rfl, read_of_keeps hread hle.1, facts⟩
  · rintro e w' _ _ ⟨session, hs, -⟩
    cases hs

/-- A session that is reconciled stays the one it is, and nothing is thrown. -/
theorem safe_reconcile (hr : Read session w) :
    SafeWith deps owner id
      (fun r _ => ∃ current, r = .ok current ∧ current.identity = session.identity)
      (reconcile deps session) w := by
  unfold reconcile
  split
  · exact safe_pure fun _ _ _ => ⟨session, rfl, rfl⟩
  · refine Safe.tryCatch (Q := fun r _ => ∀ current, r = .ok current →
      current.identity = session.identity) ?_ hi
      (fun _ _ _ _ _ => safe_pure fun _ _ _ => ⟨session, rfl, rfl⟩)
      fun current _ _ _ hc => ⟨current, rfl, hc current rfl⟩
    refine Safe.bind (Q := Anyhow) ?_ hi (fun found w' hle hi' _ => ?_) (by simp)
    · exact (holding_keptByCalls deps owner id).safe_anyhow
        (uses_lookup Issued.admits.toAdmits session)
    · cases found with
      | none => exact safe_pure fun _ _ _ current hc => by cases hc; rfl
      | some found =>
        refine Safe.bind (Q := fun r _ => ∀ transition, r = .ok transition →
          transition.session.identity = session.identity) ?_ hi'
          (fun transition _ _ _ ht => ?_) (by simp)
        · refine Safe.bind (safe_writeStatus (read_of_keeps hr hle.1) _ _ _) hi'
            (fun transition w'' _ hi'' ht => ?_) (by simp)
          refine Safe.bind (Q := Anyhow) ?_ hi'' (fun _ _ _ _ _ => ?_) (by simp)
          · exact (holding_keptByCalls deps owner id).safe_anyhow
              (uses_runEffects Issued.admits ..)
          · exact safe_pure fun _ _ _ transition' h => by cases h; exact ht _ rfl
        · exact safe_pure fun _ _ _ current hc => by cases hc; exact ht _ rfl

end Programs

section Calls

variable (hi : (holding deps owner id).Inv w)

include hi

theorem served_status (ho : owner ≠ "") (hid : isBlank id = false)
    (userId sessionId : Option String) :
    ((Call.status userId sessionId).program deps).Safe (holding deps owner id) (exec deps)
      (fun _ _ => True) (Call.Served deps owner id (.status userId sessionId)) w := by
  by_cases about : userId = some owner ∧ sessionId = some id
  · obtain ⟨rfl, rfl⟩ := about
    have found : SafeWith deps owner id (fun r _ => ∃ view : SessionView, r = .ok view ∧
        view.sessionId = id ∧ view.provider = deps.providerName)
        (status deps (some owner) (some id)) w := by
      apply safe_known (requireUser_eq_ok.mpr (truthy_eq_some.mpr ⟨rfl, ho⟩))
      apply safe_known (requireId_of_not_blank hid)
      refine Safe.bind (safe_requireOwned hi) hi (fun session w' _ hi' hs => ?_) (by simp)
      obtain ⟨session, heq, hread, rfl, -, provider⟩ := hs
      obtain rfl := Except.ok.inj heq
      refine Safe.bind (safe_reconcile hi' hread) hi' (fun current _ _ _ hc => ?_) (by simp)
      obtain ⟨current, heq, identity⟩ := hc
      obtain rfl := Except.ok.inj heq
      exact safe_pure fun _ _ _ => ⟨_, rfl, SessionRecord.id_of_identity identity,
        (congrArg SessionIdentity.provider identity).trans provider⟩
    refine found.bind hi (fun view _ _ _ hv => safe_pure fun _ _ _ _ _ => ?_) (by simp)
    obtain ⟨view', heq, facts⟩ := hv
    obtain rfl := Except.ok.inj heq
    exact ⟨view, rfl, facts⟩
  · refine Safe.mono (Q := Anyhow) ((holding_keptByCalls deps owner id).safe_anyhow
      (Call.uses_issued _)) fun _ _ _ hu hs => absurd ⟨hu, hs⟩ about

theorem served_latestForUser (ho : owner ≠ "") (userId : Option String) (reconciling : Bool) :
    ((Call.latestForUser userId reconciling).program deps).Safe (holding deps owner id)
      (exec deps) (fun _ _ => True)
      (Call.Served deps owner id (.latestForUser userId reconciling)) w := by
  by_cases about : userId = some owner
  · subst about
    have found : SafeWith deps owner id (fun r _ => ∃ view : SessionView, r = .ok (some view) ∧
        view.provider = deps.providerName) (latestForUser deps (some owner) reconciling) w := by
      apply safe_known (requireUser_eq_ok.mpr (truthy_eq_some.mpr ⟨rfl, ho⟩))
      refine Safe.bind (Q := fun r w => ∃ session, r = .ok (some session) ∧ Read session w ∧
        session.provider = deps.providerName) ?_ hi
        (fun found w' _ hi' hf => ?_) (by simp)
      · refine (holding_keptByCalls deps owner id).safe_store
          (o := .getLatestSessionForUser ..) trivial fun w' _ hi' w'' hle _ => ?_
        obtain ⟨r, hget, -, hu, hp⟩ := get_of_holds hi'.2
        have newest := newest_isSome SessionRecord.createdAt (Table.get_mem hget)
          (SessionRecord.ofUser_iff.mpr ⟨hu, hp⟩)
        obtain ⟨session, hs⟩ := newest
        refine ⟨session, congrArg Except.ok ?_, read_of_mem (newest_mem hs) hle.1,
          (SessionRecord.ofUser_iff.mp (newest_prop hs)).2⟩
        exact (MemoryStore.getLatestSessionForUser_eq _ _).trans hs
      · obtain ⟨session, heq, hread, provider⟩ := hf
        obtain rfl := Except.ok.inj heq
        cases reconciling with
        | false => exact safe_pure fun _ _ _ => ⟨view session, rfl, provider⟩
        | true =>
          refine Safe.bind (safe_reconcile hi' hread) hi' (fun current _ _ _ hc => ?_) (by simp)
          obtain ⟨current, heq, identity⟩ := hc
          obtain rfl := Except.ok.inj heq
          exact safe_pure fun _ _ _ =>
            ⟨_, rfl, (congrArg SessionIdentity.provider identity).trans provider⟩
    refine found.bind hi (fun view _ _ _ hv => safe_pure fun _ _ _ _ => ?_) (by simp)
    obtain ⟨view', heq, facts⟩ := hv
    obtain rfl := Except.ok.inj heq
    exact ⟨view', rfl, facts⟩
  · refine Safe.mono (Q := Anyhow) ((holding_keptByCalls deps owner id).safe_anyhow
      (Call.uses_issued _)) fun _ _ _ hu => absurd hu about

theorem served_refresh (ho : owner ≠ "") (hid : isBlank id = false)
    (userId sessionId : Option String) :
    ((Call.refresh userId sessionId).program deps).Safe (holding deps owner id) (exec deps)
      (fun _ _ => True) (Call.Served deps owner id (.refresh userId sessionId)) w := by
  by_cases about : userId = some owner ∧ sessionId = some id
  · obtain ⟨rfl, rfl⟩ := about
    have minted : SafeWith deps owner id (fun r w => (∃ token, r = .ok token) ∨
        w.Finished id ∧ r = .error (Errors.validationError "session is terminal") ∨
        ∃ e, w.Failed deps owner e ∧ r = .error (codedOrUnavailable e))
        (refresh (some owner) (some id)) w := by
      apply safe_known (requireUser_eq_ok.mpr (truthy_eq_some.mpr ⟨rfl, ho⟩))
      apply safe_known (requireId_of_not_blank hid)
      refine Safe.bind (safe_requireOwned hi) hi (fun session w' _ hi' hs => ?_) (by simp)
      obtain ⟨session, heq, hread, rfl, rfl, -⟩ := hs
      obtain rfl := Except.ok.inj heq
      dsimp only
      split
      next terminal =>
        refine safe_throw fun w'' hle _ => Or.inr (Or.inl ⟨?_, rfl⟩)
        exact finished_of_read (read_of_keeps hread hle.1) terminal
      · refine Safe.bind (Q := fun r w => ∀ e, r = .error e → ∃ e',
          w.Failed deps session.userId e' ∧ e = codedOrUnavailable e') ?_ hi'
          (fun token w'' _ hi'' _ => ?_) fun e _ _ _ he => ?_
        · refine Safe.tryCatch (safe_refreshToken _ _ _) hi' (fun e _ _ _ he => ?_) (by simp)
          exact safe_throw fun w'' hle _ e' h => by
            cases h
            exact ⟨e, failed_of_appended (he e rfl) hle.2, rfl⟩
        · refine Safe.bind ((holding_keptByCalls deps _ _).safe_audit (by simp) _ _) hi''
            (fun _ _ _ _ _ => safe_pure fun _ _ _ => Or.inl ⟨_, rfl⟩) (by simp)
        · obtain ⟨e', failed, rfl⟩ := he e rfl
          exact Or.inr (Or.inr ⟨e', failed, rfl⟩)
    refine minted.bind hi (fun token w' _ _ _ => safe_pure fun _ _ _ _ _ =>
      Or.inl ⟨token, rfl⟩) fun e w' _ _ he _ _ => ?_
    rcases he with ⟨_, h⟩ | ⟨finished, h⟩ | ⟨e', failed, h⟩
    · cases h
    · exact Or.inr (Or.inl ⟨finished, congrArg Except.error (Except.error.inj h)⟩)
    · exact Or.inr (Or.inr ⟨e', failed, congrArg Except.error (Except.error.inj h)⟩)
  · refine Safe.mono (Q := Anyhow) ((holding_keptByCalls deps owner id).safe_anyhow
      (Call.uses_issued _)) fun _ _ _ hu hs => absurd ⟨hu, hs⟩ about

theorem served_hostedPage (sessionId : String) :
    ((Call.hostedPage sessionId).program deps).Safe (holding deps owner id) (exec deps)
      (fun _ _ => True) (Call.Served deps owner id (.hostedPage sessionId)) w := by
  by_cases about : sessionId = id
  · subst about
    have shown : SafeWith deps owner sessionId (fun r w => (∃ session token,
          r = .ok (.page session token) ∧ session.id = sessionId ∧ session.userId = owner) ∨
        w.Finished sessionId ∧ r = .ok (.not_found 404) ∨
        ∃ e, w.Failed deps owner e ∧ r = .ok (.not_found 502))
        (hostedPage deps sessionId) w := by
      refine Safe.bind (Q := fun r w => ∃ session, r = .ok (some session) ∧ Read session w ∧
        session.id = sessionId ∧ session.userId = owner ∧ session.provider = deps.providerName)
        ?_ hi (fun found w' _ hi' hf => ?_) (by simp)
      · refine (holding_keptByCalls deps owner sessionId).safe_store
          (o := .getSessionById _) trivial fun w' _ hi' w'' hle _ => ?_
        obtain ⟨r, hget, facts⟩ := get_of_holds hi'.2
        exact ⟨r, congrArg Except.ok hget, read_of_mem (Table.get_mem hget) hle.1, facts⟩
      · obtain ⟨session, heq, hread, rfl, rfl, provider⟩ := hf
        obtain rfl := Except.ok.inj heq
        dsimp only
        split
        next other =>
          have terminal := other.resolve_left (not_not.mpr provider)
          exact safe_pure fun w'' hle _ => Or.inr (Or.inl
            ⟨finished_of_read (read_of_keeps hread hle.1) terminal, rfl⟩)
        · refine Safe.tryCatch (Q := fun r w => (∃ token, r = .ok (.page session token)) ∨
            ∃ e, w.Failed deps session.userId e ∧ r = .error e) ?_ hi' (fun e _ _ _ he => ?_)
            fun decision _ _ _ hd => ?_
          · exact Safe.bind (safe_refreshToken _ _ _) hi'
              (fun token _ _ _ _ => safe_pure fun _ _ _ => Or.inl ⟨_, rfl⟩)
              fun e _ _ _ he => Or.inr ⟨e, he e rfl, rfl⟩
          · obtain ⟨_, h⟩ | ⟨e', failed, -⟩ := he
            · cases h
            · exact safe_pure fun _ hle _ =>
                Or.inr (Or.inr ⟨e', failed_of_appended failed hle.2, rfl⟩)
          · obtain ⟨token, h⟩ | ⟨_, _, h⟩ := hd
            · exact Or.inl ⟨session, token, h, rfl, rfl⟩
            · cases h
    refine shown.bind hi (fun decision w' _ hi' hd => safe_pure fun w'' hle _ _ => ?_)
      fun e w' _ _ he => ?_
    · rcases hd with ⟨session, token, h, facts⟩ | ⟨finished, h⟩ | ⟨e, failed, h⟩
      · cases h
        exact Or.inl ⟨session, token, rfl, facts⟩
      · cases h
        exact Or.inr (Or.inl ⟨finished_of_keeps finished hle.1, rfl⟩)
      · cases h
        exact Or.inr (Or.inr ⟨e, failed_of_appended failed hle.2, rfl⟩)
    · rcases he with ⟨_, _, h, -⟩ | ⟨-, h⟩ | ⟨_, _, h⟩ <;> cases h
  · refine Safe.mono (Q := Anyhow) ((holding_keptByCalls deps owner id).safe_anyhow
      (Call.uses_issued _)) fun _ _ _ h => absurd h about

/-- Every call that starts once the session is there serves its owner. -/
theorem served (ho : owner ≠ "") (hid : isBlank id = false) (c : Call) :
    (c.program deps).Safe (holding deps owner id) (exec deps) (fun _ _ => True)
      (c.Served deps owner id) w := by
  cases c with
  | status userId sessionId => exact served_status hi ho hid userId sessionId
  | latestForUser userId reconciling => exact served_latestForUser hi ho userId reconciling
  | refresh userId sessionId => exact served_refresh hi ho hid userId sessionId
  | hostedPage sessionId => exact served_hostedPage hi sessionId
  | start | handleWebhookEvent | applyStatusTransition =>
    exact (holding_keptByCalls deps owner id).safe_anyhow (Call.uses_issued _)

end Calls

section Starting

variable (named : ∀ n, isBlank (deps.newId n) = false) (hi : (continuity deps).Inv w)

include named hi

/-- The session is there before the provider is asked for anything. -/
theorem safe_start (userId : Option String) (input : Option JsonValue) :
    (start deps userId input).Safe (continuity deps) (exec deps) (fun _ _ => True)
      (fun r w => ∀ result, r = .ok result → ∃ owner, userId = some owner ∧ owner ≠ "" ∧
        isBlank result.sessionId = false ∧ w.Holds deps owner result.sessionId) w := by
  have admits : AdmitsWrites deps (Issued deps) := Issued.admits
  refine safe_given (by simp) fun owner ho => safe_given (by simp) fun opts _ => ?_
  obtain ⟨rfl, called⟩ := truthy_eq_some.mp (requireUser_eq_ok.mp ho)
  refine Safe.bind (Q := fun r w => ∀ session, r = .ok session → isBlank session.id = false ∧
    w.Holds deps owner session.id) ?_ hi (fun session w₁ _ hi₁ hs => ?_) (by simp)
  · refine Safe.tryCatch (Q := fun r w => ∀ session, r = .ok session →
      isBlank session.id = false ∧ w.Holds deps owner session.id) ?_ hi
      (fun _ _ _ _ _ => safe_throw (by simp)) fun _ _ _ _ hs => hs
    refine (keptByCalls deps).safe_issued (.persist owner opts)
      fun w' _ _ w'' hle _ session hs => ?_
    rw [exec, execTransaction, run_persistBody] at hs hle
    obtain rfl := Except.ok.inj hs
    have stored : (w'.withNew deps owner opts).Holds deps owner (deps.newId w'.issued) :=
      ⟨newRecord deps w' owner opts, Table.get_mem (Table.get_set_self _ _), rfl, rfl, rfl⟩
    exact ⟨named _, holds_of_keeps stored hle.1⟩
  · obtain ⟨hb, held⟩ := hs session rfl
    refine Safe.bind (Q := Anyhow) ((keptByCalls deps).safe_anyhow ?_) hi₁
      (fun minted w₂ hle hi₂ _ => ?_) (by simp)
    · apply Uses.tryCatch (uses_provider admits.toAdmits id)
      intro e
      exact Uses.bind (uses_audit admits.toAdmits (by simp) ..) fun _ => trivial
    · have handed (w₃ : World) (hle' : (continuity deps).Le w₂ w₃) :
          ∃ who, some owner = some who ∧ who ≠ "" ∧ isBlank session.id = false ∧
            w₃.Holds deps who session.id :=
        ⟨owner, rfl, called, hb, holds_of_keeps held ((continuity deps).trans hle hle').1⟩
      cases truthy minted.providerApplicantId with
      | none => exact safe_pure fun w₃ hle' _ result hr => by cases hr; exact handed w₃ hle'
      | some applicantId =>
        refine Safe.bind (Q := Anyhow)
          ((keptByCalls deps).safe_anyhow (uses_store admits.toAdmits trivial)) hi₂
          (fun _ w₃ hle' _ _ => ?_) (by simp)
        exact safe_pure fun w₄ hle'' _ result hr => by
          cases hr
          exact handed w₄ ((continuity deps).trans hle' hle'')

/-- Every call hands out only sessions of the user it was called for. -/
theorem hands_out (c : Call) :
    (c.program deps).Safe (continuity deps) (exec deps) (fun _ _ => True)
      (c.HandsOut deps) w := by
  cases c with
  | start userId input =>
    refine (safe_start named hi userId input).bind hi (fun result _ _ _ hr => ?_)
      (by simp [Call.HandsOut])
    refine safe_pure fun w' hle _ result' h => ?_
    cases h
    obtain ⟨owner, rfl, called, hb, held⟩ := hr result rfl
    exact ⟨owner, rfl, called, hb, holds_of_keeps held hle.1⟩
  | refresh | status | latestForUser | hostedPage | handleWebhookEvent | applyStatusTransition =>
    exact (keptByCalls deps).safe_anyhow (Call.uses_issued _)

end Starting

end Continuity

section Runs

variable {deps : VerificationServiceDeps} {w : World}

open Continuity in
/-- From the moment a start has handed out a session, whatever calls run besides, its owner is
served: a later call for the session's status or a token for it finds the session, and so does
whoever opens its page, and the owner's latest session is some session. Ids are never blank. -/
theorem started_session_is_served (hw : w.Fresh deps)
    (named : ∀ n, isBlank (deps.newId n) = false) (events : List (Event Call)) (i : ℕ)
    (userId : Option String) (input : Option JsonValue) (result : StartResult)
    (hs : (runService deps w events).threads[i]? =
      some ⟨.start userId input, .ret (.started result)⟩) :
    ∃ owner, userId = some owner ∧ ∀ (later : List (Event Call)) j t r,
      (runService deps w events).threads.length ≤ j →
      (runService deps w (events ++ later)).threads[j]? = some t → t.rest.result = some r →
        t.call.Served deps owner result.sessionId r
          (runService deps w (events ++ later)).state := by
  have before : Pool.AllSafe (continuity deps) (exec deps) (fun _ _ _ => True)
      (Call.HandsOut deps) (runService deps w events) :=
    (Pool.allSafe_idle hw).run (fun _ _ => trivial) events fun c _ _ hi => hands_out named hi c
  have handed : Call.HandsOut deps (.start userId input) (.ok (.started result))
      (runService deps w events).state :=
    (before.threads _ (List.mem_of_getElem? hs)).of_result before.inv rfl
  obtain ⟨owner, rfl, called, named', held⟩ := handed result rfl
  refine ⟨owner, rfl, fun later j t r hj ht hr => ?_⟩
  have split : runService deps w (events ++ later) =
      (runService deps w events).run (exec deps) (Call.program deps) later :=
    Pool.run_append (exec deps) (Call.program deps) (Pool.idle w) events later
  rw [split] at ht ⊢
  have keeps (w w' : World) (hle : (continuity deps).Le w w')
      (h : w.Holds deps owner result.sessionId) : w'.Holds deps owner result.sessionId :=
    holds_of_keeps h hle.1
  have there := before.restrict keeps held
  have safe (c : Call) (w : World) (hi : (holding deps owner result.sessionId).Inv w) :=
    (hands_out named hi.1 c).restrict keeps
  have served := there.later (fun _ _ => trivial) later (fun c _ => safe c)
    (R := Call.Served deps owner result.sessionId)
    (fun c _ w hi => Continuity.served hi called named' c) ht hj
  exact served.of_result (there.run (fun _ _ => trivial) later fun c _ => safe c).inv hr

def startedRun : List (Event Call) :=
  [.start (.start (some "u") (some (startInput "basic"))), .step 0, .step 0, .step 0]

def refreshedRun : List (Event Call) :=
  [.start (.refresh (some "u") (some "x")), .step 1,
    .start (.handleWebhookEvent (eventOf "a" "u" .approved none)), .step 2, .step 2, .step 1,
    .step 1, .step 1]

theorem head_not_blank {s : String} {c : Char} (h : s.toList.head? = some c)
    (hc : isTrimmed c = false) : isBlank s = false := by
  unfold isBlank
  cases hs : s.toList with
  | nil => rw [hs] at h; cases h
  | cons d rest =>
    rw [hs] at h
    obtain rfl := Option.some.inj h
    rw [List.all_cons, hc, Bool.false_and]

theorem started_session_is_served_refreshed :
    (Call.refresh (some "u") (some "x")).Served
      (steadyDeps (steadyProvider (some "a") .pending none)) "u" "x"
      (.ok (.refreshed ⟨"token"⟩))
      (runService (steadyDeps (steadyProvider (some "a") .pending none)) .empty
        (startedRun ++ refreshedRun)).state := by
  have started : (runService (steadyDeps (steadyProvider (some "a") .pending none)) .empty
      startedRun).threads[0]? = some ⟨.start (some "u") (some (startInput "basic")),
        .ret (.started
          { sessionId := "x"
            provider := "sumsub"
            status := .initial
            applicantId := some "a"
            accessToken := "token"
            url := "https://kyc.example/hosted/x"
            allowedOrigin := "https://kyc.example" })⟩ := by
    rfl
  have named : ∀ n, isBlank (unaryId n) = false := fun n =>
    head_not_blank (head?_unaryId n) (by decide)
  obtain ⟨owner, ho, served⟩ := started_session_is_served (World.fresh_empty
    (steadyDeps (steadyProvider (some "a") .pending none))) named startedRun 0 _ _ _ started
  obtain rfl := Option.some.inj ho
  have refreshed : (runService (steadyDeps (steadyProvider (some "a") .pending none)) .empty
      (startedRun ++ refreshedRun)).threads[1]? = some ⟨.refresh (some "u") (some "x"),
        .ret (.refreshed ⟨"token"⟩)⟩ := by
    rfl
  exact served refreshedRun 1 _ _ (by decide +kernel) refreshed rfl

end Runs

end Kyc
