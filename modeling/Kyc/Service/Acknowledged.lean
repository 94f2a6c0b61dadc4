import Kyc.Service.Calls
import Kyc.Service.Provenance
import Kyc.Service.Webhooks

/-! # Events that were acknowledged

The outcome with which an event is acknowledged is true, and stays true. An event that was
applied is on the record: its status is in the history of a session of its applicant, or the
session had ended before and the refusal is noted.
-/

namespace Kyc

/-- The session is one that the event may be about: its applicant's, on its level. -/
structure SessionRecord.Meant (r : SessionRecord) (event : WebhookEvent) : Prop where
  applicant : r.providerApplicantId = some event.providerApplicantId
  level : ∀ level, event.levelName = some level → r.levelName = some level

/-- The trail notes that the status was refused, for the reason. -/
def Tables.Refused (t : Tables) (id : String) (status : VerificationStatus) (reason : String) :
    Prop :=
  ∃ e ∈ t.audit, e.sessionId = id ∧ e.action = .webhook_rejected ∧
    e.metadata.status = some status ∧ e.metadata.reason = some reason

/-- The session came to the status, or had ended before the status was written. -/
def Tables.OnRecord (t : Tables) (r : SessionRecord) (status : VerificationStatus) : Prop :=
  status = .initial ∨ (∃ e ∈ statusTrail t r.id, e.metadata.status = some status) ∨
    r.status.Terminal ∧ t.Refused r.id status "terminal_status"

/-- What it means that an event was acknowledged with the outcome. -/
inductive Tables.Honours (t : Tables) (event : WebhookEvent) : WebhookOutcome → Prop
  | ignored (h : event.status = none) : t.Honours event .ignored_unknown_status
  | unknown : t.Honours event .unknown_session
  | refused {status : VerificationStatus} {r : SessionRecord} (hs : event.status = some status)
      (hr : r ∈ t.sessions.rows) (h : t.Refused r.id status "applicant_mismatch") :
      t.Honours event (.transition .rejected_unbound)
  | written {status : VerificationStatus} {r : SessionRecord} (hs : event.status = some status)
      (hr : r ∈ t.sessions.rows) (ha : r.providerApplicantId = some event.providerApplicantId)
      (h : t.OnRecord r status) (outcome : StatusWriteOutcome) :
      t.Honours event (.transition (.write outcome))

/-- A session that the event may be about is there. -/
def Tables.Knows (t : Tables) (event : WebhookEvent) : Prop :=
  ∃ r ∈ t.sessions.rows, r.Meant event

/-- What it means that an event about a known session was acknowledged. -/
def Tables.Applied (t : Tables) (event : WebhookEvent) (outcome : WebhookOutcome) : Prop :=
  ∀ status, event.status = some status → ∃ r ∈ t.sessions.rows, r.Meant event ∧
    t.OnRecord r status ∧ ∃ o, outcome = .transition (.write o)

/-- The tables evolve, fresh ids are fresh, and the trail replays. -/
def recorded (deps : VerificationServiceDeps) : Discipline World where
  Inv w := w.Fresh deps ∧ w.tables.Audited
  Le w w' := Evolves w.tables w'.tables
  refl _ := .refl
  trans := .trans

abbrev acknowledging (deps : VerificationServiceDeps) (event : WebhookEvent) (known : Prop) :
    Discipline World :=
  (recorded deps).restrict fun w => known → w.tables.Knows event

namespace Acknowledged

open Program
open Provenance (Read read_of_keeps read_of_mem)

variable {deps : VerificationServiceDeps} {event : WebhookEvent} {t t' : Tables} {w w' : World}
  {r r' session : SessionRecord} {status : VerificationStatus} {outcome : WebhookOutcome}
  {reason : String}

section Facts

theorem audit_subset (h : Evolves t t') : t.audit ⊆ t'.audit := by
  induction h with
  | refl => exact List.Subset.refl _
  | tail _ hc ih =>
    cases hc with
    | created | bound => exact ih
    | moved | noted => exact List.Subset.trans ih (List.subset_append_left _ _)

theorem refused_of_evolves (h : t.Refused r.id status reason) (he : Evolves t t')
    (hid : r'.id = r.id) : t'.Refused r'.id status reason := by
  obtain ⟨e, hm, hs, facts⟩ := h
  exact ⟨e, audit_subset he hm, hs.trans hid.symm, facts⟩

theorem onRecord_of_evolves (h : t.OnRecord r status) (he : Evolves t t') (kept : r.Keeps r') :
    t'.OnRecord r' status := by
  have hid : r'.id = r.id := SessionRecord.id_of_identity kept.identity
  rcases h with h | ⟨e, hm, hs⟩ | ⟨terminal, refused⟩
  · exact Or.inl h
  · refine Or.inr (Or.inl ⟨e, ?_, hs⟩)
    obtain ⟨hm, he'⟩ := List.mem_filter.mp hm
    rw [hid]
    exact List.mem_filter.mpr ⟨audit_subset he hm, he'⟩
  · exact Or.inr (Or.inr ⟨by rwa [kept.terminal terminal], refused_of_evolves refused he hid⟩)

theorem applicant_of_keeps {a : String} (ha : r.providerApplicantId = some a) (kept : r.Keeps r') :
    r'.providerApplicantId = some a :=
  (kept.applicant (by simp [ha])).trans ha

theorem meant_of_keeps (h : r.Meant event) (kept : r.Keeps r') : r'.Meant event where
  applicant := applicant_of_keeps h.applicant kept
  level level hl :=
    (SessionRecord.levelName_of_identity kept.identity).trans (h.level level hl)

/-- What an acknowledgement says stays true. -/
theorem honours_of_evolves (h : t.Honours event outcome) (he : Evolves t t') :
    t'.Honours event outcome := by
  cases h with
  | ignored h => exact .ignored h
  | unknown => exact .unknown
  | refused hs hr h =>
    obtain ⟨r', hr', kept⟩ := he.keeps _ hr
    exact .refused hs hr' (refused_of_evolves h he (SessionRecord.id_of_identity kept.identity))
  | written hs hr ha h outcome =>
    obtain ⟨r', hr', kept⟩ := he.keeps _ hr
    exact .written hs hr' (applicant_of_keeps ha kept) (onRecord_of_evolves h he kept) outcome

theorem applied_of_evolves (h : t.Applied event outcome) (he : Evolves t t') :
    t'.Applied event outcome := by
  intro status hs
  obtain ⟨r, hr, meant, onRecord, written⟩ := h status hs
  obtain ⟨r', hr', kept⟩ := he.keeps r hr
  exact ⟨r', hr', meant_of_keeps meant kept, onRecord_of_evolves onRecord he kept, written⟩

theorem knows_of_evolves (h : t.Knows event) (he : Evolves t t') : t'.Knows event := by
  obtain ⟨r, hr, meant⟩ := h
  obtain ⟨r', hr', kept⟩ := he.keeps r hr
  exact ⟨r', hr', meant_of_keeps meant kept⟩

theorem onRecord_of_status (ht : t.Audited) (hr : r ∈ t.sessions.rows) :
    t.OnRecord r r.status := by
  rcases (ht.replay r hr).exists_last with hs | ⟨_, e, hm, step⟩
  · exact Or.inl hs
  · exact Or.inr (Or.inl ⟨e, hm, step.status⟩)

theorem keptByCalls (deps : VerificationServiceDeps) : KeptByCalls deps (recorded deps) := by
  rintro o w ho ⟨hf, ha⟩
  obtain ⟨he, hf'⟩ := ho.advances hf
  exact ⟨⟨hf', he.audited ha⟩, he⟩

theorem known_keptByCalls (deps : VerificationServiceDeps) (event : WebhookEvent)
    (known : Prop) : KeptByCalls deps (acknowledging deps event known) :=
  (keptByCalls deps).restrict fun _ _ he h hk => knows_of_evolves (h hk) he

theorem knownSession_of_knows (hwf : event.levelName ≠ some "") (h : t.Knows event) :
    ∃ session ∈ t.sessions.rows, knownSession t event = some session ∧ session.Meant event := by
  obtain ⟨r, hr, meant⟩ := h
  cases hl : event.levelName with
  | none =>
    cases hk : knownSession t event with
    | none => exact absurd meant.applicant (knownSession_eq_none.mp hk r hr)
    | some session =>
      obtain ⟨hm, ha⟩ := knownSession_mem hk
      exact ⟨session, hm, rfl, ha, fun level h => by simp [hl] at h⟩
  | some level =>
    have named : level ≠ "" := fun h => hwf (h ▸ hl)
    obtain ⟨session, -, hk, hsl⟩ :=
      knownSession_onLevel hl named hr meant.applicant (meant.level level hl)
    obtain ⟨hm, ha⟩ := knownSession_mem hk
    refine ⟨session, hm, hk, ha, fun level' h => ?_⟩
    rwa [Option.some.inj (hl.symm.trans h)] at hsl

end Facts

section Write

variable {options : ApplyStatusTransitionOptions}

theorem mem_audit_of_writtenEntry {entry : AuditAction × AuditMetadata} {w' : World}
    {result : Except Thrown StatusTransition} (hget : w.tables.sessions.get r.id = some r)
    (hrun : (writeStatusBody r.id status .webhook options).run (execTx deps) w = (result, w'))
    (he : writtenEntry r status .webhook options = some entry) :
    ∃ e ∈ w'.tables.audit, e.sessionId = r.id ∧ e.action = entry.1 ∧ e.metadata = entry.2 := by
  obtain ⟨entryId, now, haudit⟩ := run_writeStatusBody_audit deps status .webhook options hget
  rw [hrun, he] at haudit
  have noted : (⟨entryId, r.id, entry.1, now, entry.2⟩ : AuditEntry) ∈ w'.tables.audit := by
    change w'.tables.audit = _ at haudit
    rw [haudit]
    exact List.mem_append_right _ List.mem_cons_self
  exact ⟨_, noted, rfl, rfl, rfl⟩

/-- What a write that the session accepts leaves on the record. -/
theorem onRecord_of_written {transition : StatusTransition} (ha : w.tables.Audited)
    (hget : w.tables.sessions.get r.id = some r)
    (hrun : (writeStatusBody r.id status .webhook options).run (execTx deps) w =
      (.ok transition, w'))
    (hw : Written w r status (truthy options.bindApplicantId) [] transition w')
    (hacc : r.AcceptsBinding (truthy options.bindApplicantId)) :
    w'.tables.OnRecord transition.session status := by
  have hrow : transition.session ∈ w'.tables.sessions.rows := Table.get_mem hw.get_self
  have hstatus : transition.session.status = r.status.write status := by
    rw [hw.status, if_pos hacc]
  by_cases hsame : r.status.write status = status
  · have := onRecord_of_status (hw.evolves.audited ha) hrow
    rwa [hstatus, hsame] at this
  · have terminal : r.status.Terminal :=
      not_not.mp fun h => hsame (VerificationStatus.write_of_not_terminal h)
    rw [VerificationStatus.write_of_terminal terminal] at hsame hstatus
    have hentry : writtenEntry r status .webhook options = some (.webhook_rejected,
        { status := some status
          previousStatus := some r.status
          source := some .webhook
          reason := some "terminal_status" }) := by
      simp [writtenEntry, if_pos hacc, updateEntry, StatusWriteOutcome.of, hsame, terminal]
    obtain ⟨e, hm, hid, hact, hmeta⟩ := mem_audit_of_writtenEntry hget hrun hentry
    refine Or.inr (Or.inr ⟨by rwa [hstatus], e, hm, hid.trans hw.id.symm, hact, ?_, ?_⟩)
    · rw [hmeta]
    · rw [hmeta]

/-- A write of an event's status puts it on the record, or notes that the session is another
applicant's. -/
theorem honours_write (hi : (recorded deps).Inv w) (hr : Read session w)
    (hs : event.status = some status)
    (ha : truthy options.bindApplicantId = some event.providerApplicantId ∨
      truthy options.bindApplicantId = none ∧
        session.providerApplicantId = some event.providerApplicantId) :
    ∃ transition w', (writeStatusBody session.id status .webhook options).run (execTx deps) w =
      (.ok transition, w') ∧ w'.tables.Honours event (.transition transition.outcome) ∧
      (session.Meant event → w'.tables.Applied event (.transition transition.outcome)) := by
  obtain ⟨r, hget, kept⟩ := hr
  obtain ⟨transition, w', hrun, hw⟩ :=
    run_writeStatusBody deps status .webhook options hget
  have hid : r.id = session.id := Table.get_key hget
  rw [← hid] at hget hrun ⊢
  have hrow : transition.session ∈ w'.tables.sessions.rows := Table.get_mem hw.get_self
  refine ⟨transition, w', hrun, ?_⟩
  by_cases hacc : r.AcceptsBinding (truthy options.bindApplicantId)
  · have onRecord := onRecord_of_written hi.2 hget hrun hw hacc
    have applicant : transition.session.providerApplicantId = some event.providerApplicantId := by
      rw [hw.applicant, if_pos hacc]
      rcases ha with ha | ⟨hb, ha⟩
      · rw [ha, Option.some_or]
      · rw [hb, Option.none_or, applicant_of_keeps ha kept]
    rw [hw.outcome, if_pos hacc]
    refine ⟨.written hs hrow applicant onRecord _, fun meant status' hs' => ?_⟩
    obtain rfl := Option.some.inj (hs.symm.trans hs')
    refine ⟨transition.session, hrow, ⟨applicant, fun level hl => ?_⟩, onRecord, _, rfl⟩
    exact (SessionRecord.levelName_of_identity (hw.identity.trans kept.identity)).trans
      (meant.level level hl)
  · have hbind : truthy options.bindApplicantId = some event.providerApplicantId :=
      ha.resolve_right fun h => hacc (by rw [h.1]; exact trivial)
    have hentry : writtenEntry r status .webhook options =
        some (mismatchEntry r.status status .webhook) := by
      rw [writtenEntry, if_neg hacc]
    obtain ⟨e, hm, hid', hact, hmeta⟩ := mem_audit_of_writtenEntry hget hrun hentry
    rw [hw.outcome, if_neg hacc]
    refine ⟨.refused hs hrow ⟨e, hm, hid'.trans hw.id.symm, ?_, ?_, ?_⟩, fun meant => ?_⟩
    · rw [hact, mismatchEntry]
    · rw [hmeta, mismatchEntry]
    · rw [hmeta, mismatchEntry]
    · refine absurd ?_ hacc
      rw [hbind]
      exact Or.inr (applicant_of_keeps meant.applicant kept)

end Write

section Programs

variable {known : Prop}

abbrev SafeWith (deps : VerificationServiceDeps) (event : WebhookEvent) (known : Prop) {α : Type}
    (Q : Except Thrown α → World → Prop) (p : Service α) (w : World) : Prop :=
  p.Safe (acknowledging deps event known) (exec deps) (fun _ _ => True) Q w

def Answers (event : WebhookEvent) (known : Prop) (r : Except Thrown WebhookOutcome)
    (w : World) : Prop :=
  ∀ outcome, r = .ok outcome → w.tables.Honours event outcome ∧
    (known → w.tables.Applied event outcome)

theorem safe_applyEvent (hi : (acknowledging deps event known).Inv w) (hr : Read session w)
    (hwf : event.WellFormed) (hs : event.status = some status) (needsBinding : Bool)
    (ha : needsBinding = false →
      session.providerApplicantId = some event.providerApplicantId)
    (meant : known → session.Meant event) :
    SafeWith deps event known (Answers event known)
      (applyEvent deps event status session needsBinding) w := by
  have kept := known_keptByCalls deps event known
  refine Safe.bind (Q := fun r w => ∀ transition, r = .ok transition →
    Answers event known (.ok (.transition transition.outcome)) w) ?_ hi
    (fun transition w' _ _ ht => safe_pure fun w'' hle _ outcome ho => ?_)
    fun e w' _ _ _ outcome ho => nomatch ho
  · refine Safe.bind (Q := fun r w => ∀ transition, r = .ok transition →
      Answers event known (.ok (.transition transition.outcome)) w) ?_ hi
      (fun transition w' _ hi' ht => ?_) fun e w' _ _ _ transition ht => nomatch ht
    · refine kept.safe_issued (.write ..) fun w' hle hi' w'' hle' _ transition ht outcome ho => ?_
      let options : ApplyStatusTransitionOptions :=
        { bindApplicantId := if needsBinding then some event.providerApplicantId else none
          rejectLabels := event.rejectLabels }
      have binding : truthy options.bindApplicantId = some event.providerApplicantId ∨
          truthy options.bindApplicantId = none ∧
            session.providerApplicantId = some event.providerApplicantId := by
        cases needsBinding with
        | true => exact Or.inl (truthy_eq_some.mpr ⟨rfl, hwf.applicant⟩)
        | false => exact Or.inr ⟨rfl, ha rfl⟩
      obtain ⟨transition', w₁, hrun, honours, applied⟩ :=
        honours_write hi'.1 (read_of_keeps hr hle.keeps) hs binding
      rw [exec, execTransaction, hrun] at ht hle'
      obtain rfl := Except.ok.inj ht
      obtain rfl := Except.ok.inj ho
      exact ⟨honours_of_evolves honours hle',
        fun hk => applied_of_evolves (applied (meant hk)) hle'⟩
    · refine Safe.bind (Q := Anyhow) (kept.safe_anyhow (uses_runEffects Issued.admits ..)) hi'
        (fun _ w'' hle _ _ => safe_pure fun w₃ hle' _ transition' ht' => ?_)
        fun e _ _ _ _ transition' ht' => nomatch ht'
      obtain rfl := Except.ok.inj ht'
      intro outcome ho
      obtain ⟨honours, applied⟩ := ht transition rfl outcome ho
      have he : Evolves w'.tables w₃.tables := hle.trans hle'
      exact ⟨honours_of_evolves honours he, fun hk => applied_of_evolves (applied hk) he⟩
  · obtain ⟨honours, applied⟩ := ht transition rfl outcome ho
    exact ⟨honours_of_evolves honours hle, fun hk => applied_of_evolves (applied hk) hle⟩

/-- The handling of an event ends as its acknowledgement says. -/
theorem safe_handleWebhookEvent (hi : (acknowledging deps event known).Inv w)
    (hwf : event.WellFormed) :
    SafeWith deps event known (Answers event known) (handleWebhookEvent deps event) w := by
  have kept := known_keptByCalls deps event known
  unfold handleWebhookEvent
  cases hs : event.status with
  | none =>
    refine safe_pure fun _ _ _ outcome ho => ?_
    obtain rfl := Except.ok.inj ho
    exact ⟨.ignored hs, fun _ status h => by simp [hs] at h⟩
  | some status =>
    refine Safe.bind (Q := fun r w => ∀ found, r = .ok found →
      (∀ session, found = some session → Read session w ∧
        session.providerApplicantId = some event.providerApplicantId) ∧
      (known → ∃ session, found = some session ∧ session.Meant event)) ?_ hi
      (fun found w₁ _ hi₁ hf => ?_) fun e _ _ _ _ outcome ho => by cases ho
    · refine kept.safe_store (o := .getSessionByProviderApplicantId ..) trivial
        fun w' _ hi' w'' hle _ found hok => ?_
      obtain rfl : knownSession w'.tables event = found := Except.ok.inj hok
      refine ⟨fun session hsession => ?_, fun hk => ?_⟩
      · obtain ⟨hm, ha⟩ := knownSession_mem hsession
        exact ⟨read_of_mem hm hle.keeps, ha⟩
      · obtain ⟨session, -, hsession, meant⟩ := knownSession_of_knows hwf.level (hi'.2 hk)
        exact ⟨session, hsession, meant⟩
    · obtain ⟨own, meant⟩ := hf found rfl
      refine Safe.bind (Q := fun r w => ∀ unbound, r = .ok unbound →
        (∀ session, unbound = some session → Read session w) ∧ (known → unbound = none)) ?_ hi₁
        (fun unbound w₂ hle hi₂ hu => ?_) fun e _ _ _ _ outcome ho => by cases ho
      · unfold unboundFor
        split
        · split_ifs with wanted
          · have unknown : ¬ known := by
              intro hk
              obtain ⟨session, rfl, hm⟩ := meant hk
              rcases wanted with h | h
              · cases h
              · cases hl : event.levelName with
                | none => simp [onAnotherLevel, hl] at h
                | some level => exact (onAnotherLevel_some hl).mp h (hm.level level hl)
            refine kept.safe_store (o := .getLatestUnboundSessionForUser ..) trivial
              fun w' _ _ w'' hle _ found' hok => ⟨fun session hsession => ?_, fun hk => ?_⟩
            · subst hsession
              have hn := Except.ok.inj hok
              rw [MemoryStore.getLatestUnboundSessionForUser_eq] at hn
              exact read_of_mem (newest_mem hn) hle.keeps
            · exact absurd hk unknown
          · exact safe_pure fun _ _ _ unbound hok => by cases hok; simp
        · exact safe_pure fun _ _ _ unbound hok => by cases hok; simp
      · obtain ⟨read, none_of_known⟩ := hu unbound rfl
        cases unbound with
        | some unbound =>
          refine safe_applyEvent hi₂ (read unbound rfl) hwf hs true (fun h => by cases h)
            fun hk => by simpa using none_of_known hk
        | none =>
          cases found with
          | some session =>
            obtain ⟨hr, ha⟩ := own session rfl
            refine safe_applyEvent hi₂ (read_of_keeps hr hle.keeps) hwf hs false (fun _ => ha)
              fun hk => ?_
            obtain ⟨session, heq, hm⟩ := meant hk
            obtain rfl := Option.some.inj heq
            exact hm
          | none =>
            refine safe_pure fun _ _ _ outcome ho => ?_
            obtain rfl := Except.ok.inj ho
            refine ⟨.unknown, fun hk => ?_⟩
            obtain ⟨session, heq, -⟩ := meant hk
            cases heq

end Programs

end Acknowledged

end Kyc
