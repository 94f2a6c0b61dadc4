import Kyc.Store.Writes
import Kyc.Tables.Replay
import Mathlib.Logic.Relation

/-! # How the tables evolve

Every commit of the service is made of four elementary changes: a new unbound
session, a guarded binding, a status moved together with its audit entry, and any
other audit entry. Two facts follow for every sequence of them: sessions keep
what identifies them, and the trail of status entries replays to the stored status.
-/

namespace Kyc

/-- The entry records the move of a session to another status. -/
structure AuditEntry.Records (e : AuditEntry) (r : SessionRecord) (status : VerificationStatus) :
    Prop where
  sessionId : e.sessionId = r.id
  action : e.action = .status_updated
  status : e.metadata.status = some status
  previousStatus : e.metadata.previousStatus = some r.status

/-- One elementary change of the tables. -/
inductive Change : Tables → Tables → Prop
  | created {t : Tables} {r : SessionRecord} (hn : t.sessions.get r.id = none)
      (hs : r.status = .initial) (ha : r.providerApplicantId = none) :
      Change t (t.setSession r)
  | bound {t : Tables} {r : SessionRecord} (hr : t.sessions.get r.id = some r) (now : ℤ)
      (applicantId : String) : Change t (t.setSession (r.withApplicant now applicantId))
  | moved {t : Tables} {r : SessionRecord} {e : AuditEntry} {status : VerificationStatus}
      (hr : t.sessions.get r.id = some r) (now : ℤ) (hw : r.status.write status ≠ r.status)
      (he : e.Records r status) :
      Change t ((t.setSession (r.withStatus now status)).addAudit e)
  | noted {t : Tables} {e : AuditEntry} (he : e.action ≠ .status_updated) :
      Change t (t.addAudit e)

/-- Any number of elementary changes. -/
abbrev Evolves : Tables → Tables → Prop := Relation.ReflTransGen Change

/-- What no change takes back: a session's identity, its applicant, its terminal status. -/
structure SessionRecord.Keeps (r r' : SessionRecord) : Prop where
  identity : r'.identity = r.identity
  applicant : r.providerApplicantId ≠ none → r'.providerApplicantId = r.providerApplicantId
  terminal : r.status.Terminal → r'.status = r.status

/-- Every session is still there, with what it must keep. -/
def Tables.Keeps (t t' : Tables) : Prop :=
  ∀ r ∈ t.sessions.rows, ∃ r' ∈ t'.sessions.rows, r.Keeps r'

namespace SessionRecord

variable {r r' r'' : SessionRecord} {now : ℤ} {status : VerificationStatus} {applicantId : String}

theorem Keeps.refl (r : SessionRecord) : r.Keeps r := ⟨rfl, fun _ => rfl, fun _ => rfl⟩

theorem Keeps.trans (h : r.Keeps r') (h' : r'.Keeps r'') : r.Keeps r'' where
  identity := h'.identity.trans h.identity
  applicant ha := by
    have he := h.applicant ha
    rw [← he]
    exact h'.applicant (by rwa [he])
  terminal ht := by
    have he := h.terminal ht
    rw [← he]
    exact h'.terminal (by rwa [he])

theorem keeps_withStatus : r.Keeps (r.withStatus now status) where
  identity := identity_withStatus ..
  applicant _ := applicant_withStatus ..
  terminal ht := by rw [status_withStatus, VerificationStatus.write_of_terminal ht]

theorem keeps_withApplicant : r.Keeps (r.withApplicant now applicantId) where
  identity := identity_withApplicant ..
  applicant ha := by
    rw [applicant_withApplicant]
    split
    next hb => exact (hb.resolve_left ha).symm
    next => rfl
  terminal _ := status_withApplicant ..

end SessionRecord

namespace Tables

variable {t t' t'' : Tables} {r r' : SessionRecord}

theorem Keeps.refl (t : Tables) : t.Keeps t := fun r hr => ⟨r, hr, .refl r⟩

theorem Keeps.trans (h : t.Keeps t') (h' : t'.Keeps t'') : t.Keeps t'' := by
  intro r hr
  obtain ⟨r', hr', hk⟩ := h r hr
  obtain ⟨r'', hr'', hk'⟩ := h' r' hr'
  exact ⟨r'', hr'', hk.trans hk'⟩

theorem keeps_setSession (hr : t.sessions.get r.id = some r) (hk : r.Keeps r') :
    t.Keeps (t.setSession r') := by
  intro s hs
  have hid : r'.id = r.id := SessionRecord.id_of_identity hk.identity
  by_cases hsr : s.id = r.id
  · obtain rfl := t.sessions.key_injOn hs (Table.get_mem hr) hsr
    exact ⟨r', Table.get_mem (Table.get_set_self t.sessions r'), hk⟩
  · refine ⟨s, Table.get_mem (k := s.id) ?_, .refl s⟩
    rw [sessions_setSession, Table.get_set_of_ne (by rwa [hid]), Table.get_of_mem hs]

end Tables

theorem Change.keeps {t t' : Tables} (h : Change t t') : t.Keeps t' := by
  cases h with
  | @created r hn _ _ =>
    intro s hs
    refine ⟨s, ?_, .refl s⟩
    rw [Tables.sessions_setSession, Table.rows_set_new hn]
    exact List.mem_append_left _ hs
  | bound hr now a => exact Tables.keeps_setSession hr SessionRecord.keeps_withApplicant
  | moved hr now _ _ => exact Tables.keeps_setSession hr SessionRecord.keeps_withStatus
  | noted _ => exact .refl t

theorem Evolves.keeps {t t' : Tables} (h : Evolves t t') : t.Keeps t' := by
  induction h with
  | refl => exact .refl t
  | tail _ hc ih => exact ih.trans hc.keeps

/-- The status entries of a session, oldest first. -/
def statusTrail (t : Tables) (id : String) : List AuditEntry :=
  t.audit.filter fun e => e.sessionId = id ∧ e.action = .status_updated

theorem statusTrail_eq_listAuditEntries (t : Tables) (id : String) :
    statusTrail t id =
      (MemoryStore.listAuditEntries t id).reverse.filter (·.action = .status_updated) := by
  rw [MemoryStore.listAuditEntries, List.reverse_reverse, List.filter_filter, statusTrail]
  apply List.filter_congr
  intro e _
  rw [Bool.decide_and]
  exact Bool.and_comm _ _

/-- An audit entry moves a session from one status to another, never out of a terminal one. -/
structure AuditedStep (s : VerificationStatus) (e : AuditEntry) (s' : VerificationStatus) :
    Prop where
  previousStatus : e.metadata.previousStatus = some s
  status : e.metadata.status = some s'
  changes : s' ≠ s
  notTerminal : ¬ s.Terminal

/-- Every session's trail replays from `initial` to its stored status, and every status entry is
about a stored session. -/
structure Tables.Audited (t : Tables) : Prop where
  replay : ∀ r ∈ t.sessions.rows, Replay AuditedStep .initial (statusTrail t r.id) r.status
  stored : ∀ e ∈ t.audit, e.action = .status_updated → ∃ r ∈ t.sessions.rows, r.id = e.sessionId

theorem Tables.audited_empty : Tables.empty.Audited :=
  ⟨by simp [Tables.empty], by simp [Tables.empty]⟩

namespace Tables

variable {t : Tables} {r r' : SessionRecord} {e : AuditEntry}

theorem statusTrail_setSession (r : SessionRecord) (id : String) :
    statusTrail (t.setSession r) id = statusTrail t id := rfl

theorem statusTrail_addAudit_of_ne {id : String}
    (h : ¬ (e.sessionId = id ∧ e.action = .status_updated)) :
    statusTrail (t.addAudit e) id = statusTrail t id := by
  simp [statusTrail, List.filter_append, h]

theorem statusTrail_addAudit {id : String} (hs : e.sessionId = id)
    (ha : e.action = .status_updated) :
    statusTrail (t.addAudit e) id = statusTrail t id ++ [e] := by
  simp [statusTrail, List.filter_append, hs, ha]

theorem exists_id_setSession {id : String} (h : ∃ s ∈ t.sessions.rows, s.id = id) :
    ∃ s ∈ (t.setSession r).sessions.rows, s.id = id := by
  obtain ⟨s, hs, rfl⟩ := h
  by_cases hsr : s.id = r.id
  · exact ⟨r, Table.get_mem (Table.get_set_self t.sessions r), hsr.symm⟩
  · refine ⟨s, Table.get_mem (k := s.id) ?_, rfl⟩
    rw [sessions_setSession, Table.get_set_of_ne hsr, Table.get_of_mem hs]

theorem mem_rows_setSession {s : SessionRecord} (h : s ∈ (t.setSession r).sessions.rows) :
    s = r ∨ s ∈ t.sessions.rows ∧ s.id ≠ r.id := by
  have hg := Table.get_of_mem h
  rw [sessions_setSession, Table.get_set] at hg
  split at hg
  next => exact Or.inl (Option.some.inj hg).symm
  next hne => exact Or.inr ⟨Table.get_mem hg, hne⟩

theorem Audited.statusTrail_eq_nil (ht : t.Audited) {id : String} (hn : t.sessions.get id = none) :
    statusTrail t id = [] := by
  apply List.filter_eq_nil_iff.mpr
  intro e he
  simp only [decide_eq_true_eq, not_and]
  intro hid ha
  obtain ⟨q, hq, hqe⟩ := ht.stored e he ha
  exact Table.get_eq_none.mp hn q hq (hqe.trans hid)

end Tables

open Tables in
theorem Change.audited {t t' : Tables} (h : Change t t') (ht : t.Audited) : t'.Audited := by
  cases h with
  | @created r hn hs _ =>
    constructor
    · intro s hs'
      rw [statusTrail_setSession]
      rcases mem_rows_setSession hs' with rfl | ⟨hm, -⟩
      · rw [ht.statusTrail_eq_nil hn, hs]
        exact .nil _
      · exact ht.replay s hm
    · intro e he ha
      exact exists_id_setSession (ht.stored e he ha)
  | @bound r hr now a =>
    constructor
    · intro s hs
      rw [statusTrail_setSession]
      rcases mem_rows_setSession hs with rfl | ⟨hm, -⟩
      · rw [SessionRecord.id_withApplicant, SessionRecord.status_withApplicant]
        exact ht.replay r (Table.get_mem hr)
      · exact ht.replay s hm
    · intro e he ha
      exact exists_id_setSession (ht.stored e he ha)
  | @moved r e status hr now hw he =>
    obtain ⟨hnt, hne⟩ := VerificationStatus.write_ne_self_iff.mp hw
    constructor
    · intro s hs
      rcases mem_rows_setSession hs with rfl | ⟨hm, hid⟩
      · have own : e.sessionId = (r.withStatus now status).id := by
          rw [SessionRecord.id_withStatus]
          exact he.sessionId
        rw [statusTrail_addAudit own he.action,
          statusTrail_setSession, SessionRecord.id_withStatus, SessionRecord.status_withStatus,
          VerificationStatus.write_of_not_terminal hnt]
        exact (ht.replay r (Table.get_mem hr)).snoc ⟨he.previousStatus, he.status, hne, hnt⟩
      · rw [SessionRecord.id_withStatus] at hid
        rw [statusTrail_addAudit_of_ne fun h => hid (h.1.symm.trans he.sessionId),
          statusTrail_setSession]
        exact ht.replay s hm
    · intro e' he' ha
      rcases List.mem_append.mp he' with he' | he'
      · exact exists_id_setSession (ht.stored e' he' ha)
      · obtain rfl := List.mem_singleton.mp he'
        exact exists_id_setSession ⟨r, Table.get_mem hr, he.sessionId.symm⟩
  | @noted e he =>
    constructor
    · intro s hs
      rw [statusTrail_addAudit_of_ne fun h => he h.2]
      exact ht.replay s hs
    · intro e' he' ha
      rcases List.mem_append.mp he' with he' | he'
      · exact ht.stored e' he' ha
      · obtain rfl := List.mem_singleton.mp he'
        exact absurd ha he

theorem Evolves.audited {t t' : Tables} (h : Evolves t t') (ht : t.Audited) : t'.Audited := by
  induction h with
  | refl => exact ht
  | tail _ hc ih => exact hc.audited ih

end Kyc
