import Kyc.Store.Memory

/-! # What a write does to a session

The conditional status write and the guarded binding, seen on the one row they
touch. Neither changes who a session belongs to, and both keep every other row.
-/

namespace Kyc

/-- What a session keeps for its whole life. -/
structure SessionIdentity where
  id : String
  userId : String
  provider : String
  platform : VerificationPlatform
  levelName : Option String
  locale : Option String
  createdAt : ℤ
  deriving DecidableEq, Repr

/-- The status a session holds once `new` was written over `old`. -/
def VerificationStatus.write (old new : VerificationStatus) : VerificationStatus :=
  if old.Terminal then old else new

/-- How the conditional write of `new` over `old` ends. -/
def StatusWriteOutcome.of (old new : VerificationStatus) : StatusWriteOutcome :=
  if old = new then .unchanged else if old.Terminal then .rejected_terminal else .updated

namespace VerificationStatus

variable {old new : VerificationStatus}

theorem write_of_terminal (h : old.Terminal) : old.write new = old := if_pos h

theorem write_of_not_terminal (h : ¬ old.Terminal) : old.write new = new := if_neg h

@[simp] theorem write_self (s : VerificationStatus) : s.write s = s := by simp [write]

theorem write_ne_self_iff : old.write new ≠ old ↔ ¬ old.Terminal ∧ new ≠ old := by
  unfold write; split <;> simp_all

end VerificationStatus

theorem StatusWriteOutcome.of_eq_updated_iff {old new : VerificationStatus} :
    StatusWriteOutcome.of old new = .updated ↔ old.write new ≠ old := by
  rw [VerificationStatus.write_ne_self_iff]
  unfold StatusWriteOutcome.of
  split_ifs with h h' <;> simp_all [eq_comm]

namespace SessionRecord

def identity (r : SessionRecord) : SessionIdentity :=
  ⟨r.id, r.userId, r.provider, r.platform, r.levelName, r.locale, r.createdAt⟩

def withStatus (now : ℤ) (status : VerificationStatus) (r : SessionRecord) : SessionRecord :=
  if r.status = status ∨ r.status.Terminal then r else { r with status, updatedAt := now }

def withApplicant (now : ℤ) (applicantId : String) (r : SessionRecord) : SessionRecord :=
  if r.providerApplicantId ≠ none ∧ r.providerApplicantId ≠ some applicantId then r
  else { r with providerApplicantId := some applicantId, updatedAt := now }

/-- An applicant may be bound to the session: it has none, or this one. -/
def Accepts (applicantId : String) (r : SessionRecord) : Prop :=
  r.providerApplicantId = none ∨ r.providerApplicantId = some applicantId

instance (applicantId : String) (r : SessionRecord) : Decidable (r.Accepts applicantId) :=
  inferInstanceAs (Decidable (_ ∨ _))

/-- The binding that a write asks for, if any, may be made. -/
def AcceptsBinding : Option String → SessionRecord → Prop
  | some applicantId, r => r.Accepts applicantId
  | none, _ => True

instance : (binding : Option String) → (r : SessionRecord) → Decidable (r.AcceptsBinding binding)
  | some applicantId, r => inferInstanceAs (Decidable (r.Accepts applicantId))
  | none, _ => isTrue trivial

def standing (r : SessionRecord) : VerificationStatus × Option String :=
  (r.status, r.providerApplicantId)

/-- A write of `new` that asks for a binding leaves the row as it stands. -/
def Stands (new : VerificationStatus) (binding : Option String) (r : SessionRecord) : Prop :=
  r.AcceptsBinding binding →
    (r.status.Terminal ∨ r.status = new) ∧ ∀ a ∈ binding, r.providerApplicantId = some a

variable (now : ℤ) (status : VerificationStatus) (applicantId : String) (r : SessionRecord)

@[simp] theorem identity_withStatus : (r.withStatus now status).identity = r.identity := by
  unfold withStatus; split <;> rfl

@[simp] theorem identity_withApplicant :
    (r.withApplicant now applicantId).identity = r.identity := by
  unfold withApplicant; split <;> rfl

@[simp] theorem status_withStatus : (r.withStatus now status).status = r.status.write status := by
  unfold withStatus VerificationStatus.write
  split_ifs <;> simp_all

@[simp] theorem status_withApplicant : (r.withApplicant now applicantId).status = r.status := by
  unfold withApplicant; split <;> rfl

@[simp] theorem applicant_withStatus :
    (r.withStatus now status).providerApplicantId = r.providerApplicantId := by
  unfold withStatus; split <;> rfl

variable {now status r} in
theorem withStatus_of_write_eq (h : r.status.write status = r.status) :
    r.withStatus now status = r := by
  unfold withStatus
  split
  next => rfl
  next hn =>
    obtain ⟨hne, hnt⟩ := not_or.mp hn
    rw [VerificationStatus.write_of_not_terminal hnt] at h
    exact absurd h.symm hne

variable {now applicantId r} in
theorem withApplicant_of_not_accepts (h : ¬ r.Accepts applicantId) :
    r.withApplicant now applicantId = r := by
  unfold withApplicant
  rw [if_pos (not_or.mp h)]

theorem applicant_withApplicant : (r.withApplicant now applicantId).providerApplicantId =
    if r.Accepts applicantId then some applicantId else r.providerApplicantId := by
  unfold withApplicant Accepts
  split_ifs <;> simp_all

variable {r} {s : SessionRecord}

theorem id_of_identity (h : s.identity = r.identity) : s.id = r.id :=
  congrArg SessionIdentity.id h

theorem userId_of_identity (h : s.identity = r.identity) : s.userId = r.userId :=
  congrArg SessionIdentity.userId h

theorem levelName_of_identity (h : s.identity = r.identity) : s.levelName = r.levelName :=
  congrArg SessionIdentity.levelName h

theorem createdAt_of_identity (h : s.identity = r.identity) : s.createdAt = r.createdAt :=
  congrArg SessionIdentity.createdAt h

@[simp] theorem id_withStatus : (r.withStatus now status).id = r.id :=
  id_of_identity (identity_withStatus ..)

@[simp] theorem id_withApplicant : (r.withApplicant now applicantId).id = r.id :=
  id_of_identity (identity_withApplicant ..)

end SessionRecord

theorem newestSession_set {rows : Table SessionRecord.id} {r r' : SessionRecord}
    (hr : rows.get r.id = some r) (hid : r'.identity = r.identity) (p : SessionRecord → Bool) :
    newestSession p (rows.set r').rows =
      (newestSession (fun s => if s.id = r.id then p r' else p s) rows.rows).map
        fun s => if s.id = r.id then r' else s := by
  have hk : r'.id = r.id := SessionRecord.id_of_identity hid
  have hrows : (rows.set r').rows = rows.rows.map fun s => if s.id = r.id then r' else s := by
    rw [Table.rows_set_old (by rw [hk]; exact hr), Table.replace]
    simp only [hk]
  rw [hrows, newestSession, newest_map]
  · congr 1
    apply newest_congr
    intro s _
    split <;> rfl
  · intro s hs
    split
    next hsr =>
      obtain rfl := rows.key_injOn hs (Table.get_mem hr) hsr
      exact SessionRecord.createdAt_of_identity hid
    next => rfl

def Tables.standing (t : Tables) (id : String) : Option (VerificationStatus × Option String) :=
  (t.sessions.get id).map SessionRecord.standing

theorem Tables.standing_of_get {t : Tables} {id : String} {r : SessionRecord}
    (h : t.sessions.get id = some r) : t.standing id = some r.standing := by
  rw [standing, h]; rfl

namespace MemoryStore

variable {now : ℤ} {t : Tables} {id : String} {r : SessionRecord}

theorem require_of_get (h : t.sessions.get id = some r) : require t id = .ok r := by
  simp [require, h]

theorem require_of_get_none (h : t.sessions.get id = none) :
    require t id = .error (plainError ("Verification session not found: " ++ id)) := by
  simp [require, h]

theorem updateSessionStatus_of_get (h : t.sessions.get id = some r)
    (status : VerificationStatus) :
    updateSessionStatus now t id status =
      .ok (⟨.of r.status status, r.status, r.withStatus now status⟩,
        t.setSession (r.withStatus now status)) := by
  have hk := Table.get_key h
  have hself : t.setSession r = t := by
    simp [Tables.setSession, Table.set_of_get (hk ▸ h)]
  unfold updateSessionStatus SessionRecord.withStatus StatusWriteOutcome.of
  rw [require_of_get h]
  by_cases hs : r.status = status
  · simp [hs, hself]
  · by_cases ht : r.status.Terminal <;> simp [hs, ht, hself]

theorem bindApplicantId_of_get (h : t.sessions.get id = some r) (applicantId : String) :
    bindApplicantId now t id applicantId =
      .ok (r.withApplicant now applicantId, t.setSession (r.withApplicant now applicantId)) := by
  have hk := Table.get_key h
  have hself : t.setSession r = t := by
    simp [Tables.setSession, Table.set_of_get (hk ▸ h)]
  unfold bindApplicantId SessionRecord.withApplicant
  rw [require_of_get h]
  split_ifs with hb <;> simp [hb, hself]

theorem getSessionByIdForUser_eq_some {userId : String} :
    getSessionByIdForUser t id userId = some r ↔
      t.sessions.get id = some r ∧ r.userId = userId := by
  unfold getSessionByIdForUser
  cases t.sessions.get id with
  | none => simp
  | some s =>
    by_cases hs : s.userId = userId
    · simp +contextual [hs, eq_comm]
    · simp only [hs, if_false, Option.some.injEq, reduceCtorEq, false_iff, not_and]
      rintro rfl
      exact hs

theorem getLatestUnboundSessionForUser_eq (userId provider : String) :
    getLatestUnboundSessionForUser t userId provider =
      newestSession (·.unboundOf userId provider) t.sessions.rows :=
  head?_newestFirst_filter _ _

theorem getLatestSessionForUser_eq (userId provider : String) :
    getLatestSessionForUser t userId provider =
      newestSession (·.ofUser userId provider) t.sessions.rows :=
  head?_newestFirst_filter _ _

theorem getSessionByProviderApplicantId_mem {applicantId : String}
    {options : ApplicantLookupOptions}
    (h : getSessionByProviderApplicantId t applicantId options = some r) :
    r ∈ t.sessions.rows ∧ r.providerApplicantId = some applicantId := by
  rw [getSessionByProviderApplicantId, pickSessionForApplicant_filter, Option.or_eq_some_iff,
    Option.or_eq_some_iff] at h
  rcases h with (h | ⟨-, h⟩) | ⟨-, h⟩
  · split at h
    · exact ⟨newest_mem h, (SessionRecord.boundOn_iff.mp (newest_prop h)).1⟩
    · cases h
  · exact ⟨newest_mem h, (SessionRecord.inProgressOf_iff.mp (newest_prop h)).1⟩
  · exact ⟨newest_mem h, SessionRecord.boundTo_iff.mp (newest_prop h)⟩

end MemoryStore

end Kyc
