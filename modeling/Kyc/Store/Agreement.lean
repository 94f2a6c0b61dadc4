import Kyc.Store.Knex
import Kyc.Store.Changes
import Mathlib.Data.Int.ConditionallyCompleteOrder
import Mathlib.Order.ConditionallyCompleteLattice.Basic

/-! # The two stores agree

Operation by operation the Knex store answers what the in-memory store answers, and
holds the same rows in some order. The clock tells rows apart: no two sessions are of
one time, and the audit trail is in the order of its times.
-/

namespace Kyc

variable {server : Server Thrown} {clock : ℕ → ℤ}

/-- The rows are the same, and their times are earlier readings of the clock, each of another. -/
structure Agrees (clock : ℕ → ℤ) (memory : Tables × ℕ) (knex : Database × ℕ) : Prop where
  sessions : knex.1.sessions.rows.Perm memory.1.sessions.rows
  audit : knex.1.auditLog.rows.Perm memory.1.audit
  ticks : knex.2 = memory.2
  created : ∀ r ∈ memory.1.sessions.rows, ∃ n < memory.2, r.createdAt = clock n
  distinct : ∀ r ∈ memory.1.sessions.rows, ∀ s ∈ memory.1.sessions.rows,
    r.createdAt = s.createdAt → r = s
  logged : ∀ e ∈ memory.1.audit, ∃ n < memory.2, e.timestamp = clock n
  ordered : memory.1.audit.Pairwise fun e e' => e.timestamp < e'.timestamp

/-- Session ids are fresh, and audit entries are about existing sessions. -/
def StoreOp.Proper (t : Tables) : StoreOp → Prop
  | createSession data => t.sessions.get data.id = none
  | appendAuditEntry entry => (t.sessions.get entry.sessionId).isSome
  | _ => True

def StoreOp.FreshEntry (t : Tables) : StoreOp → Prop
  | appendAuditEntry entry => ∀ e ∈ t.audit, e.id ≠ entry.id
  | _ => True

section Operations

variable {t : Tables} {db db' : Database} {n : ℕ} {rows : Table SessionRecord.id} {now : ℤ}

theorem agrees_empty : Agrees clock (Tables.empty, 0) (Database.empty, 0) where
  sessions := .nil
  audit := .nil
  ticks := rfl
  created := by simp [Tables.empty]
  distinct := by simp [Tables.empty]
  logged := by simp [Tables.empty]
  ordered := .nil

variable (server) in
theorem Agrees.statement (h : Agrees clock (t, n) (db, n)) :
    Agrees clock (t, n) (db.statement server, n) :=
  { h with
    sessions := (Table.visit_perm server db.statements db.sessions).trans h.sessions
    audit := (Table.visit_perm server db.statements db.auditLog).trans h.audit }

theorem Agrees.tick (h : Agrees clock (t, n) (db, n)) : Agrees clock (t, n + 1) (db, n + 1) where
  sessions := h.sessions
  audit := h.audit
  ticks := rfl
  created r hr := by
    obtain ⟨m, hm, hr⟩ := h.created r hr
    exact ⟨m, Nat.lt_succ_of_lt hm, hr⟩
  distinct := h.distinct
  logged e he := by
    obtain ⟨m, hm, he⟩ := h.logged e he
    exact ⟨m, Nat.lt_succ_of_lt hm, he⟩
  ordered := h.ordered

theorem Agrees.get (h : Agrees clock (t, n) (db, n)) (id : String) :
    db.sessions.get id = t.sessions.get id :=
  Table.get_of_perm h.sessions id

/-- Both stores rewrite one row and keep when it was created. -/
theorem Agrees.rewrite (h : Agrees clock (t, n) (db, n)) {r r' : SessionRecord}
    (hr : t.sessions.get r.id = some r) (hid : r'.identity = r.identity) :
    Agrees clock (t.setSession r', n) ({ db with sessions := db.sessions.set r' }, n) := by
  have hk : r'.id = r.id := SessionRecord.id_of_identity hid
  have hc : r'.createdAt = r.createdAt := SessionRecord.createdAt_of_identity hid
  have hold : ∀ s ∈ (t.setSession r').sessions.rows,
      ∃ s₀ ∈ t.sessions.rows, s₀.createdAt = s.createdAt ∧ (s = r' ∧ s₀ = r ∨ s = s₀ ∧ s₀ ≠ r) := by
    intro s hs
    rcases Tables.mem_rows_setSession hs with rfl | ⟨hs, hne⟩
    · exact ⟨r, Table.get_mem hr, hc.symm, Or.inl ⟨rfl, rfl⟩⟩
    · refine ⟨s, hs, rfl, Or.inr ⟨rfl, ?_⟩⟩
      rintro rfl
      exact hne hk.symm
  exact
    { sessions := Table.set_perm h.sessions r'
      audit := h.audit
      ticks := rfl
      created := by
        intro s hs
        obtain ⟨s₀, hs₀, he, -⟩ := hold s hs
        rw [← he]
        exact h.created s₀ hs₀
      distinct := by
        intro a ha b hb hab
        obtain ⟨a₀, ha₀, hea, ha'⟩ := hold a ha
        obtain ⟨b₀, hb₀, heb, hb'⟩ := hold b hb
        have h₀ : a₀ = b₀ := h.distinct a₀ ha₀ b₀ hb₀ (hea.trans (hab.trans heb.symm))
        rcases ha' with ⟨rfl, rfl⟩ | ⟨rfl, hne⟩ <;> rcases hb' with ⟨rfl, rfl⟩ | ⟨rfl, hne'⟩
        · rfl
        · exact absurd h₀.symm hne'
        · exact absurd h₀ hne
        · exact h₀
      logged := h.logged
      ordered := h.ordered }

/-- A new session, created at the current time. -/
theorem Agrees.create (h : Agrees clock (t, n) (db, n)) (hc : StrictMono clock) {r : SessionRecord}
    (hr : t.sessions.get r.id = none) (hnow : r.createdAt = clock n) :
    Agrees clock (t.setSession r, n + 1) ({ db with sessions := db.sessions.set r }, n + 1) := by
  have hrows : (t.setSession r).sessions.rows = t.sessions.rows ++ [r] := Table.rows_set_new hr
  have hne : ∀ s ∈ t.sessions.rows, s.createdAt ≠ r.createdAt := by
    intro s hs
    obtain ⟨m, hm, he⟩ := h.created s hs
    rw [he, hnow]
    exact (hc hm).ne
  exact
    { h.tick with
      sessions := Table.set_perm h.sessions r
      created := by
        intro s hs
        rw [hrows] at hs
        rcases List.mem_append.mp hs with hs | hs
        · exact h.tick.created s hs
        · rw [List.mem_singleton.mp hs]
          exact ⟨n, Nat.lt_succ_self n, hnow⟩
      distinct := by
        intro a ha b hb hab
        rw [hrows] at ha hb
        rcases List.mem_append.mp ha with ha | ha <;> rcases List.mem_append.mp hb with hb | hb
        · exact h.distinct a ha b hb hab
        · rw [List.mem_singleton.mp hb] at hab
          exact absurd hab (hne a ha)
        · rw [List.mem_singleton.mp ha] at hab
          exact absurd hab.symm (hne b hb)
        · rw [List.mem_singleton.mp ha, List.mem_singleton.mp hb] }

theorem Agrees.append (h : Agrees clock (t, n) (db, n)) (hc : StrictMono clock) {e : AuditEntry}
    (he : db.auditLog.get e.id = none) (hnow : e.timestamp = clock n) :
    Agrees clock (t.addAudit e, n + 1) ({ db with auditLog := db.auditLog.set e }, n + 1) := by
  exact
    { h.tick with
      audit := by
        rw [Table.rows_set_new he]
        exact h.audit.append_right [e]
      logged := by
        intro e' he'
        rcases List.mem_append.mp he' with he' | he'
        · exact h.tick.logged e' he'
        · rw [List.mem_singleton.mp he']
          exact ⟨n, Nat.lt_succ_self n, hnow⟩
      ordered := by
        apply List.pairwise_append.mpr
        refine ⟨h.ordered, List.pairwise_singleton _ _, ?_⟩
        intro e' he' e'' he''
        obtain ⟨m, hm, hlt⟩ := h.logged e' he'
        rw [List.mem_singleton.mp he'', hlt, hnow]
        exact hc hm }

theorem Agrees.newestFirst (h : Agrees clock (t, n) (db, n)) (p : SessionRecord → Bool) :
    newestFirst SessionRecord.createdAt (db.sessions.rows.filter p) =
      newestFirst SessionRecord.createdAt (t.sessions.rows.filter p) := by
  apply newestFirst_perm (h.sessions.filter p)
  intro a ha b hb hab
  exact h.distinct a (List.mem_of_mem_filter ha) b (List.mem_of_mem_filter hb) hab

theorem Agrees.listAuditEntries (h : Agrees clock (t, n) (db, n)) (sessionId : String) :
    MemoryStore.listAuditEntries t sessionId =
      Kyc.newestFirst AuditEntry.timestamp
        (db.auditLog.rows.filter fun e => e.sessionId = sessionId) := by
  have hinj : (t.audit.map AuditEntry.timestamp).Nodup :=
    (List.pairwise_map.mpr h.ordered).imp fun hlt => ne_of_lt hlt
  apply eq_newestFirst
  · exact (List.reverse_perm _).trans (h.audit.filter _).symm
  · exact List.pairwise_reverse.mpr ((h.ordered.filter _).imp fun hlt => hlt.le)
  · intro a ha b hb hab
    exact List.inj_on_of_nodup_map hinj (h.audit.mem_iff.mp (List.mem_of_mem_filter ha))
      (h.audit.mem_iff.mp (List.mem_of_mem_filter hb)) hab

def Matches {α : Type} (clock : ℕ → ℤ) (n : ℕ) (memory : Except Thrown α × Tables)
    (knex : Except Thrown α × Database) : Prop :=
  memory.1 = knex.1 ∧ Agrees clock (memory.2, n) (knex.2, n)

variable (server) in
theorem Agrees.read (h : Agrees clock (t, n) (db, n)) {α : Type} {a : α} {b : α × Database}
    (hb : b.2 = db.statement server) (ha : a = b.1) :
    Matches clock (n + 1) (.ok a, t) (KnexStore.answer b) := by
  obtain ⟨b, db'⟩ := b
  subst ha hb
  exact ⟨rfl, (h.statement server).tick⟩

section Update

variable {id : String} {p : SessionRecord → Bool} {f : SessionRecord → SessionRecord}
  (hf : ∀ r, (f r).id = r.id) {r : SessionRecord}

theorem Agrees.update_match (h : Agrees clock (t, n) (db, n)) (hr : t.sessions.get id = some r)
    (hp : ∀ s, p s = true → s.id = id) (hpr : p r = true) (hid : (f r).identity = r.identity) :
    db.sessions.update p f hf = ([f r], db.sessions.set (f r)) ∧
      Agrees clock (t.setSession (f r), n) ({ db with sessions := db.sessions.set (f r) }, n) :=
  ⟨Table.update_of_match ((h.get id).trans hr) hp hpr, h.rewrite (by rwa [Table.get_key hr]) hid⟩

theorem Agrees.update_refused (h : Agrees clock (t, n) (db, n)) (hr : t.sessions.get id = some r)
    (hp : ∀ s, p s = true → s.id = id) (hpr : p r = false) :
    db.sessions.update p f hf = ([], db.sessions) := by
  have hdb : db.sessions.get id = some r := (h.get id).trans hr
  apply Table.update_of_no_match
  intro s hs
  by_contra hps
  have hps' : p s = true := by simpa using hps
  obtain rfl : s = r :=
    db.sessions.key_injOn hs (Table.get_mem hdb) ((hp s hps').trans (Table.get_key hdb).symm)
  rw [hps'] at hpr
  cases hpr

end Update

variable (server) in
theorem matches_updateSessionStatus (h : Agrees clock (t, n) (db, n)) (id : String)
    (status : VerificationStatus) :
    Matches clock (n + 1) (settle t (MemoryStore.updateSessionStatus (clock n) t id status))
      (KnexStore.updateSessionStatus server (clock n) db id status) := by
  have h₁ := h.statement server
  have hfirst : ((db.statement server).sessions.rows.filter fun r => r.id = id).head? =
      t.sessions.get id := (Table.head?_filter_key _ id).trans (h₁.get id)
  unfold MemoryStore.updateSessionStatus KnexStore.updateSessionStatus
  cases hr : t.sessions.get id with
  | none =>
    simp only [MemoryStore.require_of_get_none hr, hfirst, hr]
    exact ⟨rfl, h₁.tick⟩
  | some r =>
    have h₂ := h₁.statement server
    have hk := Table.get_key hr
    simp only [MemoryStore.require_of_get hr, hfirst, hr]
    by_cases hw : r.status ∉ terminalStatuses ∧ r.status ≠ status
    · obtain ⟨ht, hne⟩ := hw
      have hupd := h₂.update_match (fun _ => rfl)
        (p := fun s => s.id = id ∧ s.status ∉ terminalStatuses ∧ s.status ≠ status)
        (f := fun s => { s with status, updatedAt := clock n }) hr
        (fun s hs => (of_decide_eq_true hs).1) (by simp [hk, ht, hne]) rfl
      rw [hupd.1, if_neg hne, if_neg (show ¬ r.status.Terminal from ht)]
      exact ⟨rfl, hupd.2.tick⟩
    · rw [h₂.update_refused _ hr (fun s hs => (of_decide_eq_true hs).1) (by simpa [hk] using hw)]
      by_cases hs : r.status = status
      · rw [if_pos hs]
        exact ⟨by simp [settle, hs], h₂.tick⟩
      · have ht : r.status.Terminal := by
          by_contra ht
          exact hw ⟨ht, hs⟩
        rw [if_neg hs, if_pos ht]
        exact ⟨by simp [settle, hs], h₂.tick⟩

variable (server) in
theorem matches_bindApplicantId (h : Agrees clock (t, n) (db, n)) (id applicantId : String) :
    Matches clock (n + 1) (settle t (MemoryStore.bindApplicantId (clock n) t id applicantId))
      (KnexStore.bindApplicantId server (clock n) db id applicantId) := by
  have h₁ := h.statement server
  have h₂ := h₁.statement server
  have hfirst : (((db.statement server).statement server).sessions.rows.filter
      fun r => r.id = id).head? = t.sessions.get id :=
    (Table.head?_filter_key _ id).trans (h₂.get id)
  unfold MemoryStore.bindApplicantId KnexStore.bindApplicantId
  cases hr : t.sessions.get id with
  | none =>
    have hno : ∀ s ∈ (db.statement server).sessions.rows, s.id ≠ id :=
      Table.get_eq_none.mp ((h₁.get id).trans hr)
    dsimp only
    rw [MemoryStore.require_of_get_none hr, Table.update_of_no_match]
    · simp only [List.head?_nil, KnexStore.requireSession, KnexStore.getSessionById, hfirst, hr]
      exact ⟨rfl, h₂.tick⟩
    · intro s hs
      simp [hno s hs]
  | some r =>
    have hk := Table.get_key hr
    dsimp only
    rw [MemoryStore.require_of_get hr]
    by_cases hb : r.providerApplicantId = none ∨ r.providerApplicantId = some applicantId
    · have hupd := h₁.update_match (fun _ => rfl)
        (p := fun s => s.id = id ∧
          (s.providerApplicantId = none ∨ s.providerApplicantId = some applicantId))
        (f := fun s => { s with providerApplicantId := some applicantId, updatedAt := clock n }) hr
        (fun s hs => (of_decide_eq_true hs).1) (by simp [hk, hb]) rfl
      rw [hupd.1]
      dsimp only
      rw [if_neg fun hn => hb.elim hn.1 hn.2]
      exact ⟨rfl, hupd.2.tick⟩
    · rw [h₁.update_refused _ hr (fun s hs => (of_decide_eq_true hs).1) (by simpa [hk] using hb)]
      dsimp only
      rw [if_pos (not_or.mp hb)]
      simp only [List.head?_nil, KnexStore.requireSession, KnexStore.getSessionById, hfirst, hr]
      exact ⟨rfl, h₂.tick⟩

variable (server) in
theorem matches_createSession (h : Agrees clock (t, n) (db, n)) (hc : StrictMono clock)
    {data : NewSession} (hp : t.sessions.get data.id = none) :
    Matches clock (n + 1)
      (.ok (MemoryStore.createSession (clock n) t data).1,
        (MemoryStore.createSession (clock n) t data).2)
      (KnexStore.createSession server (clock n) db data) := by
  have h₁ := h.statement server
  unfold MemoryStore.createSession KnexStore.createSession
  dsimp only
  rw [Table.insert_of_get_none server ((h₁.get data.id).trans hp)]
  exact ⟨rfl, h₁.create hc hp rfl⟩

variable (server) in
theorem matches_appendAuditEntry (h : Agrees clock (t, n) (db, n)) (hc : StrictMono clock)
    {entry : NewAuditEntry} (hp : (t.sessions.get entry.sessionId).isSome)
    (hf : ∀ e ∈ t.audit, e.id ≠ entry.id) :
    Matches clock (n + 1) (.ok (), MemoryStore.appendAuditEntry (clock n) t entry)
      (KnexStore.appendAuditEntry server (clock n) db entry) := by
  have h₁ := h.statement server
  obtain ⟨s, hs⟩ := Option.isSome_iff_exists.mp hp
  have hnew : (db.statement server).auditLog.get entry.id = none :=
    Table.get_eq_none.mpr fun e he => hf e (h₁.audit.mem_iff.mp he)
  unfold MemoryStore.appendAuditEntry KnexStore.appendAuditEntry
  dsimp only
  rw [Table.insert_of_get_none server hnew]
  dsimp only
  rw [(h₁.get entry.sessionId).trans hs]
  exact ⟨rfl, h₁.append hc hnew rfl⟩

/-- The row with an id that a user asks for. -/
theorem Agrees.getSessionByIdForUser (h : Agrees clock (t, n) (db, n)) (id userId : String) :
    MemoryStore.getSessionByIdForUser t id userId =
      (db.sessions.rows.filter fun r => r.id = id ∧ r.userId = userId).head? := by
  unfold MemoryStore.getSessionByIdForUser
  cases hr : t.sessions.get id with
  | none =>
    have hno : ∀ s ∈ db.sessions.rows, s.id ≠ id := Table.get_eq_none.mp ((h.get id).trans hr)
    rw [List.filter_eq_nil_iff.mpr fun s hs => by simp [hno s hs]]
    rfl
  | some r =>
    have hdb : db.sessions.get id = some r := (h.get id).trans hr
    dsimp only
    split
    next hu =>
      rw [Table.filter_of_match hdb (fun s hs => (of_decide_eq_true hs).1)
        (decide_eq_true ⟨Table.get_key hr, hu⟩)]
      rfl
    next hu =>
      rw [List.filter_eq_nil_iff.mpr]
      · rfl
      · intro s hs hp
        obtain ⟨hid, hsu⟩ := of_decide_eq_true hp
        obtain rfl : s = r :=
          db.sessions.key_injOn hs (Table.get_mem hdb) (hid.trans (Table.get_key hdb).symm)
        exact hu hsu

variable (server) in
/-- Every operation is answered alike. -/
theorem StoreOp.matches_exec (h : Agrees clock (t, n) (db, n)) (hc : StrictMono clock) {o : StoreOp}
    (hp : o.Proper t) (hf : o.FreshEntry t) :
    Matches clock (n + 1) (o.exec (clock n) t) (o.execKnex server (clock n) db) := by
  have h₁ := h.statement server
  cases o with
  | createSession data => exact matches_createSession server h hc hp
  | updateSessionStatus id status => exact matches_updateSessionStatus server h id status
  | bindApplicantId id a => exact matches_bindApplicantId server h id a
  | appendAuditEntry entry => exact matches_appendAuditEntry server h hc hp hf
  | getSessionById id =>
    apply h.read server rfl
    exact ((Table.head?_filter_key _ id).trans (h₁.get id)).symm
  | getSessionByIdForUser id userId => exact h.read server rfl (h₁.getSessionByIdForUser id userId)
  | getSessionByProviderApplicantId a options =>
    apply h.read server rfl
    apply pickSessionForApplicant_congr
    rw [newestFirst_newestFirst]
    exact (h₁.newestFirst _).symm
  | getLatestUnboundSessionForUser userId provider =>
    apply h.read server rfl
    have hunbound : ∀ rows : List SessionRecord,
        (rows.filter (·.ofUser userId provider)).filter (·.providerApplicantId = none) =
          rows.filter (·.unboundOf userId provider) := by
      intro rows
      rw [List.filter_filter]
      apply List.filter_congr
      intro r _
      simp only [SessionRecord.ofUser, SessionRecord.unboundOf, Bool.and_comm]
    rw [KnexStore.getLatestUnboundSessionForUser, hunbound]
    exact congrArg List.head? (h₁.newestFirst _).symm
  | getLatestSessionForUser userId provider =>
    exact h.read server rfl (congrArg List.head? (h₁.newestFirst _).symm)
  | listAuditEntries sessionId => exact h.read server rfl (h₁.listAuditEntries sessionId)

end Operations

/-- The Knex store simulates the in-memory one. -/
theorem simulates_createKnexSessionStore (server : Server Thrown) (hc : StrictMono clock) :
    Simulates (createMemorySessionStore clock) (createKnexSessionStore server clock)
      (fun m o => o.Proper m.1 ∧ o.FreshEntry m.1) (fun m m' => m.2 ≤ m'.2) (Agrees clock) where
  refl _ := le_rfl
  trans h h' := h.trans h'
  exec_le _ _ := Nat.le_succ _
  rollback_le h := h
  exec := by
    rintro o ⟨t, n⟩ ⟨db, n'⟩ h ⟨hp, hf⟩
    obtain rfl : n' = n := h.ticks
    exact o.matches_exec server h hc hp hf
  rollback := by
    rintro ⟨t, n⟩ ⟨db, n'⟩ ⟨t', m⟩ ⟨db', m'⟩ h h' hle
    obtain rfl : n' = n := h.ticks
    obtain rfl : m' = m := h'.ticks
    exact
      { sessions := h.sessions
        audit := h.audit
        ticks := rfl
        created := by
          intro r hr
          obtain ⟨k, hk, he⟩ := h.created r hr
          exact ⟨k, lt_of_lt_of_le hk hle, he⟩
        distinct := h.distinct
        logged := by
          intro e he
          obtain ⟨k, hk, he⟩ := h.logged e he
          exact ⟨k, lt_of_lt_of_le hk hle, he⟩
        ordered := h.ordered }

/-- On scripts whose session ids and audit entry ids are fresh and whose entries are about existing
sessions, both stores give every operation the same answer and end with the same rows. -/
theorem stores_agree (server : Server Thrown) (hc : StrictMono clock) {α : Type}
    (script : Script StoreSig Thrown α)
    (hs : script.Within (createMemorySessionStore clock)
      (fun m o => o.Proper m.1 ∧ o.FreshEntry m.1) (Tables.empty, 0)) :
    (script.run (createMemorySessionStore clock) (Tables.empty, 0)).1 =
        (script.run (createKnexSessionStore server clock) (Database.empty, 0)).1 ∧
      (script.run (createMemorySessionStore clock) (Tables.empty, 0)).2.1 =
        (script.run (createKnexSessionStore server clock) (Database.empty, 0)).2.1 ∧
      (script.run (createKnexSessionStore server clock)
        (Database.empty, 0)).2.2.1.sessions.rows.Perm
        (script.run (createMemorySessionStore clock) (Tables.empty, 0)).2.2.1.sessions.rows ∧
      (script.run (createKnexSessionStore server clock)
        (Database.empty, 0)).2.2.1.auditLog.rows.Perm
        (script.run (createMemorySessionStore clock) (Tables.empty, 0)).2.2.1.audit := by
  obtain ⟨hres, hlog, hend⟩ := (simulates_createKnexSessionStore server hc).run agrees_empty hs
  exact ⟨hres, hlog, hend.sessions, hend.audit⟩

def reversingServer : Server Thrown where
  order _ rows := rows.reverse
  order_perm _ rows := List.reverse_perm rows
  uniqueViolation := .object (some "duplicate key value") .nullish (.text "23505")
  foreignKeyViolation := .object (some "foreign key") .nullish (.text "23503")

def unitClock (n : ℕ) : ℤ := n

theorem strictMono_unitClock : StrictMono unitClock := fun _ _ h => Int.ofNat_lt.mpr h

/-- An entry about the session `s`. -/
def entryOf (id : String) : NewAuditEntry := ⟨id, "s", .status_updated, {}⟩

def concluding {α : Type} : Except Thrown α → Script StoreSig Thrown α
  | .ok a => .ret a
  | .error e => .err e

def rolledBackScript : Script StoreSig Thrown (List AuditEntry) :=
  .await (.createSession ⟨"s", "u", "sumsub", .web, none, none, none⟩) fun _ =>
    .await (.createSession ⟨"t", "u", "sumsub", .web, none, none, none⟩) fun _ =>
      .transaction
        (.await (.updateSessionStatus "s" .approved) fun _ =>
          .await (.appendAuditEntry (entryOf "e")) fun _ =>
            (.err .nonObject : Script StoreSig Thrown Unit)) fun _ =>
        .await (.bindApplicantId "s" "a") fun _ =>
          .await (.appendAuditEntry (entryOf "e")) fun _ =>
            .await (.appendAuditEntry (entryOf "f")) fun _ =>
              .await (.listAuditEntries "s") concluding

theorem stores_agree_rolledBackScript :
    (rolledBackScript.run (createMemorySessionStore unitClock) (Tables.empty, 0)).1 =
      (rolledBackScript.run (createKnexSessionStore reversingServer unitClock)
        (Database.empty, 0)).1 := by
  refine (stores_agree reversingServer strictMono_unitClock rolledBackScript ?_).1
  have hnone : ∀ e ∈ ([] : List AuditEntry), e.id ≠ "e" := by simp
  have hone : ∀ e ∈ [(⟨"e", "s", .status_updated, unitClock 5, {}⟩ : AuditEntry)], e.id ≠ "f" := by
    simp
  exact ⟨⟨rfl, trivial⟩, ⟨rfl, trivial⟩, ⟨⟨trivial, trivial⟩, ⟨rfl, hnone⟩, trivial⟩,
    ⟨trivial, trivial⟩, ⟨rfl, hnone⟩, ⟨rfl, hone⟩, ⟨trivial, trivial⟩, trivial⟩

def duplicatedScript : Script StoreSig Thrown Unit :=
  .await (.createSession ⟨"s", "u", "sumsub", .web, none, none, none⟩) fun _ =>
    .await (.appendAuditEntry (entryOf "e")) fun _ =>
      .await (.appendAuditEntry (entryOf "e")) concluding

theorem stores_disagree_on_entry_ids :
    StrictMono unitClock ∧
      duplicatedScript.Within (createMemorySessionStore unitClock) (fun m o => o.Proper m.1)
        (Tables.empty, 0) ∧
      (duplicatedScript.run (createMemorySessionStore unitClock) (Tables.empty, 0)).1 = .ok () ∧
      (duplicatedScript.run (createKnexSessionStore reversingServer unitClock)
        (Database.empty, 0)).1 = .error reversingServer.uniqueViolation := by
  refine ⟨strictMono_unitClock, ⟨rfl, rfl, rfl, trivial⟩, rfl, ?_⟩
  decide +kernel

end Kyc
