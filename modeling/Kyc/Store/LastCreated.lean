import Kyc.Store.Writes
import Kyc.Tables.Snapshots

/-! # The newest session and the last one created

A history of operations on the in-memory store, with transactions that come back to
their snapshots. The sessions stay in the order in which they were created, whatever
is written to them; the store finds the last of them as the newest one as long as the
clock tells the sessions of one user and provider apart.
-/

namespace Kyc

/-- An operation, and the reading of the clock that it finds. -/
abbrev TimedOp := ℤ × StoreOp

def TimedOp.apply : TimedOp → Tables → Tables
  | (now, o), t => (o.exec now t).2

abbrev StoreHistory := List (ℕ × TxStep TimedOp)

namespace StoreHistory

def createdId : ℕ × TxStep TimedOp → Option String
  | (_, .performed (_, .createSession data)) => some data.id
  | _ => none

def reading : ℕ × TxStep TimedOp → Option ℤ
  | (_, .performed (now, _)) => some now
  | _ => none

def created (acts : StoreHistory) : List String := acts.filterMap createdId

def readings (acts : StoreHistory) : List ℤ := acts.filterMap reading

def tables (acts : StoreHistory) : Tables :=
  (Snapshots.after TimedOp.apply Tables.empty acts).current

/-- The most recently created of the stored sessions with a property, as it now stands. -/
def lastCreated (acts : StoreHistory) (p : SessionRecord → Bool) : Option SessionRecord :=
  acts.created.reverse.findSome? fun id => (acts.tables.sessions.get id).filter p

/-- The clock does not go back, and every session is created under an id of its own. -/
structure Steady (acts : StoreHistory) : Prop where
  clock : acts.readings.Pairwise (· ≤ ·)
  fresh : acts.created.Nodup

/-- What the store finds as a user's newest session with a provider is the last one created, and
there is one whenever any is stored; likewise for the newest that is still unbound. -/
def NewestIsLast (acts : StoreHistory) : Prop :=
  ∀ userId provider,
    (MemoryStore.getLatestSessionForUser acts.tables userId provider =
        acts.lastCreated (·.ofUser userId provider) ∧
      (MemoryStore.getLatestSessionForUser acts.tables userId provider = none ↔
        ¬ ∃ r ∈ acts.tables.sessions.rows, r.userId = userId ∧ r.provider = provider)) ∧
    (MemoryStore.getLatestUnboundSessionForUser acts.tables userId provider =
        acts.lastCreated (·.unboundOf userId provider) ∧
      (MemoryStore.getLatestUnboundSessionForUser acts.tables userId provider = none ↔
        ¬ ∃ r ∈ acts.tables.sessions.rows,
          r.userId = userId ∧ r.provider = provider ∧ r.providerApplicantId = none))

/-- A session is created later than those which its user has with the provider. -/
def InTime (acts : StoreHistory) : ℕ × TxStep TimedOp → Prop
  | (_, .performed (now, .createSession data)) =>
    ∀ r ∈ acts.tables.sessions.rows, r.userId = data.userId → r.provider = data.provider →
      r.createdAt < now
  | _ => True

end StoreHistory

def Tables.identities (t : Tables) : List SessionIdentity :=
  t.sessions.rows.map SessionRecord.identity

section Identities

variable {t : Tables} {r r' : SessionRecord} {now : ℤ}

theorem Tables.identities_setSession_old (hr : t.sessions.get r.id = some r)
    (hid : r'.identity = r.identity) : (t.setSession r').identities = t.identities := by
  have hk : r'.id = r.id := SessionRecord.id_of_identity hid
  rw [Tables.identities, Tables.sessions_setSession, Table.rows_set_old (by rw [hk]; exact hr),
    Table.replace, List.map_map]
  apply List.map_congr_left
  intro s hs
  simp only [Function.comp_apply]
  split
  next hsr =>
    obtain rfl := t.sessions.key_injOn hs (Table.get_mem hr) (hsr.trans hk)
    exact hid
  next => rfl

theorem Tables.identities_setSession_new (hr : t.sessions.get r.id = none) :
    (t.setSession r).identities = t.identities ++ [r.identity] := by
  rw [Tables.identities, Tables.sessions_setSession, Table.rows_set_new hr, List.map_append]
  rfl

/-- What `createSession` keeps of a new session for its whole life. -/
def NewSession.identity (now : ℤ) (data : NewSession) : SessionIdentity :=
  ⟨data.id, data.userId, data.provider, data.platform, data.levelName, data.locale, now⟩

/-- The row that `createSession` inserts. -/
def NewSession.row (now : ℤ) (data : NewSession) : SessionRecord :=
  (MemoryStore.createSession now .empty data).1

theorem NewSession.ofUser_row (now : ℤ) (data : NewSession) :
    (data.row now).ofUser data.userId data.provider = true :=
  SessionRecord.ofUser_iff.mpr ⟨rfl, rfl⟩

theorem rows_createSession {data : NewSession} (h : t.sessions.get data.id = none) :
    (TimedOp.apply (now, .createSession data) t).sessions.rows =
      t.sessions.rows ++ [data.row now] :=
  Table.rows_set_new h

theorem identities_createSession {data : NewSession} (h : t.sessions.get data.id = none) :
    (TimedOp.apply (now, .createSession data) t).identities = t.identities ++ [data.identity now] :=
  Tables.identities_setSession_new h

theorem identities_apply {o : StoreOp} (ho : ∀ data, o ≠ .createSession data) :
    (TimedOp.apply (now, o) t).identities = t.identities := by
  cases o with
  | createSession data => exact absurd rfl (ho data)
  | updateSessionStatus id status =>
    cases hr : t.sessions.get id with
    | none => simp [TimedOp.apply, StoreOp.exec, settle, MemoryStore.updateSessionStatus,
        MemoryStore.require_of_get_none hr]
    | some r =>
      have hk := Table.get_key hr
      simp only [TimedOp.apply, StoreOp.exec, settle, MemoryStore.updateSessionStatus_of_get hr]
      exact Tables.identities_setSession_old (hk ▸ hr) (r.identity_withStatus _ _)
  | bindApplicantId id a =>
    cases hr : t.sessions.get id with
    | none => simp [TimedOp.apply, StoreOp.exec, settle, MemoryStore.bindApplicantId,
        MemoryStore.require_of_get_none hr]
    | some r =>
      have hk := Table.get_key hr
      simp only [TimedOp.apply, StoreOp.exec, settle, MemoryStore.bindApplicantId_of_get hr]
      exact Tables.identities_setSession_old (hk ▸ hr) (r.identity_withApplicant _ _)
  | _ => rfl

end Identities

namespace StoreHistory

variable {acts pre : StoreHistory} {x : ℕ × TxStep TimedOp} {p : SessionRecord → Bool}

theorem created_concat (acts : StoreHistory) (x : ℕ × TxStep TimedOp) :
    created (acts ++ [x]) = acts.created ++ (createdId x).toList := by
  rw [created, List.filterMap_append]
  cases hx : createdId x <;> simp [created, hx]

theorem tables_performed (acts : StoreHistory) (i : ℕ) (o : TimedOp) :
    tables (acts ++ [(i, .performed o)]) = o.apply acts.tables := by
  rw [tables, Snapshots.after_snoc]
  rfl

theorem nodup_restrict (hp : pre <+: acts) (h : acts.created.Nodup) : pre.created.Nodup := by
  obtain ⟨rest, rfl⟩ := hp
  rw [created, List.filterMap_append] at h
  exact (List.nodup_append.mp h).1

/-- The ids of the stored sessions are among those created, in this order. -/
def InOrder (acts : StoreHistory) (t : Tables) : Prop :=
  (t.identities.map SessionIdentity.id).Sublist acts.created

theorem get_of_inOrder {t : Tables} {id : String} (h : InOrder acts t) (hid : id ∉ acts.created) :
    t.sessions.get id = none := by
  apply Table.get_eq_none.mpr
  rintro r hr rfl
  apply hid
  apply h.subset
  exact List.mem_map.mpr ⟨r.identity, List.mem_map_of_mem hr, rfl⟩

theorem InOrder.concat {t : Tables} (h : InOrder acts t) (x : ℕ × TxStep TimedOp) :
    InOrder (acts ++ [x]) t := by
  rw [InOrder, created_concat]
  exact h.trans (List.sublist_append_left _ _)

theorem InOrder.performed {t : Tables} {i : ℕ} {o : TimedOp} (h : InOrder acts t)
    (hf : (created (acts ++ [(i, .performed o)])).Nodup) :
    InOrder (acts ++ [(i, .performed o)]) (o.apply t) := by
  obtain ⟨now, o⟩ := o
  by_cases ho : ∃ data, o = .createSession data
  · obtain ⟨data, rfl⟩ := ho
    have hid : data.id ∉ acts.created := by
      rw [created_concat] at hf
      exact fun hid => (List.nodup_append.mp hf).2.2 _ hid data.id (by simp [createdId]) rfl
    rw [InOrder, created_concat, identities_createSession (get_of_inOrder h hid), List.map_append]
    exact h.append (.refl _)
  · rw [InOrder, identities_apply fun data hd => ho ⟨data, hd⟩]
    exact h.concat _

theorem inOrder_tables (hf : acts.created.Nodup) : InOrder acts acts.tables := by
  have hall := Snapshots.after_all TimedOp.apply Tables.empty
    (Q := fun acts t => (created acts).Nodup → InOrder acts t) (fun _ => .slnil)
    (fun acts x t h hf => (h (nodup_restrict (List.prefix_append _ _) hf)).concat x)
    (fun acts i o h hf => (h (nodup_restrict (List.prefix_append _ _) hf)).performed hf) acts
  exact hall.1 hf

theorem get_of_created {i : ℕ} {now : ℤ} {data : NewSession}
    (hf : (created (acts ++ [(i, .performed (now, .createSession data))])).Nodup) :
    acts.tables.sessions.get data.id = none := by
  have hin := inOrder_tables (nodup_restrict (List.prefix_append _ _) hf)
  rw [created_concat] at hf
  apply get_of_inOrder hin
  intro hid
  exact (List.nodup_append.mp hf).2.2 _ hid data.id (by simp [createdId]) rfl

/-- The sessions of one user and provider get later and later. -/
def Later (t : Tables) : Prop :=
  t.identities.Pairwise fun r s =>
    r.userId = s.userId → r.provider = s.provider → r.createdAt < s.createdAt

/-- Every session is created later than those which its user has with the provider. -/
def AllInTime (acts : StoreHistory) : Prop := ∀ pre x, pre ++ [x] <+: acts → InTime pre x

theorem AllInTime.restrict (h : AllInTime acts) (hp : pre <+: acts) : AllInTime pre :=
  fun pre' x hx => h pre' x (hx.trans hp)

theorem Later.performed {i : ℕ} {o : TimedOp} (h : Later acts.tables)
    (hf : (created (acts ++ [(i, .performed o)])).Nodup)
    (hx : InTime acts (i, .performed o)) : Later (o.apply acts.tables) := by
  obtain ⟨now, o⟩ := o
  by_cases ho : ∃ data, o = .createSession data
  · obtain ⟨data, rfl⟩ := ho
    rw [Later, identities_createSession (get_of_created hf)]
    apply List.pairwise_append.mpr
    refine ⟨h, List.pairwise_singleton _ _, ?_⟩
    intro r hr s hs hu hp
    obtain ⟨r, hmem, rfl⟩ := List.mem_map.mp hr
    rw [List.mem_singleton.mp hs] at hu hp ⊢
    exact hx r hmem hu hp
  · rw [Later, identities_apply fun data hd => ho ⟨data, hd⟩]
    exact h

theorem later_tables (hf : acts.created.Nodup) (hc : AllInTime acts) : Later acts.tables := by
  have hall := Snapshots.after_all TimedOp.apply Tables.empty
    (Q := fun acts t => (created acts).Nodup → AllInTime acts → Later t)
    (fun _ _ => .nil)
    (fun acts x t h hf hc =>
      h (nodup_restrict (List.prefix_append _ _) hf) (hc.restrict (List.prefix_append _ _)))
    (fun acts i o h hf hc => Later.performed
      (h (nodup_restrict (List.prefix_append _ _) hf) (hc.restrict (List.prefix_append _ _))) hf
      (hc acts _ List.prefix_rfl)) acts
  exact hall.1 hf hc

/-- A search among one user's sessions with one provider. -/
def Within (userId provider : String) (p : SessionRecord → Bool) : Prop :=
  ∀ r, p r = true → r.userId = userId ∧ r.provider = provider

theorem lastCreated_eq (hf : acts.created.Nodup) (p : SessionRecord → Bool) :
    acts.lastCreated p = acts.tables.sessions.rows.reverse.find? p := by
  have h := inOrder_tables hf
  rw [InOrder, Tables.identities, List.map_map] at h
  exact Table.findSome?_reverse_get h hf p

theorem newest_eq_lastCreated (hf : acts.created.Nodup) (hc : AllInTime acts)
    {userId provider : String} (hp : Within userId provider p) :
    newestSession p acts.tables.sessions.rows = acts.lastCreated p := by
  rw [lastCreated_eq hf]
  apply newest_eq_last
  apply (List.pairwise_map.mp (later_tables hf hc)).imp
  intro r s h hr hs
  obtain ⟨hru, hrp⟩ := hp r hr
  obtain ⟨hsu, hsp⟩ := hp s hs
  exact h (hru.trans hsu.symm) (hrp.trans hsp.symm)

theorem newestIsLast_of_allInTime (hf : acts.created.Nodup) (hc : AllInTime acts) :
    NewestIsLast acts := by
  intro userId provider
  have hofUser : Within userId provider (·.ofUser userId provider) :=
    fun r hr => SessionRecord.ofUser_iff.mp hr
  have hunboundOf : Within userId provider (·.unboundOf userId provider) := by
    intro r hr
    obtain ⟨hu, hp, -⟩ := SessionRecord.unboundOf_iff.mp hr
    exact ⟨hu, hp⟩
  rw [MemoryStore.getLatestSessionForUser_eq, MemoryStore.getLatestUnboundSessionForUser_eq]
  refine ⟨⟨newest_eq_lastCreated hf hc hofUser, ?_⟩, newest_eq_lastCreated hf hc hunboundOf, ?_⟩
  · simp [newest_eq_none, SessionRecord.ofUser]
  · simp [newest_eq_none, SessionRecord.unboundOf]

/-- A session that is not later than another one of its user with the provider is not found as the
newest, though it was created last. -/
theorem inTime_of_newestIsLast (hf : created (acts ++ [x]) |>.Nodup)
    (h : NewestIsLast (acts ++ [x])) : InTime acts x := by
  obtain ⟨i, _ | ⟨now, o⟩ | _⟩ := x
  case began | rolledBack => trivial
  cases o with
  | createSession data =>
    intro r hr hu hp
    by_contra hlt
    have hget := get_of_created hf
    obtain ⟨⟨hlast, -⟩, -⟩ := h data.userId data.provider
    rw [MemoryStore.getLatestSessionForUser_eq, lastCreated_eq hf, tables_performed,
      rows_createSession hget] at hlast
    have hle : (data.row now).createdAt ≤ r.createdAt := not_lt.mp hlt
    refine newest_ne_of_sublist ?_ ?_ hle
      (p := SessionRecord.ofUser data.userId data.provider) ?_ (hlast.trans ?_)
    · have hn := (TimedOp.apply (now, .createSession data) acts.tables).sessions.nodup.of_map
      rwa [rows_createSession hget] at hn
    · exact (List.singleton_sublist.mpr hr).append (.refl _)
    · exact SessionRecord.ofUser_iff.mpr ⟨hu, hp⟩
    · rw [List.reverse_append, List.reverse_singleton, List.singleton_append,
        List.find?_cons_of_pos (data.ofUser_row now)]
  | _ => trivial

/-- The store finds the sessions created last, at every point of a history, exactly when each is
created later than those that its user already has with the provider. -/
theorem newest_is_last_iff (hf : acts.created.Nodup) :
    (∀ pre, pre <+: acts → NewestIsLast pre) ↔ ∀ pre x, pre ++ [x] <+: acts → InTime pre x := by
  constructor
  · intro h pre x hx
    exact inTime_of_newestIsLast (nodup_restrict hx hf) (h _ hx)
  · intro hc pre hp
    exact newestIsLast_of_allInTime (nodup_restrict hp hf) (AllInTime.restrict hc hp)

def twoAtOnce : StoreHistory :=
  [(0, .performed (0, .createSession ⟨"s-1", "user-1", "mock", .web, none, none, none⟩)),
    (0, .performed (0, .createSession ⟨"s-2", "user-1", "mock", .web, none, none, none⟩))]

theorem newest_is_last_iff_twoAtOnce :
    ¬ ∀ pre x, pre ++ [x] <+: twoAtOnce → InTime pre x := by
  have hfresh : twoAtOnce.created.Nodup := by decide
  intro h
  have hlast := (newest_is_last_iff hfresh).mpr h twoAtOnce List.prefix_rfl "user-1" "mock"
  exact absurd hlast.1.1 (by decide)

/-- Of two sessions created within one tick the first is found as the newest. -/
theorem newest_is_first_of_a_tick : ¬ ∀ acts : StoreHistory, acts.Steady → acts.NewestIsLast := by
  intro h
  have hlast := h twoAtOnce ⟨by decide, by decide⟩ "user-1" "mock"
  exact absurd hlast.1.1 (by decide)

end StoreHistory

end Kyc
