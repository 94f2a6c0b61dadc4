import Kyc.Service.Reconcile
import Kyc.Service.Steps

/-! # Reconciling reads and newer events

A read that reconciles a session looks it up at one step and writes what it found at
another. An event may move the session in between; the write then goes over what the
event committed unless the status is terminal, the applicant is refused, or both agree.
-/

namespace Kyc

def Tables.statusOf (t : Tables) (id : String) : Option VerificationStatus :=
  (t.sessions.get id).map (·.status)

variable (deps : VerificationServiceDeps)

/-- Among the later events an event's write gives the session the status. -/
def DeliveredSince (w : World) (earlier later : List (Event Call)) (id : String)
    (status : VerificationStatus) : Prop :=
  ∃ between j rest options r, later = between ++ .step j :: rest ∧
    (runService deps w (earlier ++ between)).awaited j =
      some (.transaction (writeStatusBody id status .webhook options)) ∧
    (runService deps w (earlier ++ between)).state.tables.sessions.get id = some r ∧
    r.AcceptsBinding (truthy options.bindApplicantId) ∧ r.status.write status = status

/-- The first two steps of a call that reconciles `session`: it reads the session, and after the
events `looking` has its lookup answered with `found`. The events `later` are others'. -/
structure ReconcilingRead (w : World) (i : ℕ) (session : SessionRecord) (found : UserStatusLookup)
    (looking later : List (Event Call)) : Prop where
  reads : ∃ c before between, looking = before ++ .step i :: between ∧ .step i ∉ between ∧
    (runService deps w before).threads[i]? = some ⟨c, c.program deps⟩ ∧
    reconciledBy deps (runService deps w before).state.tables c = some session
  notTerminal : ¬ session.status.Terminal
  finds : lookedUp deps (runService deps w looking).state.providerCalls.length session =
    .ok (some found)
  others : .step i ∉ later

/-- The program asks the provider, and if that is the `n`-th call to it writes `found`. -/
def Repairs (n : ℕ) (session : SessionRecord) (found : UserStatusLookup) {α : Type}
    (p : Service α) : Prop :=
  ∃ c k, p = .await (.provider c) k ∧ ∃ k', k (deps.provider.answer n c) =
    .await (.transaction (writeStatusBody session.id found.status .api
      { bindApplicantId := truthy found.providerApplicantId })) k'

section Programs

variable {deps} {n : ℕ} {session : SessionRecord} {found : UserStatusLookup}

theorem Repairs.bind {α β : Type} {p : Service α} (h : Repairs deps n session found p)
    (f : α → Service β) : Repairs deps n session found (p >>= f) := by
  obtain ⟨c, k, rfl, k', hk⟩ := h
  exact ⟨c, fun r => (k r).bind f, rfl, fun r => (k' r).bind f, congrArg (Program.bind · f) hk⟩

/-- A reconciliation whose lookup is answered goes on to write the answer. -/
theorem repairs_reconcile (hnt : ¬ session.status.Terminal)
    (hfound : lookedUp deps n session = .ok (some found)) :
    Repairs deps n session found (reconcile deps session) := by
  unfold reconcile lookup
  rw [if_neg hnt]
  unfold lookedUp at hfound
  cases ha : truthy session.providerApplicantId with
  | some a =>
    rw [ha] at hfound
    cases hs : deps.provider.getStatus n a with
    | ok status =>
      simp only [hs] at hfound
      cases hfound
      refine ⟨.getStatus a, _, rfl, ?_⟩
      simp only [VerificationProvider.answer, hs]
      exact ⟨_, rfl⟩
    | error e =>
      simp only [hs] at hfound
      cases hfound
  | none =>
    simp only [ha] at hfound
    cases hb : deps.provider.getStatusByUserId with
    | none => simp [hb] at hfound
    | some byUserId =>
      simp only [hb] at hfound
      cases hu : byUserId n session.userId with
      | ok found' =>
        simp only [hu] at hfound
        cases hfound
        simp only [supportsUserStatusLookup, hb, Option.isSome_some, if_true]
        refine ⟨.getStatusByUserId session.userId, _, rfl, ?_⟩
        simp only [VerificationProvider.answer, hb, hu]
        exact ⟨_, rfl⟩
      | error e =>
        simp only [hu] at hfound
        cases hfound

theorem advance_store {α : Type} {w : World} {o : StoreOp} {a : o.Ans} (f : o.Ans → Service α)
    (h : (execTx deps (.store o) w).1 = .ok a) :
    ((Service.direct (Tx.store o) >>= f).advance (exec deps) w).1 = f a := by
  have h' : (exec deps (.direct (.store o)) w).1 = .ok a := h
  change Program.bind _ f = f a
  rw [h']
  rfl

theorem advance_requireOwned {w : World} {id owner : String}
    (h : MemoryStore.getSessionByIdForUser w.tables id owner = some session) :
    ((requireOwned id owner).advance (exec deps) w).1 = pure session := by
  have hread : (execTx deps (.store (.getSessionByIdForUser id owner)) w).1 = .ok (some session) :=
    congrArg Except.ok h
  exact advance_store _ hread

/-- So does a call that has just read the session. -/
theorem Call.repairs_read {w : World} {c : Call} (h : reconciledBy deps w.tables c = some session)
    (hnt : ¬ session.status.Terminal) (hfound : lookedUp deps n session = .ok (some found)) :
    Repairs deps n session found ((c.program deps).advance (exec deps) w).1 := by
  have hr := repairs_reconcile hnt hfound
  obtain ⟨userId, id, owner, id', rfl, ho, hi, hread⟩ | ⟨userId, owner, rfl, ho, hread⟩ :=
    reconciledBy_cases h
  · have hs : Kyc.status deps userId id = requireOwned id' owner >>= fun session =>
        reconcile deps session >>= fun current => pure (view current) := by
      rw [Kyc.status, ho, hi]
      rfl
    rw [Call.program, hs, Program.advance_bind _ rfl, Program.advance_bind _ rfl,
      advance_requireOwned hread]
    exact (hr.bind _).bind _
  · obtain ⟨k, hs, hk⟩ : ∃ k, Kyc.latestForUser deps userId true =
          Service.direct (Tx.getLatestSessionForUser owner deps.providerName) >>= k ∧
        k (some session) = reconcile deps session >>= fun current =>
          pure (some (view current)) := by
      rw [Kyc.latestForUser, ho]
      exact ⟨_, rfl, rfl⟩
    have hanswer : (execTx deps (.store (.getLatestSessionForUser owner deps.providerName)) w).1 =
        .ok (some session) := congrArg Except.ok hread
    have hadv : ((Kyc.latestForUser deps userId true).advance (exec deps) w).1 =
        reconcile deps session >>= fun current => pure (some (view current)) := by
      rw [hs, ← hk]
      exact advance_store _ hanswer
    have hawaits : (Kyc.latestForUser deps userId true).result = none := by
      rw [hs]
      rfl
    rw [Call.program, Program.advance_bind _ hawaits, hadv]
    exact (hr.bind _).bind _

end Programs

section Runs

variable {deps} {w : World} {i : ℕ} {session : SessionRecord} {found : UserStatusLookup}
  {looking later : List (Event Call)}

theorem get_runService_step {events : List (Event Call)} {c : Call} {p : Service Reply}
    (hi : (runService deps w events).threads[i]? = some ⟨c, p⟩) (hl : .step i ∉ later) :
    (runService deps w (events ++ .step i :: later)).threads[i]? =
      some ⟨c, (p.advance (exec deps) (runService deps w events).state).1⟩ := by
  rw [runService, Pool.run_append]
  exact Pool.get_run_of_not_mem (exec deps) (Call.program deps)
    (Pool.get_next_step (exec deps) (Call.program deps) hi) hl

theorem ReconcilingRead.writes (h : ReconcilingRead deps w i session found looking later) :
    ∃ c k, (runService deps w (looking ++ .step i :: later)).threads[i]? =
      some ⟨c, .await (.transaction (writeStatusBody session.id found.status .api
        { bindApplicantId := truthy found.providerApplicantId })) k⟩ := by
  obtain ⟨c, before, between, hl, hb, hi, hc⟩ := h.reads
  obtain ⟨call, k, hp, k', hk⟩ := c.repairs_read hc h.notTerminal h.finds
  have hread := get_runService_step hi hb
  rw [← hl, hp] at hread
  exact ⟨c, k', hk ▸ get_runService_step hread h.others⟩

theorem ReconcilingRead.statusOf (h : ReconcilingRead deps w i session found looking later)
    {r : SessionRecord} (hr : (runService deps w
      (looking ++ .step i :: later)).state.tables.sessions.get session.id = some r) :
    (runService deps w (looking ++ .step i :: later ++ [.step i])).state.tables.statusOf
        session.id =
      some (if r.AcceptsBinding (truthy found.providerApplicantId) then r.status.write found.status
        else r.status) := by
  obtain ⟨c, k, hi⟩ := h.writes
  obtain ⟨transition, w', hrun, hw⟩ := run_writeStatusBody deps found.status .api
    { bindApplicantId := truthy found.providerApplicantId } hr
  have hstate : (runService deps w (looking ++ .step i :: later ++ [.step i])).state = w' := by
    have hnext := congrArg Pool.state (Pool.next_step_some (exec deps) (Call.program deps) hi)
    rw [runService, Pool.run_concat]
    refine hnext.trans ?_
    change (execTransaction deps _ _).2 = w'
    rw [execTransaction, hrun]
  have hid : session.id = r.id := (Table.get_key hr).symm
  rw [hstate, Tables.statusOf, hid, hw.get_self, Option.map_some, hw.status]
  simp only [truthy_truthy]

/-- A reconciling read leaves the status that a later event delivered in place exactly when the
session is terminal by then, refuses the applicant that was found, or has the status found. -/
theorem reconciling_read_keeps_delivered_iff
    (h : ReconcilingRead deps w i session found looking later) :
    (∀ status, DeliveredSince deps w (looking ++ [.step i]) later session.id status →
      (runService deps w (looking ++ .step i :: later)).state.tables.statusOf session.id =
        some status →
      (runService deps w (looking ++ .step i :: later ++ [.step i])).state.tables.statusOf
        session.id = some status) ↔
    ∀ r, (runService deps w (looking ++ .step i :: later)).state.tables.sessions.get session.id =
        some r →
      DeliveredSince deps w (looking ++ [.step i]) later session.id r.status →
      r.status.Terminal ∨ ¬ r.AcceptsBinding (truthy found.providerApplicantId) ∨
        r.status = found.status := by
  constructor
  · intro hkeeps r hr hd
    have hst := hkeeps r.status hd (by rw [Tables.statusOf, hr, Option.map_some])
    rw [h.statusOf hr] at hst
    by_cases hacc : r.AcceptsBinding (truthy found.providerApplicantId)
    · by_cases ht : r.status.Terminal
      · exact Or.inl ht
      · rw [if_pos hacc, VerificationStatus.write_of_not_terminal ht] at hst
        exact Or.inr (Or.inr (Option.some.inj hst).symm)
    · exact Or.inr (Or.inl hacc)
  · intro hcond status hd hst
    obtain ⟨r, hr, rfl⟩ := Option.map_eq_some_iff.mp hst
    rw [h.statusOf hr]
    rcases hcond r hr hd with ht | hacc | hs
    · rw [VerificationStatus.write_of_terminal ht, ite_self]
    · rw [if_neg hacc]
    · rw [← hs, VerificationStatus.write_self, ite_self]

end Runs

def unrepaired : World :=
  worldOf [sessionOf "s" "u" (some "a") (some "basic") .initial 0 0] (by decide)

def lookingUp : List (Event Call) :=
  [.start (.status (some "u") (some "s")), .step 0]

def deliveryOf (status : VerificationStatus) : List (Event Call) :=
  [.start (.handleWebhookEvent (eventOf "a" "u" status (some "basic"))), .step 1, .step 1]

theorem reconcilingRead_deliveryOf (status : VerificationStatus) :
    ReconcilingRead (steadyDeps (steadyProvider none .pending none)) unrepaired 0
      (sessionOf "s" "u" (some "a") (some "basic") .initial 0 0) ⟨.pending, none⟩ lookingUp
      (deliveryOf status) where
  reads := ⟨_, [.start (.status (some "u") (some "s"))], [], rfl, List.not_mem_nil, rfl, rfl⟩
  notTerminal := by decide
  finds := rfl
  others := by simp [deliveryOf]

theorem deliveredSince_deliveryOf (status : VerificationStatus) :
    DeliveredSince (steadyDeps (steadyProvider none .pending none)) unrepaired
      (lookingUp ++ [.step 0]) (deliveryOf status) "s" status :=
  ⟨[.start (.handleWebhookEvent (eventOf "a" "u" status (some "basic"))), .step 1], 1, [], {},
    sessionOf "s" "u" (some "a") (some "basic") .initial 0 0, rfl, rfl, rfl, trivial, rfl⟩

/-- An approval survives the read that it overtakes. -/
theorem reconciling_read_keeps_delivered_iff_approved :
    (runService (steadyDeps (steadyProvider none .pending none)) unrepaired
      (lookingUp ++ .step 0 :: deliveryOf .approved ++ [.step 0])).state.tables.statusOf "s" =
      some .approved := by
  apply (reconciling_read_keeps_delivered_iff (reconcilingRead_deliveryOf .approved)).mpr
  · intro r hr _
    have hs : ((runService (steadyDeps (steadyProvider none .pending none)) unrepaired
        (lookingUp ++ .step 0 :: deliveryOf .approved)).state.tables.sessions.get
          (sessionOf "s" "u" (some "a") (some "basic") .initial 0 0).id).map (·.status) =
        some .approved := by
      decide +kernel
    rw [hr] at hs
    have hst : r.status = .approved := Option.some.inj hs
    exact Or.inl (by rw [hst]; decide)
  · exact deliveredSince_deliveryOf .approved
  · decide +kernel

/-- A decline does not: the read puts the session back to `pending`. -/
theorem reconciling_read_replaces_decline :
    ¬ ∀ (deps : VerificationServiceDeps) (w : World) (i : ℕ) (session : SessionRecord)
      (found : UserStatusLookup) (looking later : List (Event Call)),
      ReconcilingRead deps w i session found looking later →
      ∀ status, DeliveredSince deps w (looking ++ [.step i]) later session.id status →
        (runService deps w (looking ++ .step i :: later)).state.tables.statusOf session.id =
          some status →
        (runService deps w (looking ++ .step i :: later ++ [.step i])).state.tables.statusOf
          session.id = some status := by
  intro h
  have hkept := h _ _ _ _ _ _ _ (reconcilingRead_deliveryOf .declined) .declined
    (deliveredSince_deliveryOf .declined) (by decide +kernel)
  have hpending : (runService (steadyDeps (steadyProvider none .pending none)) unrepaired
      (lookingUp ++ .step 0 :: deliveryOf .declined ++ [.step 0])).state.tables.statusOf "s" =
      some .pending := by
    decide +kernel
  cases hpending.symm.trans hkept

end Kyc
