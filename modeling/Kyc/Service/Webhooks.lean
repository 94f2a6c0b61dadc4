import Kyc.Service.Writes

/-! # Delivering an event

Where the two lookups of `handleWebhookEvent` lead, read off one state of the
tables, and how a delivery that nothing interrupts runs: it writes on the session
the lookups lead to and on no other.
-/

namespace Kyc

variable (deps : VerificationServiceDeps)

/-- The applicant's session that an event is about. -/
def knownSession (t : Tables) (event : WebhookEvent) : Option SessionRecord :=
  MemoryStore.getSessionByProviderApplicantId t event.providerApplicantId ⟨event.levelName⟩

/-- The user's session that an event opens, when the applicant's own one does not serve. -/
def openedSession (t : Tables) (event : WebhookEvent) (session : Option SessionRecord) :
    Option SessionRecord :=
  match truthy event.externalUserId with
  | some userId =>
    if session = none ∨ onAnotherLevel session event then
      MemoryStore.getLatestUnboundSessionForUser t userId deps.providerName
    else none
  | none => none

/-- The session an event writes on, and whether it binds its applicant to it. -/
def route (t : Tables) (event : WebhookEvent) : Option (SessionRecord × Bool) :=
  match openedSession deps t event (knownSession t event) with
  | some unbound => some (unbound, true)
  | none => (knownSession t event).map fun session => (session, false)

/-- The applicant that an event binds. -/
def WebhookEvent.binding (event : WebhookEvent) (needsBinding : Bool) : Option String :=
  truthy (if needsBinding then some event.providerApplicantId else none)

/-- Only the clock moved. -/
structure World.Reads (w w' : World) : Prop where
  tables : w'.tables = w.tables
  issued : w'.issued = w.issued
  providerCalls : w'.providerCalls = w.providerCalls
  effects : w'.effects = w.effects

namespace World

variable {w w' w'' : World}

theorem Reads.refl (w : World) : w.Reads w := ⟨rfl, rfl, rfl, rfl⟩

theorem reads_ticked (w : World) : w.Reads w.ticked := ⟨rfl, rfl, rfl, rfl⟩

theorem Reads.trans (h : w.Reads w') (h' : w'.Reads w'') : w.Reads w'' where
  tables := h'.tables.trans h.tables
  issued := h'.issued.trans h.issued
  providerCalls := h'.providerCalls.trans h.providerCalls
  effects := h'.effects.trans h.effects

end World

theorem Written.of_reads {w m w' : World} {r : SessionRecord} {new : VerificationStatus}
    {binding : Option String} {told : List StatusTransitionEvent} {transition : StatusTransition}
    (hr : w.Reads m) (h : Written m r new binding told transition w') :
    Written w r new binding told transition w' :=
  { h with
    sessions := by rw [h.sessions, hr.tables]
    evolves := hr.tables ▸ h.evolves
    issued := hr.issued ▸ h.issued
    providerCalls := h.providerCalls.trans hr.providerCalls
    effects := by rw [h.effects, hr.effects] }

section Route

variable {deps} {t : Tables} {event : WebhookEvent} {r : SessionRecord}

theorem knownSession_eq (t : Tables) (event : WebhookEvent) :
    knownSession t event =
      ((match truthy event.levelName with
        | some level =>
          newestSession (·.boundOn event.providerApplicantId level) t.sessions.rows
        | none => none).or
      (newestSession (·.inProgressOf event.providerApplicantId) t.sessions.rows)).or
      (newestSession (·.boundTo event.providerApplicantId) t.sessions.rows) :=
  pickSessionForApplicant_filter ..

theorem knownSession_mem (h : knownSession t event = some r) :
    r ∈ t.sessions.rows ∧ r.providerApplicantId = some event.providerApplicantId :=
  MemoryStore.getSessionByProviderApplicantId_mem h

theorem knownSession_eq_none : knownSession t event = none ↔
    ∀ s ∈ t.sessions.rows, s.providerApplicantId ≠ some event.providerApplicantId := by
  constructor
  · intro h s hs hb
    rw [knownSession_eq, Option.or_eq_none_iff] at h
    have := newest_eq_none.mp h.2 s hs
    rw [← Bool.not_eq_true, SessionRecord.boundTo_iff] at this
    exact this hb
  · intro h
    cases hk : knownSession t event with
    | none => rfl
    | some r =>
      obtain ⟨hm, hb⟩ := knownSession_mem hk
      exact absurd hb (h r hm)

theorem knownSession_onLevel {level : String} (hl : event.levelName = some level)
    (hne : level ≠ "") {s : SessionRecord} (hs : s ∈ t.sessions.rows)
    (hb : s.providerApplicantId = some event.providerApplicantId)
    (hsl : s.levelName = some level) :
    ∃ r, knownSession t event =
        newestSession (·.boundOn event.providerApplicantId level) t.sessions.rows ∧
      knownSession t event = some r ∧ r.levelName = some level := by
  obtain ⟨r, hr⟩ := newest_isSome SessionRecord.createdAt
    (p := (·.boundOn event.providerApplicantId level)) hs
    (SessionRecord.boundOn_iff.mpr ⟨hb, hsl⟩)
  have htr : truthy event.levelName = some level := truthy_eq_some.mpr ⟨hl, hne⟩
  have hk : knownSession t event = some r := by
    rw [knownSession_eq, htr]
    simp only [newestSession, hr, Option.some_or]
  refine ⟨r, by rw [hk, newestSession, hr], hk, ?_⟩
  exact (SessionRecord.boundOn_iff.mp (newest_prop hr)).2

theorem knownSession_offLevel (h : ∀ level, event.levelName = some level →
      ∀ s ∈ t.sessions.rows, s.providerApplicantId = some event.providerApplicantId →
        s.levelName ≠ some level) :
    knownSession t event =
      (newestSession (·.inProgressOf event.providerApplicantId) t.sessions.rows).or
        (newestSession (·.boundTo event.providerApplicantId) t.sessions.rows) := by
  rw [knownSession_eq]
  cases hl : truthy event.levelName with
  | none => simp only [Option.none_or]
  | some level =>
    have hn : newestSession (·.boundOn event.providerApplicantId level) t.sessions.rows = none := by
      apply newest_eq_none.mpr
      intro s hs
      rw [← Bool.not_eq_true, SessionRecord.boundOn_iff]
      rintro ⟨hb, hsl⟩
      exact h level (truthy_eq_some.mp hl).1 s hs hb hsl
    simp only [hn, Option.none_or]

theorem openedSession_mem {session : Option SessionRecord}
    (h : openedSession deps t event session = some r) :
    ∃ userId, truthy event.externalUserId = some userId ∧
      (session = none ∨ onAnotherLevel session event) ∧
      newestSession (·.unboundOf userId deps.providerName) t.sessions.rows = some r := by
  unfold openedSession at h
  split at h
  next userId hu =>
    split at h
    next hs =>
      rw [MemoryStore.getLatestUnboundSessionForUser_eq] at h
      exact ⟨userId, hu, hs, h⟩
    next => cases h
  next => cases h

theorem onAnotherLevel_some {level : String} (hl : event.levelName = some level) :
    onAnotherLevel (some r) event = true ↔ r.levelName ≠ some level := by
  simp [onAnotherLevel, hl]

theorem openedSession_eq {userId : String} {session : Option SessionRecord}
    (hu : truthy event.externalUserId = some userId)
    (hs : session = none ∨ onAnotherLevel session event) :
    openedSession deps t event session =
      newestSession (·.unboundOf userId deps.providerName) t.sessions.rows := by
  unfold openedSession
  rw [hu]
  simp only [if_pos hs]
  exact MemoryStore.getLatestUnboundSessionForUser_eq ..

theorem openedSession_eq_none_of_onLevel
    (h : ∀ level, event.levelName = some level → r.levelName = some level) :
    openedSession deps t event (some r) = none := by
  unfold openedSession
  split
  · rw [if_neg]
    rintro (hn | hn)
    · cases hn
    · unfold onAnotherLevel at hn
      split at hn
      next s level hs hl =>
        obtain rfl := Option.some.inj hs
        exact absurd (h level hl) (of_decide_eq_true hn)
      next => cases hn
  · rfl

theorem openedSession_eq_none_of_mem {level : String} (hl : event.levelName = some level)
    (hne : level ≠ "") {s : SessionRecord} (hs : s ∈ t.sessions.rows)
    (hb : s.providerApplicantId = some event.providerApplicantId)
    (hsl : s.levelName = some level) :
    openedSession deps t event (knownSession t event) = none := by
  obtain ⟨known, -, hk, hkl⟩ := knownSession_onLevel hl hne hs hb hsl
  rw [hk]
  apply openedSession_eq_none_of_onLevel
  intro level' hl'
  rw [hkl, ← hl, hl']

theorem fallback_of_offLevel {level : String} (hl : event.levelName = some level)
    (h : ∀ s ∈ t.sessions.rows, s.providerApplicantId = some event.providerApplicantId →
      s.levelName ≠ some level) :
    knownSession t event = none ∨ onAnotherLevel (knownSession t event) event := by
  cases hk : knownSession t event with
  | none => exact Or.inl rfl
  | some known =>
    right
    obtain ⟨hm, hb⟩ := knownSession_mem hk
    exact (onAnotherLevel_some hl).mpr (h known hm hb)

theorem route_eq_unbound : route deps t event = some (r, true) ↔
    openedSession deps t event (knownSession t event) = some r := by
  unfold route
  cases openedSession deps t event (knownSession t event) with
  | none => cases knownSession t event <;> simp
  | some u => simp

theorem route_eq_known : route deps t event = some (r, false) ↔
    openedSession deps t event (knownSession t event) = none ∧ knownSession t event = some r := by
  unfold route
  cases openedSession deps t event (knownSession t event) with
  | none => cases knownSession t event <;> simp
  | some u => simp

theorem level_of_route {level : String} {needsBinding : Bool} (hl : event.levelName = some level)
    (hne : level ≠ "") {s : SessionRecord} (hs : s ∈ t.sessions.rows)
    (hb : s.providerApplicantId = some event.providerApplicantId)
    (hsl : s.levelName = some level) (h : route deps t event = some (r, needsBinding)) :
    r.levelName = some level := by
  have ho : openedSession deps t event (knownSession t event) = none :=
    openedSession_eq_none_of_mem hl hne hs hb hsl
  cases needsBinding with
  | true =>
    rw [route_eq_unbound, ho] at h
    cases h
  | false =>
    obtain ⟨known, -, hk, hkl⟩ := knownSession_onLevel hl hne hs hb hsl
    obtain rfl := Option.some.inj (hk.symm.trans (route_eq_known.mp h).2)
    exact hkl

theorem route_mem {needsBinding : Bool} (h : route deps t event = some (r, needsBinding)) :
    t.sessions.get r.id = some r ∧ r.AcceptsBinding (event.binding needsBinding) := by
  cases needsBinding with
  | false =>
    obtain ⟨hm, -⟩ := knownSession_mem (route_eq_known.mp h).2
    exact ⟨Table.get_of_mem hm, trivial⟩
  | true =>
    obtain ⟨userId, -, -, hn⟩ := openedSession_mem (route_eq_unbound.mp h)
    refine ⟨Table.get_of_mem (newest_mem hn), ?_⟩
    have hu := (SessionRecord.unboundOf_iff.mp (newest_prop hn)).2.2
    unfold WebhookEvent.binding
    cases truthy (if true = true then some event.providerApplicantId else none) with
    | none => trivial
    | some a => exact Or.inl hu

end Route

section Run

variable {deps} {w : World} {event : WebhookEvent}

variable (deps) in
theorem run_unboundFor (w : World) (event : WebhookEvent) (session : Option SessionRecord) :
    ∃ w', (unboundFor deps event session).run (exec deps) w =
      (.ok (openedSession deps w.tables event session), w') ∧ w.Reads w' := by
  unfold unboundFor openedSession
  cases truthy event.externalUserId with
  | none => exact ⟨w, rfl, .refl w⟩
  | some userId =>
    by_cases hs : session = none ∨ onAnotherLevel session event
    · simp only [if_pos hs, Service.run_direct, Tx.run_getLatestUnboundSessionForUser]
      exact ⟨w.ticked, rfl, w.reads_ticked⟩
    · simp only [if_neg hs]
      exact ⟨w, rfl, .refl w⟩

theorem run_handleWebhookEvent_ignored (hs : event.status = none) :
    (handleWebhookEvent deps event).run (exec deps) w = (.ok .ignored_unknown_status, w) := by
  simp [handleWebhookEvent, hs]

variable (deps w) in
theorem run_handleWebhookEvent_lookups {newStatus : VerificationStatus}
    (hs : event.status = some newStatus) :
    ∃ m, w.Reads m ∧ (handleWebhookEvent deps event).run (exec deps) w =
      match route deps w.tables event with
      | some (r, needsBinding) => (applyEvent deps event newStatus r needsBinding).run (exec deps) m
      | none => (.ok .unknown_session, m) := by
  obtain ⟨m, hrun, hm⟩ :=
    run_unboundFor deps w.ticked event (knownSession w.tables event)
  refine ⟨m, w.reads_ticked.trans hm, ?_⟩
  have hk : MemoryStore.getSessionByProviderApplicantId w.tables event.providerApplicantId
      ⟨event.levelName⟩ = knownSession w.tables event := rfl
  simp only [handleWebhookEvent, hs, Program.run_bind, Service.run_direct,
    Tx.run_getSessionByProviderApplicantId, hk, hrun, World.tables_ticked, route]
  cases openedSession deps w.tables event (knownSession w.tables event) with
  | some u => rfl
  | none => cases knownSession w.tables event <;> rfl

theorem run_handleWebhookEvent_unknown {newStatus : VerificationStatus}
    (hs : event.status = some newStatus) (hr : route deps w.tables event = none) :
    ∃ w', (handleWebhookEvent deps event).run (exec deps) w = (.ok .unknown_session, w') ∧
      w.Reads w' := by
  obtain ⟨m, hm, hrun⟩ := run_handleWebhookEvent_lookups deps w hs
  rw [hr] at hrun
  exact ⟨m, hrun, hm⟩

theorem run_handleWebhookEvent {newStatus : VerificationStatus} {r : SessionRecord}
    {needsBinding : Bool} (hs : event.status = some newStatus)
    (hr : route deps w.tables event = some (r, needsBinding)) :
    ∃ transition w', (handleWebhookEvent deps event).run (exec deps) w =
      (.ok (.transition transition.outcome), w') ∧
      Written w r newStatus (event.binding needsBinding)
        (transition.told deps .webhook event.rejectLabels) transition w' := by
  obtain ⟨m, hm, hrun⟩ := run_handleWebhookEvent_lookups deps w hs
  have hg : m.tables.sessions.get r.id = some r := by
    rw [hm.tables]; exact (route_mem hr).1
  obtain ⟨transition, w', hrun', hw⟩ := run_applyStatusTransition deps newStatus .webhook
    { bindApplicantId := if needsBinding then some event.providerApplicantId else none
      rejectLabels := event.rejectLabels } hg
  refine ⟨transition, w', ?_, hw.of_reads hm⟩
  rw [hrun, hr]
  simp only [applyEvent, Program.run_bind, hrun', Program.run_pure]

variable (deps) in
/-- The world after one delivery of an event. -/
def deliver (w : World) (event : WebhookEvent) : World :=
  ((handleWebhookEvent deps event).run (exec deps) w).2

variable (deps) in
theorem after_handleWebhookEvent (w : World) (event : WebhookEvent) :
    Call.after deps (.handleWebhookEvent event) w = deliver deps w event := by
  simp only [Call.after, Call.program, deliver, Program.run_bind]
  rcases (handleWebhookEvent deps event).run (exec deps) w with ⟨_ | _, _⟩ <;> rfl

variable (deps) in
/-- A delivery only reads, or it writes on the session its lookups lead to. -/
theorem deliver_cases (w : World) (event : WebhookEvent) :
    ((event.status = none ∨ route deps w.tables event = none) ∧ w.Reads (deliver deps w event)) ∨
      ∃ newStatus r needsBinding transition, event.status = some newStatus ∧
        route deps w.tables event = some (r, needsBinding) ∧
        Written w r newStatus (event.binding needsBinding)
          (transition.told deps .webhook event.rejectLabels) transition (deliver deps w event) := by
  cases hs : event.status with
  | none =>
    left
    refine ⟨Or.inl rfl, ?_⟩
    rw [deliver, run_handleWebhookEvent_ignored hs]
    exact .refl w
  | some newStatus =>
    cases hr : route deps w.tables event with
    | none =>
      obtain ⟨w', hrun, hw⟩ := run_handleWebhookEvent_unknown hs hr
      left
      refine ⟨Or.inr rfl, ?_⟩
      rw [deliver, hrun]
      exact hw
    | some target =>
      obtain ⟨r, needsBinding⟩ := target
      obtain ⟨transition, w', hrun, hw⟩ := run_handleWebhookEvent hs hr
      right
      refine ⟨newStatus, r, needsBinding, transition, rfl, rfl, ?_⟩
      rw [deliver, hrun]
      exact hw

theorem deliver_standing_of_ne {id : String}
    (h : ∀ r needsBinding, route deps w.tables event = some (r, needsBinding) → id ≠ r.id) :
    (deliver deps w event).tables.standing id = w.tables.standing id := by
  rcases deliver_cases deps w event with
    ⟨-, hr⟩ | ⟨newStatus, r, needsBinding, transition, -, hr, hw⟩
  · rw [hr.tables]
  · exact hw.standing_of_ne (h r needsBinding hr)

end Run

end Kyc
