import Kyc.Programs.Linearization
import Kyc.Service.Sample
import Kyc.Service.Webhooks
import Kyc.Store.Alike
import Mathlib.Data.List.Permutation

/-! # Concurrent deliveries

A delivery looks up its session in one or two steps and writes in another one, so
other deliveries may commit in between. When it commits on what its lookups would
still find, and gives up only where they would still find nothing, the deliveries
end where they do one after the other, in the order in which they commit.
-/

namespace Kyc

variable {deps : VerificationServiceDeps} {event : WebhookEvent} {new : VerificationStatus}

section Alike

variable {t t' : Tables}

theorem knownSession_alike (h : t.Alike t') (event : WebhookEvent) :
    (knownSession t event).map SessionRecord.untimed =
      (knownSession t' event).map SessionRecord.untimed := by
  have hp := h.newest (p := (·.inProgressOf event.providerApplicantId)) fun _ => rfl
  have hb := h.newest (p := (·.boundTo event.providerApplicantId)) fun _ => rfl
  rw [knownSession_eq, knownSession_eq, Option.map_or, Option.map_or, Option.map_or, Option.map_or,
    hp, hb]
  cases truthy event.levelName with
  | none => rfl
  | some level =>
    have hl := h.newest (p := (·.boundOn event.providerApplicantId level)) fun _ => rfl
    dsimp only
    rw [hl]

variable (deps event) in
theorem openedSession_alike (h : t.Alike t') {s s' : Option SessionRecord}
    (hs : s.map SessionRecord.untimed = s'.map SessionRecord.untimed) :
    (openedSession deps t event s).map SessionRecord.untimed =
      (openedSession deps t' event s').map SessionRecord.untimed := by
  have hcase : (s = none ∨ onAnotherLevel s event) ↔ (s' = none ∨ onAnotherLevel s' event) := by
    cases s with
    | none => cases s' with
      | none => exact Iff.rfl
      | some r' => cases hs
    | some r => cases s' with
      | none => cases hs
      | some r' =>
        have hl := SessionRecord.levelName_of_untimed (Option.some.inj hs)
        simp only [reduceCtorEq, false_or, onAnotherLevel]
        cases event.levelName with
        | none => exact Iff.rfl
        | some level => dsimp only; rw [hl]
  unfold openedSession
  cases truthy event.externalUserId with
  | none => rfl
  | some userId =>
    dsimp only
    by_cases hc : s = none ∨ onAnotherLevel s event
    · rw [if_pos hc, if_pos (hcase.mp hc), MemoryStore.getLatestUnboundSessionForUser_eq,
        MemoryStore.getLatestUnboundSessionForUser_eq]
      exact h.newest fun _ => rfl
    · rw [if_neg hc, if_neg fun hc' => hc (hcase.mpr hc')]

variable (deps) in
/-- Alike tables route an event to alike sessions. -/
theorem route_alike (h : t.Alike t') (event : WebhookEvent) :
    (route deps t event).map (Prod.map SessionRecord.untimed id) =
      (route deps t' event).map (Prod.map SessionRecord.untimed id) := by
  have hk := knownSession_alike h event
  have ho := openedSession_alike deps event h hk
  unfold route
  cases hot : openedSession deps t event (knownSession t event) with
  | none =>
    rw [hot, Option.map_none, eq_comm, Option.map_eq_none_iff] at ho
    rw [ho]
    have hmap : ∀ o : Option SessionRecord,
        (o.map fun s => (s, false)).map (Prod.map SessionRecord.untimed id) =
          (o.map SessionRecord.untimed).map fun s => (s, false) := by
      intro o
      cases o <;> rfl
    dsimp only
    rw [hmap, hmap, hk]
  | some u =>
    rw [hot, Option.map_some, eq_comm, Option.map_eq_some_iff] at ho
    obtain ⟨u', hu', hu⟩ := ho
    rw [hu']
    dsimp only [Option.map_some, Prod.map]
    rw [hu]

end Alike

/-- Writing the same on alike sessions of alike tables leaves alike tables. -/
theorem Written.alike {w w' m m' : World} {r r' : SessionRecord} {binding : Option String}
    {told told' : List StatusTransitionEvent} {transition transition' : StatusTransition}
    (hw : Written w r new binding told transition m)
    (hw' : Written w' r' new binding told' transition' m')
    (h : w.tables.Alike w'.tables) (hr : w.tables.sessions.get r.id = some r)
    (hr' : w'.tables.sessions.get r'.id = some r') (hrr : r.untimed = r'.untimed) :
    m.tables.Alike m'.tables := by
  obtain ⟨hid, hst⟩ := SessionRecord.untimed_eq_iff.mp hrr
  have hs : r.status = r'.status := congrArg Prod.fst hst
  have ha : r.providerApplicantId = r'.providerApplicantId := congrArg Prod.snd hst
  have hacc : r.AcceptsBinding binding ↔ r'.AcceptsBinding binding := by
    cases binding with
    | none => exact Iff.rfl
    | some a => change r.Accepts a ↔ r'.Accepts a; unfold SessionRecord.Accepts; rw [ha]
  refine h.set (by rw [hw.id]; exact hr) (by rw [hw'.id]; exact hr') ?_ hw.sessions hw'.sessions
  refine SessionRecord.untimed_eq_iff.mpr ⟨?_, Prod.ext ?_ ?_⟩
  · rw [hw.identity, hw'.identity, hid]
  · have h₁ := hw.status
    have h₂ := hw'.status
    simp only [← hacc, ← hs] at h₂
    exact h₁.trans h₂.symm
  · have h₁ := hw.applicant
    have h₂ := hw'.applicant
    simp only [← hacc, ← ha] at h₂
    exact h₁.trans h₂.symm

theorem Written.without_binding {w m : World} {r : SessionRecord} {binding : Option String}
    {told : List StatusTransitionEvent} {transition : StatusTransition}
    (h : Written w r new binding told transition m)
    (hb : ∀ a ∈ binding, r.providerApplicantId = some a) :
    Written w r new none told transition m := by
  have hacc : r.AcceptsBinding binding := by
    cases binding with
    | none => trivial
    | some a => exact Or.inr (hb a rfl)
  have hor : binding.or r.providerApplicantId = r.providerApplicantId := by
    cases binding with
    | none => rfl
    | some a => exact (hb a rfl).symm
  have hs := h.status
  have ha := h.applicant
  have ho := h.outcome
  rw [if_pos hacc] at hs ha ho
  exact { h with status := hs, applicant := ha.trans hor, outcome := ho }

/-- Operations after a commit: none of them touches a session. -/
def ServiceOp.SparesSessions : ServiceOp → Prop
  | .onStatusTransition _ => True
  | .direct .newId => True
  | .direct (.store (.appendAuditEntry _)) => True
  | _ => False

section Phases

open Program

def replied (p : Service WebhookOutcome) : Service Reply := do pure (.processed (← p))

/-- What is left of a delivery once its first lookup has answered. -/
def afterLookup (deps : VerificationServiceDeps) (event : WebhookEvent) (new : VerificationStatus)
    (session : Option SessionRecord) : Service WebhookOutcome := do
  match ← unboundFor deps event session, session with
  | some unbound, _ => applyEvent deps event new unbound true
  | none, some session => applyEvent deps event new session false
  | none, none => pure .unknown_session

/-- A delivery whose first lookup gave this answer tries the second one. -/
def WebhookEvent.TriesFallback (event : WebhookEvent) (session : Option SessionRecord) : Prop :=
  truthy event.externalUserId ≠ none ∧ (session = none ∨ onAnotherLevel session event)

/-- What the lookups of a delivery have led it to. -/
def arrived (deps : VerificationServiceDeps) (event : WebhookEvent) (new : VerificationStatus) :
    Option (SessionRecord × Bool) → Service Reply
  | some (session, needsBinding) => replied (applyEvent deps event new session needsBinding)
  | none => .ret (.processed .unknown_session)

theorem ServiceOp.SparesSessions.sessions {o : ServiceOp} (ho : o.SparesSessions) (w : World) :
    (exec deps o w).2.tables.sessions = w.tables.sessions := by
  match o, ho with
  | .onStatusTransition _, _ => rfl
  | .direct .newId, _ => rfl
  | .direct (.store (.appendAuditEntry _)), _ => rfl

theorem runEffects_sparesSessions (id : String) (source : StatusSource)
    (transition : StatusTransition)
    (rejectLabels : Option (List String)) :
    (runEffects deps id source transition rejectLabels).Uses ServiceOp.SparesSessions := by
  unfold runEffects
  split
  · apply Uses.tryCatch (uses_perform.mpr trivial)
    intro e
    have ha : ∀ metadata, (audit id .effect_failed metadata).Uses fun o =>
        (ServiceOp.direct o).SparesSessions := fun _ =>
      Uses.bind (uses_perform.mpr trivial) fun _ => uses_perform.mpr trivial
    exact (ha _).expand fun _ ho => uses_perform.mpr ho
  · trivial

theorem openedSession_of_not_tries {t : Tables} {session : Option SessionRecord}
    (hn : ¬ event.TriesFallback session) : openedSession deps t event session = none := by
  unfold openedSession
  cases hx : truthy event.externalUserId with
  | none => rfl
  | some userId =>
    dsimp only
    rw [if_neg fun hc => hn ⟨by simp [hx], hc⟩]

variable (w : World)

theorem advance_fresh (hs : event.status = some new) :
    (Call.program deps (.handleWebhookEvent event)).advance (exec deps) w =
      (replied (afterLookup deps event new (knownSession w.tables event)), w.ticked) := by
  simp only [Call.program, handleWebhookEvent, hs]
  rfl

theorem fresh_ignored (hs : event.status = none) :
    Call.program deps (.handleWebhookEvent event) =
      .ret (.processed .ignored_unknown_status) := by
  simp only [Call.program, handleWebhookEvent, hs]
  rfl

theorem afterLookup_decided {session : Option SessionRecord}
    (hn : ¬ event.TriesFallback session) :
    replied (afterLookup deps event new session) =
      arrived deps event new (session.map fun s => (s, false)) := by
  have hu : unboundFor deps event session = pure none := by
    unfold unboundFor
    cases hx : truthy event.externalUserId with
    | none => rfl
    | some userId =>
      dsimp only
      rw [if_neg fun hc => hn ⟨by simp [hx], hc⟩]
  unfold afterLookup
  rw [hu]
  cases session <;> rfl

theorem advance_getLatestUnbound (userId provider : String)
    (f : Option SessionRecord → Service WebhookOutcome) :
    (replied (Service.direct (Tx.getLatestUnboundSessionForUser userId provider) >>= f)).advance
        (exec deps) w =
      (replied (f (MemoryStore.getLatestUnboundSessionForUser w.tables userId provider)),
        w.ticked) :=
  rfl

theorem advance_transaction {β : Type} {body : Tx β} {b : β} {w' : World}
    (hx : execTransaction deps body w = (.ok b, w')) (f : β → Service StatusTransition)
    (g : StatusTransition → Service WebhookOutcome) :
    (replied (Service.transaction body >>= f >>= g)).advance (exec deps) w =
      (replied (f b >>= g), w') := by
  have hp : replied (Service.transaction body >>= f >>= g) =
      .await (.transaction body) fun r => replied (Program.ofExcept r >>= f >>= g) := by
    refine congrArg (Program.await (S := ServiceSig) (.transaction body)) (funext fun r => ?_)
    cases r <;> rfl
  rw [hp]
  change (replied (Program.ofExcept (execTransaction deps body w).1 >>= f >>= g),
    (execTransaction deps body w).2) = _
  rw [hx]
  rfl

theorem WebhookEvent.TriesFallback.unboundFor_eq {session : Option SessionRecord}
    {userId : String} (ht : event.TriesFallback session)
    (hu : truthy event.externalUserId = some userId) :
    unboundFor deps event session =
      Service.direct (Tx.getLatestUnboundSessionForUser userId deps.providerName) := by
  unfold unboundFor
  rw [hu]
  simp only [if_pos ht.2]

theorem advance_afterLookup {session : Option SessionRecord} (ht : event.TriesFallback session) :
    (replied (afterLookup deps event new session)).advance (exec deps) w =
      (arrived deps event new (match openedSession deps w.tables event session with
        | some unbound => some (unbound, true)
        | none => session.map fun s => (s, false)), w.ticked) := by
  obtain ⟨userId, hu⟩ := Option.ne_none_iff_exists'.mp ht.1
  have hop : openedSession deps w.tables event session =
      MemoryStore.getLatestUnboundSessionForUser w.tables userId deps.providerName := by
    unfold openedSession
    rw [hu]
    simp only [if_pos ht.2]
  unfold afterLookup
  rw [ht.unboundFor_eq hu, hop, advance_getLatestUnbound]
  cases MemoryStore.getLatestUnboundSessionForUser w.tables userId deps.providerName with
  | some u => rfl
  | none => cases session <;> rfl

theorem await_afterLookup {session : Option SessionRecord} (ht : event.TriesFallback session) :
    ∃ o k, replied (afterLookup deps event new session) = .await o k ∧ ¬ o.SparesSessions := by
  obtain ⟨userId, hu⟩ := Option.ne_none_iff_exists'.mp ht.1
  unfold afterLookup
  rw [ht.unboundFor_eq hu]
  exact ⟨_, _, rfl, id⟩

theorem await_applyEvent (r : SessionRecord) (needsBinding : Bool) :
    ∃ o k, replied (applyEvent deps event new r needsBinding) = .await o k ∧ ¬ o.SparesSessions :=
  ⟨_, _, rfl, id⟩

variable (deps event new) in
theorem advance_applyEvent {r : SessionRecord} {needsBinding : Bool}
    (hg : w.tables.sessions.get r.id = some r) :
    ∃ transition p w', (replied (applyEvent deps event new r needsBinding)).advance (exec deps) w =
        (p, w') ∧ p.Uses ServiceOp.SparesSessions ∧
      Written w r new (event.binding needsBinding) [] transition w' := by
  obtain ⟨transition, w', hrun, hw⟩ := run_writeStatusBody deps new .webhook
    { bindApplicantId := if needsBinding then some event.providerApplicantId else none
      rejectLabels := event.rejectLabels } hg
  have hx : execTransaction deps (writeStatusBody r.id new .webhook
      { bindApplicantId := if needsBinding then some event.providerApplicantId else none
        rejectLabels := event.rejectLabels }) w = (.ok transition, w') := by
    rw [execTransaction, hrun]
  exact ⟨transition, _, w', advance_transaction w hx _ _,
    Uses.bind (Uses.bind (Uses.bind (runEffects_sparesSessions ..) fun _ => trivial)
      fun _ => trivial) fun _ => trivial, hw⟩

end Phases

/-- Where a delivery has got to in its run, and what it still relies on there is up to date. -/
inductive UpToDate (deps : VerificationServiceDeps) (t : Tables) (event : WebhookEvent) :
    Service Reply → Prop
  | first : UpToDate deps t event (Call.program deps (.handleWebhookEvent event))
  /-- It gives up for want of a session only when its first lookup would still find none. -/
  | second {new : VerificationStatus} {session : Option SessionRecord}
      (status : event.status = some new) (tries : event.TriesFallback session)
      (found : session = none → openedSession deps t event none = none →
        knownSession t event = none) :
      UpToDate deps t event (replied (afterLookup deps event new session))
  /-- It commits on the session to which its lookups would still lead. -/
  | commit {new : VerificationStatus} {r session : SessionRecord} {needsBinding binds : Bool}
      (status : event.status = some new) (leads : route deps t event = some (session, binds))
      (id : session.id = r.id) (binding : binds = true → needsBinding = true) :
      UpToDate deps t event (replied (applyEvent deps event new r needsBinding))
  | done {p : Service Reply} (spares : p.Uses ServiceOp.SparesSessions) : UpToDate deps t event p

section Linearization

open Program

def PendingDelivery (c : Call) (p : Service Reply) : Prop :=
  ∃ event, c = .handleWebhookEvent event ∧
    ((event.status = none ∧ ∃ reply, p = .ret reply) ∨ ∃ o k, p = .await o k ∧ ¬ o.SparesSessions)

/-- Each step of a delivery is taken where it is up to date. -/
def DeliversUpToDate (deps : VerificationServiceDeps) (c : Call) (w : World) (p : Service Reply) :
    Prop :=
  ∀ event, c = .handleWebhookEvent event → UpToDate deps w.tables event p

variable {w a : World}

theorem deliver_alike_of_nowhere (h : w.tables.Alike a.tables)
    (hr : route deps w.tables event = none) :
    w.tables.Alike (deliver deps a event).tables := by
  have hra : route deps a.tables event = none := by
    have := route_alike deps h event
    rw [hr] at this
    exact Option.map_eq_none_iff.mp this.symm
  rcases deliver_cases deps a event with ⟨-, hd⟩ | ⟨_, r, b, _, -, hr', -⟩
  · rw [hd.tables]; exact h
  · rw [hra] at hr'; cases hr'

/-- A commit where the lookups still lead does what a delivery in its place does. -/
theorem commit_alike {r session : SessionRecord} {needsBinding binds : Bool}
    (h : w.tables.Alike a.tables) (hs : event.status = some new)
    (hr : route deps w.tables event = some (session, binds)) (hid : session.id = r.id)
    (hb : binds = true → needsBinding = true) :
    ∃ p w', (replied (applyEvent deps event new r needsBinding)).advance (exec deps) w = (p, w') ∧
      p.Uses ServiceOp.SparesSessions ∧ w'.tables.Alike (deliver deps a event).tables := by
  obtain ⟨hg, -⟩ := route_mem hr
  obtain ⟨⟨r', binds'⟩, hra, heq⟩ := Option.map_eq_some_iff.mp
    ((route_alike deps h event).symm.trans (congrArg _ hr))
  obtain ⟨hrr, rfl⟩ := Prod.mk.inj heq
  have happly : applyEvent deps event new r needsBinding =
      applyEvent deps event new session needsBinding := by
    rw [applyEvent, applyEvent, hid]
  obtain ⟨transition, p, w', hadv, hp, hw⟩ :=
    advance_applyEvent deps event new w hg
  refine ⟨p, w', happly ▸ hadv, hp, ?_⟩
  have hw' : Written w session new (event.binding binds') [] transition w' := by
    cases binds' with
    | true => rwa [hb rfl] at hw
    | false =>
      apply hw.without_binding
      intro x hx
      have hk := (knownSession_mem (route_eq_known.mp hr).2).2
      cases needsBinding with
      | false => cases hx
      | true =>
        have hx' : truthy (some event.providerApplicantId) = some x := hx
        rw [hk, (truthy_eq_some.mp hx').1]
  rcases deliver_cases deps a event with ⟨hn, -⟩ | ⟨new', s', b', transition', hs', hr', hd⟩
  · rw [hs, hra] at hn
    rcases hn with hn | hn <;> cases hn
  · rw [hs] at hs'
    rw [hra] at hr'
    cases hs'
    cases hr'
    exact hw'.alike hd h hg (route_mem hra).1 hrr.symm

/-- After a step the delivery is still pending, or it has just acted. -/
def StepsOn (deps : VerificationServiceDeps) (event : WebhookEvent) (a : World)
    (next : Service Reply × World) : Prop :=
  (PendingDelivery (.handleWebhookEvent event) next.1 ∧ next.2.tables.Alike a.tables) ∨
    (next.1.Uses ServiceOp.SparesSessions ∧
      next.2.tables.Alike (deliver deps a event).tables)

theorem stepsOn_arrived (h : w.tables.Alike a.tables) {target : Option (SessionRecord × Bool)}
    (hn : target = none → route deps w.tables event = none) :
    StepsOn deps event a (arrived deps event new target, w.ticked) := by
  cases target with
  | none => exact Or.inr ⟨trivial, deliver_alike_of_nowhere h (hn rfl)⟩
  | some target =>
    exact Or.inl ⟨⟨event, rfl, Or.inr (await_applyEvent target.1 target.2)⟩, h⟩

theorem stepsOn_first (h : w.tables.Alike a.tables) :
    StepsOn deps event a
      ((Call.program deps (.handleWebhookEvent event)).advance (exec deps) w) := by
  cases hs : event.status with
  | none =>
    rw [fresh_ignored hs]
    exact Or.inl ⟨⟨event, rfl, Or.inl ⟨hs, _, rfl⟩⟩, h⟩
  | some new =>
    rw [advance_fresh w hs]
    by_cases ht : event.TriesFallback (knownSession w.tables event)
    · exact Or.inl ⟨⟨event, rfl, Or.inr (await_afterLookup ht)⟩, h⟩
    · rw [afterLookup_decided ht]
      apply stepsOn_arrived h
      intro hn
      rw [route, openedSession_of_not_tries ht]
      exact hn

theorem stepsOn_second (h : w.tables.Alike a.tables) {session : Option SessionRecord}
    (ht : event.TriesFallback session)
    (hf : session = none → openedSession deps w.tables event none = none →
      knownSession w.tables event = none) :
    StepsOn deps event a
      ((replied (afterLookup deps event new session)).advance (exec deps) w) := by
  rw [advance_afterLookup w ht]
  apply stepsOn_arrived h
  intro hn
  cases hop : openedSession deps w.tables event session with
  | some u => rw [hop] at hn; cases hn
  | none =>
    rw [hop, Option.map_eq_none_iff] at hn
    subst hn
    rw [route, hf rfl hop, hop]
    rfl

/-- A delivery acts at the step at which it commits or gives up. -/
theorem linearizes_deliveries (deps : VerificationServiceDeps) :
    Pool.Linearizes (exec deps) (fun w a : World => w.tables.Alike a.tables) (Call.after deps)
      (DeliversUpToDate deps) PendingDelivery (Program.Uses ServiceOp.SparesSessions) where
  pending_step := by
    rintro c p w a ⟨event, rfl, hp⟩ hc h
    rw [after_handleWebhookEvent]
    cases hc event rfl with
    | first => exact stepsOn_first h
    | second hs ht hf => exact stepsOn_second h ht hf
    | commit hs hr hid hb =>
      obtain ⟨p, w', hadv, hp', hw⟩ := commit_alike h hs hr hid hb
      rw [hadv]
      exact Or.inr ⟨hp', hw⟩
    | done hspares =>
      rcases hp with ⟨hs, reply, rfl⟩ | ⟨o, k, rfl, ho⟩
      · exact Or.inl ⟨⟨event, rfl, Or.inl ⟨hs, reply, rfl⟩⟩, h⟩
      · exact absurd hspares.1 ho
  done_step := by
    intro p w a hp h
    cases p with
    | ret | err => exact ⟨trivial, h⟩
    | await o k => exact ⟨hp.2 _, (Tables.alike_of_sessions (hp.1.sessions w)).trans h⟩

end Linearization

section Runs

variable (deps) in
def deliverAll (w : World) (events : List WebhookEvent) : World :=
  Pool.inOrder (fun event w => deliver deps w event) events w

variable (deps) in
def deliverAtOnce (w : World) (events : List WebhookEvent) (steps : List ℕ) : ServicePool :=
  runService deps w ((events.map .handleWebhookEvent).map .start ++ steps.map .step)

theorem pendingDelivery_program (event : WebhookEvent) :
    PendingDelivery (.handleWebhookEvent event)
      (Call.program deps (.handleWebhookEvent event)) := by
  refine ⟨event, rfl, ?_⟩
  cases hs : event.status with
  | none => exact Or.inl ⟨rfl, _, fresh_ignored hs⟩
  | some new =>
    right
    simp only [Call.program, handleWebhookEvent, hs]
    exact ⟨_, _, rfl, id⟩

/-- Deliveries that have all settled end where they do one after the other, in some order. -/
theorem deliverAtOnce_alike {w : World} {events : List WebhookEvent} {steps : List ℕ}
    (hc : Pool.StepsMeet (exec deps) (Call.program deps) (DeliversUpToDate deps)
      (deliverAtOnce deps w events []) steps)
    (hsettled : ∀ t ∈ (deliverAtOnce deps w events steps).threads, t.rest.result ≠ none) :
    ∃ events', events'.Perm events ∧
      (deliverAtOnce deps w events steps).state.tables.Alike
        (deliverAll deps w events').tables := by
  have hc' : Pool.StepsMeet (exec deps) (Call.program deps) (DeliversUpToDate deps)
      ((Pool.idle w).run (exec deps) (Call.program deps)
        ((events.map .handleWebhookEvent).map .start)) steps := by
    have hrun : deliverAtOnce deps w events [] = (Pool.idle w).run (exec deps) (Call.program deps)
        ((events.map .handleWebhookEvent).map .start) := by
      rw [deliverAtOnce, List.map_nil, List.append_nil, runService]
    rwa [hrun] at hc
  have hfresh : ∀ c ∈ events.map .handleWebhookEvent, PendingDelivery c (c.program deps) := by
    intro c hcall
    obtain ⟨event, -, rfl⟩ := List.mem_map.mp hcall
    exact pendingDelivery_program event
  obtain ⟨calls, hperm, h⟩ := (linearizes_deliveries deps).serial (a := w) (Tables.Alike.refl _)
    hfresh hc' (by
      rintro c p ⟨event, rfl, ⟨hs, -⟩ | ⟨o, k, rfl, -⟩⟩ ht a
      · rw [after_handleWebhookEvent, deliver, run_handleWebhookEvent_ignored hs]
      · exact absurd rfl (hsettled _ ht))
  obtain ⟨events', rfl, hevents⟩ :=
    (congrFun₂ (List.eq_map_comp_perm Call.handleWebhookEvent) calls events).mpr hperm
  refine ⟨events', hevents, ?_⟩
  have hall : Pool.inOrder (Call.after deps) (events'.map .handleWebhookEvent) w =
      deliverAll deps w events' := by
    rw [Pool.inOrder, List.foldl_map, deliverAll, Pool.inOrder]
    simp only [after_handleWebhookEvent]
  rwa [hall] at h

/-- Two deliveries at once leave every session as they do one after the other, in one order or
the other, when each step of them is up to date. -/
theorem concurrent_deliveries_serializable {w : World} {event₁ event₂ : WebhookEvent}
    {steps : List ℕ}
    (hc : Pool.StepsMeet (exec deps) (Call.program deps) (DeliversUpToDate deps)
      (deliverAtOnce deps w [event₁, event₂] []) steps)
    (hsettled : ∀ t ∈ (deliverAtOnce deps w [event₁, event₂] steps).threads,
      t.rest.result ≠ none) :
    (∀ id, (deliverAtOnce deps w [event₁, event₂] steps).state.tables.standing id =
        (deliver deps (deliver deps w event₁) event₂).tables.standing id) ∨
      ∀ id, (deliverAtOnce deps w [event₁, event₂] steps).state.tables.standing id =
        (deliver deps (deliver deps w event₂) event₁).tables.standing id := by
  obtain ⟨events, hperm, h⟩ := deliverAtOnce_alike hc hsettled
  rcases List.perm_pair.mp hperm with rfl | rfl
  · exact Or.inl h.standing_eq
  · exact Or.inr h.standing_eq

end Runs

def unboundWorld : World :=
  worldOf [sessionOf "s" "u" none none .initial 0 0] (by decide)

/-- Both deliveries find the unbound session before either commits on it. -/
theorem concurrent_deliveries_serializable_racing :
    (∀ id, (deliverAtOnce bareDeps unboundWorld
        [eventOf "a" "u" .pending none, eventOf "a" "u" .approved none]
        [0, 1, 0, 1, 0, 1]).state.tables.standing id =
      (deliver bareDeps
        (deliver bareDeps unboundWorld
          (eventOf "a" "u" .pending none)) (eventOf "a" "u" .approved none)).tables.standing id) ∨
    (∀ id, (deliverAtOnce bareDeps unboundWorld
        [eventOf "a" "u" .pending none, eventOf "a" "u" .approved none]
        [0, 1, 0, 1, 0, 1]).state.tables.standing id =
      (deliver bareDeps
        (deliver bareDeps unboundWorld
          (eventOf "a" "u" .approved none))
          (eventOf "a" "u" .pending none)).tables.standing id) := by
  refine concurrent_deliveries_serializable ?_ (by decide +kernel)
  have htries : ∀ s, (eventOf "a" "u" s none).TriesFallback none := fun s => ⟨nofun, Or.inl rfl⟩
  have hcommit : ∀ {t : Tables} {s : VerificationStatus} (session : SessionRecord) (b : Bool),
      route bareDeps t (eventOf "a" "u" s none) =
        some (session, b) → session.id = "s" →
      UpToDate bareDeps t (eventOf "a" "u" s none)
        (replied (applyEvent bareDeps
          (eventOf "a" "u" s none) s (sessionOf "s" "u" none none .initial 0 0) true)) :=
    fun _ _ hr hid => .commit rfl hr hid fun _ => rfl
  refine ⟨?_, ?_, ?_, ?_, ?_, ?_, trivial⟩ <;> intro t ht event he <;>
    obtain rfl := Option.some.inj ht <;> cases he
  · exact .first
  · exact .first
  · exact .second rfl (htries _) fun _ _ => by decide +kernel
  · exact .second rfl (htries _) fun _ _ => by decide +kernel
  · exact hcommit (sessionOf "s" "u" none none .initial 0 0) true (by decide +kernel) rfl
  · exact hcommit (sessionOf "s" "u" (some "a") none .pending 0 5) false (by decide +kernel) rfl

/-- The approval looks its applicant up before the pending event is bound, and the user's unbound
session afterwards: it finds neither, and is lost. -/
theorem concurrent_approval_lost :
    (deliverAtOnce bareDeps unboundWorld
      [eventOf "a" "u" .pending none, eventOf "a" "u" .approved none]
      [1, 0, 0, 0, 1]).threads.map (·.rest.result) =
        [some (.ok (.processed (.transition (.write .updated)))),
          some (.ok (.processed .unknown_session))] ∧
    (deliverAtOnce bareDeps unboundWorld
      [eventOf "a" "u" .pending none, eventOf "a" "u" .approved none]
      [1, 0, 0, 0, 1]).state.tables.standing "s" = some (.pending, some "a") ∧
    (deliver bareDeps
      (deliver bareDeps unboundWorld
        (eventOf "a" "u" .pending none)) (eventOf "a" "u" .approved none)).tables.standing "s" =
          some (.approved, some "a") ∧
    (deliver bareDeps
      (deliver bareDeps unboundWorld
        (eventOf "a" "u" .approved none)) (eventOf "a" "u" .pending none)).tables.standing "s" =
          some (.approved, some "a") := by
  refine ⟨?_, ?_, ?_, ?_⟩ <;> decide +kernel

end Kyc
