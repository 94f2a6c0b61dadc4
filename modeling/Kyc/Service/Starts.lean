import Kyc.Programs.Ghosts
import Kyc.Service.Sample
import Kyc.Service.Steps

/-! # The applicant that a start reports

Between the transaction that creates a session and the binding of the applicant that the
provider minted, an event may bind the session to another applicant. The binding is then
refused without an error, and the start reports the minted applicant all the same.
-/

namespace Kyc

variable (deps : VerificationServiceDeps)

def Tables.Binds (t : Tables) (sessionId applicantId : String) : Prop :=
  ∃ r, t.sessions.get sessionId = some r ∧ r.providerApplicantId = some applicantId

/-- A binding outside a transaction finds the session unbound or bound to the same applicant, and
the provider mints no applicant with an empty id. -/
def Unraced (w : World) (o : ServiceOp) : Bool :=
  match o with
  | .direct (.store (.bindApplicantId id applicantId)) =>
    match w.tables.sessions.get id with
    | some r => r.Accepts applicantId
    | none => true
  | .provider (.createSession userId opts) =>
    match deps.provider.createSession w.providerCalls.length userId opts with
    | .ok minted => minted.providerApplicantId ≠ some ""
    | .error _ => true
  | _ => true

abbrev Bound := Option (String × String)

/-- A start learns of a binding by making it, where nothing comes in between. -/
def Learns (w : World) (b : Bound) (o : ServiceOp) (b' : Bound) : Prop :=
  Unraced deps w o → ∀ id a, b' = some (id, a) →
    b = some (id, a) ∨ (exec deps o w).2.tables.Binds id a

def Reports (r : Except Thrown Reply) (b : Bound) : Prop :=
  ∀ result a, r = .ok (.started result) → result.applicantId = some a →
    b = some (result.sessionId, a)

section Programs

open Program

variable {deps}

theorem Tables.Keeps.binds {t t' : Tables} (h : t.Keeps t') {sessionId applicantId : String}
    (hb : t.Binds sessionId applicantId) : t'.Binds sessionId applicantId := by
  obtain ⟨r, hr, ha⟩ := hb
  obtain ⟨r', hr', hk⟩ := h r (Table.get_mem hr)
  refine ⟨r', ?_, ?_⟩
  · have hid : r'.id = sessionId :=
      (SessionRecord.id_of_identity hk.identity).trans (Table.get_key hr)
    rw [← hid]
    exact Table.get_of_mem hr'
  · rw [hk.applicant (by simp [ha]), ha]

theorem learns_nothing (w : World) (b : Bound) (o : ServiceOp) : Learns deps w b o b :=
  fun _ _ _ hb => Or.inl hb

theorem learns_bindApplicantId (w : World) (b : Bound) (id a : String) {r : SessionRecord}
    (hr : w.tables.sessions.get id = some r) :
    Learns deps w b (.direct (.store (.bindApplicantId id a))) (some (id, a)) := by
  intro hc id' a' hb
  cases hb
  right
  have hexec : exec deps (.direct (.store (.bindApplicantId id a))) w =
      (Tx.bindApplicantId id a).run (execTx deps) w :=
    (Program.run_perform (execTx deps) (TxOp.store (.bindApplicantId id a)) w).symm
  rw [hexec, run_bindApplicantId hr]
  refine ⟨r.withApplicant (deps.storeClock w.ticks) a, ?_, ?_⟩
  · have hid : (r.withApplicant (deps.storeClock w.ticks) a).id = id := by
      rw [SessionRecord.id_withApplicant, Table.get_key hr]
    conv_lhs => rw [← hid]
    exact Table.get_set_self _ _
  · have hacc : r.Accepts a := by simpa [Unraced, hr] using hc
    rw [SessionRecord.applicant_withApplicant, if_pos hacc]

/-- What is known once the provider has minted a session: an applicant with an empty id is passed
over, so a start that reports it reports no binding. -/
def Minted (sessionId : String) (r : Except Thrown ProviderSession) (b : Bound) : Prop :=
  ∀ minted, r = .ok minted →
    b = if minted.providerApplicantId = some "" then some (sessionId, "") else none

theorem createSession_learns (sessionId owner : String) (opts : CreateSessionOptions)
    {f : Thrown → Service Unit} {g : Thrown → Thrown} :
    (tryCatch (Provider.createSession owner opts) fun e => do f e; throw (g e)).WithGhost
      (exec deps) (fun _ => True) (Learns deps) (Minted sessionId) none := by
  apply WithGhost.tryCatch (Q := Minted sessionId)
  · apply withGhost_provider
    intro w _
    cases hm : deps.provider.createSession w.providerCalls.length owner opts with
    | error e =>
      refine ⟨none, learns_nothing w none _, fun minted h => ?_⟩
      cases hm.symm.trans h
    | ok minted =>
      refine ⟨if minted.providerApplicantId = some "" then some (sessionId, "") else none, ?_, ?_⟩
      · intro hc id a hb
        rw [if_neg (by simpa [Unraced, hm] using hc)] at hb
        cases hb
      · intro minted' h
        cases hm.symm.trans h
        rfl
  · intro e b _
    apply WithGhost.bind (Q := fun _ _ => True)
    · exact withGhost_idle _ (fun o w _ => learns_nothing w b o) fun _ => trivial
    · exact fun _ b' _ => withGhost_throw fun _ h => by cases h
    · exact fun _ _ _ _ h => by cases h
  · exact fun _ _ h => h

theorem bindApplicantId_learns (b : Bound) (id a : String) :
    (Service.direct (Tx.bindApplicantId id a)).WithGhost (exec deps) (fun _ => True) (Learns deps)
      (fun r b => ∀ session, r = .ok session → b = some (id, a)) b := by
  apply withGhost_store
  intro w _
  have hrun := Program.run_perform (execTx deps) (TxOp.store (.bindApplicantId id a)) w
  cases hr : w.tables.sessions.get id with
  | none =>
    refine ⟨b, learns_nothing w b _, fun session h => ?_⟩
    have herr := hrun.symm.trans (run_bindApplicantId_none hr a)
    rw [herr] at h
    cases h
  | some r => exact ⟨some (id, a), learns_bindApplicantId w b id a hr, fun _ _ => rfl⟩

/-- A start reports an applicant that it knows the session to be bound to. -/
theorem start_learns (userId : Option String) (input : Option JsonValue) :
    (Call.program deps (.start userId input)).WithGhost (exec deps) (fun _ => True) (Learns deps)
      Reports none := by
  apply WithGhost.bind (Q := fun r b => ∀ result a, r = .ok result → result.applicantId = some a →
    b = some (result.sessionId, a))
  · apply withGhost_ofExcept_bind _ fun _ _ _ h => by cases h
    intro owner _
    apply withGhost_ofExcept_bind _ fun _ _ _ h => by cases h
    intro opts _
    apply WithGhost.bind (Q := fun _ b => b = none) _ _ fun _ _ _ _ _ h => by cases h
    · exact withGhost_idle _ (fun o w _ => learns_nothing w none o) fun _ => rfl
    rintro session _ rfl
    apply (createSession_learns session.id owner opts).bind _ fun _ _ _ _ _ h => by cases h
    intro minted b hb
    have hb := hb minted rfl
    cases ht : truthy minted.providerApplicantId with
    | none =>
      apply withGhost_pure
      intro result a hr ha
      cases hr
      have ha' : minted.providerApplicantId = some a := ha
      have hempty : a = "" := by
        by_contra hne
        rw [truthy_eq_some.mpr ⟨ha', hne⟩] at ht
        cases ht
      subst hempty
      rw [hb, if_pos ha']
      rfl
    | some a =>
      apply (bindApplicantId_learns b session.id a).bind _ fun _ _ _ _ _ h => by cases h
      intro bound b' hb'
      apply withGhost_pure
      intro result a' hr ha
      cases hr
      have ha' : minted.providerApplicantId = some a' := ha
      obtain ⟨ht, -⟩ := truthy_eq_some.mp ht
      cases ht.symm.trans ha'
      exact hb' bound rfl
  · intro result b hb
    apply withGhost_pure
    intro result' a hr ha
    cases hr
    exact hb result a rfl ha
  · exact fun _ _ _ _ _ h => by cases h

theorem reports_reply {α : Type} (p : Service α) {f : α → Reply}
    (hf : ∀ a result, f a ≠ .started result) :
    (p >>= fun a => pure (f a)).WithGhost (exec deps) (fun _ => True) (Learns deps) Reports
      none := by
  apply WithGhost.bind (Q := fun _ b => b = none)
  · exact withGhost_idle p (fun o w _ => learns_nothing w none o) fun _ => rfl
  · rintro a _ rfl
    apply withGhost_pure
    intro result _ h
    cases hr : f a with
    | started result' => exact absurd hr (hf a result')
    | refreshed | viewed | processed | decided | transitioned =>
      rw [hr] at h
      cases h
  · exact fun _ _ _ _ _ h => by cases h

theorem Call.learns (c : Call) :
    (c.program deps).WithGhost (exec deps) (fun _ => True) (Learns deps) Reports none := by
  cases c with
  | start userId input => exact start_learns userId input
  | _ => exact reports_reply _ fun _ _ => by simp

end Programs

section Runs

variable {deps} {w : World}

theorem runService_keeps (hw : w.Fresh deps) (events later : List (Event Call)) :
    (runService deps w events).state.tables.Keeps
      (runService deps w (events ++ later)).state.tables :=
  (runService_evolves hw events later).keeps

/-- When no event binds a session in the gap of a start, and the provider mints no empty applicant
id, every start that reports an applicant reports the one its session is bound to. -/
theorem start_reports_binding (hw : w.Fresh deps) {events : List (Event Call)}
    (hm : Pool.Meets (exec deps) (Call.program deps) (fun w o => Unraced deps w o) (Pool.idle w)
      events) :
    ∀ i result a, (runService deps w events).outcome i = some (.ok (.started result)) →
      result.applicantId = some a →
      (runService deps w events).state.tables.Binds result.sessionId a := by
  intro i result a hout ha
  obtain ⟨t, hi, hr⟩ := Pool.exists_of_outcome hout
  have hghost := Pool.exists_ghost (Call.program deps)
    (K := fun evs (b : Bound) => ∀ id a, b = some (id, a) →
      (runService deps w evs).state.tables.Binds id a)
    hi (Call.learns t.call) (fun _ _ _ => trivial) (fun _ _ _ _ _ h => by cases h)
    (fun evs₁ ev evs₂ b _ hb id a he => (runService_keeps hw evs₁ [ev]).binds (hb id a he))
    (fun evs₁ evs₂ t' o k b b' he ht' hr' hs hn hb id a hb' => by
      subst he
      rcases hn (hm.of_step (Pool.awaited_eq_some ht' hr')) id a hb' with hold | hnew
      · exact (runService_keeps hw evs₁ [.step i]).binds (hb id a hold)
      · rw [runService, hs]
        exact hnew)
  obtain ⟨b, hb, hbound⟩ := hghost
  rw [hr] at hb
  exact hbound _ _ (hb result a rfl ha)

end Runs

def unracedRun : List (Event Call) :=
  [.start (.start (some "u") (some (startInput "basic"))), .step 0, .step 0,
    .start (.handleWebhookEvent (eventOf "a" "u" .pending (some "basic"))), .step 1, .step 1,
    .step 1, .step 0]

theorem start_reports_binding_unraced :
    (runService (steadyDeps (steadyProvider (some "a") .pending none)) .empty
      unracedRun).state.tables.Binds "x" "a" := by
  have hm : Pool.Meets (exec (steadyDeps (steadyProvider (some "a") .pending none)))
      (Call.program (steadyDeps (steadyProvider (some "a") .pending none)))
      (fun w o => Unraced (steadyDeps (steadyProvider (some "a") .pending none)) w o)
      (Pool.idle World.empty) unracedRun := by
    decide +kernel
  have hout : (runService (steadyDeps (steadyProvider (some "a") .pending none)) .empty
      unracedRun).outcome 0 = some (.ok (.started
        { sessionId := "x"
          provider := "sumsub"
          status := .initial
          applicantId := some "a"
          accessToken := "token"
          url := "https://kyc.example/hosted/x"
          allowedOrigin := "https://kyc.example" })) := by
    decide +kernel
  exact start_reports_binding (World.fresh_empty _) hm 0 _ "a" hout rfl

def racedRun : List (Event Call) :=
  [.start (.start (some "u") (some (startInput "basic"))), .step 0,
    .start (.handleWebhookEvent (eventOf "b" "u" .pending (some "basic"))), .step 1, .step 1,
    .step 1, .step 0, .step 0]

/-- The start reports the minted applicant, and its session is bound to the other one. -/
theorem start_reports_other_applicant :
    (runService (steadyDeps (steadyProvider (some "a") .pending none)) .empty
      racedRun).outcome 0 = some (.ok (.started
        { sessionId := "x"
          provider := "sumsub"
          status := .initial
          applicantId := some "a"
          accessToken := "token"
          url := "https://kyc.example/hosted/x"
          allowedOrigin := "https://kyc.example" })) ∧
    ((runService (steadyDeps (steadyProvider (some "a") .pending none)) .empty
      racedRun).state.tables.sessions.get "x").map (·.providerApplicantId) = some (some "b") := by
  decide +kernel

end Kyc
