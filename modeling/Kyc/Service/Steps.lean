import Kyc.Programs.Ghosts
import Kyc.Service.Writes

/-! # What the service's calls can do to the store

Outside a transaction the calls only read, bind an applicant, and add entries that
are no status entries; the two transaction bodies do the rest. So the tables evolve
by elementary changes along every interleaving of calls.
-/

namespace Kyc

/-- The operations that calls make on the store outside a transaction. -/
def TxOp.Outside : TxOp → Prop
  | .store (.createSession _) => False
  | .store (.updateSessionStatus _ _) => False
  | .store (.appendAuditEntry entry) => entry.action ≠ .status_updated
  | .store _ => True
  | .newId => True

variable (deps : VerificationServiceDeps)

/-- The operations that a call of the service may await. -/
inductive Issued : ServiceOp → Prop
  | direct {o : TxOp} (h : o.Outside) : Issued (.direct o)
  | persist (owner : String) (opts : CreateSessionOptions) :
    Issued (.transaction (persistBody deps owner opts))
  | write (id : String) (status : VerificationStatus) (source : StatusSource)
      (options : ApplyStatusTransitionOptions) :
    Issued (.transaction (writeStatusBody id status source options))
  | provider (c : ProviderCall) : Issued (.provider c)
  | onStatusTransition (e : StatusTransitionEvent) : Issued (.onStatusTransition e)

/-- The operations by which a call adds an entry that is no status entry. -/
inductive Notes : ServiceOp → Prop
  | newId : Notes (.direct .newId)
  | append {entry : NewAuditEntry} (h : entry.action ≠ .status_updated) :
    Notes (.direct (.store (.appendAuditEntry entry)))

/-- The operations that write no status and do not tell the host of one. -/
inductive Silent : ServiceOp → Prop
  | direct {o : TxOp} (h : o.Outside) : Silent (.direct o)
  | persist (owner : String) (opts : CreateSessionOptions) :
    Silent (.transaction (persistBody deps owner opts))
  | provider (c : ProviderCall) : Silent (.provider c)

/-- The provider calls that mint a token for a session that exists already. -/
def ProviderCall.Mints : ProviderCall → Prop
  | .refreshToken _ _ => True
  | _ => False

/-- The predicate holds of the operations that every call may make. -/
structure Admits (P : ServiceOp → Prop) : Prop where
  direct : ∀ {o : TxOp}, o.Outside → P (.direct o)
  persist : ∀ owner opts, P (.transaction (persistBody deps owner opts))
  provider : ∀ {c : ProviderCall}, ¬ c.Mints → P (.provider c)

/-- It also holds of the write of a status, and of the effect that follows it. -/
structure AdmitsWrites (P : ServiceOp → Prop) : Prop extends Admits deps P where
  write : ∀ id status source options, P (.transaction (writeStatusBody id status source options))
  effect : ∀ e, P (.onStatusTransition e)

section Uses

open Program

variable {deps}

variable (deps) in
theorem Notes.silent {o : ServiceOp} (h : Notes o) : Silent deps o := by
  cases h with
  | newId => exact .direct trivial
  | append h => exact .direct h

theorem Silent.issued {o : ServiceOp} (h : Silent deps o) : Issued deps o := by
  cases h with
  | direct h => exact .direct h
  | persist => exact .persist ..
  | provider c => exact .provider c

theorem Silent.admits : Admits deps (Silent deps) where
  direct := .direct
  persist := .persist
  provider _ := .provider _

theorem Issued.admits : AdmitsWrites deps (Issued deps) where
  direct := .direct
  persist := .persist
  provider _ := .provider _
  write := .write
  effect := .onStatusTransition

variable {P : ServiceOp → Prop}

theorem uses_direct (hP : Admits deps P) {α : Type} {body : Tx α} (h : body.Uses TxOp.Outside) :
    (Service.direct body).Uses P :=
  h.expand fun _ ho => uses_perform.mpr (hP.direct ho)

theorem uses_store (hP : Admits deps P) {o : StoreOp} (ho : TxOp.Outside (.store o)) :
    (Service.direct (Tx.store o)).Uses P :=
  uses_direct hP (uses_perform.mpr ho)

theorem notes_audit {action : AuditAction} (ha : action ≠ .status_updated) (sessionId : String)
    (metadata : Option AuditMetadata) :
    (Service.direct (audit sessionId action metadata)).Uses Notes := by
  refine Uses.expand (Q := fun o => Notes (.direct o)) ?_ fun _ ho => uses_perform.mpr ho
  apply Uses.bind (uses_perform.mpr .newId)
  intro id
  exact uses_perform.mpr (.append ha)

theorem uses_audit (hP : Admits deps P) {action : AuditAction} (ha : action ≠ .status_updated)
    (sessionId : String) (metadata : Option AuditMetadata) :
    (Service.direct (audit sessionId action metadata)).Uses P := by
  apply (notes_audit ha sessionId metadata).mono
  rintro _ (_ | ⟨h⟩)
  · exact hP.direct trivial
  · exact hP.direct h

theorem uses_provider (hP : Admits deps P) {c : ProviderCall} (hc : ¬ c.Mints) :
    (Service.provider c).Uses P :=
  uses_perform.mpr (hP.provider hc)

theorem uses_requireOwned (hP : Admits deps P) (id userId : String) :
    (requireOwned id userId).Uses P := by
  refine Uses.bind (uses_store hP trivial) fun found => ?_
  cases found <;> trivial

theorem uses_runEffects (hP : AdmitsWrites deps P) (id : String) (source : StatusSource)
    (transition : StatusTransition) (rejectLabels : Option (List String)) :
    (runEffects deps id source transition rejectLabels).Uses P := by
  unfold runEffects
  split
  · apply Uses.tryCatch (uses_perform.mpr (hP.effect _))
    intro e
    exact uses_audit hP.toAdmits (by simp) ..
  · trivial

theorem uses_applyStatusTransition (hP : AdmitsWrites deps P) (id : String)
    (status : VerificationStatus) (source : StatusSource) (options : ApplyStatusTransitionOptions) :
    (applyStatusTransition deps id status source options).Uses P := by
  apply Uses.bind (uses_perform.mpr (hP.write ..))
  intro transition
  exact Uses.bind (uses_runEffects hP ..) fun _ => trivial

theorem uses_lookup (hP : Admits deps P) (session : SessionRecord) :
    (lookup deps session).Uses P := by
  unfold lookup
  split
  · exact Uses.bind (uses_provider hP id) fun _ => trivial
  · split
    · exact Uses.bind (uses_provider hP id) fun _ => trivial
    · trivial

theorem uses_reconcile (hP : AdmitsWrites deps P) (session : SessionRecord) :
    (reconcile deps session).Uses P := by
  unfold reconcile
  split
  · trivial
  · refine Uses.tryCatch (Uses.bind (uses_lookup hP.toAdmits session) fun found => ?_)
      fun _ => trivial
    cases found with
    | none => trivial
    | some found => exact Uses.bind (uses_applyStatusTransition hP ..) fun _ => trivial

theorem uses_start (hP : Admits deps P) (userId : Option String) (input : Option JsonValue) :
    (start deps userId input).Uses P := by
  refine Uses.bind (uses_ofExcept _) fun owner => Uses.bind (uses_ofExcept _) fun opts => ?_
  refine Uses.bind ?_ fun session => Uses.bind ?_ fun minted => ?_
  · exact Uses.tryCatch (uses_perform.mpr (hP.persist owner opts)) fun _ => trivial
  · apply Uses.tryCatch (uses_provider hP id)
    intro e
    exact Uses.bind (uses_audit hP (by simp) ..) fun _ => trivial
  · cases truthy minted.providerApplicantId with
    | none => trivial
    | some applicantId =>
      exact Uses.bind (uses_store hP trivial) fun _ => trivial

theorem uses_refresh (userId sessionId : Option String) :
    (refresh userId sessionId).Uses (Silent deps) := by
  refine Uses.bind (uses_ofExcept _) fun owner => Uses.bind (uses_ofExcept _) fun id => ?_
  apply Uses.bind (uses_requireOwned Silent.admits _ _)
  intro session
  dsimp only
  split
  · trivial
  · refine Uses.bind (Uses.tryCatch (uses_perform.mpr (.provider _)) fun _ => trivial)
      fun token => ?_
    exact Uses.bind (uses_audit Silent.admits (by simp) ..) fun _ => trivial

theorem uses_status (hP : AdmitsWrites deps P) (userId id : Option String) :
    (status deps userId id).Uses P := by
  refine Uses.bind (uses_ofExcept _) fun owner => Uses.bind (uses_ofExcept _) fun id => ?_
  apply Uses.bind (uses_requireOwned hP.toAdmits _ _)
  intro session
  exact Uses.bind (uses_reconcile hP _) fun _ => trivial

theorem uses_latestForUser (hP : AdmitsWrites deps P) (userId : Option String)
    (reconciling : Bool) : (latestForUser deps userId reconciling).Uses P := by
  apply Uses.bind (uses_ofExcept _)
  intro owner
  apply Uses.bind (uses_store hP.toAdmits (o := .getLatestSessionForUser _ _) trivial)
  intro found
  cases found with
  | none => trivial
  | some session =>
    cases reconciling with
    | false => trivial
    | true => exact Uses.bind (uses_reconcile hP _) fun _ => trivial

theorem uses_unboundFor (hP : Admits deps P) (event : WebhookEvent)
    (session : Option SessionRecord) : (unboundFor deps event session).Uses P := by
  unfold unboundFor
  split
  · split
    · exact uses_store hP trivial
    · trivial
  · trivial

theorem uses_handleWebhookEvent (hP : AdmitsWrites deps P) (event : WebhookEvent) :
    (handleWebhookEvent deps event).Uses P := by
  have happly : ∀ newStatus session needsBinding,
      (applyEvent deps event newStatus session needsBinding).Uses P := by
    intro newStatus session needsBinding
    exact Uses.bind (uses_applyStatusTransition hP ..) fun _ => trivial
  unfold handleWebhookEvent
  cases event.status with
  | none => trivial
  | some newStatus =>
    apply Uses.bind (uses_store hP.toAdmits (o := .getSessionByProviderApplicantId _ _) trivial)
    intro session
    apply Uses.bind (uses_unboundFor hP.toAdmits event session)
    intro unbound
    cases unbound with
    | some unbound => exact happly _ _ _
    | none => cases session with
      | some session => exact happly _ _ _
      | none => trivial

theorem uses_hostedPage (sessionId : String) :
    (hostedPage deps sessionId).Uses (Silent deps) := by
  refine Uses.bind (uses_store Silent.admits trivial) fun found => ?_
  cases found with
  | none => trivial
  | some session =>
    dsimp only
    split
    · trivial
    · refine Uses.tryCatch (Uses.bind (uses_perform.mpr (.provider _)) fun _ => trivial)
        fun _ => trivial

/-- The calls that may mint a token. -/
def Call.MayMint : Call → Prop
  | .refresh _ _ => True
  | .hostedPage _ => True
  | _ => False

theorem Call.uses_of_not_mayMint (hP : AdmitsWrites deps P) {c : Call} (hc : ¬ c.MayMint) :
    (c.program deps).Uses P := by
  cases c with
  | start => exact Uses.bind (uses_start hP.toAdmits ..) fun _ => trivial
  | refresh | hostedPage => exact absurd trivial hc
  | status => exact Uses.bind (uses_status hP ..) fun _ => trivial
  | latestForUser => exact Uses.bind (uses_latestForUser hP ..) fun _ => trivial
  | handleWebhookEvent => exact Uses.bind (uses_handleWebhookEvent hP ..) fun _ => trivial
  | applyStatusTransition => exact Uses.bind (uses_applyStatusTransition hP ..) fun _ => trivial

/-- No call ever awaits anything else: there is one path that writes a status. -/
theorem Call.uses_issued (c : Call) : (c.program deps).Uses (Issued deps) := by
  cases c with
  | refresh => exact Uses.bind ((uses_refresh ..).mono fun _ => Silent.issued) fun _ => trivial
  | hostedPage =>
    exact Uses.bind ((uses_hostedPage ..).mono fun _ => Silent.issued) fun _ => trivial
  | _ => exact uses_of_not_mayMint Issued.admits id

end Uses

section Ghosts

open Program

variable {deps} {γ : Type} {I : World → Prop} {N : World → γ → ServiceOp → γ → Prop} {g : γ}

theorem withGhost_store {o : StoreOp} {Q : Except Thrown o.Ans → γ → Prop}
    (ho : ∀ w, I w → ∃ g', N w g (.direct (.store o)) g' ∧ Q (execTx deps (.store o) w).1 g') :
    (Service.direct (Tx.store o)).WithGhost (exec deps) I N Q g := by
  intro w hw
  obtain ⟨g', hn, hQ⟩ := ho w hw
  refine ⟨g', hn, ?_⟩
  cases hr : (execTx deps (.store o) w).1 with
  | ok a =>
    simp only [exec, hr]
    rwa [hr] at hQ
  | error e =>
    simp only [exec, hr]
    rwa [hr] at hQ

theorem withGhost_provider {c : ProviderCall} {Q : Except Thrown c.Ans → γ → Prop}
    (hc : ∀ w, I w → ∃ g', N w g (.provider c) g' ∧
      Q (deps.provider.answer w.providerCalls.length c) g') :
    (Service.provider c).WithGhost (exec deps) I N Q g :=
  withGhost_perform (S := ServiceSig) (o := .provider c) hc

theorem withGhost_transaction {β : Type} {body : Tx β} {Q : Except Thrown β → γ → Prop}
    (hb : ∀ w, I w → ∃ g', N w g (.transaction body) g' ∧ Q (execTransaction deps body w).1 g') :
    (Service.transaction body).WithGhost (exec deps) I N Q g :=
  withGhost_perform (S := ServiceSig) (o := .transaction body) hb

theorem withGhost_ofExcept_bind {α β : Type} {r : Except Thrown α} {f : α → Service β}
    {Q : Except Thrown β → γ → Prop} (hf : ∀ a, r = .ok a → (f a).WithGhost (exec deps) I N Q g)
    (he : ∀ e, Q (.error e) g) : (Program.ofExcept r >>= f).WithGhost (exec deps) I N Q g := by
  cases r with
  | ok a => exact hf a rfl
  | error e => exact he e

end Ghosts

theorem World.Fresh.of_ids {w w' : World} (h : w.Fresh deps) (hi : w.issued ≤ w'.issued)
    (hr : ∀ r' ∈ w'.tables.sessions.rows, ∃ r ∈ w.tables.sessions.rows, r.id = r'.id) :
    w'.Fresh deps := by
  intro r' hr' n hn
  obtain ⟨r, hr, hid⟩ := hr r' hr'
  rw [← hid]
  exact h r hr n (hi.trans hn)

theorem World.Fresh.of_sessions {w w' : World} (h : w.Fresh deps) (hi : w.issued ≤ w'.issued)
    (hs : w'.tables.sessions = w.tables.sessions) : w'.Fresh deps :=
  h.of_ids deps hi fun r hr => ⟨r, hs ▸ hr, rfl⟩

theorem World.Fresh.of_set {w w' : World} (h : w.Fresh deps) (hi : w.issued ≤ w'.issued)
    {r r' : SessionRecord} (hr : r ∈ w.tables.sessions.rows) (hid : r'.id = r.id)
    (hs : w'.tables.sessions = w.tables.sessions.set r') : w'.Fresh deps := by
  apply h.of_ids deps hi
  intro s hs'
  rw [hs] at hs'
  rcases Tables.mem_rows_setSession (t := w.tables) hs' with rfl | ⟨hm, -⟩
  · exact ⟨r, hr, hid.symm⟩
  · exact ⟨s, hm, rfl⟩

variable {deps} {w : World}

variable (deps) in
theorem TxOp.Outside.exec {o : TxOp} (ho : o.Outside) (w : World) :
    Evolves w.tables (execTx deps o w).2.tables ∧ w.issued ≤ (execTx deps o w).2.issued ∧
      ∀ r' ∈ (execTx deps o w).2.tables.sessions.rows,
        ∃ r ∈ w.tables.sessions.rows, r.id = r'.id := by
  cases o with
  | newId => exact ⟨.refl, Nat.le_succ _, fun r hr => ⟨r, hr, rfl⟩⟩
  | store o =>
    cases o with
    | createSession | updateSessionStatus => exact ho.elim
    | appendAuditEntry entry => exact ⟨.single (.noted ho), le_rfl, fun r hr => ⟨r, hr, rfl⟩⟩
    | bindApplicantId id a =>
      have hrun := Program.run_perform (execTx deps) (TxOp.store (.bindApplicantId id a)) w
      cases h : w.tables.sessions.get id with
      | none =>
        have he := hrun.symm.trans (run_bindApplicantId_none h a)
        rw [he]
        exact ⟨.refl, le_rfl, fun r hr => ⟨r, hr, rfl⟩⟩
      | some r =>
        have he := hrun.symm.trans (run_bindApplicantId h a)
        rw [he]
        have hr : w.tables.sessions.get r.id = some r := by rwa [Table.get_key h]
        refine ⟨.single (.bound hr _ a), le_rfl, fun r' hr' => ?_⟩
        rcases Tables.mem_rows_setSession hr' with rfl | ⟨hm, -⟩
        · exact ⟨r, Table.get_mem h, (SessionRecord.id_withApplicant ..).symm⟩
        · exact ⟨r', hm, rfl⟩
    | _ => exact ⟨.refl, le_rfl, fun r hr => ⟨r, hr, rfl⟩⟩

variable (deps) in
/-- The transaction behind a status write advances the tables, also when it throws. -/
theorem exec_write (w : World) (id : String) (status : VerificationStatus) (source : StatusSource)
    (options : ApplyStatusTransitionOptions) :
    let w' := (execTransaction deps (writeStatusBody id status source options) w).2
    Evolves w.tables w'.tables ∧ (w.Fresh deps → w'.Fresh deps) := by
  unfold execTransaction
  cases h : w.tables.sessions.get id with
  | none =>
    rw [run_writeStatusBody_none status source options h]
    exact ⟨.refl, fun hf => hf⟩
  | some r =>
    obtain ⟨transition, w', hrun, hw⟩ :=
      run_writeStatusBody deps status source options h
    rw [hrun]
    refine ⟨hw.evolves, fun hf => hf.of_set deps hw.issued (Table.get_mem h) ?_ hw.sessions⟩
    exact SessionRecord.id_of_identity hw.identity

/-- Every operation of a call advances the tables and keeps ids fresh. -/
theorem Issued.advances {o : ServiceOp} (ho : Issued deps o) (hf : w.Fresh deps) :
    Evolves w.tables (exec deps o w).2.tables ∧ (exec deps o w).2.Fresh deps := by
  cases ho with
  | direct ho =>
    obtain ⟨he, hi, hr⟩ := ho.exec deps w
    exact ⟨he, hf.of_ids deps hi hr⟩
  | persist owner opts =>
    have hrun : exec deps (.transaction (persistBody deps owner opts)) w =
        (.ok (newRecord deps w owner opts), w.withNew deps owner opts) := by
      simp only [exec, execTransaction, run_persistBody]
    rw [hrun]
    refine ⟨evolves_withNew deps w owner opts hf, ?_⟩
    intro r hr n hn
    have hn' : w.issued + 1 + 1 ≤ n := hn
    rcases Tables.mem_rows_setSession (t := w.tables) hr with rfl | ⟨hm, -⟩
    · intro hid
      have := deps.newId.injective hid
      omega
    · exact hf r hm n (by omega)
  | write id status source options =>
    obtain ⟨he, hw⟩ := exec_write deps w id status source options
    exact ⟨he, hw hf⟩
  | provider c => exact ⟨.refl, hf⟩
  | onStatusTransition e => exact ⟨.refl, hf⟩

variable (deps) in
theorem World.fresh_empty : World.empty.Fresh deps := by
  intro r hr
  exact absurd hr List.not_mem_nil

section Run

theorem runService_uses (w : World) (events : List (Event Call)) :
    (runService deps w events).Uses (Issued deps) :=
  (Pool.uses_idle w).run Call.uses_issued events

theorem runService_fresh (hw : w.Fresh deps) (events : List (Event Call)) :
    (runService deps w events).state.Fresh deps :=
  (Pool.uses_idle w).run_invariant (I := World.Fresh deps) Call.uses_issued
    (fun _ _ ho hs => (ho.advances hs).2) hw events

/-- From any moment of a run to any later one the tables evolve. -/
theorem runService_evolves (hw : w.Fresh deps) (events events' : List (Event Call)) :
    Evolves (runService deps w events).state.tables
      (runService deps w (events ++ events')).state.tables := by
  rw [runService, runService, Pool.run_append]
  exact (runService_uses w events).run_rel Call.uses_issued (I := World.Fresh deps)
    (G := fun w w' => Evolves w.tables w'.tables) (fun _ _ ho hs => (ho.advances hs).2)
    (fun _ => .refl) .trans (fun _ _ ho hs => (ho.advances hs).1) (runService_fresh hw events)
    events'

end Run

end Kyc
