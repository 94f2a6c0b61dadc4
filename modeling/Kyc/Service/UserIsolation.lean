import Kyc.Programs.Projection
import Kyc.Service.Sample
import Kyc.Service.Steps
import Kyc.Store.Users

/-! # Users do not see each other

The calls that a user makes are blind to everything but the user's own sessions and the
audit entries about them: they answer, and change the user's part of the store, as they
do in a store that holds nothing else, and they leave the rest as it is.
-/

namespace Kyc

def World.only (userId : String) (w : World) : World := { w with tables := w.tables.only userId }

/-- The ids that are still to be handed out appear nowhere in the store. -/
structure World.Unissued (deps : VerificationServiceDeps) (w : World) : Prop where
  sessions : w.Fresh deps
  audit : ∀ e ∈ w.tables.audit, ∀ n, w.issued ≤ n → e.sessionId ≠ deps.newId n

/-- Ids are fresh, and the rest of the store is the given one. -/
structure Kept (deps : VerificationServiceDeps) (userId : String)
    (rest : List SessionRecord × List AuditEntry) (w : World) : Prop where
  others : w.tables.others userId = rest
  unissued : w.Unissued deps

/-- A state in which the session with the id is the user's. -/
structure KeptOwning (deps : VerificationServiceDeps) (userId : String)
    (rest : List SessionRecord × List AuditEntry) (id : String) (w : World) : Prop
    extends Kept deps userId rest w where
  owns : w.tables.owns userId id

section Writes

variable {deps : VerificationServiceDeps} {userId id : String}
  {rest : List SessionRecord × List AuditEntry} {w w' : World} {r s : SessionRecord}

theorem Kept.of_tables (h : Kept deps userId rest w) (ht : w'.tables = w.tables)
    (hi : w.issued ≤ w'.issued) : Kept deps userId rest w' where
  others := ht ▸ h.others
  unissued :=
    { sessions := h.unissued.sessions.of_sessions deps hi (by rw [ht])
      audit := fun e he n hn => h.unissued.audit e (ht ▸ he) n (hi.trans hn) }

theorem KeptOwning.of_tables (h : KeptOwning deps userId rest id w) (ht : w'.tables = w.tables)
    (hi : w.issued ≤ w'.issued) : KeptOwning deps userId rest id w' :=
  { h.toKept.of_tables ht hi with owns := ht ▸ h.owns }

theorem KeptOwning.get (h : KeptOwning deps userId rest id w) :
    ∃ r, w.tables.sessions.get id = some r ∧ r.userId = userId :=
  Tables.owns_iff.mp h.owns

/-- The session's row is rewritten. -/
theorem KeptOwning.withSession (h : KeptOwning deps userId rest id w)
    (hs : w.tables.sessions.get id = some s) (hr : r.identity = s.identity) :
    KeptOwning deps userId rest id (w.withSession r) ∧
      (w.withSession r).only userId = (w.only userId).withSession r := by
  obtain ⟨s', hs', hu⟩ := h.get
  obtain rfl := Option.some.inj (hs.symm.trans hs')
  have hid : r.id = id := (SessionRecord.id_of_identity hr).trans (Table.get_key hs)
  have hru : r.userId = userId := (SessionRecord.userId_of_identity hr).trans hu
  have hm : w.tables.Mine userId r :=
    { user := hru
      old := by
        intro s' hs'
        rw [hid, hs] at hs'
        obtain rfl := Option.some.inj hs'
        exact hu
      new := by
        rw [hid, hs]
        intro hn
        cases hn }
  refine ⟨⟨⟨?_, ?_, ?_⟩, ?_⟩, ?_⟩
  · exact hm.others_setSession.trans h.others
  · exact h.unissued.sessions.of_set deps le_rfl (Table.get_mem hs)
      (SessionRecord.id_of_identity hr) rfl
  · exact h.unissued.audit
  · change (w.tables.setSession r).owns userId id
    rw [Tables.owns_setSession hru, h.owns, Bool.or_true]
  · exact congrArg (fun t => ({ w with tables := t, ticks := w.ticks + 1 } : World))
      hm.only_setSession

/-- An entry about the session is added. -/
theorem KeptOwning.withAudit (h : KeptOwning deps userId rest id w) (action : AuditAction)
    (metadata : AuditMetadata) :
    KeptOwning deps userId rest id (w.withAudit deps id action metadata) ∧
      (w.withAudit deps id action metadata).only userId =
        (w.only userId).withAudit deps id action metadata := by
  obtain ⟨r, hr, -⟩ := h.get
  refine ⟨⟨⟨?_, ?_, ?_⟩, h.owns⟩, ?_⟩
  · exact (Tables.others_addAudit h.owns).trans h.others
  · exact h.unissued.sessions.of_sessions deps (Nat.le_succ _) rfl
  · intro e he n hn
    have hn : w.issued ≤ n := (Nat.le_succ _).trans hn
    rcases List.mem_append.mp he with he | he
    · exact h.unissued.audit e he n hn
    · rw [List.mem_singleton.mp he]
      have := h.unissued.sessions r (Table.get_mem hr) n hn
      rwa [Table.get_key hr] at this
  · have ho : (w.withAudit deps id action metadata).tables.only userId =
        (w.tables.only userId).addAudit
          ⟨deps.newId w.issued, id, action, deps.storeClock w.ticks, metadata⟩ :=
      Tables.only_addAudit h.owns
    exact congrArg (fun t => ({ w with
      tables := t, ticks := w.ticks + 1, issued := w.issued + 1 } : World)) ho

theorem KeptOwning.withEntry (h : KeptOwning deps userId rest id w)
    (entry : Option (AuditAction × AuditMetadata)) :
    KeptOwning deps userId rest id (w.withEntry deps id entry) ∧
      (w.withEntry deps id entry).only userId = (w.only userId).withEntry deps id entry := by
  cases entry with
  | none => exact ⟨h, rfl⟩
  | some e => exact h.withAudit e.1 e.2

/-- A session of the user's is created under a fresh id. -/
theorem Kept.withNew (h : Kept deps userId rest w) (opts : CreateSessionOptions) :
    KeptOwning deps userId rest (deps.newId w.issued) (w.withNew deps userId opts) ∧
      (w.withNew deps userId opts).only userId = (w.only userId).withNew deps userId opts := by
  set r := newRecord deps w userId opts with hr
  have hnew : w.tables.sessions.get r.id = none :=
    Table.get_eq_none.mpr fun s hs => h.unissued.sessions s hs w.issued le_rfl
  have hm : w.tables.Mine userId r :=
    { user := rfl
      old := by simp [hnew]
      new := fun _ e he => h.unissued.audit e he w.issued le_rfl }
  have hcreated : KeptOwning deps userId rest (deps.newId w.issued)
      ({ w with issued := w.issued + 1 }.withSession r) := by
    refine ⟨⟨hm.others_setSession.trans h.others, ?_, ?_⟩, ?_⟩
    · intro s hs n hn
      have hn' : w.issued + 1 ≤ n := hn
      rcases Tables.mem_rows_setSession (t := w.tables) hs with rfl | ⟨hs, -⟩
      · intro hid
        have := deps.newId.injective hid
        omega
      · exact h.unissued.sessions s hs n (by omega)
    · intro e he n hn
      have hn' : w.issued + 1 ≤ n := hn
      exact h.unissued.audit e he n (by omega)
    · change (w.tables.setSession r).owns userId r.id
      rw [Tables.owns_setSession hm.user, decide_eq_true rfl, Bool.true_or]
  obtain ⟨hk, ho⟩ := hcreated.withAudit .session_created
    { userId := some userId
      provider := some deps.providerName
      platform := some opts.platform
      levelName := opts.levelName }
  refine ⟨hk, ho.trans ?_⟩
  have hset : ({ w with issued := w.issued + 1 }.withSession r).only userId =
      ({ w.only userId with issued := w.issued + 1 } : World).withSession r :=
    congrArg (fun t => ({ w with
      tables := t, ticks := w.ticks + 1, issued := w.issued + 1 } : World)) hm.only_setSession
  rw [hset]
  rfl

end Writes

section Programs

open Program

variable {deps : VerificationServiceDeps} {userId id : String}
  {rest : List SessionRecord × List AuditEntry} {α : Type}

theorem blind_direct {body : Tx α} {I : World → Prop} {Q : Except Thrown α → World → Prop}
    (h : body.Blind (execTx deps) (World.only userId) I Q) :
    (Service.direct body).Blind (exec deps) (World.only userId) I Q := by
  intro w hw
  rw [Service.run_direct, Service.run_direct]
  exact h w hw

theorem blind_transaction {body : Tx α} {I : World → Prop} {Q : α → World → Prop}
    (h : body.Blind (execTx deps) (World.only userId) I (Returns Q)) :
    (Service.transaction body).Blind (exec deps) (World.only userId) I (Returns Q) := by
  intro w hw
  obtain ⟨hrun, hQ⟩ := h w hw
  rw [Service.run_transaction, Service.run_transaction, execTransaction, execTransaction, hrun]
  cases hr : body.run (execTx deps) w with
  | mk r w' =>
    rw [hr] at hQ
    cases r with
    | ok a => exact ⟨rfl, hQ⟩
    | error e => exact hQ.elim

theorem blind_provider (c : ProviderCall) {I : World → Prop}
    (hI : ∀ w calls, I w → I (w.asked calls)) :
    (Service.provider c).Blind (exec deps) (World.only userId) I fun _ => I := by
  refine blind_of_run fun w hw => ⟨_, _, Service.run_provider deps w c, ?_, hI w [c] hw⟩
  exact Service.run_provider deps (w.only userId) c

theorem blind_audit (action : AuditAction) (metadata : AuditMetadata) :
    (audit id action (some metadata)).Blind (execTx deps) (World.only userId)
      (KeptOwning deps userId rest id) (Returns fun _ => KeptOwning deps userId rest id) := by
  apply blind_of_run
  intro w hw
  obtain ⟨hk, ho⟩ := hw.withAudit action metadata
  refine ⟨_, _, run_audit deps w id action metadata, ?_, hk⟩
  rw [run_audit, ho]

theorem blind_bindApplicantId (applicantId : String) :
    (Tx.bindApplicantId id applicantId).Blind (execTx deps) (World.only userId)
      (KeptOwning deps userId rest id) (Returns fun _ => KeptOwning deps userId rest id) := by
  apply blind_of_run
  intro w hw
  obtain ⟨r, hr, hu⟩ := hw.get
  obtain ⟨hk, ho⟩ := hw.withSession hr
    (SessionRecord.identity_withApplicant (deps.storeClock w.ticks) applicantId r)
  refine ⟨_, _, run_bindApplicantId hr applicantId, ?_, hk⟩
  rw [ho]
  exact run_bindApplicantId (w := w.only userId) (Tables.get_only_of_owned hr hu) applicantId

theorem blind_persistBody (opts : CreateSessionOptions) :
    (persistBody deps userId opts).Blind (execTx deps) (World.only userId) (Kept deps userId rest)
      (Returns fun session => KeptOwning deps userId rest session.id) := by
  apply blind_of_run
  intro w hw
  obtain ⟨hk, ho⟩ := hw.withNew opts
  refine ⟨_, _, run_persistBody deps w userId opts, ?_, hk⟩
  rw [run_persistBody, ho]
  rfl

section Status

variable (status : VerificationStatus) (source : StatusSource)
  (options : ApplyStatusTransitionOptions)

theorem blind_updateAndAudit :
    (updateAndAudit id status source options).Blind (execTx deps) (World.only userId)
      (KeptOwning deps userId rest id) (Returns fun _ => KeptOwning deps userId rest id) := by
  apply blind_of_run
  intro w hw
  obtain ⟨r, hr, hu⟩ := hw.get
  obtain ⟨hk, ho⟩ := hw.withSession hr
    (SessionRecord.identity_withStatus (deps.storeClock w.ticks) status r)
  obtain ⟨hk', ho'⟩ := hk.withEntry (updateEntry r.status status source options)
  refine ⟨_, _, run_updateAndAudit deps status source options hr, ?_, hk'⟩
  rw [ho', ho]
  exact run_updateAndAudit deps (w := w.only userId) status source options
    (Tables.get_only_of_owned hr hu)

theorem blind_writeStatusBody :
    (writeStatusBody id status source options).Blind (execTx deps) (World.only userId)
      (KeptOwning deps userId rest id) (Returns fun _ => KeptOwning deps userId rest id) := by
  unfold writeStatusBody
  cases truthy options.bindApplicantId with
  | none => exact blind_updateAndAudit status source options
  | some applicantId =>
    apply (blind_bindApplicantId applicantId).bind_returns
    intro bound
    split
    · exact (blind_audit _ _).bind_returns fun _ => blind_pure fun _ hw => hw
    · exact blind_updateAndAudit status source options

theorem blind_runEffects (transition : StatusTransition) (rejectLabels : Option (List String)) :
    (runEffects deps id source transition rejectLabels).Blind (exec deps) (World.only userId)
      (KeptOwning deps userId rest id) (Returns fun _ => KeptOwning deps userId rest id) := by
  unfold runEffects
  split
  · refine Blind.tryCatch (Q := fun _ => KeptOwning deps userId rest id) ?_ ?_ fun _ _ hw => hw
    · apply blind_perform (fun w _ => rfl)
      intro w hw
      exact hw.of_tables rfl le_rfl
    · exact fun e => blind_direct (blind_audit _ _)
  · exact blind_pure fun _ hw => hw

theorem blind_applyStatusTransition :
    (applyStatusTransition deps id status source options).Blind (exec deps) (World.only userId)
      (KeptOwning deps userId rest id) (Returns fun _ => KeptOwning deps userId rest id) := by
  refine (blind_transaction (blind_writeStatusBody status source options)).bind_returns
    fun transition => ?_
  exact (blind_runEffects source transition options.rejectLabels).bind_returns
    fun _ => blind_pure fun _ hw => hw

end Status

theorem blind_lookup (session : SessionRecord) :
    (lookup deps session).Blind (exec deps) (World.only userId)
      (KeptOwning deps userId rest id) fun _ => KeptOwning deps userId rest id := by
  have hask : ∀ c, (Service.provider c).Blind (exec deps) (World.only userId)
      (KeptOwning deps userId rest id) fun _ => KeptOwning deps userId rest id := fun c =>
    blind_provider c fun _ _ hw => hw.of_tables rfl le_rfl
  unfold lookup
  split
  · exact (hask _).bind (fun _ => blind_pure fun _ hw => hw) fun _ _ hw => hw
  · split
    · exact (hask _).bind (fun _ => blind_pure fun _ hw => hw) fun _ _ hw => hw
    · exact blind_pure fun _ hw => hw

theorem blind_reconcile (session : SessionRecord) :
    (reconcile deps session).Blind (exec deps) (World.only userId)
      (KeptOwning deps userId rest session.id) fun _ => Kept deps userId rest := by
  unfold reconcile
  split
  · exact blind_pure fun _ hw => hw.toKept
  · refine Blind.tryCatch (Q := fun _ => KeptOwning deps userId rest session.id) ?_
      (fun _ => blind_pure fun _ hw => hw.toKept) fun _ _ hw => hw.toKept
    refine (blind_lookup session).bind (fun found => ?_) fun _ _ hw => hw
    cases found with
    | none => exact blind_pure fun _ hw => hw
    | some found =>
      apply (blind_applyStatusTransition _ _ _).bind_returns
      intro transition
      exact blind_pure fun _ hw => hw

variable (deps rest) in
theorem blind_found {body : Tx (Option SessionRecord)} (find : Tables → Option SessionRecord)
    (hrun : ∀ w, body.run (execTx deps) w = (.ok (find w.tables), w.ticked))
    (honly : ∀ t, find (t.only userId) = find t)
    (hown : ∀ t r, find t = some r → r ∈ t.sessions.rows ∧ r.userId = userId) :
    (Service.direct body).Blind (exec deps) (World.only userId) (Kept deps userId rest)
      (Returns fun found w => Kept deps userId rest w ∧
        ∀ session ∈ found, KeptOwning deps userId rest session.id w) := by
  refine blind_direct (blind_of_run fun w hw => ⟨_, _, hrun w, ?_, ?_⟩)
  · have hrun' := hrun (w.only userId)
    rw [show (w.only userId).tables = w.tables.only userId from rfl, honly] at hrun'
    exact hrun'
  · have hk : Kept deps userId rest w.ticked := hw.of_tables rfl le_rfl
    refine ⟨hk, fun session hs => ?_⟩
    obtain ⟨hm, hu⟩ := hown _ session hs
    exact { hk with owns := Tables.owns_iff.mpr ⟨session, Table.get_of_mem hm, hu⟩ }

theorem blind_requireOwned :
    (requireOwned id userId).Blind (exec deps) (World.only userId) (Kept deps userId rest)
      fun r w => match r with
        | .ok session => KeptOwning deps userId rest session.id w
        | .error _ => Kept deps userId rest w := by
  have hfound := blind_found deps rest (MemoryStore.getSessionByIdForUser · id userId)
    (fun w => Tx.run_getSessionByIdForUser deps w id userId)
    (fun t => MemoryStore.getSessionByIdForUser_only id) fun t r hr => by
      obtain ⟨hg, hu⟩ := MemoryStore.getSessionByIdForUser_eq_some.mp hr
      exact ⟨Table.get_mem hg, hu⟩
  apply hfound.bind_returns
  intro found
  cases found with
  | none => exact blind_throw fun w hw => hw.1
  | some session => exact blind_pure fun w hw => hw.2 session rfl

theorem requireUser_eq {owner : String} (h : requireUser (some userId) = .ok owner) :
    owner = userId :=
  (Option.some.inj (truthy_eq_some.mp (requireUser_eq_ok.mp h)).1).symm

theorem blind_start (input : Option JsonValue) :
    (start deps (some userId) input).Blind (exec deps) (World.only userId)
      (Kept deps userId rest) fun _ => Kept deps userId rest := by
  refine blind_ofExcept_bind (fun owner ho => ?_) fun _ _ hw => hw
  obtain rfl := requireUser_eq ho
  refine blind_ofExcept_bind (fun opts _ => ?_) fun _ _ hw => hw
  refine Blind.bind_returns (Q := fun session => KeptOwning deps owner rest session.id) ?_
    fun session => ?_
  · exact Blind.tryCatch (blind_transaction (blind_persistBody opts))
      (fun e => blind_throw fun _ hw => hw.elim) fun _ _ hw => hw
  · refine Blind.bind (Q := fun _ => KeptOwning deps owner rest session.id) ?_ (fun minted => ?_)
      fun _ _ hw => hw.toKept
    · refine Blind.tryCatch (Q := fun _ => KeptOwning deps owner rest session.id)
        (blind_provider _ fun _ _ hw => hw.of_tables rfl le_rfl) (fun e => ?_) fun _ _ hw => hw
      exact (blind_direct (blind_audit _ _)).bind_returns fun _ => blind_throw fun _ hw => hw
    · cases truthy minted.providerApplicantId with
      | none => exact blind_pure fun _ hw => hw.toKept
      | some applicantId =>
        apply (blind_direct (blind_bindApplicantId applicantId)).bind_returns
        intro _
        exact blind_pure fun _ hw => hw.toKept

theorem blind_owned {β : Type} (sessionId : Option String) (field : String)
    {next : String → SessionRecord → Service β}
    (h : ∀ session, (next userId session).Blind (exec deps) (World.only userId)
      (KeptOwning deps userId rest session.id) fun _ => Kept deps userId rest) :
    (Program.ofExcept (requireUser (some userId)) >>= fun owner =>
      Program.ofExcept (requireId sessionId field) >>= fun id =>
        requireOwned id owner >>= next owner).Blind (exec deps) (World.only userId)
      (Kept deps userId rest) fun _ => Kept deps userId rest := by
  refine blind_ofExcept_bind (fun owner ho => ?_) fun _ _ hw => hw
  obtain rfl := requireUser_eq ho
  refine blind_ofExcept_bind (fun id _ => ?_) fun _ _ hw => hw
  exact blind_requireOwned.bind h fun _ _ hw => hw

theorem blind_refresh (sessionId : Option String) :
    (refresh (some userId) sessionId).Blind (exec deps) (World.only userId)
      (Kept deps userId rest) fun _ => Kept deps userId rest := by
  refine blind_owned sessionId "sessionId" fun session => ?_
  dsimp only
  split
  · exact blind_throw fun _ hw => hw.toKept
  · refine Blind.bind (Q := fun _ => KeptOwning deps userId rest session.id) ?_ (fun token => ?_)
      fun _ _ hw => hw.toKept
    · exact Blind.tryCatch (Q := fun _ => KeptOwning deps userId rest session.id)
        (blind_provider _ fun _ _ hw => hw.of_tables rfl le_rfl)
        (fun e => blind_throw fun _ hw => hw) fun _ _ hw => hw
    · apply (blind_direct (blind_audit _ _)).bind_returns
      intro _
      exact blind_pure fun _ hw => hw.toKept

theorem blind_status (sessionId : Option String) :
    (status deps (some userId) sessionId).Blind (exec deps) (World.only userId)
      (Kept deps userId rest) fun _ => Kept deps userId rest := by
  refine blind_owned sessionId "id" fun session => ?_
  exact (blind_reconcile session).bind (fun current => blind_pure fun _ hw => hw) fun _ _ hw => hw

theorem blind_latestForUser (reconciling : Bool) :
    (latestForUser deps (some userId) reconciling).Blind (exec deps) (World.only userId)
      (Kept deps userId rest) fun _ => Kept deps userId rest := by
  refine blind_ofExcept_bind (fun owner ho => ?_) fun _ _ hw => hw
  obtain rfl := requireUser_eq ho
  have hfound := blind_found deps rest
    (MemoryStore.getLatestSessionForUser · owner deps.providerName)
    (fun w => Tx.run_getLatestSessionForUser deps w owner deps.providerName)
    (fun t => MemoryStore.getLatestSessionForUser_only deps.providerName) fun t r hr => by
      rw [MemoryStore.getLatestSessionForUser_eq] at hr
      exact ⟨newest_mem hr, (SessionRecord.ofUser_iff.mp (newest_prop hr)).1⟩
  apply hfound.bind_returns
  intro found
  cases found with
  | none => exact blind_pure fun _ hw => hw.1
  | some session =>
    refine Blind.strengthen (I := KeptOwning deps owner rest session.id) ?_
      fun w hw => hw.2 session rfl
    cases reconciling with
    | false => exact blind_pure fun _ hw => hw.toKept
    | true =>
      exact (blind_reconcile session).bind (fun current => blind_pure fun _ hw => hw)
        fun _ _ hw => hw

end Programs

/-- The calls that a user makes. -/
inductive Call.By (userId : String) : Call → Prop
  | start (input : Option JsonValue) : By userId (.start (some userId) input)
  | refresh (sessionId : Option String) : By userId (.refresh (some userId) sessionId)
  | status (id : Option String) : By userId (.status (some userId) id)
  | latestForUser (reconciling : Bool) : By userId (.latestForUser (some userId) reconciling)

section Isolation

open Program

variable {deps : VerificationServiceDeps} {userId : String} {w : World}

theorem Call.By.blind {c : Call} (hc : c.By userId) (rest : List SessionRecord × List AuditEntry) :
    (c.program deps).Blind (exec deps) (World.only userId) (Kept deps userId rest)
      fun _ => Kept deps userId rest := by
  cases hc with
  | start input =>
    exact (blind_start input).bind (fun _ => blind_pure fun _ hw => hw) fun _ _ hw => hw
  | refresh sessionId =>
    exact (blind_refresh sessionId).bind (fun _ => blind_pure fun _ hw => hw) fun _ _ hw => hw
  | status id => exact (blind_status id).bind (fun _ => blind_pure fun _ hw => hw) fun _ _ hw => hw
  | latestForUser reconciling =>
    exact (blind_latestForUser reconciling).bind (fun _ => blind_pure fun _ hw => hw)
      fun _ _ hw => hw

theorem getSessionByIdForUser_of_not_owns {id : String} (ho : w.tables.owns userId id = false) :
    MemoryStore.getSessionByIdForUser w.tables id userId = none := by
  cases hg : MemoryStore.getSessionByIdForUser w.tables id userId with
  | none => rfl
  | some r =>
    have := Tables.owns_iff.mpr ⟨r, MemoryStore.getSessionByIdForUser_eq_some.mp hg⟩
    rw [ho] at this
    cases this

variable (deps) in
/-- A session that is not the user's is not found, whether it exists or not, and nothing but the
clock moves. -/
theorem refused_of_not_owns {id : String} (hu : userId ≠ "") (hid : isBlank id = false)
    (ho : w.tables.owns userId id = false) :
    (Kyc.refresh (some userId) (some id)).run (exec deps) w =
        (.error Errors.sessionNotFound, w.ticked) ∧
      (Kyc.status deps (some userId) (some id)).run (exec deps) w =
        (.error Errors.sessionNotFound, w.ticked) := by
  have hreq : requireUser (some userId) = .ok userId :=
    requireUser_eq_ok.mpr (truthy_eq_some.mpr ⟨rfl, hu⟩)
  have hnone := getSessionByIdForUser_of_not_owns ho
  constructor
  · simp only [Kyc.refresh, requireOwned, run_bind, run_ofExcept, hreq, requireId_of_not_blank hid,
      Service.run_direct, Tx.run_getSessionByIdForUser, hnone, run_throw]
  · simp only [Kyc.status, requireOwned, run_bind, run_ofExcept, hreq, requireId_of_not_blank hid,
      Service.run_direct, Tx.run_getSessionByIdForUser, hnone, run_throw]

/-- Nobody can tell a session of somebody else from one that does not exist. -/
theorem same_refusal_of_not_owns {id id' : String} (ho : w.tables.owns userId id = false)
    (ho' : w.tables.owns userId id' = false) (hid : isBlank id = isBlank id') :
    (Kyc.refresh (some userId) (some id)).run (exec deps) w =
        (Kyc.refresh (some userId) (some id')).run (exec deps) w ∧
      (Kyc.status deps (some userId) (some id)).run (exec deps) w =
        (Kyc.status deps (some userId) (some id')).run (exec deps) w := by
  by_cases hu : userId = ""
  · have hreq : requireUser (some userId) = .error Errors.unauthorized := by
      rw [hu]
      decide
    constructor
    · simp only [Kyc.refresh, run_bind, run_ofExcept, hreq]
    · simp only [Kyc.status, run_bind, run_ofExcept, hreq]
  · cases hb : isBlank id with
    | true =>
      constructor
      · simp only [Kyc.refresh, run_bind, run_ofExcept, requireId_of_blank hb,
          requireId_of_blank (hid.symm.trans hb)]
      · simp only [Kyc.status, run_bind, run_ofExcept, requireId_of_blank hb,
          requireId_of_blank (hid.symm.trans hb)]
    | false =>
      obtain ⟨hr, hs⟩ := refused_of_not_owns deps hu hb ho
      obtain ⟨hr', hs'⟩ := refused_of_not_owns deps hu (hid.symm.trans hb) ho'
      exact ⟨hr.trans hr'.symm, hs.trans hs'.symm⟩

/-- In two stores that agree on a user's sessions and the entries about them, what the user calls
has the same result and the same effect on them, leaves the rest alone, and does not tell a
session of somebody else from one that does not exist. -/
theorem users_isolated {w' : World} (hw : w.Unissued deps) (hw' : w'.Unissued deps)
    (hsame : w.only userId = w'.only userId) :
    (∀ c : Call, c.By userId →
      ((c.program deps).run (exec deps) w).1 = ((c.program deps).run (exec deps) w').1 ∧
      (c.after deps w).only userId = (c.after deps w').only userId ∧
      (c.after deps w).tables.others userId = w.tables.others userId) ∧
    ∀ id id', w.tables.owns userId id = false → w.tables.owns userId id' = false →
      isBlank id = isBlank id' →
      (Kyc.refresh (some userId) (some id)).run (exec deps) w =
          (Kyc.refresh (some userId) (some id')).run (exec deps) w ∧
        (Kyc.status deps (some userId) (some id)).run (exec deps) w =
          (Kyc.status deps (some userId) (some id')).run (exec deps) w := by
  refine ⟨fun c hc => ?_, fun id id' ho ho' hid => same_refusal_of_not_owns ho ho' hid⟩
  have hk : Kept deps userId (w.tables.others userId) w := ⟨rfl, hw⟩
  have hk' : Kept deps userId (w'.tables.others userId) w' := ⟨rfl, hw'⟩
  obtain ⟨hr, ho⟩ := (hc.blind _).run_eq (hc.blind _) hk hk' hsame
  exact ⟨hr, ho, ((hc.blind _) w hk).2.others⟩

end Isolation

/-- A session of `u`, and one of somebody else. -/
def sharedStore : World :=
  worldOf [sessionOf "s" "u" (some "a") none .pending 0 0, sessionOf "t" "v" none none .initial 1 1]
    (by decide)

/-- The same session of `u`, alone. -/
def ownStore : World := worldOf [sessionOf "s" "u" (some "a") none .pending 0 0] (by decide)

theorem users_isolated_reading :
    ((Call.program bareDeps (.status (some "u") (some "t"))).run (exec bareDeps) sharedStore).1 =
      ((Call.program bareDeps (.status (some "u") (some "t"))).run (exec bareDeps) ownStore).1 := by
  have hshared : sharedStore.Unissued bareDeps :=
    ⟨fresh_worldOf (by decide) (by decide) _, fun _ he => absurd he List.not_mem_nil⟩
  have hown : ownStore.Unissued bareDeps :=
    ⟨fresh_worldOf (by decide) (by decide) _, fun _ he => absurd he List.not_mem_nil⟩
  have hsame : sharedStore.only "u" = ownStore.only "u" := by
    have ht : sharedStore.tables.only "u" = ownStore.tables.only "u" :=
      Tables.ext (Table.ext_rows (by decide +kernel)) rfl
    exact congrArg (fun t => ({ ownStore with tables := t } : World)) ht
  exact ((users_isolated hshared hown hsame).1 _ (.status _)).1

end Kyc
