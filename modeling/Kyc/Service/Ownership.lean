import Kyc.Programs.Stable
import Kyc.Service.Sample
import Kyc.Service.Steps
import Kyc.Store.Users

/-! # Every applicant belongs to one user

When the provider and its events name an applicant only together with the applicant's
owner, every session that is bound to the applicant belongs to the owner, in every
interleaving of calls, and no event changes a session of another user.
-/

namespace Kyc

/-- Every session that is bound to an applicant belongs to the applicant's owner. -/
def Tables.BoundToOwner (owner : String → String) (t : Tables) : Prop :=
  ∀ r ∈ t.sessions.rows, ∀ a, r.providerApplicantId = some a → r.userId = owner a

/-- What a provider returns for a user names applicants of this user only. -/
structure VerificationProvider.Honest (owner : String → String) (provider : VerificationProvider) :
    Prop where
  createSession : ∀ n userId opts minted, provider.createSession n userId opts = .ok minted →
    ∀ a, truthy minted.providerApplicantId = some a → owner a = userId
  getStatusByUserId : ∀ byUserId, provider.getStatusByUserId = some byUserId →
    ∀ n userId found, byUserId n userId = .ok found →
    ∀ a, truthy found.providerApplicantId = some a → owner a = userId

/-- The user an event names, if any, is the owner of its applicant. -/
def WebhookEvent.Honest (owner : String → String) (event : WebhookEvent) : Prop :=
  ∀ userId, truthy event.externalUserId = some userId → owner event.providerApplicantId = userId

/-- The calls of users and of the provider, the host's own writes left out. -/
def Call.Honest (owner : String → String) : Call → Prop
  | .handleWebhookEvent event => event.Honest owner
  | .applyStatusTransition _ _ _ _ => False
  | _ => True

/-- The user whose sessions a call may change. -/
def Call.user (owner : String → String) : Call → String
  | .start userId _ | .refresh userId _ | .status userId _ | .latestForUser userId _ =>
    userId.getD ""
  | .handleWebhookEvent event => owner event.providerApplicantId
  | .hostedPage _ | .applyStatusTransition _ _ _ _ => ""

/-- The sessions of other users stay as they are. -/
def World.Spares (userId : String) (w w' : World) : Prop :=
  ∀ r ∈ w.tables.sessions.rows, r.userId ≠ userId → r ∈ w'.tables.sessions.rows

/-- What all calls count on: fresh ids, every bound session with its applicant's owner, and that
sessions keep what identifies them. -/
def ownership (deps : VerificationServiceDeps) (owner : String → String) : Discipline World where
  Inv w := w.Fresh deps ∧ w.tables.BoundToOwner owner
  Le w w' := w.tables.Keeps w'.tables
  refl w := .refl w.tables
  trans h h' := h.trans h'

/-- The rows that are new belong to the user, with an applicant of the user's if any, and those of
other users are still there. -/
structure OwnWrite (owner : String → String) (userId : String) (t t' : Tables) : Prop where
  rows : ∀ r' ∈ t'.sessions.rows, r' ∈ t.sessions.rows ∨
    (r'.userId = userId ∧ ∀ a, r'.providerApplicantId = some a → owner a = userId)
  spares : ∀ r ∈ t.sessions.rows, r.userId ≠ userId → r ∈ t'.sessions.rows

section Writes

variable {owner : String → String} {userId id : String} {t t' : Tables} {r : SessionRecord}

theorem Tables.owns_of_keeps (h : t.Keeps t') (ho : t.owns userId id) : t'.owns userId id := by
  obtain ⟨r, hr, hu⟩ := owns_iff.mp ho
  obtain ⟨r', hr', hk⟩ := h r (Table.get_mem hr)
  refine owns_iff.mpr ⟨r', ?_, (SessionRecord.userId_of_identity hk.identity).trans hu⟩
  have hid : r'.id = id := (SessionRecord.id_of_identity hk.identity).trans (Table.get_key hr)
  rw [← hid]
  exact Table.get_of_mem hr'

theorem OwnWrite.of_sessions (h : t'.sessions = t.sessions) : OwnWrite owner userId t t' where
  rows _ hr := Or.inl (h ▸ hr)
  spares _ hr _ := h ▸ hr

theorem OwnWrite.of_set (h : t'.sessions = t.sessions.set r) (hu : r.userId = userId)
    (ha : ∀ a, r.providerApplicantId = some a → owner a = userId)
    (ho : ∀ s, t.sessions.get r.id = some s → s.userId = userId) :
    OwnWrite owner userId t t' where
  rows := by
    intro r' hr'
    rw [h] at hr'
    rcases Tables.mem_rows_setSession (t := t) hr' with rfl | ⟨hr', -⟩
    · exact Or.inr ⟨hu, ha⟩
    · exact Or.inl hr'
  spares := by
    intro s hs hsu
    have hne : s.id ≠ r.id := fun hid => hsu (ho s (hid ▸ Table.get_of_mem hs))
    have hg : t'.sessions.get s.id = some s := by
      rw [h, Table.get_set_of_ne hne, Table.get_of_mem hs]
    exact Table.get_mem hg

theorem OwnWrite.of_session {r' : SessionRecord} (hb : t.BoundToOwner owner)
    (hr : t.sessions.get r.id = some r) (hu : r.userId = userId)
    (h : t'.sessions = t.sessions.set r') (hid : r'.identity = r.identity)
    (ha : ∀ a, r'.providerApplicantId = some a →
      r.providerApplicantId = some a ∨ owner a = userId) :
    OwnWrite owner userId t t' := by
  refine .of_set h ((SessionRecord.userId_of_identity hid).trans hu) (fun a hra => ?_) ?_
  · rcases ha a hra with hra | ho
    · rw [← hb r (Table.get_mem hr) a hra, hu]
    · exact ho
  · intro s hs
    rw [SessionRecord.id_of_identity hid, hr] at hs
    rw [← Option.some.inj hs, hu]

theorem OwnWrite.boundToOwner (h : OwnWrite owner userId t t') (hb : t.BoundToOwner owner) :
    t'.BoundToOwner owner := by
  intro r' hr' a ha
  rcases h.rows r' hr' with hr | ⟨hu, ho⟩
  · exact hb r' hr a ha
  · rw [hu, ho a ha]

end Writes

section Operations

open Program

variable {deps : VerificationServiceDeps} {owner : String → String} {userId id : String} {w : World}

variable (owner userId) in
theorem safe_step {w' : World} (hi : (ownership deps owner).Inv w)
    (he : Evolves w.tables w'.tables) (hf : w'.Fresh deps)
    (ho : OwnWrite owner userId w.tables w'.tables) :
    (ownership deps owner).Inv w' ∧ (ownership deps owner).Le w w' ∧ w.Spares userId w' :=
  ⟨⟨hf, ho.boundToOwner hi.2⟩, he.keeps, ho.spares⟩

theorem safe_direct {α : Type} {D : Discipline World} {G : World → World → Prop}
    {Q : Except Thrown α → World → Prop} {body : Tx α} (hb : body.Safe D (execTx deps) G Q w) :
    (Service.direct body).Safe D (exec deps) G Q w := by
  induction body generalizing w with
  | ret | err => exact hb
  | await o k ih =>
    intro w' hw hi
    obtain ⟨hi', hle, hg, hk⟩ := hb w' hw hi
    refine ⟨hi', hle, hg, ?_⟩
    have ih := ih _ hk
    cases hr : (execTx deps o w').1 with
    | ok | error =>
      rw [hr] at ih
      have hr' : (exec deps (.direct o) w').1 = _ := hr
      rw [hr']
      exact ih

abbrev SafeFor (deps : VerificationServiceDeps) (owner : String → String) (userId : String)
    {α : Type} (Q : Except Thrown α → World → Prop) (p : Service α) (w : World) : Prop :=
  p.Safe (ownership deps owner) (exec deps) (World.Spares userId) Q w

theorem safe_tx {o : TxOp} {Q : Except Thrown o.Ans → World → Prop} (ho : o.Outside)
    (hw : ∀ w', (ownership deps owner).Le w w' → (ownership deps owner).Inv w' →
      OwnWrite owner userId w'.tables (execTx deps o w').2.tables)
    (hQ : ∀ w', (ownership deps owner).Inv w' →
      ∀ w'', (ownership deps owner).Le (execTx deps o w').2 w'' → Q (execTx deps o w').1 w'') :
    (perform (S := TxSig) o).Safe (ownership deps owner) (execTx deps) (World.Spares userId) Q
      w := by
  apply safe_perform
  intro w' hle hi
  obtain ⟨he, hissued, hids⟩ := ho.exec deps w'
  obtain ⟨hi', hle', hs⟩ := safe_step owner userId hi he (hi.1.of_ids deps hissued hids)
    (hw w' hle hi)
  exact ⟨hi', hle', hs, fun w'' h _ => hQ w' hi w'' h⟩

theorem safe_op {o : ServiceOp} {Q : Except Thrown o.Ans → World → Prop} (ho : Issued deps o)
    (hw : ∀ w', (ownership deps owner).Le w w' → (ownership deps owner).Inv w' →
      OwnWrite owner userId w'.tables (exec deps o w').2.tables)
    (hQ : ∀ w', (ownership deps owner).Le w w' → (ownership deps owner).Inv w' →
      ∀ w'', (ownership deps owner).Le (exec deps o w').2 w'' → Q (exec deps o w').1 w'') :
    SafeFor deps owner userId Q (perform (S := ServiceSig) o) w := by
  apply safe_perform
  intro w' hle hi
  obtain ⟨he, hf⟩ := ho.advances hi.1
  obtain ⟨hi', hle', hs⟩ := safe_step owner userId hi he hf (hw w' hle hi)
  exact ⟨hi', hle', hs, fun w'' h _ => hQ w' hle hi w'' h⟩

def FoundOwn (userId : String) (r : Except Thrown (Option SessionRecord)) (w : World) : Prop :=
  ∀ session, r = .ok (some session) →
    session.userId = userId ∧ w.tables.owns userId session.id

theorem foundOwn_none : FoundOwn userId (.ok none) w := by
  intro session h
  cases h

theorem foundOwn_of_mem {w' : World} {session : SessionRecord}
    (hm : session ∈ w.tables.sessions.rows) (hu : session.userId = userId)
    (hle : w.tables.Keeps w'.tables) :
    session.userId = userId ∧ w'.tables.owns userId session.id :=
  ⟨hu, Tables.owns_of_keeps hle (Tables.owns_iff.mpr ⟨session, Table.get_of_mem hm, hu⟩)⟩

theorem safe_getSessionByIdForUser :
    SafeFor deps owner userId (FoundOwn userId)
      (Service.direct (Tx.getSessionByIdForUser id userId)) w := by
  refine safe_direct (safe_tx trivial (fun _ _ _ => .of_sessions rfl) fun w' _ w'' hle => ?_)
  intro session hs
  obtain ⟨hg, hu⟩ := MemoryStore.getSessionByIdForUser_eq_some.mp (Except.ok.inj hs)
  exact foundOwn_of_mem (Table.get_mem hg) hu hle

theorem safe_getLatestSessionForUser (provider : String) :
    SafeFor deps owner userId (FoundOwn userId)
      (Service.direct (Tx.getLatestSessionForUser userId provider)) w := by
  refine safe_direct (safe_tx trivial (fun _ _ _ => .of_sessions rfl) fun w' _ w'' hle => ?_)
  intro session hs
  have hn := Except.ok.inj hs
  rw [MemoryStore.getLatestSessionForUser_eq] at hn
  exact foundOwn_of_mem (newest_mem hn) (SessionRecord.ofUser_iff.mp (newest_prop hn)).1 hle

theorem safe_getLatestUnboundSessionForUser (provider : String) :
    SafeFor deps owner userId (FoundOwn userId)
      (Service.direct (Tx.getLatestUnboundSessionForUser userId provider)) w := by
  refine safe_direct (safe_tx trivial (fun _ _ _ => .of_sessions rfl) fun w' _ w'' hle => ?_)
  intro session hs
  have hn := Except.ok.inj hs
  rw [MemoryStore.getLatestUnboundSessionForUser_eq] at hn
  exact foundOwn_of_mem (newest_mem hn) (SessionRecord.unboundOf_iff.mp (newest_prop hn)).1 hle

theorem safe_getSessionByProviderApplicantId (a : String) (options : ApplicantLookupOptions) :
    SafeFor deps owner (owner a) (FoundOwn (owner a))
      (Service.direct (Tx.getSessionByProviderApplicantId a options)) w := by
  refine safe_direct (safe_tx trivial (fun _ _ _ => .of_sessions rfl) fun w' hi w'' hle => ?_)
  intro session hs
  obtain ⟨hm, hb⟩ := MemoryStore.getSessionByProviderApplicantId_mem (Except.ok.inj hs)
  exact foundOwn_of_mem hm (hi.2 session hm a hb) hle

theorem safe_audit (hi : (ownership deps owner).Inv w) {action : AuditAction}
    (ha : action ≠ .status_updated) (metadata : Option AuditMetadata) :
    SafeFor deps owner userId Anyhow (Service.direct (audit id action metadata)) w := by
  refine safe_direct (Safe.bind_anyhow (Q := Anyhow) ?_ hi fun entryId w' _ _ _ => ?_)
  · exact safe_tx trivial (fun _ _ _ => .of_sessions rfl) fun _ _ _ _ => trivial
  · exact safe_tx ha (fun _ _ _ => .of_sessions rfl) fun _ _ _ _ => trivial

theorem safe_provider (c : ProviderCall) :
    SafeFor deps owner userId (fun r _ => ∃ n, deps.provider.answer n c = r)
      (Service.provider c) w :=
  safe_op (.provider c) (fun _ _ _ => .of_sessions rfl) fun _ _ _ _ _ => ⟨_, rfl⟩

theorem safe_bindApplicantId {a : String} (ho : w.tables.owns userId id) (ha : owner a = userId) :
    SafeFor deps owner userId Anyhow
      (Service.direct (Tx.bindApplicantId id a)) w := by
  refine safe_direct (safe_tx trivial (fun w' hle hi => ?_) fun _ _ _ _ => trivial)
  obtain ⟨r, hr, hu⟩ := Tables.owns_iff.mp (Tables.owns_of_keeps hle ho)
  have hrun := (run_perform (execTx deps) (TxOp.store (.bindApplicantId id a)) w').symm.trans
    (run_bindApplicantId hr a)
  rw [hrun]
  have hr' : w'.tables.sessions.get r.id = some r := by rwa [Table.get_key hr]
  refine .of_session hi.2 hr' hu rfl (SessionRecord.identity_withApplicant ..) fun b hb => ?_
  rw [SessionRecord.applicant_withApplicant] at hb
  split at hb
  · exact Or.inr (Option.some.inj hb ▸ ha)
  · exact Or.inl hb

theorem safe_persist (opts : CreateSessionOptions) :
    SafeFor deps owner userId
      (fun r w => ∃ session, r = .ok session ∧ w.tables.owns userId session.id)
      (Service.transaction (persistBody deps userId opts)) w := by
  have hrun : ∀ w', exec deps (.transaction (persistBody deps userId opts)) w' =
      (.ok (newRecord deps w' userId opts), w'.withNew deps userId opts) := fun w' => by
    simp only [exec, execTransaction, run_persistBody]
  apply safe_op (.persist userId opts)
  · intro w' _ hi
    rw [hrun]
    refine .of_set rfl rfl (fun a ha => by cases ha) fun s hs => ?_
    exact absurd (Table.get_key hs) (hi.1 s (Table.get_mem hs) w'.issued le_rfl)
  · intro w' _ _ w'' hle
    rw [hrun] at hle ⊢
    refine ⟨_, rfl, Tables.owns_of_keeps hle (Tables.owns_iff.mpr ⟨newRecord deps w' userId opts,
      ?_, rfl⟩)⟩
    exact Table.get_set_self w'.tables.sessions (newRecord deps w' userId opts)

theorem safe_writeStatus {options : ApplyStatusTransitionOptions} (ho : w.tables.owns userId id)
    (ha : ∀ a, truthy options.bindApplicantId = some a → owner a = userId)
    (status : VerificationStatus) (source : StatusSource) :
    SafeFor deps owner userId Anyhow (writeStatus id status source options) w := by
  refine safe_op (.write id status source options) (fun w' hle hi => ?_) fun _ _ _ _ _ => trivial
  obtain ⟨r, hr, hu⟩ := Tables.owns_iff.mp (Tables.owns_of_keeps hle ho)
  obtain ⟨transition, w'', hrun, hw⟩ := run_writeStatusBody deps status source options hr
  have hrun' : exec deps (.transaction (writeStatusBody id status source options)) w' =
      (.ok transition, w'') := by
    rw [exec, execTransaction, hrun]
  rw [hrun']
  have hr' : w'.tables.sessions.get r.id = some r := by rwa [Table.get_key hr]
  refine .of_session hi.2 hr' hu hw.sessions hw.identity fun a hra => ?_
  rw [hw.applicant] at hra
  split at hra
  · rcases Option.or_eq_some_iff.mp hra with hb | ⟨-, hb⟩
    · exact Or.inr (ha a hb)
    · exact Or.inl hb
  · exact Or.inl hra

end Operations

section Programs

open Program

variable {deps : VerificationServiceDeps} {owner : String → String} {userId id : String} {w : World}

theorem safe_runEffects (hi : (ownership deps owner).Inv w) (source : StatusSource)
    (transition : StatusTransition) (rejectLabels : Option (List String)) :
    SafeFor deps owner userId Anyhow (runEffects deps id source transition rejectLabels) w := by
  unfold runEffects
  split
  · refine Safe.tryCatch_anyhow (Q := Anyhow) ?_ hi fun e w' _ hi' _ => ?_
    · exact safe_op (.onStatusTransition _) (fun _ _ _ => .of_sessions rfl)
        fun _ _ _ _ _ => trivial
    · exact safe_audit hi' (by simp) _
  · exact safe_pure_anyhow

theorem safe_applyStatusTransition {options : ApplyStatusTransitionOptions}
    (hi : (ownership deps owner).Inv w) (ho : w.tables.owns userId id)
    (ha : ∀ a, truthy options.bindApplicantId = some a → owner a = userId)
    (status : VerificationStatus) (source : StatusSource) :
    SafeFor deps owner userId Anyhow (applyStatusTransition deps id status source options) w := by
  apply (safe_writeStatus ho ha status source).bind_anyhow hi
  intro transition w' _ hi' _
  exact (safe_runEffects hi' ..).bind_anyhow hi' fun _ _ _ _ _ => safe_pure_anyhow

/-- The lookup for a session of the user's names applicants of the user's alone. -/
theorem safe_lookup (hp : deps.provider.Honest owner) (hi : (ownership deps owner).Inv w)
    {session : SessionRecord} (hu : session.userId = userId) :
    SafeFor deps owner userId
      (fun r _ => ∀ found, r = .ok (some found) →
        ∀ a, truthy found.providerApplicantId = some a → owner a = userId)
      (lookup deps session) w := by
  unfold lookup
  split
  · refine (safe_provider _).bind hi (fun status w' _ _ _ => ?_) fun e _ _ _ _ => by simp
    apply safe_pure
    intro _ _ _ found hf a ha
    cases hf
    cases ha
  · split
    next hsupports =>
      refine (safe_provider _).bind hi (fun found w' _ _ hn => ?_) fun e _ _ _ _ => by simp
      apply safe_pure
      intro _ _ _ found' hf a ha
      cases hf
      obtain ⟨n, hn⟩ := hn
      obtain ⟨byUserId, hby⟩ := Option.isSome_iff_exists.mp hsupports
      simp only [VerificationProvider.answer, hby] at hn
      rw [← hu]
      exact hp.getStatusByUserId byUserId hby n _ _ hn a ha
    next => exact safe_pure fun _ _ _ found hf => by cases hf

theorem safe_reconcile (hp : deps.provider.Honest owner) (hi : (ownership deps owner).Inv w)
    {session : SessionRecord} (hu : session.userId = userId)
    (ho : w.tables.owns userId session.id) :
    SafeFor deps owner userId Anyhow (reconcile deps session) w := by
  unfold reconcile
  split
  · exact safe_pure_anyhow
  · refine Safe.tryCatch_anyhow (Q := Anyhow) ?_ hi fun _ _ _ _ _ => safe_pure_anyhow
    apply (safe_lookup hp hi hu).bind_anyhow hi
    intro found w' hle hi' hf
    cases found with
    | none => exact safe_pure_anyhow
    | some found =>
      refine (safe_applyStatusTransition hi' (Tables.owns_of_keeps hle ho) ?_ _ _).bind_anyhow hi'
        fun _ _ _ _ _ => safe_pure_anyhow
      intro a ha
      exact hf found rfl a (truthy_eq_some.mp ha).1

theorem safe_requireOwned (hi : (ownership deps owner).Inv w) :
    SafeFor deps owner userId (fun r w => ∀ session, r = .ok session →
      session.userId = userId ∧ w.tables.owns userId session.id) (requireOwned id userId) w := by
  refine safe_getSessionByIdForUser.bind hi (fun found w' _ _ hf => ?_) fun e _ _ _ _ => by simp
  cases found with
  | none => exact safe_throw fun _ _ _ => by simp
  | some session =>
    obtain ⟨hu, ho⟩ := hf session rfl
    apply safe_pure
    intro w'' hle _ session' hs
    cases hs
    exact ⟨hu, Tables.owns_of_keeps hle ho⟩

theorem safe_ofExcept_bind {α β : Type} {r : Except Thrown α} {f : α → Service β}
    (hf : ∀ a, r = .ok a → SafeFor deps owner userId Anyhow (f a) w) :
    SafeFor deps owner userId Anyhow (Program.ofExcept r >>= f) w := by
  cases r with
  | ok a => exact hf a rfl
  | error e => exact safe_throw_anyhow

theorem safe_requireUser_bind {β : Type} {userId : Option String} {f : String → Service β}
    (hf : SafeFor deps owner (userId.getD "") Anyhow (f (userId.getD "")) w) :
    SafeFor deps owner (userId.getD "") Anyhow (Program.ofExcept (requireUser userId) >>= f) w := by
  apply safe_ofExcept_bind
  intro user hu
  obtain ⟨rfl, -⟩ := truthy_eq_some.mp (requireUser_eq_ok.mp hu)
  exact hf

theorem safe_mint (hp : deps.provider.Honest owner) (hi : (ownership deps owner).Inv w)
    (opts : CreateSessionOptions) {f : Thrown → Service Unit} {g : Thrown → Thrown}
    (hf : ∀ e w', (ownership deps owner).Inv w' → SafeFor deps owner userId Anyhow (f e) w') :
    SafeFor deps owner userId
      (fun r _ => ∀ minted, r = .ok minted →
        ∀ a, truthy minted.providerApplicantId = some a → owner a = userId)
      (tryCatch (Provider.createSession userId opts) fun e => do f e; throw (g e)) w := by
  apply Safe.tryCatch (safe_provider _) hi
  · intro e w' _ hi' _
    exact (hf e w' hi').bind hi' (fun _ _ _ _ _ => safe_throw fun _ _ _ => by simp)
      fun _ _ _ _ _ => by simp
  · intro minted _ _ _ hn
    obtain ⟨n, hn⟩ := hn
    intro minted' hm
    cases hm
    exact hp.createSession n _ _ _ hn

theorem safe_start (hp : deps.provider.Honest owner) (hi : (ownership deps owner).Inv w)
    (userId : Option String) (input : Option JsonValue) :
    SafeFor deps owner (userId.getD "") Anyhow (start deps userId input) w := by
  refine safe_requireUser_bind (safe_ofExcept_bind fun opts _ => ?_)
  generalize userId.getD "" = user
  refine Safe.bind_anyhow
    (Q := fun r w => ∀ session, r = .ok session → w.tables.owns user session.id) ?_ hi
    fun session w₁ _ hi₁ hs => ?_
  · refine (safe_persist opts).tryCatch hi
      (fun _ _ _ _ _ => safe_throw fun _ _ _ => by simp) fun created _ _ _ hc session hs => ?_
    obtain ⟨session', hs', ho⟩ := hc
    cases hs
    cases hs'
    exact ho
  · have ho₁ := hs session rfl
    refine (safe_mint hp hi₁ opts fun e w' hi' => safe_audit hi' (by simp) _).bind_anyhow hi₁
      fun minted w₂ hle₂ hi₂ hm => ?_
    cases ha : truthy minted.providerApplicantId with
    | none => exact safe_pure_anyhow
    | some a =>
      have ho₂ := Tables.owns_of_keeps hle₂ ho₁
      exact (safe_bindApplicantId ho₂ (hm minted rfl a ha)).bind_anyhow hi₂
        fun _ _ _ _ _ => safe_pure_anyhow

theorem safe_refresh (hi : (ownership deps owner).Inv w) (userId sessionId : Option String) :
    SafeFor deps owner (userId.getD "") Anyhow (refresh userId sessionId) w := by
  refine safe_requireUser_bind (safe_ofExcept_bind fun id _ => ?_)
  apply (safe_requireOwned hi).bind_anyhow hi
  intro session w₁ _ hi₁ _
  dsimp only
  split
  · exact safe_throw_anyhow
  · refine Safe.bind_anyhow (Q := Anyhow) ?_ hi₁ fun token w₂ _ hi₂ _ => ?_
    · exact Safe.tryCatch_anyhow (safe_provider _) hi₁ fun _ _ _ _ _ => safe_throw_anyhow
    · exact (safe_audit hi₂ (by simp) _).bind_anyhow hi₂ fun _ _ _ _ _ => safe_pure_anyhow

theorem safe_status (hp : deps.provider.Honest owner) (hi : (ownership deps owner).Inv w)
    (userId sessionId : Option String) :
    SafeFor deps owner (userId.getD "") Anyhow (status deps userId sessionId) w := by
  refine safe_requireUser_bind (safe_ofExcept_bind fun id _ => ?_)
  apply (safe_requireOwned hi).bind_anyhow hi
  intro session w₁ _ hi₁ hs
  obtain ⟨hu, ho⟩ := hs session rfl
  exact (safe_reconcile hp hi₁ hu ho).bind_anyhow hi₁ fun _ _ _ _ _ => safe_pure_anyhow

theorem safe_latestForUser (hp : deps.provider.Honest owner) (hi : (ownership deps owner).Inv w)
    (userId : Option String) (reconciling : Bool) :
    SafeFor deps owner (userId.getD "") Anyhow (latestForUser deps userId reconciling) w := by
  apply safe_requireUser_bind
  apply (safe_getLatestSessionForUser _).bind_anyhow hi
  intro found w₁ _ hi₁ hf
  cases found with
  | none => exact safe_pure_anyhow
  | some session =>
    obtain ⟨hu, ho⟩ := hf session rfl
    cases reconciling with
    | false => exact safe_pure_anyhow
    | true => exact (safe_reconcile hp hi₁ hu ho).bind_anyhow hi₁ fun _ _ _ _ _ => safe_pure_anyhow

variable {event : WebhookEvent}

theorem safe_unboundFor (he : event.Honest owner) (session : Option SessionRecord) :
    SafeFor deps owner (owner event.providerApplicantId)
      (FoundOwn (owner event.providerApplicantId)) (unboundFor deps event session) w := by
  unfold unboundFor
  cases hu : truthy event.externalUserId with
  | none => exact safe_pure fun _ _ _ => foundOwn_none
  | some userId =>
    rw [he userId hu]
    dsimp only
    split
    · exact safe_getLatestUnboundSessionForUser _
    · exact safe_pure fun _ _ _ => foundOwn_none

theorem safe_applyEvent (hi : (ownership deps owner).Inv w) {session : SessionRecord}
    (ho : w.tables.owns (owner event.providerApplicantId) session.id)
    (new : VerificationStatus) (needsBinding : Bool) :
    SafeFor deps owner (owner event.providerApplicantId) Anyhow
      (applyEvent deps event new session needsBinding) w := by
  refine (safe_applyStatusTransition hi ho ?_ _ _).bind_anyhow hi fun _ _ _ _ _ => safe_pure_anyhow
  intro a ha
  have hb := (truthy_eq_some.mp ha).1
  cases needsBinding with
  | false => cases hb
  | true => rw [Option.some.inj hb]

theorem safe_handleWebhookEvent (hi : (ownership deps owner).Inv w) (he : event.Honest owner) :
    SafeFor deps owner (owner event.providerApplicantId) Anyhow
      (handleWebhookEvent deps event) w := by
  unfold handleWebhookEvent
  cases event.status with
  | none => exact safe_pure_anyhow
  | some new =>
    apply (safe_getSessionByProviderApplicantId _ _).bind_anyhow hi
    intro known w₁ _ hi₁ hk
    apply (safe_unboundFor he known).bind_anyhow hi₁
    intro unbound w₂ hle₂ hi₂ hu
    cases unbound with
    | some unbound => exact safe_applyEvent hi₂ (hu unbound rfl).2 new true
    | none => cases known with
      | some session =>
        exact safe_applyEvent hi₂ (Tables.owns_of_keeps hle₂ (hk session rfl).2) new false
      | none => exact safe_pure_anyhow

theorem safe_hostedPage (hi : (ownership deps owner).Inv w) (sessionId : String) :
    SafeFor deps owner userId Anyhow (hostedPage deps sessionId) w := by
  refine Safe.bind_anyhow (Q := Anyhow) ?_ hi fun found w₁ _ hi₁ _ => ?_
  · exact safe_direct (safe_tx trivial (fun _ _ _ => .of_sessions rfl) fun _ _ _ _ => trivial)
  · cases found with
    | none => exact safe_pure_anyhow
    | some session =>
      dsimp only
      split
      · exact safe_pure_anyhow
      · refine Safe.tryCatch_anyhow (Q := Anyhow) ?_ hi₁ fun _ _ _ _ _ => safe_pure_anyhow
        exact (safe_provider _).bind_anyhow hi₁ fun _ _ _ _ _ => safe_pure_anyhow

/-- An honest call keeps the discipline, and changes sessions of its user alone. -/
theorem Call.Honest.safe (hp : deps.provider.Honest owner) (hi : (ownership deps owner).Inv w)
    {c : Call} (hc : c.Honest owner) :
    SafeFor deps owner (c.user owner) Anyhow (c.program deps) w := by
  have hreply : ∀ {α : Type} {u : String} {p : Service α} {f : α → Reply},
      SafeFor deps owner u Anyhow p w → SafeFor deps owner u Anyhow (p >>= fun a => pure (f a)) w :=
    fun hs => hs.bind_anyhow hi fun _ _ _ _ _ => safe_pure_anyhow
  cases c with
  | start userId input => exact hreply (safe_start hp hi userId input)
  | refresh userId sessionId => exact hreply (safe_refresh hi userId sessionId)
  | status userId id => exact hreply (safe_status hp hi userId id)
  | latestForUser userId reconciling => exact hreply (safe_latestForUser hp hi userId reconciling)
  | handleWebhookEvent event => exact hreply (safe_handleWebhookEvent hi hc)
  | hostedPage sessionId => exact hreply (safe_hostedPage hi sessionId)
  | applyStatusTransition => exact hc.elim

end Programs

section Runs

variable {deps : VerificationServiceDeps} {owner : String → String} {w : World}

theorem spares_refl (userId : String) (w : World) : w.Spares userId w := fun _ hr _ => hr

theorem allSafe_runService (hp : deps.provider.Honest owner)
    (hi : (ownership deps owner).Inv w) {events : List (Event Call)}
    (he : ∀ c, .start c ∈ events → c.Honest owner) :
    Pool.AllSafe (ownership deps owner) (exec deps) (fun c => World.Spares (c.user owner))
      (fun _ => Program.Anyhow) (runService deps w events) :=
  (Pool.allSafe_idle hi).run (fun _ => spares_refl _) events fun c hc _ hi' => (he c hc).safe hp hi'

/-- When the provider and its events name applicants with their owners only, every session that is
bound to an applicant belongs to its owner after any events, and no step of an event changes a
session of another user. -/
theorem applicants_have_one_user (hp : deps.provider.Honest owner) (hf : w.Fresh deps)
    (hb : w.tables.BoundToOwner owner) (events : List (Event Call))
    (he : ∀ c, .start c ∈ events → c.Honest owner) :
    (runService deps w events).state.tables.BoundToOwner owner ∧
      ∀ i t event, (runService deps w events).threads[i]? = some t →
        t.call = .handleWebhookEvent event →
        (runService deps w events).state.Spares (owner event.providerApplicantId)
          (runService deps w (events ++ [.step i])).state := by
  have hall := allSafe_runService hp ⟨hf, hb⟩ he
  refine ⟨hall.inv.2, fun i t event ht hc => ?_⟩
  have hrun : runService deps w (events ++ [.step i]) =
      (runService deps w events).next (exec deps) (Call.program deps) (.step i) :=
    Pool.run_append (exec deps) (Call.program deps) (Pool.idle w) events [.step i]
  have hstep : World.Spares (t.call.user owner) (runService deps w events).state
      (runService deps w (events ++ [.step i])).state := by
    rw [hrun]
    exact hall.step (fun _ => spares_refl _) ht
  rwa [hc] at hstep

end Runs

def personalProvider : VerificationProvider where
  createSession _ userId _ := .ok ⟨some userId, "token"⟩
  refreshToken _ _ _ := .ok ⟨"token"⟩
  getStatus _ _ := .ok .pending
  getStatusByUserId := some fun _ userId => .ok ⟨.pending, some userId⟩

theorem honest_personalProvider : personalProvider.Honest id where
  createSession := by
    intro n userId opts minted hm a ha
    cases hm
    exact (Option.some.inj (truthy_eq_some.mp ha).1).symm
  getStatusByUserId := by
    intro byUserId hby n userId found hf a ha
    cases hby
    cases hf
    exact (Option.some.inj (truthy_eq_some.mp ha).1).symm

def twoStarts : List (Event Call) :=
  [.start (.start (some "u") (some (startInput "basic"))),
    .start (.start (some "v") (some (startInput "basic"))), .step 0, .step 1, .step 0,
    .start (.handleWebhookEvent (eventOf "u" "u" .approved none)), .step 0, .step 2, .step 1,
    .step 2, .step 2, .step 1]

theorem applicants_have_one_user_starting :
    (runService (steadyDeps personalProvider) World.empty twoStarts).state.tables.BoundToOwner
      id := by
  have hf : World.empty.Fresh (steadyDeps personalProvider) := World.fresh_empty _
  refine (applicants_have_one_user honest_personalProvider hf
    (fun r hr => absurd hr List.not_mem_nil) twoStarts fun c hc => ?_).1
  simp only [twoStarts, List.mem_cons, List.not_mem_nil, Event.start.injEq, or_false, false_or,
    reduceCtorEq] at hc
  rcases hc with rfl | rfl | rfl
  · trivial
  · trivial
  · intro userId hu
    exact Option.some.inj (truthy_eq_some.mp hu).1

end Kyc
