import Kyc.Service.Calls

/-! # Where a status comes from

A session leaves `initial` only for a status that the provider named: in an event that was
delivered about the session's applicant, or in its answer when it was asked about the
session. The programs of the service keep this up together, in every interleaving.
-/

namespace Kyc

/-- The provider is asked about the session: about its applicant, or about its user. -/
def ProviderCall.About (r : SessionRecord) : ProviderCall → Prop
  | getStatus applicantId => r.providerApplicantId = some applicantId
  | getStatusByUserId userId => r.userId = userId
  | _ => False

/-- The status that the answer to a lookup names. -/
def ProviderCall.status? : (c : ProviderCall) → c.Ans → Option VerificationStatus
  | getStatus _, status => some status
  | getStatusByUserId _, found => some found.status
  | _, _ => none

/-- How the provider named the status of a session: in a delivered event about its applicant, or
in the answer to a call about it, unless the session had it before. -/
inductive Told (deps : VerificationServiceDeps) (before : Tables)
    (delivered : WebhookEvent → Prop) (calls : List ProviderCall) (r : SessionRecord) : Prop
  | before {r₀ : SessionRecord} (h : r₀ ∈ before.sessions.rows) (kept : r₀.Keeps r)
      (status : r.status = r₀.status)
  | event {event : WebhookEvent} (h : delivered event) (status : event.status = some r.status)
      (applicant : r.providerApplicantId = some event.providerApplicantId)
  | answer {n : ℕ} {c : ProviderCall} {a : c.Ans} (h : calls[n]? = some c) (about : c.About r)
      (answered : deps.provider.answer n c = .ok a) (status : c.status? a = some r.status)

theorem World.follows_refl (w : World) :
    w.tables.Keeps w.tables ∧ w.providerCalls <+: w.providerCalls :=
  ⟨.refl w.tables, List.prefix_rfl⟩

theorem World.follows_trans {w w' w'' : World}
    (h : w.tables.Keeps w'.tables ∧ w.providerCalls <+: w'.providerCalls)
    (h' : w'.tables.Keeps w''.tables ∧ w'.providerCalls <+: w''.providerCalls) :
    w.tables.Keeps w''.tables ∧ w.providerCalls <+: w''.providerCalls :=
  ⟨h.1.trans h'.1, h.2.trans h'.2⟩

/-- What all calls count on: fresh ids, and that the provider named every status but `initial`. -/
def provenance (deps : VerificationServiceDeps) (before : Tables)
    (delivered : WebhookEvent → Prop) : Discipline World where
  Inv w := w.Fresh deps ∧ ∀ r ∈ w.tables.sessions.rows, r.status ≠ .initial →
    Told deps before delivered w.providerCalls r
  Le w w' := w.tables.Keeps w'.tables ∧ w.providerCalls <+: w'.providerCalls
  refl := World.follows_refl
  trans := @World.follows_trans

namespace Provenance

open Program

variable {deps : VerificationServiceDeps} {before : Tables}
  {delivered : WebhookEvent → Prop} {w w' : World} {r r' session : SessionRecord} {id : String}

section Facts

theorem about_of_keeps {c : ProviderCall} (h : c.About r) (hk : r.Keeps r') : c.About r' := by
  cases c with
  | getStatus applicantId =>
    have bound : r.providerApplicantId = some applicantId := h
    exact (hk.applicant (by rw [bound]; simp)).trans bound
  | getStatusByUserId userId => exact (SessionRecord.userId_of_identity hk.identity).trans h
  | createSession | refreshToken => exact h.elim

theorem getElem?_of_appended {calls calls' : List ProviderCall} (h : calls <+: calls') {n : ℕ}
    {c : ProviderCall} (hn : calls[n]? = some c) : calls'[n]? = some c := by
  obtain ⟨hlt, rfl⟩ := List.getElem?_eq_some_iff.mp hn
  exact List.prefix_iff_getElem?.mp h n hlt

theorem told_of_keeps {calls calls' : List ProviderCall} (h : Told deps before delivered calls r)
    (hk : r.Keeps r') (hs : r'.status = r.status) (hc : calls <+: calls') :
    Told deps before delivered calls' r' := by
  cases h with
  | before h kept status => exact .before h (kept.trans hk) (hs.trans status)
  | @event event h status applicant =>
    refine .event h (status.trans (by rw [hs])) ?_
    exact (hk.applicant (by rw [applicant]; simp)).trans applicant
  | answer h about answered status =>
    exact .answer (getElem?_of_appended hc h) (about_of_keeps about hk) answered
      (status.trans (by rw [hs]))

theorem step (hi : (provenance deps before delivered).Inv w) (he : Evolves w.tables w'.tables)
    (hf : w'.Fresh deps) (hc : w.providerCalls <+: w'.providerCalls)
    (hr : ∀ r' ∈ w'.tables.sessions.rows, r'.status ≠ .initial →
      (∃ r ∈ w.tables.sessions.rows, r.Keeps r' ∧ r'.status = r.status) ∨
        Told deps before delivered w'.providerCalls r') :
    (provenance deps before delivered).Inv w' ∧
      (provenance deps before delivered).Le w w' ∧ True := by
  refine ⟨⟨hf, fun r' hr' hs => ?_⟩, ⟨he.keeps, hc⟩, trivial⟩
  rcases hr r' hr' hs with ⟨r, hm, hk, hst⟩ | told
  · exact told_of_keeps (hi.2 r hm (hst ▸ hs)) hk hst hc
  · exact told

/-- Outside a transaction no status is written. -/
theorem outside (deps : VerificationServiceDeps) {o : TxOp} (ho : o.Outside) (w : World) :
    (execTx deps o w).2.providerCalls = w.providerCalls ∧
      ∀ r' ∈ (execTx deps o w).2.tables.sessions.rows,
        ∃ r ∈ w.tables.sessions.rows, r.Keeps r' ∧ r'.status = r.status := by
  have still : ∀ r' ∈ w.tables.sessions.rows,
      ∃ r ∈ w.tables.sessions.rows, r.Keeps r' ∧ r'.status = r.status :=
    fun r' hr' => ⟨r', hr', .refl r', rfl⟩
  cases o with
  | newId => exact ⟨rfl, still⟩
  | store o =>
    cases o with
    | createSession | updateSessionStatus => exact ho.elim
    | bindApplicantId id a =>
      have hrun := run_perform (execTx deps) (TxOp.store (.bindApplicantId id a)) w
      cases h : w.tables.sessions.get id with
      | none => rw [hrun.symm.trans (run_bindApplicantId_none h a)]; exact ⟨rfl, still⟩
      | some r =>
        rw [hrun.symm.trans (run_bindApplicantId h a)]
        refine ⟨rfl, fun r' hr' => ?_⟩
        rcases Tables.mem_rows_setSession hr' with rfl | ⟨hm, -⟩
        · exact ⟨r, Table.get_mem h, SessionRecord.keeps_withApplicant,
            SessionRecord.status_withApplicant ..⟩
        · exact still r' hm
    | _ => exact ⟨rfl, still⟩

theorem silent {o : ServiceOp} (ho : Silent deps o)
    (hi : (provenance deps before delivered).Inv w) :
    (provenance deps before delivered).Inv (exec deps o w).2 ∧
      (provenance deps before delivered).Le w (exec deps o w).2 ∧ True := by
  obtain ⟨he, hf⟩ := ho.issued.advances hi.1
  cases ho with
  | direct ho =>
    obtain ⟨hc, hr⟩ := outside deps ho w
    exact step hi he hf (hc ▸ List.prefix_rfl) fun r' hr' _ => Or.inl (hr r' hr')
  | persist owner opts =>
    have hrun : exec deps (.transaction (persistBody deps owner opts)) w =
        (.ok (newRecord deps w owner opts), w.withNew deps owner opts) := by
      simp only [exec, execTransaction, run_persistBody]
    rw [hrun] at he hf ⊢
    refine step hi he hf List.prefix_rfl fun r' hr' hs => ?_
    rcases Tables.mem_rows_setSession (t := w.tables) hr' with rfl | ⟨hm, -⟩
    · exact absurd rfl hs
    · exact Or.inl ⟨r', hm, .refl r', rfl⟩
  | provider c =>
    exact step hi he hf (List.prefix_append ..) fun r' hr' _ => Or.inl ⟨r', hr', .refl r', rfl⟩

/-- The session was read, and is still what it was but for what may change. -/
def Read (session : SessionRecord) (w : World) : Prop :=
  ∃ r, w.tables.sessions.get session.id = some r ∧ session.Keeps r

theorem read_of_keeps (h : Read session w) (ht : w.tables.Keeps w'.tables) :
    Read session w' := by
  obtain ⟨r, hr, hk⟩ := h
  obtain ⟨r', hr', hk'⟩ := ht r (Table.get_mem hr)
  refine ⟨r', ?_, hk.trans hk'⟩
  rw [← SessionRecord.id_of_identity (hk.trans hk').identity]
  exact Table.get_of_mem hr'

theorem read_of_mem (hm : session ∈ w.tables.sessions.rows)
    (ht : w.tables.Keeps w'.tables) : Read session w' :=
  read_of_keeps ⟨session, Table.get_of_mem hm, .refl session⟩ ht

/-- The status, written on the session with the binding, is one that the provider named. -/
def Justified (deps : VerificationServiceDeps) (before : Tables)
    (delivered : WebhookEvent → Prop) (w : World) (session : SessionRecord)
    (status : VerificationStatus) (binding : Option String) : Prop :=
  ∀ r', r'.identity = session.identity →
    (session.providerApplicantId ≠ none → r'.providerApplicantId = session.providerApplicantId) →
    (∀ a ∈ binding, r'.providerApplicantId = some a) → r'.status = status →
    Told deps before delivered w.providerCalls r'

theorem justified_of_le {status : VerificationStatus} {binding : Option String}
    (h : Justified deps before delivered w session status binding)
    (hle : (provenance deps before delivered).Le w w') :
    Justified deps before delivered w' session status binding :=
  fun r' hid ha hb hs => told_of_keeps (h r' hid ha hb hs) (.refl r') rfl hle.2

end Facts

abbrev SafeWith (deps : VerificationServiceDeps) (before : Tables)
    (delivered : WebhookEvent → Prop) {α : Type} (Q : Except Thrown α → World → Prop)
    (p : Service α) (w : World) : Prop :=
  p.Safe (provenance deps before delivered) (exec deps) (fun _ _ => True) Q w

section Operations

theorem safe_silent {α : Type} {p : Service α} (hp : p.Uses (Silent deps)) :
    SafeWith deps before delivered Anyhow p w :=
  hp.safe fun _ _ ho hi => silent ho hi

theorem safe_find {o : StoreOp} {Q : Except Thrown o.Ans → World → Prop}
    (ho : TxOp.Outside (.store o))
    (hQ : ∀ w', ∀ w'', (provenance deps before delivered).Le (execTx deps (.store o) w').2 w'' →
      Q (execTx deps (.store o) w').1 w'') :
    SafeWith deps before delivered Q (Service.direct (Tx.store o)) w := by
  refine safe_storeOp (fun w' hi => ?_) fun w' _ _ w'' h _ => hQ w' w'' h
  obtain ⟨hi', hle, -⟩ := silent (show Silent deps _ from .direct ho) hi
  exact ⟨hi', hle⟩

theorem safe_provider (c : ProviderCall) :
    SafeWith deps before delivered
      (fun r w => ∃ n, w.providerCalls[n]? = some c ∧ deps.provider.answer n c = r)
      (Service.provider c) w := by
  refine safe_perform (S := ServiceSig) (o := .provider c) fun w' _ hi => ?_
  obtain ⟨hi', hle, htrue⟩ := silent (show Silent deps _ from .provider c) hi
  refine ⟨hi', hle, htrue, fun w'' h _ => ⟨w'.providerCalls.length, ?_, rfl⟩⟩
  exact getElem?_of_appended h.2 List.getElem?_concat_length

theorem safe_writeStatus (hr : Read session w) {status : VerificationStatus}
    {source : StatusSource} {options : ApplyStatusTransitionOptions}
    (hj : Justified deps before delivered w session status (truthy options.bindApplicantId)) :
    SafeWith deps before delivered Anyhow (writeStatus session.id status source options) w := by
  refine safe_perform (S := ServiceSig)
    (o := .transaction (writeStatusBody session.id status source options)) fun w' hle hi => ?_
  obtain ⟨r, hget, hk⟩ := read_of_keeps hr hle.1
  obtain ⟨transition, w'', hrun, hw⟩ := run_writeStatusBody deps status source options hget
  have hexec : exec deps (.transaction (writeStatusBody session.id status source options)) w' =
      (.ok transition, w'') := by
    rw [exec, execTransaction, hrun]
  have issued : Issued deps (.transaction (writeStatusBody session.id status source options)) :=
    .write session.id status source options
  obtain ⟨he, hf⟩ := issued.advances hi.1
  rw [hexec] at he hf ⊢
  have hcalls : w'.providerCalls <+: w''.providerCalls :=
    hw.providerCalls ▸ List.prefix_rfl
  have hkept : r.Keeps transition.session := by
    obtain ⟨r'', hr'', hk''⟩ := hw.evolves.keeps r (Table.get_mem hget)
    have hid : r''.id = transition.session.id :=
      (SessionRecord.id_of_identity hk''.identity).trans hw.id.symm
    have hset : w''.tables.sessions.get r''.id = some transition.session := by
      rw [hid, hw.sessions, Table.get_set_self]
    obtain rfl := Option.some.inj ((Table.get_of_mem hr'').symm.trans hset)
    exact hk''
  have htold : transition.session.status ≠ r.status →
      Told deps before delivered w''.providerCalls transition.session := by
    intro hne
    by_cases ha : r.AcceptsBinding (truthy options.bindApplicantId)
    · have hstatus := hw.status
      have happlicant := hw.applicant
      rw [if_pos ha] at hstatus happlicant
      rw [hstatus] at hne
      rw [VerificationStatus.write_of_not_terminal
        (VerificationStatus.write_ne_self_iff.mp hne).1] at hstatus
      rw [hw.providerCalls]
      refine justified_of_le hj hle _ ((hkept.identity).trans hk.identity) ?_ ?_ hstatus
      · exact (hk.trans hkept).applicant
      · intro a hb
        rw [happlicant, Option.mem_def.mp hb, Option.some_or]
    · rw [hw.status, if_neg ha] at hne
      exact absurd rfl hne
  obtain ⟨hi', hle', htrue⟩ := step hi he hf hcalls fun r' hr' _ => by
    rw [hw.sessions] at hr'
    rcases Tables.mem_rows_setSession (t := w'.tables) hr' with rfl | ⟨hm, -⟩
    · by_cases hs : transition.session.status = r.status
      · exact Or.inl ⟨r, Table.get_mem hget, hkept, hs⟩
      · exact Or.inr (htold hs)
    · exact Or.inl ⟨r', hm, .refl r', rfl⟩
  exact ⟨hi', hle', htrue, fun _ _ _ => trivial⟩

end Operations

section Programs

theorem safe_runEffects (hi : (provenance deps before delivered).Inv w) (source : StatusSource)
    (transition : StatusTransition) (rejectLabels : Option (List String)) :
    SafeWith deps before delivered Anyhow
      (runEffects deps id source transition rejectLabels) w := by
  unfold runEffects
  split
  · refine Safe.tryCatch_anyhow (Q := Anyhow) ?_ hi fun e w' _ _ _ => ?_
    · refine safe_perform (S := ServiceSig) (o := .onStatusTransition _) fun w' _ hi' => ?_
      exact ⟨hi', (provenance deps before delivered).refl w', trivial, fun _ _ _ => trivial⟩
    · exact safe_silent ((notes_audit (by simp) ..).mono fun _ => Notes.silent deps)
  · exact safe_pure_anyhow

theorem safe_applyStatusTransition (hi : (provenance deps before delivered).Inv w)
    (hr : Read session w) {status : VerificationStatus} {source : StatusSource}
    {options : ApplyStatusTransitionOptions}
    (hj : Justified deps before delivered w session status (truthy options.bindApplicantId)) :
    SafeWith deps before delivered Anyhow
      (applyStatusTransition deps session.id status source options) w := by
  apply (safe_writeStatus hr hj).bind_anyhow hi
  intro transition w' _ hi' _
  exact (safe_runEffects hi' ..).bind_anyhow hi' fun _ _ _ _ _ => safe_pure_anyhow

theorem justified_of_answer {n : ℕ} {c : ProviderCall} {a : c.Ans}
    {status : VerificationStatus} (hn : w.providerCalls[n]? = some c)
    (ha : deps.provider.answer n c = .ok a) (hs : c.status? a = some status)
    (about : ∀ r', r'.identity = session.identity →
      (session.providerApplicantId ≠ none →
        r'.providerApplicantId = session.providerApplicantId) → c.About r')
    (binding : Option String) : Justified deps before delivered w session status binding :=
  fun r' hid happlicant _ hst => .answer hn (about r' hid happlicant) ha (hst ▸ hs)

/-- What is found about a session is what the provider answered about it. -/
theorem safe_lookup (hi : (provenance deps before delivered).Inv w) (session : SessionRecord) :
    SafeWith deps before delivered
      (fun r w => ∀ found, r = .ok (some found) →
        ∀ binding, Justified deps before delivered w session found.status binding)
      (lookup deps session) w := by
  unfold lookup
  split
  next applicantId happlicant =>
    refine (safe_provider (.getStatus applicantId)).bind hi ?_ fun e _ _ _ _ => by simp
    rintro status w' _ _ ⟨n, hn, ha⟩
    apply safe_pure
    rintro w'' hle _ _ hf binding
    cases hf
    have bound := (truthy_eq_some.mp happlicant).1
    refine justified_of_le (justified_of_answer hn ha rfl ?_ binding) hle
    exact fun r' _ kept => (kept (by rw [bound]; simp)).trans bound
  · split
    · refine (safe_provider (.getStatusByUserId session.userId)).bind hi ?_
        fun e _ _ _ _ => by simp
      rintro found w' _ _ ⟨n, hn, ha⟩
      apply safe_pure
      rintro w'' hle _ _ hf binding
      cases hf
      refine justified_of_le (justified_of_answer hn ha rfl ?_ binding) hle
      exact fun r' hid _ => SessionRecord.userId_of_identity hid
    · exact safe_pure fun _ _ _ found hf => by cases hf

theorem safe_reconcile (hi : (provenance deps before delivered).Inv w) (hr : Read session w) :
    SafeWith deps before delivered Anyhow (reconcile deps session) w := by
  unfold reconcile
  split
  · exact safe_pure_anyhow
  · refine Safe.tryCatch_anyhow (Q := Anyhow) ?_ hi fun _ _ _ _ _ => safe_pure_anyhow
    apply (safe_lookup hi session).bind_anyhow hi
    intro found w' hle hi' hf
    cases found with
    | none => exact safe_pure_anyhow
    | some found =>
      have found := hf found rfl (truthy (truthy found.providerApplicantId))
      exact (safe_applyStatusTransition hi' (read_of_keeps hr hle.1) found).bind_anyhow hi'
        fun _ _ _ _ _ => safe_pure_anyhow

theorem safe_start (userId : Option String) (input : Option JsonValue) :
    SafeWith deps before delivered Anyhow (start deps userId input) w :=
  safe_silent (uses_start Silent.admits userId input)

theorem safe_refresh (userId sessionId : Option String) :
    SafeWith deps before delivered Anyhow (refresh userId sessionId) w :=
  safe_silent (uses_refresh userId sessionId)

theorem safe_hostedPage (sessionId : String) :
    SafeWith deps before delivered Anyhow (hostedPage deps sessionId) w :=
  safe_silent (uses_hostedPage sessionId)

theorem safe_status (hi : (provenance deps before delivered).Inv w)
    (userId sessionId : Option String) :
    SafeWith deps before delivered Anyhow (status deps userId sessionId) w := by
  refine safe_decided fun owner _ => safe_decided fun id _ => ?_
  refine Safe.bind_anyhow (Q := fun r w => ∀ session, r = .ok session → Read session w) ?_ hi
    fun session w' _ hi' hs => ?_
  · refine Safe.bind (Q := fun r w => ∀ session, r = .ok (some session) → Read session w)
      (safe_find trivial fun w' w'' hle session hs => ?_) hi (fun found w' _ _ hf => ?_)
      fun _ _ _ _ _ => by simp
    · obtain ⟨hg, -⟩ := MemoryStore.getSessionByIdForUser_eq_some.mp (Except.ok.inj hs)
      exact read_of_mem (Table.get_mem hg) hle.1
    · cases found with
      | none => exact safe_throw fun _ _ _ => by simp
      | some session =>
        apply safe_pure
        intro w'' hle _ session' hs
        cases hs
        exact read_of_keeps (hf session rfl) hle.1
  · exact (safe_reconcile hi' (hs session rfl)).bind_anyhow hi' fun _ _ _ _ _ => safe_pure_anyhow

theorem safe_latestForUser (hi : (provenance deps before delivered).Inv w) (userId : Option String)
    (reconciling : Bool) :
    SafeWith deps before delivered Anyhow (latestForUser deps userId reconciling) w := by
  refine safe_decided fun owner _ => ?_
  refine Safe.bind_anyhow (Q := fun r w => ∀ session, r = .ok (some session) → Read session w)
    (safe_find trivial fun w' w'' hle session hs => ?_) hi fun found w' _ hi' hf => ?_
  · have hn := Except.ok.inj hs
    rw [MemoryStore.getLatestSessionForUser_eq] at hn
    exact read_of_mem (newest_mem hn) hle.1
  · cases found with
    | none => exact safe_pure_anyhow
    | some session =>
      cases reconciling with
      | false => exact safe_pure_anyhow
      | true =>
        exact (safe_reconcile hi' (hf session rfl)).bind_anyhow hi'
          fun _ _ _ _ _ => safe_pure_anyhow

theorem safe_applyEvent (hi : (provenance deps before delivered).Inv w) {event : WebhookEvent}
    (he : delivered event) (hr : Read session w) {new : VerificationStatus}
    (hs : event.status = some new) (needsBinding : Bool)
    (ha : needsBinding = false → session.providerApplicantId = some event.providerApplicantId)
    (hne : event.providerApplicantId ≠ "") :
    SafeWith deps before delivered Anyhow (applyEvent deps event new session needsBinding) w := by
  refine (safe_applyStatusTransition hi hr ?_).bind_anyhow hi fun _ _ _ _ _ => safe_pure_anyhow
  intro r' _ kept bound hst
  refine .event he (hst ▸ hs) ?_
  cases needsBinding with
  | false =>
    have applicant := ha rfl
    exact (kept (by rw [applicant]; simp)).trans applicant
  | true => exact bound _ (truthy_eq_some.mpr ⟨rfl, hne⟩)

theorem safe_unboundFor (event : WebhookEvent) (known : Option SessionRecord) :
    SafeWith deps before delivered (fun r w => ∀ session, r = .ok (some session) → Read session w)
      (unboundFor deps event known) w := by
  unfold unboundFor
  split
  · split
    · refine safe_find trivial fun w' w'' hle session hs => ?_
      have hn := Except.ok.inj hs
      rw [MemoryStore.getLatestUnboundSessionForUser_eq] at hn
      exact read_of_mem (newest_mem hn) hle.1
    · exact safe_pure fun _ _ _ session hs => by cases hs
  · exact safe_pure fun _ _ _ session hs => by cases hs

theorem safe_handleWebhookEvent (hi : (provenance deps before delivered).Inv w)
    {event : WebhookEvent} (he : delivered event) (hne : event.providerApplicantId ≠ "") :
    SafeWith deps before delivered Anyhow (handleWebhookEvent deps event) w := by
  unfold handleWebhookEvent
  cases hs : event.status with
  | none => exact safe_pure_anyhow
  | some new =>
    refine Safe.bind_anyhow (Q := fun r w => ∀ session, r = .ok (some session) →
      Read session w ∧ session.providerApplicantId = some event.providerApplicantId)
      (safe_find trivial fun w' w'' hle session hs => ?_) hi fun known w₁ _ hi₁ hk => ?_
    · obtain ⟨hm, hb⟩ := MemoryStore.getSessionByProviderApplicantId_mem (Except.ok.inj hs)
      exact ⟨read_of_mem hm hle.1, hb⟩
    · apply (safe_unboundFor event known).bind_anyhow hi₁
      intro unbound w₂ hle₂ hi₂ hu
      cases unbound with
      | some unbound =>
        exact safe_applyEvent hi₂ he (hu unbound rfl) hs true (by simp) hne
      | none => cases known with
        | some session =>
          obtain ⟨hr, ha⟩ := hk session rfl
          exact safe_applyEvent hi₂ he (read_of_keeps hr hle₂.1) hs false (fun _ => ha) hne
        | none => exact safe_pure_anyhow

end Programs

end Provenance

end Kyc
