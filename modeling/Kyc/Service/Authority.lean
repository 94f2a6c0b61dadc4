import Kyc.Service.Provenance

/-! # On whose behalf the provider is asked

The provider is asked to mint a token or to look up a status for a verified caller alone, and
then about the caller's own session. The one exception is the page of a session, whose token
is for the user of the session that the page names.
-/

namespace Kyc

/-- A token for the subject with these options is one for the session. -/
structure SessionRecord.Subject (r : SessionRecord) (subject : TokenSubject)
    (opts : CreateSessionOptions) : Prop where
  userId : subject.userId = r.userId
  applicant : subject.providerApplicantId ≠ none →
    r.providerApplicantId = subject.providerApplicantId
  opts : opts = ⟨r.platform, r.levelName, none⟩

/-- What a call to the provider is made for: for a caller, about the caller's own session, or for
the page of a session with this provider. -/
inductive Authorized (deps : VerificationServiceDeps) (caller : Option String → Prop)
    (opened : String → Prop) (t : Tables) : ProviderCall → Prop
  | mint {userId : String} (called : caller (some userId)) (named : userId ≠ "")
      (opts : CreateSessionOptions) : Authorized deps caller opened t (.createSession userId opts)
  | token {r : SessionRecord} {subject : TokenSubject} {opts : CreateSessionOptions}
      (hr : r ∈ t.sessions.rows) (about : r.Subject subject opts)
      (who : caller (some r.userId) ∨ opened r.id ∧ r.provider = deps.providerName) :
      Authorized deps caller opened t (.refreshToken subject opts)
  | lookup {r : SessionRecord} {c : ProviderCall} (hr : r ∈ t.sessions.rows) (about : c.About r)
      (called : caller (some r.userId)) : Authorized deps caller opened t c

theorem Authorized.mono {deps : VerificationServiceDeps} {caller caller' : Option String → Prop}
    {opened : String → Prop} {t : Tables} {c : ProviderCall}
    (h : Authorized deps caller opened t c)
    (hcaller : ∀ userId, caller (some userId) → caller' (some userId)) :
    Authorized deps caller' opened t c := by
  cases h with
  | mint called named opts => exact .mint (hcaller _ called) named opts
  | token hr about who => exact .token hr about (who.imp_left (hcaller _))
  | lookup hr about called => exact .lookup hr about (hcaller _ called)

theorem World.keeps_refl (w : World) : w.tables.Keeps w.tables := .refl w.tables

theorem World.keeps_trans {w w' w'' : World} (h : w.tables.Keeps w'.tables)
    (h' : w'.tables.Keeps w''.tables) : w.tables.Keeps w''.tables := h.trans h'

/-- What all calls count on: fresh ids, and that every call to the provider is authorized. -/
def authority (deps : VerificationServiceDeps) (caller : Option String → Prop)
    (opened : String → Prop) (before : List ProviderCall) : Discipline World where
  Inv w := w.Fresh deps ∧ ∃ asked, w.providerCalls = before ++ asked ∧
    ∀ c ∈ asked, Authorized deps caller opened w.tables c
  Le w w' := w.tables.Keeps w'.tables
  refl := World.keeps_refl
  trans := @World.keeps_trans

namespace Authority

open Program
open Provenance (Read read_of_keeps read_of_mem about_of_keeps outside)

variable {deps : VerificationServiceDeps} {caller : Option String → Prop}
  {opened : String → Prop} {before : List ProviderCall} {w w' : World}
  {r r' session : SessionRecord}

section Facts

theorem subject_of_keeps {subject : TokenSubject} {opts : CreateSessionOptions}
    (h : r.Subject subject opts) (hk : r.Keeps r') : r'.Subject subject opts where
  userId := h.userId.trans (SessionRecord.userId_of_identity hk.identity).symm
  applicant hne := by
    have applicant := h.applicant hne
    exact (hk.applicant (by rwa [applicant])).trans applicant
  opts := by
    rw [h.opts, show r'.platform = r.platform from congrArg SessionIdentity.platform hk.identity,
      SessionRecord.levelName_of_identity hk.identity]

theorem authorized_of_keeps {t t' : Tables} {c : ProviderCall}
    (h : Authorized deps caller opened t c) (hk : t.Keeps t') :
    Authorized deps caller opened t' c := by
  cases h with
  | mint called named opts => exact .mint called named opts
  | @token r _ _ hr about who =>
    obtain ⟨r', hr', kept⟩ := hk r hr
    refine .token hr' (subject_of_keeps about kept) ?_
    rw [SessionRecord.userId_of_identity kept.identity, SessionRecord.id_of_identity kept.identity,
      show r'.provider = r.provider from congrArg SessionIdentity.provider kept.identity]
    exact who
  | @lookup r _ hr about called =>
    obtain ⟨r', hr', kept⟩ := hk r hr
    refine .lookup hr' (about_of_keeps about kept) ?_
    rwa [SessionRecord.userId_of_identity kept.identity]

theorem step (hi : (authority deps caller opened before).Inv w) (he : Evolves w.tables w'.tables)
    (hf : w'.Fresh deps) (hc : w'.providerCalls = w.providerCalls) :
    (authority deps caller opened before).Inv w' ∧
      (authority deps caller opened before).Le w w' ∧ True := by
  obtain ⟨-, asked, hasked, authorized⟩ := hi
  refine ⟨⟨hf, asked, hc.trans hasked, fun c hm => ?_⟩, he.keeps, trivial⟩
  exact authorized_of_keeps (authorized c hm) he.keeps

theorem unasked {o : ServiceOp} (ho : Issued deps o) (hn : ∀ c, o ≠ .provider c)
    (hi : (authority deps caller opened before).Inv w) :
    (authority deps caller opened before).Inv (exec deps o w).2 ∧
      (authority deps caller opened before).Le w (exec deps o w).2 ∧ True := by
  obtain ⟨he, hf⟩ := ho.advances hi.1
  refine step hi he hf ?_
  cases ho with
  | direct ho => exact (outside deps ho w).1
  | persist owner opts => simp only [exec, execTransaction, run_persistBody]; rfl
  | write id status source options =>
    cases h : w.tables.sessions.get id with
    | none =>
      rw [exec, execTransaction, run_writeStatusBody_none status source options h]
      rfl
    | some r =>
      obtain ⟨transition, w', hrun, hw⟩ := run_writeStatusBody deps status source options h
      rw [exec, execTransaction, hrun]
      exact hw.providerCalls
  | provider c => exact absurd rfl (hn c)
  | onStatusTransition e => rfl

end Facts

abbrev SafeWith (deps : VerificationServiceDeps) (caller : Option String → Prop)
    (opened : String → Prop) (before : List ProviderCall) {α : Type}
    (Q : Except Thrown α → World → Prop) (p : Service α) (w : World) : Prop :=
  p.Safe (authority deps caller opened before) (exec deps) (fun _ _ => True) Q w

section Operations

theorem safe_unasked {o : ServiceOp} (ho : Issued deps o) (hn : ∀ c, o ≠ .provider c) :
    SafeWith deps caller opened before Anyhow (perform (S := ServiceSig) o) w := by
  refine safe_perform fun w' _ hi => ?_
  obtain ⟨hi', hle, htrue⟩ := unasked ho hn hi
  exact ⟨hi', hle, htrue, fun _ _ _ => trivial⟩

theorem safe_find {o : StoreOp} {Q : Except Thrown o.Ans → World → Prop}
    (ho : TxOp.Outside (.store o))
    (hQ : ∀ w' w'', (execTx deps (.store o) w').2.tables.Keeps w''.tables →
      Q (execTx deps (.store o) w').1 w'') :
    SafeWith deps caller opened before Q (Service.direct (Tx.store o)) w := by
  refine safe_storeOp (fun w' hi => ?_) fun w' _ _ w'' h _ => hQ w' w'' h
  obtain ⟨hi', hle, -⟩ := unasked (show Issued deps _ from .direct ho) (by simp) hi
  exact ⟨hi', hle⟩

theorem safe_audit {action : AuditAction} (ha : action ≠ .status_updated) (id : String)
    (metadata : Option AuditMetadata) :
    SafeWith deps caller opened before Anyhow (Service.direct (audit id action metadata)) w := by
  refine (notes_audit ha id metadata).safe fun o w ho hi => ?_
  have issued := (ho.silent deps).issued
  cases ho with
  | newId => exact unasked issued (by simp) hi
  | append h => exact unasked issued (by simp) hi

theorem safe_provider {c : ProviderCall}
    (hc : ∀ w' : World, w.tables.Keeps w'.tables → Authorized deps caller opened w'.tables c) :
    SafeWith deps caller opened before Anyhow (Service.provider c) w := by
  refine safe_perform (S := ServiceSig) (o := .provider c) fun w' hle hi => ?_
  obtain ⟨hf, asked, hasked, authorized⟩ := hi
  refine ⟨⟨hf, asked ++ [c], ?_, ?_⟩, .refl w'.tables, trivial, fun _ _ _ => trivial⟩
  · change w'.providerCalls ++ [c] = _
    rw [hasked, List.append_assoc]
  · intro c' hc'
    rcases List.mem_append.mp hc' with hc' | hc'
    · exact authorized c' hc'
    · rw [List.mem_singleton.mp hc']
      exact hc w' hle

end Operations

section Programs

theorem safe_applyStatusTransition (hi : (authority deps caller opened before).Inv w)
    (id : String) (status : VerificationStatus) (source : StatusSource)
    (options : ApplyStatusTransitionOptions) :
    SafeWith deps caller opened before Anyhow
      (applyStatusTransition deps id status source options) w := by
  apply Safe.bind_anyhow (safe_unasked (.write id status source options) (by simp)) hi
  intro transition w₁ _ hi₁ _
  refine Safe.bind_anyhow (Q := Anyhow) ?_ hi₁ fun _ _ _ _ _ => safe_pure_anyhow
  unfold runEffects
  split
  · refine Safe.tryCatch_anyhow (safe_unasked (.onStatusTransition _) (by simp)) hi₁ ?_
    exact fun _ _ _ _ _ => safe_audit (by simp) _ _
  · exact safe_pure_anyhow

/-- A session of the caller's is reconciled for the caller. -/
theorem safe_reconcile (hi : (authority deps caller opened before).Inv w)
    (hr : Read session w) (called : caller (some session.userId)) :
    SafeWith deps caller opened before Anyhow (reconcile deps session) w := by
  have authorized (c : ProviderCall) (about : c.About session) (w' : World)
      (hle : w.tables.Keeps w'.tables) : Authorized deps caller opened w'.tables c := by
    obtain ⟨r, hget, kept⟩ := read_of_keeps hr hle
    refine .lookup (Table.get_mem hget) (about_of_keeps about kept) ?_
    rwa [SessionRecord.userId_of_identity kept.identity]
  have looked : SafeWith deps caller opened before Anyhow (lookup deps session) w := by
    unfold lookup
    split
    next applicantId happlicant =>
      exact (safe_provider (authorized (.getStatus applicantId)
        (truthy_eq_some.mp happlicant).1)).bind_anyhow hi
        fun _ _ _ _ _ => safe_pure_anyhow
    · split
      · exact (safe_provider (authorized (.getStatusByUserId _) rfl)).bind_anyhow hi
          fun _ _ _ _ _ => safe_pure_anyhow
      · exact safe_pure_anyhow
  unfold reconcile
  split
  · exact safe_pure_anyhow
  · refine Safe.tryCatch_anyhow (Q := Anyhow) ?_ hi fun _ _ _ _ _ => safe_pure_anyhow
    apply looked.bind_anyhow hi
    intro found w₁ _ hi₁ _
    cases found with
    | none => exact safe_pure_anyhow
    | some found =>
      exact (safe_applyStatusTransition hi₁ _ _ _ _).bind_anyhow hi₁
        fun _ _ _ _ _ => safe_pure_anyhow

def FoundFor (owner : String) (r : Except Thrown (Option SessionRecord)) (w : World) : Prop :=
  ∀ session, r = .ok (some session) → Read session w ∧ session.userId = owner

theorem safe_requireOwned (hi : (authority deps caller opened before).Inv w) (id owner : String) :
    SafeWith deps caller opened before
      (fun r w => ∀ session, r = .ok session → Read session w ∧ session.userId = owner)
      (requireOwned id owner) w := by
  refine Safe.bind (Q := FoundFor owner) (safe_find trivial fun w' w'' hle session hs => ?_) hi
    (fun found w' _ _ hf => ?_) fun _ _ _ _ _ => by simp
  · obtain ⟨hg, hu⟩ := MemoryStore.getSessionByIdForUser_eq_some.mp (Except.ok.inj hs)
    exact ⟨read_of_mem (Table.get_mem hg) hle, hu⟩
  · cases found with
    | none => exact safe_throw fun _ _ _ => by simp
    | some session =>
      obtain ⟨hread, hu⟩ := hf session rfl
      apply safe_pure
      intro w'' hle _ session' hs
      cases hs
      exact ⟨read_of_keeps hread hle, hu⟩

theorem safe_start {userId : Option String} (called : caller userId)
    (hi : (authority deps caller opened before).Inv w) (input : Option JsonValue) :
    SafeWith deps caller opened before Anyhow (start deps userId input) w := by
  refine safe_decided fun owner ho => safe_decided fun opts _ => ?_
  obtain ⟨rfl, named⟩ := truthy_eq_some.mp (requireUser_eq_ok.mp ho)
  refine Safe.bind_anyhow (Q := Anyhow) ?_ hi fun session w₁ _ hi₁ _ => ?_
  · exact Safe.tryCatch_anyhow (safe_unasked (.persist owner opts) (by simp)) hi
      fun _ _ _ _ _ => safe_throw_anyhow
  · refine Safe.bind_anyhow (Q := Anyhow) ?_ hi₁ fun minted w₂ _ hi₂ _ => ?_
    · refine Safe.tryCatch_anyhow (safe_provider fun _ _ => .mint called named opts) hi₁
        fun e w₂ _ hi₂ _ => ?_
      exact (safe_audit (by simp) _ _).bind_anyhow hi₂ fun _ _ _ _ _ => safe_throw_anyhow
    · cases truthy minted.providerApplicantId with
      | none => exact safe_pure_anyhow
      | some applicantId =>
        exact Safe.bind_anyhow (Q := Anyhow) (safe_find trivial fun _ _ _ => trivial) hi₂
          fun _ _ _ _ _ => safe_pure_anyhow

theorem safe_refresh {userId : Option String} (called : caller userId)
    (hi : (authority deps caller opened before).Inv w) (sessionId : Option String) :
    SafeWith deps caller opened before Anyhow (refresh userId sessionId) w := by
  refine safe_decided fun owner ho => safe_decided fun id _ => ?_
  obtain ⟨rfl, -⟩ := truthy_eq_some.mp (requireUser_eq_ok.mp ho)
  apply (safe_requireOwned hi id owner).bind_anyhow hi
  intro session w₁ _ hi₁ hs
  obtain ⟨hread, hu⟩ := hs session rfl
  dsimp only
  split
  · exact safe_throw_anyhow
  · refine Safe.bind_anyhow (Q := Anyhow) ?_ hi₁ fun token w₂ _ hi₂ _ => ?_
    · refine Safe.tryCatch_anyhow (safe_provider fun w₂ hle => ?_) hi₁
        fun _ _ _ _ _ => safe_throw_anyhow
      obtain ⟨r, hget, kept⟩ := read_of_keeps hread hle
      refine .token (Table.get_mem hget)
        (subject_of_keeps (r := session) ⟨hu.symm, fun _ => rfl, rfl⟩ kept) (Or.inl ?_)
      rwa [SessionRecord.userId_of_identity kept.identity, hu]
    · exact (safe_audit (by simp) _ _).bind_anyhow hi₂ fun _ _ _ _ _ => safe_pure_anyhow

theorem safe_status {userId : Option String} (called : caller userId)
    (hi : (authority deps caller opened before).Inv w) (sessionId : Option String) :
    SafeWith deps caller opened before Anyhow (status deps userId sessionId) w := by
  refine safe_decided fun owner ho => safe_decided fun id _ => ?_
  obtain ⟨rfl, -⟩ := truthy_eq_some.mp (requireUser_eq_ok.mp ho)
  apply (safe_requireOwned hi id owner).bind_anyhow hi
  intro session w₁ _ hi₁ hs
  obtain ⟨hread, hu⟩ := hs session rfl
  exact (safe_reconcile hi₁ hread (by rwa [hu])).bind_anyhow hi₁ fun _ _ _ _ _ => safe_pure_anyhow

theorem safe_latestForUser {userId : Option String} (called : caller userId)
    (hi : (authority deps caller opened before).Inv w) (reconciling : Bool) :
    SafeWith deps caller opened before Anyhow (latestForUser deps userId reconciling) w := by
  refine safe_decided fun owner ho => ?_
  obtain ⟨rfl, -⟩ := truthy_eq_some.mp (requireUser_eq_ok.mp ho)
  refine Safe.bind_anyhow (Q := FoundFor owner) (safe_find trivial fun w' w'' hle session hs => ?_)
    hi fun found w₁ _ hi₁ hf => ?_
  · have hn := Except.ok.inj hs
    rw [MemoryStore.getLatestSessionForUser_eq] at hn
    exact ⟨read_of_mem (newest_mem hn) hle, (SessionRecord.ofUser_iff.mp (newest_prop hn)).1⟩
  · cases found with
    | none => exact safe_pure_anyhow
    | some session =>
      obtain ⟨hread, hu⟩ := hf session rfl
      cases reconciling with
      | false => exact safe_pure_anyhow
      | true =>
        exact (safe_reconcile hi₁ hread (by rwa [hu])).bind_anyhow hi₁
          fun _ _ _ _ _ => safe_pure_anyhow

theorem safe_hostedPage {sessionId : String} (ho : opened sessionId)
    (hi : (authority deps caller opened before).Inv w) :
    SafeWith deps caller opened before Anyhow (hostedPage deps sessionId) w := by
  refine Safe.bind_anyhow
    (Q := fun r w => ∀ session, r = .ok (some session) → Read session w ∧ session.id = sessionId)
    (safe_find trivial fun w' w'' hle session hs => ?_) hi fun found w₁ _ hi₁ hf => ?_
  · have hget : w'.tables.sessions.get sessionId = some session := Except.ok.inj hs
    exact ⟨read_of_mem (Table.get_mem hget) hle, Table.get_key hget⟩
  · cases found with
    | none => exact safe_pure_anyhow
    | some session =>
      obtain ⟨hread, hid⟩ := hf session rfl
      dsimp only
      split
      · exact safe_pure_anyhow
      next live =>
        refine Safe.tryCatch_anyhow (Q := Anyhow) ?_ hi₁ fun _ _ _ _ _ => safe_pure_anyhow
        refine (safe_provider fun w₂ hle => ?_).bind_anyhow hi₁ fun _ _ _ _ _ => safe_pure_anyhow
        obtain ⟨r, hget, kept⟩ := read_of_keeps hread hle
        refine .token (Table.get_mem hget)
          (subject_of_keeps (r := session) ⟨rfl, fun _ => rfl, rfl⟩ kept) (Or.inr ⟨?_, ?_⟩)
        · rwa [SessionRecord.id_of_identity kept.identity, hid]
        · rw [show r.provider = session.provider from
            congrArg SessionIdentity.provider kept.identity]
          exact not_not.mp fun hne => live (Or.inl hne)

theorem safe_handleWebhookEvent (hi : (authority deps caller opened before).Inv w)
    (event : WebhookEvent) :
    SafeWith deps caller opened before Anyhow (handleWebhookEvent deps event) w := by
  have applied {new : VerificationStatus} {session : SessionRecord} {needsBinding : Bool}
      {w : World} (hi : (authority deps caller opened before).Inv w) :
      SafeWith deps caller opened before Anyhow
        (applyEvent deps event new session needsBinding) w :=
    (safe_applyStatusTransition hi _ _ _ _).bind_anyhow hi fun _ _ _ _ _ => safe_pure_anyhow
  unfold handleWebhookEvent
  cases event.status with
  | none => exact safe_pure_anyhow
  | some new =>
    refine Safe.bind_anyhow (Q := Anyhow) (safe_find trivial fun _ _ _ => trivial) hi
      fun known w₁ _ hi₁ _ => ?_
    refine Safe.bind_anyhow (Q := Anyhow) ?_ hi₁ fun unbound w₂ _ hi₂ _ => ?_
    · unfold unboundFor
      split
      · split
        · exact safe_find trivial fun _ _ _ => trivial
        · exact safe_pure_anyhow
      · exact safe_pure_anyhow
    · cases unbound with
      | some unbound => exact applied hi₂
      | none => cases known with
        | some session => exact applied hi₂
        | none => exact safe_pure_anyhow

end Programs

end Authority

end Kyc
