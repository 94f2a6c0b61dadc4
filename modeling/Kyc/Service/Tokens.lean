import Kyc.Service.AuditTrail
import Kyc.Service.ProviderIsolation

/-! # Tokens for existing sessions

A token for a session that exists already is asked for by `refresh` and by the hosted
page. Both read the session's row first, and neither goes on when the row is terminal.
Terminal rows stay terminal, so a finished session is never given another token.
-/

namespace Kyc

/-- The call is for the session; a refresh is its user's own. -/
def Call.AsksFor (r : SessionRecord) : Call → Prop
  | .refresh userId sessionId => userId = some r.userId ∧ sessionId = some r.id
  | .hostedPage sessionId => sessionId = r.id
  | _ => False

/-- How a call turns a finished session down. -/
def Call.Refuses : Call → Except Thrown Reply → Prop
  | .refresh _ _, result => ∃ e, result = .error e
  | .hostedPage _, result => result = .ok (.decided (.not_found 404))
  | _, _ => False

def ServiceOp.Mints : ServiceOp → Prop
  | .provider c => c.Mints
  | _ => False

/-- The call remembers the row that it read, and only asks for a token of that row. -/
structure Remembers (c : Call) (w : World) (read : Option SessionRecord) (o : ServiceOp)
    (read' : Option SessionRecord) : Prop where
  mints : ∀ subject opts, o = .provider (.refreshToken subject opts) →
    ∃ r, read = some r ∧ ¬ r.status.Terminal ∧ c.AsksFor r ∧
      subject = ⟨r.userId, r.providerApplicantId⟩
  reads : ∀ r, read' = some r → read = some r ∨ w.tables.sessions.get r.id = some r

/-- The call reads once and asks for no token. -/
structure ReadsOnce (stepped : Bool) (o : ServiceOp) (stepped' : Bool) : Prop where
  first : stepped = false
  stepped : stepped' = true
  mints : ¬ o.Mints

def World.Finished (id : String) (w : World) : Prop :=
  ∃ r, w.tables.sessions.get id = some r ∧ r.status.Terminal

section Programs

open Program

variable {deps : VerificationServiceDeps}

variable (deps) in
theorem admitsWrites_not_mints : AdmitsWrites deps fun o : ServiceOp => ¬ o.Mints where
  direct _ := id
  persist _ _ := id
  provider h := h
  write _ _ _ _ := id
  effect _ := id

theorem remembers_idle {c : Call} (w : World) (read : Option SessionRecord) {o : ServiceOp}
    (ho : ¬ o.Mints) : Remembers c w read o read where
  mints _ _ he := by
    subst he
    exact absurd trivial ho
  reads _ hr := Or.inl hr

theorem remembers_uses {c : Call} {α : Type} {p : Service α}
    (hp : p.Uses fun o : ServiceOp => ¬ o.Mints)
    (read : Option SessionRecord) :
    p.WithGhost (exec deps) (fun _ => True) (Remembers c) (fun _ _ => True) read :=
  hp.withGhost (fun _ w ho _ => remembers_idle w read ho) fun _ => trivial

theorem remembers_refreshToken {c : Call} {r : SessionRecord} (hnt : ¬ r.status.Terminal)
    (hc : c.AsksFor r) (opts : CreateSessionOptions) :
    (Provider.refreshToken ⟨r.userId, r.providerApplicantId⟩ opts).WithGhost (exec deps)
      (fun _ => True) (Remembers c) (fun _ read => read = some r) (some r) := by
  apply withGhost_provider
  intro w _
  refine ⟨some r, ⟨?_, fun _ hr => Or.inl hr⟩, rfl⟩
  intro subject opts' he
  cases he
  exact ⟨r, rfl, hnt, hc, rfl⟩

theorem remembers_requireOwned (c : Call) (id owner : String) :
    (requireOwned id owner).WithGhost (exec deps) (fun _ => True) (Remembers c)
      (fun result read => ∀ session, result = .ok session →
        read = some session ∧ session.id = id ∧ session.userId = owner) none := by
  apply WithGhost.bind (Q := fun result read => ∀ found, result = .ok found →
    read = found ∧ ∀ session ∈ found, session.id = id ∧ session.userId = owner)
  · apply withGhost_store
    intro w _
    refine ⟨MemoryStore.getSessionByIdForUser w.tables id owner,
      ⟨fun _ _ he => by (cases he), ?_⟩, ?_⟩
    · intro r hr
      obtain ⟨hg, -⟩ := MemoryStore.getSessionByIdForUser_eq_some.mp hr
      right
      rwa [Table.get_key hg]
    · intro found hf
      cases hf
      refine ⟨rfl, fun session hs => ?_⟩
      obtain ⟨hg, hu⟩ := MemoryStore.getSessionByIdForUser_eq_some.mp hs
      exact ⟨Table.get_key hg, hu⟩
  · intro found read hq
    obtain ⟨hread, hs⟩ := hq found rfl
    cases found with
    | none => exact withGhost_throw fun _ h => by cases h
    | some session =>
      apply withGhost_pure
      intro session' h
      cases h
      exact ⟨hread, hs session rfl⟩
  · exact fun _ _ _ _ h => by cases h

theorem refresh_remembers (userId sessionId : Option String) :
    (refresh userId sessionId).WithGhost (exec deps) (fun _ => True)
      (Remembers (.refresh userId sessionId)) (fun _ _ => True) none := by
  apply withGhost_ofExcept_bind _ fun _ => trivial
  intro owner ho
  apply withGhost_ofExcept_bind _ fun _ => trivial
  intro id hid
  apply (remembers_requireOwned (.refresh userId sessionId) id owner).bind _ fun _ _ _ => trivial
  intro session read hread
  obtain ⟨rfl, rfl, rfl⟩ := hread session rfl
  dsimp only
  split
  · exact withGhost_throw trivial
  next hnt =>
    have hc : (Call.refresh userId sessionId).AsksFor session :=
      ⟨(truthy_eq_some.mp (requireUser_eq_ok.mp ho)).1, requireId_eq_ok hid⟩
    apply WithGhost.bind (Q := fun _ _ => True) _ _ fun _ _ _ => trivial
    · exact (remembers_refreshToken hnt hc _).tryCatch (fun _ _ _ => withGhost_throw trivial)
        fun _ _ _ => trivial
    · intro token read _
      apply WithGhost.bind (Q := fun _ _ => True) _ (fun _ _ _ => withGhost_pure trivial)
        fun _ _ _ => trivial
      apply remembers_uses
      exact uses_audit (admitsWrites_not_mints deps).toAdmits (by simp) ..

theorem hostedPage_remembers (sessionId : String) :
    (hostedPage deps sessionId).WithGhost (exec deps) (fun _ => True)
      (Remembers (.hostedPage sessionId)) (fun _ _ => True) none := by
  apply WithGhost.bind (Q := fun result read => ∀ found, result = .ok found →
    read = found ∧ ∀ session ∈ found, sessionId = session.id) _ _ fun _ _ _ => trivial
  · apply withGhost_store
    intro w _
    refine ⟨w.tables.sessions.get sessionId, ⟨fun _ _ he => by (cases he), ?_⟩, ?_⟩
    · intro r hr
      right
      rwa [Table.get_key hr]
    · intro found hf
      cases hf
      exact ⟨rfl, fun session hs => (Table.get_key hs).symm⟩
  · intro found read hq
    obtain ⟨hread, hs⟩ := hq found rfl
    rw [hread]
    cases found with
    | none => exact withGhost_pure trivial
    | some session =>
      dsimp only
      split
      · exact withGhost_pure trivial
      next hn =>
        have hnt : ¬ session.status.Terminal := (not_or.mp hn).2
        apply WithGhost.tryCatch (Q := fun _ _ => True) _ (fun _ _ _ => withGhost_pure trivial)
          fun _ _ _ => trivial
        have hc : (Call.hostedPage sessionId).AsksFor session := hs session rfl
        exact (remembers_refreshToken hnt hc _).bind (fun _ _ _ => withGhost_pure trivial)
          fun _ _ _ => trivial

theorem Call.remembers (c : Call) :
    (c.program deps).WithGhost (exec deps) (fun _ => True) (Remembers c) (fun _ _ => True)
      none := by
  cases c with
  | refresh userId sessionId =>
    exact (refresh_remembers userId sessionId).bind (fun _ _ _ => withGhost_pure trivial)
      fun _ _ _ => trivial
  | hostedPage sessionId =>
    exact (hostedPage_remembers sessionId).bind (fun _ _ _ => withGhost_pure trivial)
      fun _ _ _ => trivial
  | _ =>
    apply remembers_uses
    exact uses_of_not_mayMint (admitsWrites_not_mints deps) id

theorem refresh_refused (userId : Option String) (id : String) :
    (refresh userId (some id)).WithGhost (exec deps) (World.Finished id) (fun _ => ReadsOnce)
      (fun result _ => ∃ e, result = .error e) false := by
  apply withGhost_ofExcept_bind _ fun e => ⟨e, rfl⟩
  intro owner _
  apply withGhost_ofExcept_bind _ fun e => ⟨e, rfl⟩
  intro id' hid
  obtain rfl := Option.some.inj (requireId_eq_ok hid)
  apply WithGhost.bind (Q := fun result _ => ∀ session, result = .ok session →
    session.status.Terminal) _ _ fun e _ _ => ⟨e, rfl⟩
  · apply WithGhost.bind (Q := fun result _ => ∀ found, result = .ok found →
      ∀ session ∈ found, session.status.Terminal) _ _ fun _ _ _ _ h => by cases h
    · apply withGhost_store
      rintro w ⟨r, hr, ht⟩
      refine ⟨true, ⟨rfl, rfl, fun h => h⟩, fun found hf session hs => ?_⟩
      cases hf
      obtain ⟨hg, -⟩ := MemoryStore.getSessionByIdForUser_eq_some.mp hs
      rwa [← Option.some.inj (hr.symm.trans hg)]
    · intro found _ hq
      cases found with
      | none => exact withGhost_throw fun _ h => by cases h
      | some session =>
        apply withGhost_pure
        intro session' h
        cases h
        exact hq _ rfl session rfl
  · intro session _ hq
    dsimp only
    rw [if_pos (hq session rfl)]
    exact withGhost_throw ⟨_, rfl⟩

theorem hostedPage_refused (id : String) :
    (hostedPage deps id).WithGhost (exec deps) (World.Finished id) (fun _ => ReadsOnce)
      (fun result _ => result = .ok (.not_found 404)) false := by
  apply WithGhost.bind (Q := fun result _ => ∃ session, result = .ok (some session) ∧
    session.status.Terminal) _ _ fun _ _ ⟨_, h, _⟩ => by cases h
  · apply withGhost_store
    rintro w ⟨r, hr, ht⟩
    exact ⟨true, ⟨rfl, rfl, fun h => h⟩, r, congrArg Except.ok hr, ht⟩
  · rintro found _ ⟨session, hf, ht⟩
    cases hf
    dsimp only
    rw [if_pos (Or.inr ht)]
    exact withGhost_pure rfl

variable (deps) in
theorem Call.refused {c : Call} {id : String} (hc : c.Names id) :
    (c.program deps).WithGhost (exec deps) (World.Finished id) (fun _ => ReadsOnce)
      (fun result _ => c.Refuses result) false := by
  cases c with
  | refresh userId sessionId =>
    obtain rfl : sessionId = some id := hc
    apply (refresh_refused userId id).bind
    · rintro _ _ ⟨_, h⟩
      cases h
    · exact fun e _ _ => ⟨e, rfl⟩
  | hostedPage sessionId =>
    obtain rfl : sessionId = id := hc
    apply (hostedPage_refused sessionId).bind
    · rintro _ _ h
      cases h
      exact withGhost_pure rfl
    · rintro _ _ h
      cases h
  | _ => exact hc.elim

end Programs

section Runs

variable {deps : VerificationServiceDeps} {w : World} {events : List (Event Call)}

theorem World.Finished.later (hw : w.Fresh deps) {id : String}
    (h : (runService deps w events).state.Finished id) (later : List (Event Call)) :
    (runService deps w (events ++ later)).state.Finished id := by
  obtain ⟨r, hr, ht⟩ := h
  obtain ⟨r', hr', hk⟩ := (runService_evolves hw events later).keeps r (Table.get_mem hr)
  refine ⟨r', ?_, by rwa [hk.terminal ht]⟩
  have hid : r'.id = id := (SessionRecord.id_of_identity hk.identity).trans (Table.get_key hr)
  rw [← hid]
  exact Table.get_of_mem hr'

/-- A call that asks for a token does so for the row it read. -/
theorem exists_read_of_asks {i : ℕ} {subject : TokenSubject} {opts : CreateSessionOptions}
    (h : (runService deps w events).awaited i = some (.provider (.refreshToken subject opts))) :
    ∃ t before after r, (runService deps w events).threads[i]? = some t ∧
      events = before ++ .step i :: after ∧
      (runService deps w before).state.tables.sessions.get r.id = some r ∧
      ¬ r.status.Terminal ∧ t.call.AsksFor r ∧ subject = ⟨r.userId, r.providerApplicantId⟩ := by
  obtain ⟨t, k, hi, hr⟩ := Pool.exists_of_awaited h
  obtain ⟨read, hghost, hread⟩ := Pool.exists_ghost (Call.program deps)
    (K := fun evs (read : Option SessionRecord) => ∀ r, read = some r →
      ∃ before after, evs = before ++ .step i :: after ∧
      (runService deps w before).state.tables.sessions.get r.id = some r)
    hi (Call.remembers t.call) (fun _ _ _ => trivial) (fun _ _ _ _ h => by cases h)
    (fun evs₁ ev evs₂ read _ hK r hr => by
      obtain ⟨before, after, rfl, hg⟩ := hK r hr
      exact ⟨before, after ++ [ev], by simp, hg⟩)
    (fun evs₁ evs₂ t' o k read read' _ _ _ _ hn hK r hr => by
      rcases hn.reads r hr with hold | hnew
      · obtain ⟨before, after, rfl, hg⟩ := hK r hold
        exact ⟨before, after ++ [.step i], by simp, hg⟩
      · exact ⟨evs₁, [], rfl, hnew⟩)
  rw [hr] at hghost
  obtain ⟨_, hn, -⟩ := hghost w trivial
  obtain ⟨r, hread', hnt, hc, hsub⟩ := hn.mints subject opts rfl
  obtain ⟨before, after, he, hg⟩ := hread r hread'
  exact ⟨t, before, after, r, hi, he, hg, hnt, hc, hsub⟩

/-- What is left of a call for a finished session. -/
abbrev Refusing (deps : VerificationServiceDeps) (c : Call) (id : String) (p : Service Reply)
    (stepped : Bool) : Prop :=
  p.WithGhost (exec deps) (World.Finished id) (fun _ => ReadsOnce)
    (fun result _ => c.Refuses result)
    stepped

theorem refusing_later (hw : w.Fresh deps) {c : Call} {id : String} {i : ℕ} {stepped : Bool}
    {t : Thread ServiceSig Thrown Reply Call} (hf : (runService deps w events).state.Finished id)
    (hi : (runService deps w events).threads[i]? = some t) (ht : Refusing deps c id t.rest stepped)
    (later : List (Event Call)) :
    ∃ t' stepped', (runService deps w (events ++ later)).threads[i]? = some t' ∧
      Refusing deps c id t'.rest stepped' ∧ (stepped = true → stepped' = true) := by
  have hrun : ∀ later, (runService deps w events).run (exec deps) (Call.program deps) later =
      runService deps w (events ++ later) := fun later =>
    (Pool.run_append (exec deps) (Call.program deps) (Pool.idle w) events later).symm
  obtain ⟨t', stepped', hi', -, ht', hs⟩ := Pool.follow (Call.program deps)
    (K := fun _ stepped' => stepped = true → stepped' = true) hi ht (fun hs => hs) later
    (fun later₁ later₂ _ => by
      rw [hrun]
      exact hf.later hw later₁)
    (fun _ _ _ _ _ hs => hs)
    (fun _ _ _ _ _ _ _ _ _ _ _ hn _ _ => hn.stepped)
  rw [hrun] at hi'
  exact ⟨t', stepped', hi', ht', hs⟩

theorem Refusing.not_mints {c : Call} {id : String} {i : ℕ} {stepped : Bool}
    {t : Thread ServiceSig Thrown Reply Call} (ht : Refusing deps c id t.rest stepped)
    (hf : (runService deps w events).state.Finished id)
    (hi : (runService deps w events).threads[i]? = some t) {o : ServiceOp}
    (ho : (runService deps w events).awaited i = some o) : ¬ o.Mints := by
  obtain ⟨t', k, hi', hr⟩ := Pool.exists_of_awaited ho
  obtain rfl := Option.some.inj (hi.symm.trans hi')
  rw [Refusing, hr] at ht
  obtain ⟨_, hn, -⟩ := ht _ hf
  exact hn.mints

theorem Refusing.step {c : Call} {id : String} {i : ℕ} {stepped : Bool}
    {t : Thread ServiceSig Thrown Reply Call} (ht : Refusing deps c id t.rest stepped)
    (hf : (runService deps w events).state.Finished id)
    (hi : (runService deps w events).threads[i]? = some t) :
    ∃ t', (runService deps w (events ++ [.step i])).threads[i]? = some t' ∧
      Refusing deps c id t'.rest true := by
  have hnext := Pool.get_next_step (exec deps) (Call.program deps) hi
  have hrun := Pool.run_concat (exec deps) (Call.program deps) (Pool.idle w) events (.step i)
  refine ⟨_, (congrArg (·.threads[i]?) hrun).trans hnext, ?_⟩
  obtain ⟨call, p⟩ := t
  cases p with
  | ret | err => exact ht
  | await o k =>
    obtain ⟨_, hn, hk⟩ := ht _ hf
    exact hn.stepped ▸ hk

/-- A call that begins when its session is finished asks for no token, and its first step settles
it with a refusal. -/
theorem finished_session_refused (hw : w.Fresh deps) {id : String}
    (hf : (runService deps w events).state.Finished id) {c : Call} (hc : c.Names id)
    (before after : List (Event Call)) :
    let i := (runService deps w (events ++ before)).threads.length
    let run := runService deps w (events ++ before ++ .start c :: after)
    (∀ o, run.awaited i = some o → ¬ o.Mints) ∧
      (.step i ∈ after → ∃ result, run.outcome i = some result ∧ c.Refuses result) := by
  intro i run
  have hstart : (runService deps w (events ++ before ++ [.start c])).threads[i]? =
      some ⟨c, c.program deps⟩ := by
    rw [runService, Pool.run_concat]
    exact List.getElem?_concat_length
  have hfin : ∀ later, (runService deps w
      (events ++ before ++ [.start c] ++ later)).state.Finished id := by
    intro later
    rw [List.append_assoc, List.append_assoc]
    exact hf.later hw _
  have hsnoc : ∀ later, events ++ before ++ .start c :: later =
      events ++ before ++ [.start c] ++ later := fun later => by simp
  have hfin₀ := hfin []
  rw [List.append_nil] at hfin₀
  constructor
  · intro o ho
    obtain ⟨t, stepped, hi, ht, -⟩ :=
      refusing_later hw hfin₀ hstart (Call.refused deps hc) after
    rw [← hsnoc] at hi
    exact ht.not_mints (hsnoc after ▸ hfin after) hi ho
  · intro hmem
    obtain ⟨later₁, later₂, rfl⟩ := List.append_of_mem hmem
    obtain ⟨t, stepped, hi, ht, -⟩ :=
      refusing_later hw hfin₀ hstart (Call.refused deps hc) later₁
    obtain ⟨t', hi', ht'⟩ := ht.step (hfin later₁) hi
    have hfin₁ := hfin (later₁ ++ [.step i])
    rw [← List.append_assoc] at hfin₁
    obtain ⟨t'', stepped', hi'', ht'', hs⟩ := refusing_later hw hfin₁ hi' ht' later₂
    have hevents : events ++ before ++ [.start c] ++ later₁ ++ [.step i] ++ later₂ =
        events ++ before ++ .start c :: (later₁ ++ .step i :: later₂) := by simp
    have hfin₂ := hfin (later₁ ++ .step i :: later₂)
    rw [← hsnoc] at hfin₂
    rw [hevents] at hi''
    have hout : run.outcome i = t''.rest.result := by
      unfold Pool.outcome
      rw [show run.threads[i]? = some t'' from hi'']
    rw [hout]
    cases hr : t''.rest with
    | ret a =>
      rw [hr] at ht''
      exact ⟨_, rfl, ht''⟩
    | err e =>
      rw [hr] at ht''
      exact ⟨_, rfl, ht''⟩
    | await o k =>
      rw [hr] at ht''
      obtain ⟨_, hn, -⟩ := ht'' _ hfin₂
      cases (hs rfl).symm.trans hn.first

/-- A call for a session that is finished when the call begins asks for no token and refuses, and
whoever asks for a token has read the row of the session it is for, which was not terminal. -/
theorem no_token_for_finished_session (hw : w.Fresh deps) (events : List (Event Call)) :
    (∀ id, (runService deps w events).state.Finished id → ∀ c : Call, c.Names id →
      ∀ before after,
        let i := (runService deps w (events ++ before)).threads.length
        let run := runService deps w (events ++ before ++ .start c :: after)
        (∀ subject opts, run.awaited i ≠ some (.provider (.refreshToken subject opts))) ∧
          (.step i ∈ after → ∃ result, run.outcome i = some result ∧ c.Refuses result)) ∧
    ∀ i subject opts, (runService deps w events).awaited i =
        some (.provider (.refreshToken subject opts)) →
      ∃ t before after r, (runService deps w events).threads[i]? = some t ∧
        events = before ++ .step i :: after ∧
        (runService deps w before).state.tables.sessions.get r.id = some r ∧
        ¬ r.status.Terminal ∧ t.call.AsksFor r ∧
        subject = ⟨r.userId, r.providerApplicantId⟩ := by
  constructor
  · intro id hf c hc before after
    obtain ⟨hmints, hrefuses⟩ := finished_session_refused hw hf hc before after
    exact ⟨fun subject opts ho => hmints _ ho trivial, hrefuses⟩
  · intro i subject opts h
    exact exists_read_of_asks h

end Runs

/-- The user of an approved session asks for another token. -/
theorem no_token_for_finished_session_approved :
    ∃ e, (runService (steadyDeps (steadyProvider (some "a") .pending none)) .empty
      (approvedRun ++ [] ++ [.start (.refresh (some "u") (some "x")), .step 3])).outcome 3 =
        some (.error e) := by
  have hf : (runService (steadyDeps (steadyProvider (some "a") .pending none)) .empty
      approvedRun).state.Finished "x" :=
    ⟨sessionOf "x" "u" (some "a") (some "basic") .approved 0 7, by decide +kernel, by decide⟩
  obtain ⟨hfinished, -⟩ := no_token_for_finished_session
    (World.fresh_empty (steadyDeps (steadyProvider (some "a") .pending none))) approvedRun
  obtain ⟨-, hrefuses⟩ := hfinished "x" hf (.refresh (some "u") (some "x")) rfl [] [.step 3]
  obtain ⟨result, hout, e, rfl⟩ := hrefuses (List.mem_singleton.mpr rfl)
  exact ⟨e, hout⟩

end Kyc
