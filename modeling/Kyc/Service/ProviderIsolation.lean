import Kyc.Service.Reconcile
import Kyc.Service.Steps

/-! # Sessions of other providers

A service is configured for one provider, but its store may still hold sessions of
another one. Some lookups filter by provider, the ones by id and by applicant do
not; for each call, the exact condition under which foreign sessions are left alone.
-/

namespace Kyc

variable {deps : VerificationServiceDeps} {w : World}

/-- A token was minted with the provider between two worlds. -/
def World.MintedSince (w w' : World) : Prop :=
  ∃ subject opts, ProviderCall.refreshToken subject opts ∈
    w'.providerCalls.drop w.providerCalls.length

/-- The call is for the session with the given id. -/
def Call.Names : Call → String → Prop
  | .refresh _ sessionId, id => sessionId = some id
  | .hostedPage sessionId, id => sessionId = id
  | _, _ => False

/-- The call leaves the sessions of other providers alone: they stand as they did, and a token is
only ever minted for a session of this provider. -/
structure Isolated (deps : VerificationServiceDeps) (w : World) (c : Call) : Prop where
  stands : ∀ r ∈ w.tables.sessions.rows, r.provider ≠ deps.providerName →
    (c.after deps w).tables.standing r.id = some r.standing
  tokens : w.MintedSince (c.after deps w) →
    ∃ r ∈ w.tables.sessions.rows, c.Names r.id ∧ r.provider = deps.providerName

/-- What a call finds does not lead it to change, or to mint a token for, a foreign session. -/
def IsolatedWhen (deps : VerificationServiceDeps) (w : World) : Call → Prop
  | .start _ _ => True
  | .refresh userId sessionId => ∀ owner id r, requireUser userId = .ok owner →
      requireId sessionId "sessionId" = .ok id →
      MemoryStore.getSessionByIdForUser w.tables id owner = some r →
      r.provider = deps.providerName ∨ r.status.Terminal
  | .status userId id => ∀ r found, reconciledBy deps w.tables (.status userId id) = some r →
      lookedUp deps w.providerCalls.length r = .ok (some found) →
      r.provider = deps.providerName ∨ r.status.Terminal ∨
        r.Stands found.status (truthy found.providerApplicantId)
  | .latestForUser _ _ => True
  | .handleWebhookEvent event => ∀ new r, event.status = some new →
      route deps w.tables event = some (r, false) →
      r.provider = deps.providerName ∨ r.status.Terminal ∨ r.status = new
  | .hostedPage _ => True
  | .applyStatusTransition id new _ options => ∀ r, w.tables.sessions.get id = some r →
      r.provider = deps.providerName ∨ r.Stands new (truthy options.bindApplicantId)

section Minting

variable {w' w'' : World} {calls : List ProviderCall}

theorem mintedSince_iff (h : w'.providerCalls = w.providerCalls ++ calls) :
    w.MintedSince w' ↔ ∃ subject opts, ProviderCall.refreshToken subject opts ∈ calls := by
  rw [World.MintedSince, h, List.drop_left]

theorem not_mintedSince_of_eq (h : w'.providerCalls = w.providerCalls) : ¬ w.MintedSince w' := by
  have h' : w'.providerCalls = w.providerCalls ++ [] := by rw [h, List.append_nil]
  rw [mintedSince_iff h']
  simp

theorem not_mintedSince_lookup {r : SessionRecord}
    (h : w'.providerCalls = w.providerCalls ++ lookupCalls deps r) : ¬ w.MintedSince w' := by
  rw [mintedSince_iff h]
  unfold lookupCalls
  split
  · simp
  · split <;> simp

end Minting

theorem isolated_iff_of_written {c : Call} {m : World} {r : SessionRecord}
    {new : VerificationStatus} {binding : Option String} {told : List StatusTransitionEvent}
    {transition : StatusTransition} (hg : w.tables.sessions.get r.id = some r)
    (hm : m.tables = w.tables) (hw : Written m r new binding told transition (c.after deps w))
    (ht : ¬ w.MintedSince (c.after deps w)) :
    Isolated deps w c ↔ r.provider = deps.providerName ∨ r.Stands new binding := by
  constructor
  · intro h
    by_cases hp : r.provider = deps.providerName
    · exact Or.inl hp
    · right
      have hst := h.stands r (Table.get_mem hg) hp
      rw [hw.standing_self] at hst
      exact hw.standing_eq_iff.mp (Option.some.inj hst)
  · intro h
    refine ⟨fun s hs hsp => ?_, fun hmint => absurd hmint ht⟩
    have hgs := Table.get_of_mem hs
    by_cases hid : s.id = r.id
    · obtain rfl := w.tables.sessions.key_injOn hs (Table.get_mem hg) hid
      rw [hw.standing_self, hw.standing_eq_iff.mpr (h.resolve_left hsp)]
    · rw [hw.standing_of_ne hid, hm, Tables.standing_of_get hgs]

theorem isolated_of_sessions {c : Call}
    (hs : (c.after deps w).tables.sessions = w.tables.sessions)
    (ht : ¬ w.MintedSince (c.after deps w)) : Isolated deps w c := by
  refine ⟨fun s hm _ => ?_, fun hmint => absurd hmint ht⟩
  rw [Tables.standing, hs, Table.get_of_mem hm]
  rfl

variable (deps) in
/-- `start` touches no row but its own new one, and asks the provider for a session only. -/
theorem start_frame (w : World) (userId : Option String) (input : Option JsonValue) :
    ∃ calls, (∀ c ∈ calls, ∃ u opts, c = ProviderCall.createSession u opts) ∧
      (Call.after deps (.start userId input) w).providerCalls = w.providerCalls ++ calls ∧
      ∀ id, id ≠ deps.newId w.issued →
        (Call.after deps (.start userId input) w).tables.sessions.get id =
          w.tables.sessions.get id := by
  cases ho : requireUser userId with
  | error e =>
    refine ⟨[], by simp, ?_, fun id _ => ?_⟩ <;>
      simp [Call.after, Call.program, Kyc.start, ho]
  | ok owner =>
    cases hv : validateStartInput input with
    | error e =>
      refine ⟨[], by simp, ?_, fun id _ => ?_⟩ <;>
        simp [Call.after, Call.program, Kyc.start, ho, hv]
    | ok opts =>
      set r := newRecord deps w owner opts with hr
      have hm : ∀ id, id ≠ deps.newId w.issued →
          (w.withNew deps owner opts).tables.sessions.get id = w.tables.sessions.get id :=
        fun id hid => Table.get_set_of_ne hid
      have hget : (w.withNew deps owner opts).tables.sessions.get r.id = some r :=
        Table.get_set_self _ _
      refine ⟨[.createSession owner opts], by simp, ?_⟩
      simp only [Call.after, Call.program, Kyc.start, Program.run_bind, Program.run_ofExcept, ho,
        hv,
        Program.run_tryCatch, Service.run_transaction, execTransaction, run_persistBody,
        Provider.run_createSession]
      cases deps.provider.createSession (w.withNew deps owner opts).providerCalls.length owner
          opts with
      | error e =>
        simp only [Service.run_direct, run_audit, Program.run_throw]
        exact ⟨rfl, hm⟩
      | ok minted =>
        dsimp only
        cases hb : truthy minted.providerApplicantId with
        | none => simp only [Program.run_pure]; exact ⟨rfl, hm⟩
        | some a =>
          simp only [Program.run_bind, Service.run_direct, Program.run_pure]
          rw [run_bindApplicantId (w := (w.withNew deps owner opts).asked _) hget]
          refine ⟨rfl, fun id hid => ?_⟩
          rw [← hm id hid]
          exact Table.get_set_of_ne (by rw [SessionRecord.id_withApplicant]; exact hid)

variable (deps) in
/-- `refresh` writes no session, and asks for a token for an owned session in progress. -/
theorem refresh_frame (w : World) (userId sessionId : Option String) :
    (Call.after deps (.refresh userId sessionId) w).tables.sessions = w.tables.sessions ∧
      (w.MintedSince (Call.after deps (.refresh userId sessionId) w) ↔
        ∃ owner id r, requireUser userId = .ok owner ∧ requireId sessionId "sessionId" = .ok id ∧
          MemoryStore.getSessionByIdForUser w.tables id owner = some r ∧ ¬ r.status.Terminal) := by
  have hnone : ¬ w.MintedSince w := not_mintedSince_of_eq rfl
  have hticked : ¬ w.MintedSince w.ticked := not_mintedSince_of_eq rfl
  cases ho : requireUser userId with
  | error e => simp [Call.after, Call.program, Kyc.refresh, ho, hnone]
  | ok owner =>
    cases hi : requireId sessionId "sessionId" with
    | error e => simp [Call.after, Call.program, Kyc.refresh, ho, hi, hnone]
    | ok id =>
      simp only [Call.after, Call.program, Kyc.refresh, requireOwned, Program.run_bind,
        Program.run_ofExcept, ho, hi, Service.run_direct, Tx.run_getSessionByIdForUser]
      cases hg : MemoryStore.getSessionByIdForUser w.tables id owner with
      | none => simp [hticked, hg]
      | some r =>
        by_cases ht : r.status.Terminal
        · simp [hticked, hg, ht]
        · simp only [Program.run_pure, if_neg ht, Program.run_bind, Program.run_tryCatch,
            Provider.run_refreshToken]
          have hfound : ∃ owner' id' r', Except.ok owner = Except.ok (ε := Thrown) owner' ∧
              Except.ok id = Except.ok (ε := Thrown) id' ∧
              MemoryStore.getSessionByIdForUser w.tables id' owner' = some r' ∧
              ¬ r'.status.Terminal := ⟨owner, id, r, rfl, rfl, hg, ht⟩
          have hminted : ∀ w' : World, w'.providerCalls = w.providerCalls ++
              [.refreshToken ⟨owner, r.providerApplicantId⟩ ⟨r.platform, r.levelName, none⟩] →
              w.MintedSince w' := by
            intro w' hw
            rw [mintedSince_iff hw]
            exact ⟨_, _, List.mem_singleton.mpr rfl⟩
          cases deps.provider.refreshToken w.ticked.providerCalls.length
              ⟨owner, r.providerApplicantId⟩ ⟨r.platform, r.levelName, none⟩ with
          | error e => exact ⟨rfl, iff_of_true (hminted _ rfl) hfound⟩
          | ok token =>
            simp only [Service.run_direct, run_audit]
            exact ⟨rfl, iff_of_true (hminted _ rfl) hfound⟩

variable (deps) in
theorem hostedPage_frame (w : World) (sessionId : String) :
    (Call.after deps (.hostedPage sessionId) w).tables = w.tables ∧
      (w.MintedSince (Call.after deps (.hostedPage sessionId) w) →
        ∃ r, w.tables.sessions.get sessionId = some r ∧ r.provider = deps.providerName) := by
  simp only [Call.after, Call.program, Kyc.hostedPage, Program.run_bind, Service.run_direct,
    Tx.run_getSessionById]
  cases hg : w.tables.sessions.get sessionId with
  | none =>
    refine ⟨rfl, fun h => absurd h (not_mintedSince_of_eq rfl)⟩
  | some r =>
    dsimp only
    by_cases hp : r.provider ≠ deps.providerName ∨ r.status.Terminal
    · simp only [if_pos hp]
      exact ⟨rfl, fun h => absurd h (not_mintedSince_of_eq rfl)⟩
    · simp only [if_neg hp, Program.run_tryCatch, Program.run_bind, Provider.run_refreshToken]
      have hr : r.provider = deps.providerName := not_not.mp (not_or.mp hp).1
      cases deps.provider.refreshToken w.ticked.providerCalls.length
          ⟨r.userId, r.providerApplicantId⟩ ⟨r.platform, r.levelName, none⟩ with
      | error e => exact ⟨rfl, fun _ => ⟨r, rfl, hr⟩⟩
      | ok token => exact ⟨rfl, fun _ => ⟨r, rfl, hr⟩⟩

theorem status_reads {userId id : Option String}
    (h : reconciledBy deps w.tables (.status userId id) = none) :
    w.Reads (Call.after deps (.status userId id) w) := by
  unfold reconciledBy at h
  cases ho : requireUser userId with
  | error e => simp [Call.after, Call.program, Kyc.status, ho, World.Reads.refl]
  | ok owner =>
    cases hi : requireId id "id" with
    | error e => simp [Call.after, Call.program, Kyc.status, ho, hi, World.Reads.refl]
    | ok id' =>
      simp only [ho, hi] at h
      simp [Call.after, Call.program, Kyc.status, requireOwned, ho, hi, h, World.reads_ticked]

theorem latestForUser_reads {userId : Option String} {reconciling : Bool}
    (h : reconciledBy deps w.tables (.latestForUser userId reconciling) = none) :
    w.Reads (Call.after deps (.latestForUser userId reconciling) w) := by
  cases ho : requireUser userId with
  | error e => simp [Call.after, Call.program, Kyc.latestForUser, ho, World.Reads.refl]
  | ok owner =>
    simp only [Call.after, Call.program, Kyc.latestForUser, Program.run_bind,
      Program.run_ofExcept, ho, Service.run_direct, Tx.run_getLatestSessionForUser]
    cases hg : MemoryStore.getLatestSessionForUser w.tables owner deps.providerName with
    | none => exact w.reads_ticked
    | some r =>
      cases reconciling with
      | false => exact w.reads_ticked
      | true => simp [reconciledBy, ho, hg] at h

theorem latestForUser_provider {userId : Option String} {reconciling : Bool} {r : SessionRecord}
    (h : reconciledBy deps w.tables (.latestForUser userId reconciling) = some r) :
    r.provider = deps.providerName := by
  obtain ⟨_, _, _, _, heq, -⟩ | ⟨_, _, -, -, hread⟩ := reconciledBy_cases h
  · cases heq
  · rw [MemoryStore.getLatestSessionForUser_eq] at hread
    exact (SessionRecord.ofUser_iff.mp (newest_prop hread)).2

/-- A call that reconciles a session is isolated when what the lookup finds does not change a
foreign session. -/
theorem isolated_reconciled_iff {c : Call} {r : SessionRecord}
    (hc : reconciledBy deps w.tables c = some r) :
    Isolated deps w c ↔ ∀ found, lookedUp deps w.providerCalls.length r = .ok (some found) →
      r.provider = deps.providerName ∨ r.status.Terminal ∨
        r.Stands found.status (truthy found.providerApplicantId) := by
  have hg := reconciledBy_get hc
  have hafter := Call.after_reconciled hc
  by_cases ht : r.status.Terminal
  · rw [run_reconcile_terminal _ ht] at hafter
    refine iff_of_true (isolated_of_sessions ?_ ?_) fun _ _ => Or.inr (Or.inl ht)
    · rw [hafter]; rfl
    · rw [hafter]; exact not_mintedSince_of_eq rfl
  · by_cases hfound : ∃ found, lookedUp deps w.providerCalls.length r = .ok (some found)
    · obtain ⟨found, hl⟩ := hfound
      obtain ⟨transition, w', hrun, hw⟩ := run_reconcile_found (w := w.ticked) ht hg hl
      rw [hrun] at hafter
      have hwc : Written (w.ticked.asked (lookupCalls deps r)) r found.status
          (truthy found.providerApplicantId) (transition.told deps .api none) transition
          (c.after deps w) := by
        rw [hafter]; exact hw
      rw [isolated_iff_of_written hg (m := w.ticked.asked (lookupCalls deps r)) rfl hwc
        (not_mintedSince_lookup hwc.providerCalls)]
      constructor
      · rintro h found' hl'
        obtain rfl := Option.some.inj (Except.ok.inj (hl.symm.trans hl'))
        exact h.imp_right Or.inr
      · intro h
        exact (h found hl).imp_right fun h => h.resolve_left ht
    · have hno : ∀ found, lookedUp deps w.ticked.providerCalls.length r ≠ .ok (some found) :=
        fun found hl => hfound ⟨found, hl⟩
      rw [run_reconcile_kept ht hno] at hafter
      refine iff_of_true (isolated_of_sessions ?_ ?_) fun found hl => absurd ⟨found, hl⟩ hfound
      · rw [hafter]; rfl
      · rw [hafter]; exact not_mintedSince_lookup rfl

variable (deps) in
theorem after_applyStatusTransition (w : World) (id : String) (new : VerificationStatus)
    (source : StatusSource) (options : ApplyStatusTransitionOptions) :
    Call.after deps (.applyStatusTransition id new source options) w =
      ((applyStatusTransition deps id new source options).run (exec deps) w).2 := by
  simp only [Call.after, Call.program, Program.run_bind]
  rcases (applyStatusTransition deps id new source options).run (exec deps) w with ⟨_ | _, _⟩ <;>
    rfl

/-- An event is isolated when the session known for its applicant is this provider's, or the
event finds nothing to change on it; the session it may open always is this provider's. -/
theorem isolated_event_iff (w : World) (event : WebhookEvent) :
    Isolated deps w (.handleWebhookEvent event) ↔
      IsolatedWhen deps w (.handleWebhookEvent event) := by
  have hafter := after_handleWebhookEvent deps w event
  rcases deliver_cases deps w event with
    ⟨hn, hr⟩ | ⟨new, r, needsBinding, transition, hs, hroute, hw⟩
  · refine iff_of_true (isolated_of_sessions ?_ ?_) ?_
    · rw [hafter, hr.tables]
    · rw [hafter]; exact not_mintedSince_of_eq hr.providerCalls
    · intro new r hs hroute
      rcases hn with hn | hn
      · rw [hn] at hs; cases hs
      · rw [hn] at hroute; cases hroute
  · have hg := (route_mem hroute).1
    have ht : ¬ w.MintedSince (Call.after deps (.handleWebhookEvent event) w) := by
      rw [hafter]; exact not_mintedSince_of_eq hw.providerCalls
    rw [← hafter] at hw
    rw [isolated_iff_of_written hg rfl hw ht]
    cases needsBinding with
    | true =>
      obtain ⟨_, -, -, hn⟩ := openedSession_mem (route_eq_unbound.mp hroute)
      have hp := (SessionRecord.unboundOf_iff.mp (newest_prop hn)).2.1
      apply iff_of_true (Or.inl hp)
      intro new' r' _ hroute'
      rw [hroute] at hroute'
      cases hroute'
    | false =>
      constructor
      · rintro h new' r' hs' hroute'
        obtain rfl := Option.some.inj (hs.symm.trans hs')
        obtain ⟨rfl, -⟩ := Prod.mk.inj (Option.some.inj (hroute.symm.trans hroute'))
        exact h.imp_right fun hst => (hst trivial).1
      · intro h
        exact (h new r hs hroute).imp_right fun hst _ => ⟨hst, fun a ha => by cases ha⟩

theorem isolated_applied_iff (w : World) (id : String) (new : VerificationStatus)
    (source : StatusSource) (options : ApplyStatusTransitionOptions) :
    Isolated deps w (.applyStatusTransition id new source options) ↔
      IsolatedWhen deps w (.applyStatusTransition id new source options) := by
  have hafter := after_applyStatusTransition deps w id new source options
  cases hg : w.tables.sessions.get id with
  | none =>
    rw [run_applyStatusTransition_none new source options hg] at hafter
    refine iff_of_true (isolated_of_sessions ?_ ?_) fun r hr => ?_
    · rw [hafter]; rfl
    · rw [hafter]; exact not_mintedSince_of_eq rfl
    · rw [hg] at hr; cases hr
  | some r =>
    obtain ⟨transition, w', hrun, hw⟩ :=
      run_applyStatusTransition deps new source options hg
    rw [hrun] at hafter
    have ht :
        ¬ w.MintedSince (Call.after deps (.applyStatusTransition id new source options) w) := by
      rw [hafter]; exact not_mintedSince_of_eq hw.providerCalls
    have hr : w.tables.sessions.get r.id = some r := by rwa [Table.get_key hg]
    rw [← show _ = w' from hafter] at hw
    rw [isolated_iff_of_written hr rfl hw ht]
    constructor
    · rintro h r' hr'
      obtain rfl := Option.some.inj (hg.symm.trans hr')
      exact h
    · intro h
      exact h r hg

theorem isolated_start (hw : w.Fresh deps) (userId : Option String) (input : Option JsonValue) :
    Isolated deps w (.start userId input) := by
  obtain ⟨calls, hcalls, hp, hs⟩ := start_frame deps w userId input
  constructor
  · intro r hr _
    rw [Tables.standing, hs r.id (hw r hr w.issued le_rfl), Table.get_of_mem hr]
    rfl
  · intro hmint
    obtain ⟨subject, opts, hm⟩ := (mintedSince_iff hp).mp hmint
    obtain ⟨_, _, hc⟩ := hcalls _ hm
    cases hc

/-- A token is minted for the session found by its owner, whatever its provider. -/
theorem isolated_refresh_iff (w : World) (userId sessionId : Option String) :
    Isolated deps w (.refresh userId sessionId) ↔
      IsolatedWhen deps w (.refresh userId sessionId) := by
  obtain ⟨hs, hmint⟩ := refresh_frame deps w userId sessionId
  constructor
  · intro h owner id r ho hi hg
    by_cases ht : r.status.Terminal
    · exact Or.inr ht
    · left
      obtain ⟨q, hq, hnames, hp⟩ := h.tokens (hmint.mpr ⟨owner, id, r, ho, hi, hg, ht⟩)
      obtain ⟨hget, -⟩ := MemoryStore.getSessionByIdForUser_eq_some.mp hg
      have hid : q.id = r.id := by
        have hq' : sessionId = some q.id := hnames
        rw [Table.get_key hget]
        exact Option.some.inj (hq'.symm.trans (requireId_eq_ok hi))
      rwa [← w.tables.sessions.key_injOn hq (Table.get_mem hget) hid]
  · intro h
    constructor
    · intro r hr _
      rw [Tables.standing, hs, Table.get_of_mem hr]
      rfl
    · intro hm
      obtain ⟨owner, id, r, ho, hi, hg, ht⟩ := hmint.mp hm
      obtain ⟨hget, -⟩ := MemoryStore.getSessionByIdForUser_eq_some.mp hg
      have hnames : (Call.refresh userId sessionId).Names r.id := by
        rw [Table.get_key hget]
        exact requireId_eq_ok hi
      exact ⟨r, Table.get_mem hget, hnames, (h owner id r ho hi hg).resolve_right ht⟩

theorem isolated_status_iff (w : World) (userId id : Option String) :
    Isolated deps w (.status userId id) ↔ IsolatedWhen deps w (.status userId id) := by
  cases hc : reconciledBy deps w.tables (.status userId id) with
  | none =>
    have hr := status_reads hc
    apply iff_of_true (isolated_of_sessions (by rw [hr.tables])
      (not_mintedSince_of_eq hr.providerCalls))
    intro r found hc'
    rw [hc] at hc'
    cases hc'
  | some r =>
    rw [isolated_reconciled_iff hc]
    constructor
    · rintro h r' found hc' hl
      obtain rfl := Option.some.inj (hc.symm.trans hc')
      exact h found hl
    · intro h found hl
      exact h r found hc hl

theorem isolated_latestForUser (w : World) (userId : Option String) (reconciling : Bool) :
    Isolated deps w (.latestForUser userId reconciling) := by
  cases hc : reconciledBy deps w.tables (.latestForUser userId reconciling) with
  | none =>
    have hr := latestForUser_reads hc
    exact isolated_of_sessions (by rw [hr.tables]) (not_mintedSince_of_eq hr.providerCalls)
  | some r =>
    apply (isolated_reconciled_iff hc).mpr
    intro found _
    exact Or.inl (latestForUser_provider hc)

theorem isolated_hostedPage (w : World) (sessionId : String) :
    Isolated deps w (.hostedPage sessionId) := by
  obtain ⟨ht, hmint⟩ := hostedPage_frame deps w sessionId
  constructor
  · intro r hr _
    rw [ht, Tables.standing_of_get (Table.get_of_mem hr)]
  · intro hm
    obtain ⟨r, hg, hp⟩ := hmint hm
    exact ⟨r, Table.get_mem hg, (Table.get_key hg).symm, hp⟩

/-- Every call leaves the sessions of other providers alone exactly when what it finds does not
lead it to one of them that is still open to change. -/
theorem provider_isolation_iff (deps : VerificationServiceDeps) (w : World) (hw : w.Fresh deps)
    (c : Call) : Isolated deps w c ↔ IsolatedWhen deps w c := by
  cases c with
  | start userId input => exact iff_of_true (isolated_start hw userId input) trivial
  | refresh userId sessionId => exact isolated_refresh_iff w userId sessionId
  | status userId id => exact isolated_status_iff w userId id
  | latestForUser userId reconciling =>
    exact iff_of_true (isolated_latestForUser w userId reconciling) trivial
  | handleWebhookEvent event => exact isolated_event_iff w event
  | hostedPage sessionId => exact iff_of_true (isolated_hostedPage w sessionId) trivial
  | applyStatusTransition id new source options =>
    exact isolated_applied_iff w id new source options

/-- A store left over from another provider: its applicant ids may be this provider's, too. -/
def leftOver : World :=
  worldOf [{ sessionOf "s1" "u" (some "a") (some "basic") .pending 0 0 with provider := "mock" }]
    (by decide)

theorem fresh_leftOver (provider : VerificationProvider) :
    leftOver.Fresh (steadyDeps provider) :=
  fresh_worldOf _ (by decide) provider

theorem provider_isolation_iff_hostedPage :
    Isolated (steadyDeps (steadyProvider none .approved none)) leftOver (.hostedPage "s1") :=
  (provider_isolation_iff (steadyDeps (steadyProvider none .approved none)) leftOver
    (fresh_leftOver _) (.hostedPage "s1")).mpr trivial

/-- An event of this provider approves a session of another one with the same applicant id. -/
theorem foreign_session_approved :
    ¬ ∀ (deps : VerificationServiceDeps) (w : World) (c : Call), w.Fresh deps →
      Isolated deps w c := by
  intro h
  have hs := (h (steadyDeps (steadyProvider none .approved none)) leftOver
    (.handleWebhookEvent (eventOf "a" "u" .approved (some "basic"))) (fresh_leftOver _)).stands
    { sessionOf "s1" "u" (some "a") (some "basic") .pending 0 0 with provider := "mock" }
    (by decide) (by decide)
  revert hs
  decide +kernel

end Kyc
