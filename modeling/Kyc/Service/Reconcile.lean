import Kyc.Service.Sample
import Kyc.Service.Webhooks

/-! # Reconciling reads

`status` and `latestForUser` repair a session against the provider, whose lookups
know applicants and users but no levels. A session that is not terminal takes over
whatever the lookup answers, also a verdict that was reached on another level.
-/

namespace Kyc

variable {deps : VerificationServiceDeps} {w : World} {session : SessionRecord}

/-- What the lookup of a session answers, when the provider is called for the `n`-th time. -/
def lookedUp (deps : VerificationServiceDeps) (n : ℕ) (session : SessionRecord) :
    Except Thrown (Option UserStatusLookup) :=
  match truthy session.providerApplicantId with
  | some applicantId => match deps.provider.getStatus n applicantId with
    | .ok status => .ok (some ⟨status, none⟩)
    | .error e => .error e
  | none => match deps.provider.getStatusByUserId with
    | some byUserId => match byUserId n session.userId with
      | .ok found => .ok (some found)
      | .error e => .error e
    | none => .ok none

/-- The provider call that the lookup of a session makes. -/
def lookupCalls (deps : VerificationServiceDeps) (session : SessionRecord) : List ProviderCall :=
  match truthy session.providerApplicantId with
  | some applicantId => [.getStatus applicantId]
  | none => if supportsUserStatusLookup deps.provider then [.getStatusByUserId session.userId]
    else []

theorem run_lookup (w : World) (session : SessionRecord) :
    (lookup deps session).run (exec deps) w =
      (lookedUp deps w.providerCalls.length session, w.asked (lookupCalls deps session)) := by
  unfold lookup lookedUp lookupCalls
  cases truthy session.providerApplicantId with
  | some applicantId =>
    simp only [Program.run_bind, Provider.run_getStatus]
    cases deps.provider.getStatus w.providerCalls.length applicantId <;> rfl
  | none =>
    unfold supportsUserStatusLookup
    cases h : deps.provider.getStatusByUserId with
    | none => simp [World.asked]
    | some byUserId =>
      simp only [Option.isSome_some, if_true, Program.run_bind,
        Provider.run_getStatusByUserId deps w h]
      cases byUserId w.providerCalls.length session.userId <;> rfl

theorem run_reconcile_terminal (w : World) (ht : session.status.Terminal) :
    (reconcile deps session).run (exec deps) w = (.ok session, w) := by
  rw [reconcile, if_pos ht]
  rfl

theorem run_reconcile_kept (hnt : ¬ session.status.Terminal)
    (h : ∀ found, lookedUp deps w.providerCalls.length session ≠ .ok (some found)) :
    (reconcile deps session).run (exec deps) w =
      (.ok session, w.asked (lookupCalls deps session)) := by
  rw [reconcile, if_neg hnt, Program.run_tryCatch, Program.run_bind, run_lookup]
  cases hl : lookedUp deps w.providerCalls.length session with
  | error e => rfl
  | ok found =>
    cases found with
    | none => rfl
    | some found => exact absurd hl (h found)

theorem run_reconcile_found (hnt : ¬ session.status.Terminal)
    (hg : w.tables.sessions.get session.id = some session) {found : UserStatusLookup}
    (h : lookedUp deps w.providerCalls.length session = .ok (some found)) :
    ∃ transition w', (reconcile deps session).run (exec deps) w = (.ok transition.session, w') ∧
      Written (w.asked (lookupCalls deps session)) session found.status
        (truthy found.providerApplicantId) (transition.told deps .api none) transition w' := by
  have hg' : (w.asked (lookupCalls deps session)).tables.sessions.get session.id =
      some session := hg
  obtain ⟨transition, w', hrun, hw⟩ := run_applyStatusTransition deps found.status .api
    { bindApplicantId := truthy found.providerApplicantId } hg'
  refine ⟨transition, w', ?_, ?_⟩
  · rw [reconcile, if_neg hnt, Program.run_tryCatch, Program.run_bind, run_lookup, h]
    simp only [Program.run_bind, hrun, Program.run_pure]
  · simp only [truthy_truthy] at hw
    exact hw

/-- The session that a call reconciles against the provider, if it comes to that. -/
def reconciledBy (deps : VerificationServiceDeps) (t : Tables) : Call → Option SessionRecord
  | .status userId id => match requireUser userId, requireId id "id" with
    | .ok owner, .ok id => MemoryStore.getSessionByIdForUser t id owner
    | _, _ => none
  | .latestForUser userId true => match requireUser userId with
    | .ok owner => MemoryStore.getLatestSessionForUser t owner deps.providerName
    | .error _ => none
  | _ => none

theorem reconciledBy_cases {t : Tables} {c : Call} (h : reconciledBy deps t c = some session) :
    (∃ userId id owner id', c = .status userId id ∧ requireUser userId = .ok owner ∧
      requireId id "id" = .ok id' ∧
        MemoryStore.getSessionByIdForUser t id' owner = some session) ∨
    ∃ userId owner, c = .latestForUser userId true ∧ requireUser userId = .ok owner ∧
      MemoryStore.getLatestSessionForUser t owner deps.providerName = some session := by
  unfold reconciledBy at h
  split at h
  next userId id =>
    split at h
    next owner id' howner hid => exact Or.inl ⟨userId, id, owner, id', rfl, howner, hid, h⟩
    next => cases h
  next userId =>
    split at h
    next owner howner => exact Or.inr ⟨userId, owner, rfl, howner, h⟩
    next => cases h
  next => cases h

theorem reconciledBy_get {c : Call} (h : reconciledBy deps w.tables c = some session) :
    w.tables.sessions.get session.id = some session := by
  obtain ⟨_, _, _, _, -, -, -, hread⟩ | ⟨_, _, -, -, hread⟩ := reconciledBy_cases h
  · obtain ⟨hg, -⟩ := MemoryStore.getSessionByIdForUser_eq_some.mp hread
    rwa [Table.get_key hg]
  · rw [MemoryStore.getLatestSessionForUser_eq] at hread
    exact Table.get_of_mem (newest_mem hread)

theorem Call.after_reconciled {c : Call} (h : reconciledBy deps w.tables c = some session) :
    c.after deps w = ((reconcile deps session).run (exec deps) w.ticked).2 := by
  obtain ⟨userId, id, owner, id', rfl, ho, hi, hread⟩ | ⟨userId, owner, rfl, ho, hread⟩ :=
    reconciledBy_cases h
  · simp only [Call.after, Call.program, Kyc.status, requireOwned, Program.run_bind,
      Program.run_ofExcept, ho, hi, Service.run_direct, Tx.run_getSessionByIdForUser, hread,
      Program.run_pure]
    rcases (reconcile deps session).run (exec deps) w.ticked with ⟨_ | _, _⟩ <;> rfl
  · simp only [Call.after, Call.program, Kyc.latestForUser, Program.run_bind, Program.run_ofExcept,
      ho, Service.run_direct, Tx.run_getLatestSessionForUser, hread, if_true]
    rcases (reconcile deps session).run (exec deps) w.ticked with ⟨_ | _, _⟩ <;> rfl

/-- A verdict of the provider: about whom, on which level it was reached, and which it is. -/
structure Verdict where
  applicantId : String
  level : String
  status : VerificationStatus

/-- Both lookups answer with the verdict; they have no way to say its level. -/
def VerificationProvider.Reports (p : VerificationProvider) (userId : String) (v : Verdict) :
    Prop :=
  (∀ n, p.getStatus n v.applicantId = .ok v.status) ∧
    ∀ byUserId, p.getStatusByUserId = some byUserId → ∀ n,
      ∃ known, (known = none ∨ known = some v.applicantId) ∧
        byUserId n userId = .ok ⟨v.status, known⟩

/-- The call gives a session of another level the verdict as its status. -/
def Carries (deps : VerificationServiceDeps) (w : World) (c : Call) (v : Verdict)
    (session : SessionRecord) : Prop :=
  session.levelName ≠ some v.level ∧ session.status ≠ v.status ∧
    ∃ known, (c.after deps w).tables.standing session.id = some (v.status, known)

theorem lookedUp_of_reports {v : Verdict} (hv : deps.provider.Reports session.userId v)
    (hne : v.applicantId ≠ "") (ha : session.Accepts v.applicantId) (n : ℕ) :
    (session.providerApplicantId = none ∧ deps.provider.getStatusByUserId = none ∧
      lookedUp deps n session = .ok none) ∨
    (¬ (session.providerApplicantId = none ∧ deps.provider.getStatusByUserId = none) ∧
      ∃ known, (known = none ∨ known = some v.applicantId) ∧
        lookedUp deps n session = .ok (some ⟨v.status, known⟩)) := by
  unfold lookedUp
  rcases ha with hu | hb
  · rw [hu]
    cases hby : deps.provider.getStatusByUserId with
    | none => exact Or.inl ⟨rfl, rfl, rfl⟩
    | some byUserId =>
      right
      obtain ⟨known, hk, hans⟩ := hv.2 byUserId hby n
      refine ⟨by simp, known, hk, ?_⟩
      simp only [truthy, hans]
  · right
    refine ⟨by simp [hb], none, Or.inl rfl, ?_⟩
    rw [hb, truthy_eq_some.mpr ⟨rfl, hne⟩]
    simp only [hv.1 n]

/-- A reconciling read does not carry a verdict across levels exactly when the session has it
already, is terminal, or cannot be looked up. -/
theorem reconciling_read_keeps_level_iff (deps : VerificationServiceDeps) (w : World) (c : Call)
    (session : SessionRecord) (v : Verdict) (hc : reconciledBy deps w.tables c = some session)
    (hv : deps.provider.Reports session.userId v) (hne : v.applicantId ≠ "")
    (ha : session.Accepts v.applicantId) (hl : session.levelName ≠ some v.level) :
    ¬ Carries deps w c v session ↔
      session.status = v.status ∨ session.status.Terminal ∨
        (session.providerApplicantId = none ∧ deps.provider.getStatusByUserId = none) := by
  have hg := reconciledBy_get hc
  have hkept : ∀ w', w'.tables = w.tables → (c.after deps w) = w' →
      ¬ Carries deps w c v session := by
    rintro w' ht hw ⟨-, hs, known, hst⟩
    rw [hw, ht, Tables.standing_of_get hg] at hst
    exact hs (congrArg Prod.fst (Option.some.inj hst))
  have hafter := Call.after_reconciled hc
  by_cases hnt : session.status.Terminal
  · rw [run_reconcile_terminal _ hnt] at hafter
    exact iff_of_true (hkept w.ticked rfl hafter) (Or.inr (Or.inl hnt))
  · rcases lookedUp_of_reports hv hne ha w.ticked.providerCalls.length with
      ⟨hu, hby, hlook⟩ | ⟨hno, known, hk, hlook⟩
    · rw [run_reconcile_kept hnt (by rw [hlook]; simp)] at hafter
      exact iff_of_true (hkept (w.ticked.asked _) rfl hafter) (Or.inr (Or.inr ⟨hu, hby⟩))
    · obtain ⟨transition, w', hrun, hw⟩ := run_reconcile_found (w := w.ticked) hnt hg hlook
      rw [hrun] at hafter
      have hacc : session.AcceptsBinding (truthy known) := by
        rcases hk with rfl | rfl
        · trivial
        · rw [truthy_eq_some.mpr ⟨rfl, hne⟩]; exact ha
      have hst : transition.session.status = v.status := by
        rw [hw.status, if_pos hacc, VerificationStatus.write_of_not_terminal hnt]
      have hcarries : session.status ≠ v.status → Carries deps w c v session := by
        intro hs
        refine ⟨hl, hs, transition.session.providerApplicantId, ?_⟩
        rw [hafter]
        change w'.tables.standing session.id = _
        rw [hw.standing_self, SessionRecord.standing, hst]
      constructor
      · intro hn
        left
        by_contra hs
        exact hn (hcarries hs)
      · rintro (hs | ht | hn)
        · exact fun hcar => hcar.2.1 hs
        · exact absurd ht hnt
        · exact absurd hn hno

/-- A user approved on `basic` who has just started `card`. -/
def secondLevel : World :=
  worldOf [sessionOf "s1" "u" (some "a") (some "basic") .approved 0 0,
    sessionOf "s2" "u" none (some "card") .initial 1 1] (by decide)

/-- The approval on `basic`. -/
def basicApproval : Verdict := ⟨"a", "basic", .approved⟩

theorem reconciling_read_keeps_level_iff_without_lookup :
    ¬ Carries (steadyDeps (steadyProvider none .approved none)) secondLevel
      (.status (some "u") (some "s2")) basicApproval
      (sessionOf "s2" "u" none (some "card") .initial 1 1) := by
  refine (reconciling_read_keeps_level_iff (steadyDeps (steadyProvider none .approved none))
    secondLevel (.status (some "u") (some "s2")) _ basicApproval (by decide) ⟨fun _ => rfl, ?_⟩
    (by decide) (by decide) (by decide)).mpr (Or.inr (Or.inr ⟨rfl, rfl⟩))
  intro byUserId h
  cases h

/-- Reading the newest session approves `card` on the strength of `basic`. -/
theorem reconciling_read_approves_second_level :
    ¬ ∀ (deps : VerificationServiceDeps) (w : World) (c : Call) (session : SessionRecord)
      (v : Verdict), reconciledBy deps w.tables c = some session →
      deps.provider.Reports session.userId v → v.applicantId ≠ "" →
      session.Accepts v.applicantId → session.levelName ≠ some v.level →
      ¬ Carries deps w c v session := by
  intro h
  refine h (steadyDeps (steadyProvider none .approved (some ⟨.approved, some "a"⟩))) secondLevel
    (.latestForUser (some "u") true) (sessionOf "s2" "u" none (some "card") .initial 1 1)
    basicApproval (by decide) ⟨fun _ => rfl, ?_⟩ (by decide) (by decide) (by decide)
    ⟨by decide, by decide, some "a", by decide +kernel⟩
  intro byUserId hby n
  cases hby
  exact ⟨some "a", Or.inr rfl, rfl⟩

end Kyc
