import Kyc.Client.Moves

/-! # What the screens find

The screens of an error, of a success and of a refused permission read a part of the state
that its type does not promise them. Every action sees to it that the part is there, and
that the applicant id of the session is the one that the actions account for.
-/

namespace Kyc.Client

section History

def MachineAction.session? : MachineAction → Option VerificationSession
  | session created => some created
  | _ => none

def MachineAction.applicantId? : MachineAction → Option String
  | applicant applicantId => some applicantId
  | _ => none

def lastApplicant (actions : List MachineAction) : Option String :=
  (actions.filterMap MachineAction.applicantId?).getLast?

/-- One of the actions created the session, none after it another one, and its applicant id is the
one that was reported last since then, or else the one it was created with. -/
def VerificationSession.ArisesFrom (session : VerificationSession) (actions : List MachineAction) :
    Prop :=
  ∃ before created since, actions = before ++ .session created :: since ∧
    (∀ action ∈ since, action.session? = none) ∧
    session = { created with applicantId := (lastApplicant since).or created.applicantId }

/-- After the actions a state has what its screen reads. -/
structure MachineState.Furnished (m : MachineState) (actions : List MachineAction) : Prop where
  failure : m.status = .error → m.error ≠ none
  outcome : m.status = .success → ∃ result, m.result = some result ∧ result.status = .approved
  reason : m.status = .permissionDenied → m.permissionReason ≠ none
  session : ∀ session, m.session = some session → session.ArisesFrom actions

end History

section Actions

variable {m : MachineState} {session : VerificationSession} {actions : List MachineAction}

theorem lastApplicant_concat (actions : List MachineAction) (action : MachineAction) :
    lastApplicant (actions ++ [action]) = action.applicantId?.or (lastApplicant actions) := by
  rw [lastApplicant, List.filterMap_append, List.getLast?_append]
  cases action <;> rfl

theorem arisesFrom_created (session : VerificationSession) (actions : List MachineAction) :
    session.ArisesFrom (actions ++ [.session session]) := by
  refine ⟨actions, session, [], rfl, ?_, rfl⟩
  intro action haction
  cases haction

theorem VerificationSession.ArisesFrom.concat (h : session.ArisesFrom actions)
    {action : MachineAction} (ha : action.session? = none) :
    VerificationSession.ArisesFrom
      { session with applicantId := action.applicantId?.or session.applicantId }
      (actions ++ [action]) := by
  obtain ⟨before, created, since, rfl, none_since, rfl⟩ := h
  refine ⟨before, created, since ++ [action], ?_, ?_, ?_⟩
  · rw [List.append_assoc, List.cons_append]
  · rintro other hother
    rcases List.mem_append.mp hother with hother | hother
    · exact none_since other hother
    · rwa [List.mem_singleton.mp hother]
  · rw [lastApplicant_concat, Option.or_assoc]

theorem session_reducer_cases {action : MachineAction}
    (h : (machineReducer m action).session = some session) :
    action = .session session ∨
      action.session? = none ∧ ∃ old, m.session = some old ∧
        session = { old with applicantId := action.applicantId?.or old.applicantId } := by
  cases action with
  | session created =>
    obtain rfl : created = session := Option.some.inj h
    exact Or.inl rfl
  | applicant applicantId =>
    obtain ⟨old, hold, rfl⟩ := Option.map_eq_some_iff.mp h
    exact Or.inr ⟨rfl, old, hold, rfl⟩
  | failed error keepSession =>
    cases keepSession with
    | false => cases h
    | true => exact Or.inr ⟨rfl, session, h, rfl⟩
  | cancelled | clearSession => cases h
  | begin | permission | offline | awaitReview | outcome =>
    exact Or.inr ⟨rfl, session, h, rfl⟩

theorem screen_cases (m : MachineState) (action : MachineAction) :
    (∃ session, machineReducer m action = { m with session }) ∨
      ((machineReducer m action).status = .error →
        ∃ error keepSession, action = .failed error keepSession) ∧
      ((machineReducer m action).status = .success →
        ∃ result, action = .outcome result ∧ result.status = .approved) ∧
      ((machineReducer m action).status = .permissionDenied →
        ∃ reason, action = .permission reason) := by
  cases action with
  | applicant | clearSession => exact Or.inl ⟨_, rfl⟩
  | outcome result =>
    by_cases approved : result.status = .approved <;> simp [machineReducer, approved]
  | begin | permission | offline | session | awaitReview | cancelled | failed =>
    simp [machineReducer, initialMachineState]

/-- Every action leaves a state with what its screen reads. -/
theorem MachineState.Furnished.act (h : m.Furnished actions) (action : MachineAction) :
    (machineReducer m action).Furnished (actions ++ [action]) := by
  constructor
  case failure =>
    obtain ⟨session, same⟩ | ⟨entered, -, -⟩ := screen_cases m action
    · rw [same]
      exact h.failure
    · intro hstatus
      obtain ⟨error, keepSession, rfl⟩ := entered hstatus
      exact Option.some_ne_none error
  case outcome =>
    obtain ⟨session, same⟩ | ⟨-, entered, -⟩ := screen_cases m action
    · rw [same]
      exact h.outcome
    · intro hstatus
      obtain ⟨result, rfl, approved⟩ := entered hstatus
      exact ⟨result, rfl, approved⟩
  case reason =>
    obtain ⟨session, same⟩ | ⟨-, -, entered⟩ := screen_cases m action
    · rw [same]
      exact h.reason
    · intro hstatus
      obtain ⟨reason, rfl⟩ := entered hstatus
      exact Option.some_ne_none reason
  case session =>
    intro session hsession
    obtain rfl | ⟨none_created, old, hold, rfl⟩ := session_reducer_cases hsession
    · exact arisesFrom_created session actions
    · exact (h.session old hold).concat none_created

theorem furnished_initial : initialMachineState.Furnished [] := by
  constructor
  case session =>
    intro session hsession
    cases hsession
  all_goals
    intro hstatus
    cases hstatus

theorem MachineState.Furnished.run (h : m.Furnished actions) (actions' : List MachineAction) :
    (Reactions.run machineReducer m actions').Furnished (actions ++ actions') :=
  Reactions.run_traced (fun _ _ action h => h.act action) h actions'

end Actions

/-- After any actions, and the one that is planned for any event, the state has what its screen
reads. -/
theorem machine_states_furnished :
    (∀ actions, (Reactions.run machineReducer initialMachineState actions).Furnished actions) ∧
      ∀ (m : MachineState) (actions : List MachineAction) (event : VerificationEvent)
        (session : Option VerificationSession), m.Furnished actions →
        (Reactions.run machineReducer m (planEvent event session).action.toList).Furnished
          (actions ++ (planEvent event session).action.toList) := by
  constructor
  · intro actions
    exact furnished_initial.run actions
  · intro m actions event session h
    exact h.run _

/-- A session whose applicant was reported twice, and which then expires. -/
theorem machine_states_furnished_expired :
    (Reactions.run machineReducer
      (Reactions.run machineReducer initialMachineState
        [.begin, .session { provider := "sumsub" }, .applicant "a", .applicant "b"])
      (planEvent .sessionExpired none).action.toList).Furnished
        ([.begin, .session { provider := "sumsub" }, .applicant "a", .applicant "b"] ++
          (planEvent .sessionExpired none).action.toList) :=
  machine_states_furnished.2 _ _ _ _ (machine_states_furnished.1 _)

end Kyc.Client
