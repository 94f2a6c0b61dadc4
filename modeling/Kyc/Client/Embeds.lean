import Kyc.Client.Hook

/-! # The session behind a shown page

The screen that embeds the provider's page reads the session without asking whether
there is one. An event that makes the flow wait for a review enters that screen from
any state, also from those that have dropped the session.
-/

namespace Kyc.Client

/-- When the page is shown there is a session for it. -/
def MachineState.EmbedsSession (m : MachineState) : Prop := m.status.Embeds → m.session ≠ none

instance (m : MachineState) : Decidable m.EmbedsSession :=
  inferInstanceAs (Decidable (m.status.Embeds → m.session ≠ none))

/-- The events after which the flow waits for a review. -/
def VerificationEvent.AwaitsReview : VerificationEvent → Prop
  | .submitted => True
  | .statusChanged status => status = .pending
  | .complete status _ => status ≠ .approved
  | _ => False

/-- An event that makes the flow wait for a review finds a session. -/
def Hook.Seats (s : Hook) (i : Input) : Prop :=
  ∀ e, s.handled i = some e → e.AwaitsReview → s.machine.session ≠ none

section Machine

variable {m : MachineState}

/-- The actions that enter `pending`. -/
def MachineAction.AwaitsReview : MachineAction → Prop
  | .awaitReview => True
  | .outcome result => result.status ≠ .approved
  | _ => False

theorem embedsSession_reducer_iff {a : MachineAction} (ha : a ≠ .clearSession)
    (h : m.EmbedsSession) :
    (machineReducer m a).EmbedsSession ↔ (a.AwaitsReview → m.session ≠ none) := by
  unfold MachineState.EmbedsSession VerificationState.Embeds at *
  cases a with
  | awaitReview => simp [machineReducer, MachineAction.AwaitsReview]
  | outcome result =>
    by_cases hr : result.status = .approved <;>
      simp [machineReducer, MachineAction.AwaitsReview, hr]
  | applicant applicantId =>
    simpa [machineReducer, MachineAction.AwaitsReview] using h
  | clearSession => exact absurd rfl ha
  | begin | permission | offline | session | cancelled | failed =>
    simp [machineReducer, MachineAction.AwaitsReview, initialMachineState]

theorem MachineState.EmbedsSession.act (h : m.EmbedsSession) {a : MachineAction}
    (ha : a ≠ .clearSession) (hw : ¬ a.AwaitsReview) : (machineReducer m a).EmbedsSession :=
  (embedsSession_reducer_iff ha h).mpr fun hw' => absurd hw' hw

theorem awaitsReview_planEvent {e : VerificationEvent} {session : Option VerificationSession}
    {a : MachineAction} (h : (planEvent e session).action = some a) :
    a ≠ .clearSession ∧ (a.AwaitsReview ↔ e.AwaitsReview) := by
  cases e with
  | statusChanged status =>
    by_cases hs : status = .pending
    · rw [planEvent, if_pos hs] at h
      cases h
      simp [MachineAction.AwaitsReview, VerificationEvent.AwaitsReview, hs]
    · rw [planEvent, if_neg hs] at h
      cases h
  | tokenExpired => cases h
  | _ =>
    cases h
    simp [MachineAction.AwaitsReview, VerificationEvent.AwaitsReview]

theorem not_awaitsReview_of_action_none {e : VerificationEvent}
    {session : Option VerificationSession} (h : (planEvent e session).action = none) :
    ¬ e.AwaitsReview := by
  cases e with
  | statusChanged status =>
    by_cases hs : status = .pending
    · rw [planEvent, if_pos hs] at h
      cases h
    · exact hs
  | tokenExpired => exact id
  | _ => cases h

end Machine

namespace Hook

variable {p : Platform} {s : Hook}

theorem embedsSession_refreshToken (h : s.machine.EmbedsSession) :
    (s.refreshToken p).machine.EmbedsSession := by
  rcases s.machine_refreshToken (p := p) with he | ⟨error, he⟩
  · rwa [he]
  · rw [he]
    exact h.act (by simp) id

theorem embedsSession_handleEvent_iff (h : s.machine.EmbedsSession) (hm : s.mounted)
    (e : VerificationEvent) :
    (s.handleEvent p e).machine.EmbedsSession ↔ (e.AwaitsReview → s.machine.session ≠ none) := by
  rw [handleEvent, if_pos hm]
  split
  next hd =>
    have he : ¬ e.AwaitsReview := by
      cases e with
      | error => exact id
      | _ => exact absurd hd.2 id
    exact iff_of_true (h.act (by simp) id) fun ha => absurd ha he
  next =>
    by_cases he : e = .tokenExpired
    · subst he
      exact iff_of_true (embedsSession_refreshToken h) fun ha => absurd ha id
    · rw [machine_runPlan (mt planEvent_effect_eq_refreshToken_iff.mp he)]
      cases ha : (planEvent e s.machine.session).action with
      | none => exact iff_of_true h fun hw => absurd hw (not_awaitsReview_of_action_none ha)
      | some a =>
        obtain ⟨hne, hw⟩ := awaitsReview_planEvent ha
        rw [← hw]
        exact embedsSession_reducer_iff hne h

theorem embedsSession_begin (onLine : Bool) : (s.begin p onLine).machine.EmbedsSession := by
  intro he
  exfalso
  cases p with
  | native => simp [begin, machineReducer, VerificationState.Embeds] at he
  | web => cases onLine <;> simp [begin, machineReducer, VerificationState.Embeds] at he

theorem embedsSession_permissionChecked (h : s.machine.EmbedsSession)
    (answer : Except (Option String) PermissionState) :
    (s.permissionChecked answer).machine.EmbedsSession := by
  unfold permissionChecked
  split
  · cases answer with
    | error message => exact h.act (by simp) id
    | ok answer =>
      cases answer with
      | granted => exact h
      | refused reason => exact h.act (by simp) id
  · exact h

theorem embedsSession_connectionChecked (h : s.machine.EmbedsSession)
    (answer : Except (Option String) Bool) :
    (s.connectionChecked answer).machine.EmbedsSession := by
  unfold connectionChecked
  split
  · cases answer with
    | error message => exact h.act (by simp) id
    | ok online =>
      cases online with
      | true => exact h
      | false => exact h.act (by simp) id
  · exact h

theorem embedsSession_startSettled (h : s.machine.EmbedsSession)
    (answer : Except VerificationSourceError VerificationSession) :
    (s.startSettled answer).machine.EmbedsSession := by
  unfold startSettled
  split
  · cases answer with
    | error cause => exact h.act (by simp) id
    | ok acquired =>
      have hs : (machineReducer s.machine (.session acquired)).EmbedsSession :=
        h.act (by simp) id
      dsimp only
      split <;> exact hs
  · exact h

theorem embedsSession_refreshSettled (h : s.machine.EmbedsSession) (seq : ℕ)
    (answer : Except (Option String) String) :
    (s.refreshSettled p seq answer).machine.EmbedsSession := by
  unfold refreshSettled
  split
  · cases answer with
    | error message =>
      dsimp only
      split
      · exact h.act (by simp) id
      · exact h
    | ok token =>
      dsimp only
      split <;> exact h
  · exact h

/-- Without an event that it handles, a reaction enters no embedding screen but for a session. -/
theorem embedsSession_react_of_unhandled (h : s.machine.EmbedsSession) {i : Input}
    (hi : s.handled i = none) : (s.react p i).machine.EmbedsSession := by
  cases i with
  | render | attach | unmount => exact h
  | start onLine | retry onLine =>
    rw [react]
    split
    · exact h
    · exact embedsSession_begin onLine
  | restart onLine =>
    rw [react]
    split
    · exact h
    · exact embedsSession_begin onLine
  | cancel => exact h.act (by simp) id
  | event e =>
    rw [handled] at hi
    split at hi
    next => cases hi
    next hm => rwa [react, handleEvent, if_neg hm]
  | message interpreted =>
    cases interpreted with
    | none => exact h
    | some e =>
      rw [handled] at hi
      split at hi
      next => cases hi
      next hm => rwa [react, handleEvent, if_neg hm]
  | permissionChecked answer =>
    rw [react]
    split
    · exact embedsSession_permissionChecked h answer
    · exact h
  | connectionChecked answer =>
    rw [react]
    split
    · exact embedsSession_connectionChecked h answer
    · exact h
  | startSettled answer =>
    rw [react]
    split
    · exact embedsSession_startSettled h answer
    · exact h
  | launchSettled answer =>
    rw [react]
    split
    next hst =>
      unfold launchSettled
      split
      next hlive =>
        cases answer with
        | error cause => exact h.act (by simp) id
        | ok result =>
          rw [handled, if_pos ⟨hst, hlive⟩] at hi
          cases hi
      next => exact h
    next => exact h
  | refreshSettled seq answer => exact embedsSession_refreshSettled h seq answer
  | timerFired id => rwa [react, machine_timerFired]
  | online =>
    rw [react]
    split <;> exact h
  | offline =>
    rw [react]
    split
    · rw [goOffline]
      split
      · exact h.act (by simp) id
      · exact h
    · exact h

theorem embedsSession_react_iff (h : s.machine.EmbedsSession) (i : Input) :
    (s.react p i).machine.EmbedsSession ↔ s.Seats i := by
  unfold Seats
  cases hi : s.handled i with
  | none => exact iff_of_true (embedsSession_react_of_unhandled h hi) fun e he => by cases he
  | some e =>
    obtain ⟨hm, hreact⟩ := react_of_handled (p := p) hi
    have hmachine : (s.react p i).machine = (s.handleEvent p e).machine := by
      rcases hreact with he | he <;> rw [he]
      rfl
    rw [hmachine, embedsSession_handleEvent_iff h hm]
    simp

end Hook

/-- In every state of a run the page is shown with a session exactly when every event of the run
that makes the flow wait for a review finds a session. -/
theorem shown_page_has_session_iff (p : Platform) (host : Host) (isOnline : Bool)
    (inputs : List Input) :
    Reactions.Always (Hook.react p) (fun s => s.machine.EmbedsSession) (.mount host isOnline)
        inputs ↔
      Reactions.Meets (Hook.react p) Hook.Seats (.mount host isOnline) inputs := by
  apply Reactions.always_iff_meets (I := fun _ => True) (fun _ _ _ => trivial)
  · exact fun s i _ _ h => Hook.embedsSession_react_iff h i
  · trivial
  · exact (by decide : initialMachineState.EmbedsSession)

def lateSubmission : List Input :=
  [.start true, .connectionChecked (.ok true),
    .startSettled (.ok { provider := "sumsub", sessionId := some "s" }), .cancel,
    .event .submitted]

/-- The report enters the review screen, and the cancelled flow has no session. -/
theorem late_submission_shows_no_session :
    ¬ ∀ (p : Platform) (host : Host) (isOnline : Bool) (inputs : List Input),
      Reactions.Always (Hook.react p) (fun s => s.machine.EmbedsSession) (.mount host isOnline)
        inputs := by
  intro h
  have hno : ¬ Reactions.Always (Hook.react .native) (fun s => s.machine.EmbedsSession)
      (.mount ⟨true, false, false, true⟩ true) lateSubmission := by
    decide
  exact hno (h ..)

end Kyc.Client
