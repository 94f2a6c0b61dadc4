import Kyc.Client.Refreshes

/-! # How a launch settles

A launchable source reports what happens by events, and in the end settles its promise.
The events may have settled the flow by then; what the promise brings is then dropped.
-/

namespace Kyc.Client

/-- How far the events of a launch have brought the flow. -/
inductive Flow
  | running
  | completed
  | ended
  deriving DecidableEq, Repr

namespace Hook

/-- A token that expires now cannot be refreshed. -/
def RefusesRefresh (p : Platform) (s : Hook) : Prop :=
  match s.machine.session with
  | some session =>
    s.host.refreshable = false ∨ (p = .web ∧ truthy session.allowedOrigin = none)
  | none => True

instance (p : Platform) (s : Hook) : Decidable (s.RefusesRefresh p) := by
  unfold RefusesRefresh
  split <;> infer_instance

end Hook

namespace Flow

/-- An outcome completes the flow; a cancel and a failure end it. -/
def next (p : Platform) (s : Hook) (f : Flow) : VerificationEvent → Flow
  | .complete _ _ => completed
  | .cancel => ended
  | .sessionExpired => ended
  | .error code message =>
    if p = .web ∧ (VerificationEvent.error code message).DeniesPermission then f else ended
  | .tokenExpired => if s.RefusesRefresh p then ended else f
  | _ => f

/-- A refused permission on the web, or an event that goes on after the flow ended. -/
def Strays (p : Platform) (f : Flow) (e : VerificationEvent) : Prop :=
  f ≠ completed ∧
    ((p = .web ∧ e.DeniesPermission) ∨
      (f = ended ∧ (e = .submitted ∨ e = .statusChanged .pending)))

/-- The machine of a flow. -/
def Describes (f : Flow) (m : MachineState) : Prop :=
  match f with
  | running => m.result = none ∧ m.status ≠ .idle ∧ m.status ≠ .error
  | completed => m.result ≠ none
  | ended => m.status = .idle ∨ m.status = .error

theorem Describes.settled_iff {f : Flow} {m : MachineState} (h : f.Describes m) :
    m.Settled ↔ f ≠ running := by
  unfold MachineState.Settled
  cases f with
  | running => simp [h.1, h.2.1, h.2.2]
  | completed => exact iff_of_true (Or.inl h) (by decide)
  | ended => exact iff_of_true (Or.inr h) (by decide)

theorem Describes.awaitReview {f : Flow} {m : MachineState} (h : f.Describes m) (hf : f ≠ ended) :
    f.Describes (machineReducer m .awaitReview) := by
  cases f with
  | running => exact ⟨h.1, by simp [machineReducer], by simp [machineReducer]⟩
  | completed => exact h
  | ended => exact absurd rfl hf

/-- A hook that handles an event, and the flow as the event leaves it. -/
def watch (p : Platform) (w : Hook × Flow) (e : VerificationEvent) : Hook × Flow :=
  (w.1.react p (.event e), w.2.next p w.1 e)

end Flow

namespace Hook

variable {p : Platform} {s s' : Hook}

theorem status_refreshToken_of_refuses (h : s.RefusesRefresh p) :
    (s.refreshToken p).machine.status = .error := by
  unfold RefusesRefresh at h
  unfold refreshToken
  cases hsession : s.machine.session with
  | none => rfl
  | some session =>
    rw [hsession] at h
    dsimp only at h ⊢
    rw [if_pos h]
    rfl

theorem machine_refreshToken_of_not_refuses (h : ¬ s.RefusesRefresh p) :
    (s.refreshToken p).machine = s.machine := by
  unfold RefusesRefresh at h
  unfold refreshToken
  cases hsession : s.machine.session with
  | none =>
    rw [hsession] at h
    exact absurd trivial h
  | some session =>
    rw [hsession] at h
    dsimp only at h ⊢
    rw [if_neg h]

/-- An event brings the flow to where it brings the machine. -/
theorem describes_handleEvent {f : Flow} (hm : s.mounted) (hf : f.Describes s.machine)
    {e : VerificationEvent} (hs : ¬ f.Strays p e) :
    (f.next p s e).Describes (s.handleEvent p e).machine := by
  rw [handleEvent, if_pos hm]
  split
  next hd =>
    have hc : f = .completed := by
      by_contra hc
      exact hs ⟨hc, Or.inl hd⟩
    subst hc
    cases e with
    | error code message => simpa [Flow.next, hd, Flow.Describes, machineReducer] using hf
    | _ => exact absurd hd.2 id
  next hd =>
    cases e with
    | tokenExpired =>
      have hplan : s.runPlan p (planEvent .tokenExpired s.machine.session) = s.refreshToken p := rfl
      rw [hplan, Flow.next]
      split
      next hr => exact Or.inr (status_refreshToken_of_refuses hr)
      next hr => rwa [machine_refreshToken_of_not_refuses hr]
    | applicantLoaded applicantId =>
      rw [machine_runPlan (by simp [planEvent])]
      cases f <;> exact hf
    | submitted =>
      rw [machine_runPlan (by simp [planEvent])]
      exact hf.awaitReview fun hended => hs ⟨by simp [hended], Or.inr ⟨hended, Or.inl rfl⟩⟩
    | statusChanged status =>
      rw [machine_runPlan (by simp [planEvent])]
      by_cases hp : status = .pending
      · subst hp
        exact hf.awaitReview fun hended => hs ⟨by simp [hended], Or.inr ⟨hended, Or.inr rfl⟩⟩
      · rwa [planEvent, if_neg hp]
    | complete status applicantId =>
      rw [machine_runPlan (by simp [planEvent])]
      simp [planEvent, machineReducer, Flow.next, Flow.Describes]
    | cancel => exact Or.inl rfl
    | sessionExpired => exact Or.inr rfl
    | error code message =>
      rw [machine_runPlan (by simp [planEvent]), Flow.next, if_neg hd]
      exact Or.inr rfl

/-- The hook waits for its launch, and the flow is where the machine is. -/
structure Launching (w : Hook × Flow) : Prop where
  stage : w.1.stage = some .launching
  mounted : w.1.mounted
  flow : w.2.Describes w.1.machine

theorem Launching.watch {w : Hook × Flow} (h : Launching w) {e : VerificationEvent}
    (hs : ¬ w.2.Strays p e) : Launching (Flow.watch p w e) where
  stage := (frame_handleEvent e).1.trans h.stage
  mounted := (frame_handleEvent (p := p) (s := w.1) e).2 ▸ h.mounted
  flow := describes_handleEvent h.mounted h.flow hs

theorem launching_startSettled (hs : s.stage = some .starting) (hm : s.mounted)
    (hl : s.host.launchable) (acquired : VerificationSession) :
    Launching (s.react p (.startSettled (.ok acquired)), .running) := by
  have he : s.react p (.startSettled (.ok acquired)) =
      { s.applyAction (.session acquired) with stage := some .launching } := by
    rw [react, if_pos hs, startSettled, if_pos hm]
    dsimp only
    rw [if_pos hl]
  rw [he]
  exact ⟨rfl, hm, by simp [Flow.Describes, machineReducer]⟩

theorem Launching.unobserved {w : Hook × Flow} (h : Launching w) (hf : w.2 ≠ .running)
    (answer : Except VerificationSourceError IdentityVerificationResult) :
    w.1.Unobserved (w.1.react p (.launchSettled answer)) := by
  have hsettled := h.flow.settled_iff.mpr hf
  have hreact : w.1.react p (.launchSettled answer) = w.1.finish := by
    rw [react, if_pos h.stage]
    unfold launchSettled
    rw [if_neg fun hc => hc.2 hsettled]
  rw [hreact]
  exact ⟨rfl, rfl, rfl⟩

theorem Launching.react_launchSettled {w : Hook × Flow} (h : Launching w) (hf : w.2 = .running)
    (answer : Except VerificationSourceError IdentityVerificationResult) :
    w.1.react p (.launchSettled answer) = match answer with
      | .ok result =>
        (w.1.handleEvent p (.complete result.status (truthy result.applicantId))).finish
      | .error cause => (w.1.failWithCause cause).finish := by
  have hsettled : ¬ w.1.machine.Settled := fun hc => h.flow.settled_iff.mp hc hf
  rw [react, if_pos h.stage]
  unfold launchSettled
  exact (if_pos ⟨h.mounted, hsettled⟩).trans (by cases answer <;> rfl)

end Hook

open Hook

/-- When the events of a launch do not stray, its promise settles unobserved if they have settled
the flow, and otherwise brings one outcome or one failure. -/
theorem launch_settles (p : Platform) (s : Hook) (hs : s.stage = some .starting)
    (hm : s.mounted) (hl : s.host.launchable) (acquired : VerificationSession)
    (events : List VerificationEvent)
    (he : Reactions.Meets (Flow.watch p) (fun w e => ¬ w.2.Strays p e)
      (s.react p (.startSettled (.ok acquired)), .running) events) :
    let w :=
      Reactions.run (Flow.watch p) (s.react p (.startSettled (.ok acquired)), .running) events
    (w.2 ≠ .running → ∀ answer, w.1.Unobserved (w.1.react p (.launchSettled answer))) ∧
      (w.2 = .running →
        (∀ result, w.1.react p (.launchSettled (.ok result)) =
          (w.1.handleEvent p (.complete result.status (truthy result.applicantId))).finish) ∧
        ∀ cause, (w.1.react p (.launchSettled (.error cause))).calls =
          w.1.calls ++ [.onError (toIdentityVerificationError
            (cause.code.getD unknownErrorCode) cause.message)]) := by
  intro w
  have hw : Launching w :=
    he.run (fun _ _ h hstray => h.watch hstray) (launching_startSettled hs hm hl acquired)
  refine ⟨fun hf answer => hw.unobserved hf answer, fun hf => ⟨fun result => ?_, fun cause => ?_⟩⟩
  · rw [hw.react_launchSettled hf (.ok result)]
  · rw [hw.react_launchSettled hf (.error cause)]
    rfl

def acquiring : Hook :=
  (mount ⟨true, false, false, true⟩ true).run .native [.start true, .connectionChecked (.ok true)]

/-- A cancel reported by the SDK, which then fails. -/
theorem launch_settles_cancel :
    (acquiring.run .native
        [.startSettled (.ok { provider := "sumsub" }), .event .cancel]).Unobserved
      (acquiring.run .native
        [.startSettled (.ok { provider := "sumsub" }), .event .cancel,
          .launchSettled (.error ⟨none, none⟩)]) :=
  (launch_settles .native acquiring (by decide) (by decide) (by decide) { provider := "sumsub" }
    [.cancel] ⟨by simp [Flow.Strays, VerificationEvent.DeniesPermission], trivial⟩).1
    (by decide) (.error ⟨none, none⟩)

/-- The events that report an outcome, a cancel or an error. -/
def VerificationEvent.Concludes : VerificationEvent → Prop
  | .complete _ _ => True
  | .cancel => True
  | .error _ _ => True
  | _ => False

/-- A session that expires is a failure too, so the outcome that the launch resolves to is
dropped. -/
theorem launch_of_expired_session_dropped :
    ¬ ∀ (p : Platform) (s : Hook) (acquired : VerificationSession)
      (events : List VerificationEvent),
      s.stage = some .starting → s.mounted → s.host.launchable →
        let s' := (s.react p (.startSettled (.ok acquired))).run p (events.map .event)
        ((∃ e ∈ events, e.Concludes) →
          ∀ answer, s'.Unobserved (s'.react p (.launchSettled answer))) ∧
          ((¬ ∃ e ∈ events, e.Concludes) →
            (∀ result, s'.react p (.launchSettled (.ok result)) =
              (s'.handleEvent p (.complete result.status (truthy result.applicantId))).finish) ∧
            ∀ cause, (s'.react p (.launchSettled (.error cause))).calls =
              s'.calls ++ [.onError (toIdentityVerificationError
                (cause.code.getD unknownErrorCode) cause.message)]) := by
  intro h
  have hopen := (h .native acquiring { provider := "sumsub" } [.sessionExpired] (by decide)
    (by decide) (by decide)).2 (by simp [VerificationEvent.Concludes])
  exact absurd (hopen.1 ⟨.approved, none⟩) (by decide)

end Kyc.Client
