import Kyc.Client.Timers

/-! # What a cancelled run still does

A cancel resets the machine, but it stops none of the work that the run has out: a
session that is still being acquired, a check that is still being made, a newest token
refresh, a timer whose handle was lost, and a source that goes on emitting events.
-/

namespace Kyc.Client

/-- The calls that begin a run. -/
def Input.Begins : Input → Prop
  | .start _ => True
  | .retry _ => True
  | .restart _ => True
  | _ => False

/-- The events that an idle flow neither moves for nor reports. -/
def VerificationEvent.Inert (host : Host) : VerificationEvent → Prop
  | .applicantLoaded _ => True
  | .statusChanged status => status ≠ .pending ∧ host.observesStatus = false
  | .cancel => True
  | _ => False

namespace Hook

/-- What the host was told, other than that it was cancelled. -/
def reports (s : Hook) : List HostCall := s.calls.filter (· ≠ .onCancel)

/-- The flow is idle and nothing but cancels was reported since. -/
structure Silent (s s' : Hook) : Prop where
  machine : s'.machine = initialMachineState
  reports : s'.reports = s.reports

/-- What an idle flow can take of the work that is still out. -/
def Harmless (s : Hook) : Input → Prop
  | .event event => s.mounted → event.Inert s.host
  | .message (some event) => s.mounted → event.Inert s.host
  | .permissionChecked answer =>
    s.mounted → s.stage = some .permission → answer = .ok .granted
  | .connectionChecked answer => s.mounted → s.stage = some .connection → answer = .ok true
  | .startSettled _ => s.mounted → s.stage ≠ some .starting
  | .refreshSettled seq (.error _) =>
    s.mounted → seq = s.seq → ∀ r ∈ s.refreshes, r.seq ≠ seq
  | .timerFired id => s.mounted → ∀ t ∈ s.timers, t.id ≠ id
  | _ => True

section Silent

variable {p : Platform} {s s' : Hook}

theorem silent_of_eq (hidle : s.machine = initialMachineState) (hm : s'.machine = s.machine)
    (hc : s'.calls = s.calls) : s.Silent s' := by
  constructor
  · rw [hm, hidle]
  · rw [reports, hc, reports]

theorem not_silent_of_status (h : s'.machine.status ≠ .idle) : ¬ s.Silent s' := by
  intro hs
  rw [hs.machine] at h
  exact h rfl

theorem not_silent_tell {call : HostCall} (hcall : call ≠ .onCancel)
    (hc : s'.calls = s.calls) : ¬ s.Silent (s'.tell call) := by
  intro hs
  have hreports := hs.reports
  simp [reports, tell, hc, hcall] at hreports

theorem silent_statusChanged_iff (hidle : s.machine = initialMachineState)
    (status : VerificationStatus) :
    s.Silent (s.runPlan p (planEvent (.statusChanged status) s.machine.session)) ↔
      status ≠ .pending ∧ s.host.observesStatus = false := by
  by_cases hs : status = .pending
  · refine iff_of_false (not_silent_of_status ?_) fun h => h.1 hs
    rw [machine_runPlan (by simp [planEvent])]
    simp [planEvent, machineReducer, hs]
  · rw [planEvent, if_neg hs, runPlan]
    dsimp only [runEffect]
    by_cases ho : s.host.observesStatus = true
    · rw [if_pos ho]
      exact iff_of_false (not_silent_tell (by simp) rfl) fun h => by simp [ho] at h
    · rw [if_neg ho]
      exact iff_of_true (silent_of_eq hidle rfl rfl) ⟨hs, by simpa using ho⟩

theorem silent_handleEvent_iff (hidle : s.machine = initialMachineState) (e : VerificationEvent) :
    s.Silent (s.handleEvent p e) ↔ (s.mounted → e.Inert s.host) := by
  unfold handleEvent
  split
  next hm =>
    split
    next hd =>
      have hinert : ¬ e.Inert s.host := by
        cases e with
        | error => exact id
        | _ => exact absurd hd.2 id
      refine iff_of_false (not_silent_of_status ?_) fun h => hinert (h hm)
      simp [machineReducer]
    next =>
      cases e with
      | applicantLoaded applicantId =>
        refine iff_of_true (silent_of_eq hidle ?_ rfl) fun _ => trivial
        simp [planEvent, runPlan, machineReducer, hidle, initialMachineState]
      | statusChanged status =>
        rw [silent_statusChanged_iff hidle, VerificationEvent.Inert]
        simp [hm]
      | cancel =>
        refine iff_of_true ⟨rfl, ?_⟩ fun _ => trivial
        simp [planEvent, runPlan, runEffect, reports, tell, applyAction]
      | tokenExpired =>
        refine iff_of_false (not_silent_of_status ?_) fun h => h hm
        have hsession : s.machine.session = none := by rw [hidle]; rfl
        simp [planEvent, runPlan, runEffect, refreshToken, hsession, machineReducer]
      | complete status applicantId =>
        refine iff_of_false (not_silent_of_status ?_) fun h => h hm
        rw [machine_runPlan (by simp [planEvent])]
        by_cases ha : status = .approved <;> simp [planEvent, machineReducer, ha]
      | submitted | sessionExpired | error =>
        refine iff_of_false (not_silent_of_status ?_) fun h => h hm
        rw [machine_runPlan (by simp [planEvent])]
        simp [planEvent, machineReducer]
  next hm => exact iff_of_true (silent_of_eq hidle rfl rfl) fun h => absurd h hm

theorem silent_permissionChecked_iff (hidle : s.machine = initialMachineState)
    (answer : Except (Option String) PermissionState) :
    s.Silent (s.permissionChecked answer) ↔ (s.mounted → answer = .ok .granted) := by
  unfold permissionChecked
  split
  next hm =>
    rcases answer with message | ⟨_ | reason⟩
    · exact iff_of_false (not_silent_of_status (by simp [failWithThrown, machineReducer]))
        fun h => by cases h hm
    · exact iff_of_true (silent_of_eq hidle rfl rfl) fun _ => rfl
    · exact iff_of_false (not_silent_of_status (by simp [machineReducer])) fun h => by cases h hm
  next hm => exact iff_of_true (silent_of_eq hidle rfl rfl) fun h => absurd h hm

theorem silent_connectionChecked_iff (hidle : s.machine = initialMachineState)
    (answer : Except (Option String) Bool) :
    s.Silent (s.connectionChecked answer) ↔ (s.mounted → answer = .ok true) := by
  unfold connectionChecked
  split
  next hm =>
    rcases answer with message | ⟨_ | _⟩
    · exact iff_of_false (not_silent_of_status (by simp [failWithThrown, machineReducer]))
        fun h => by cases h hm
    · exact iff_of_false (not_silent_of_status (by simp [machineReducer])) fun h => by cases h hm
    · exact iff_of_true (silent_of_eq hidle rfl rfl) fun _ => rfl
  next hm => exact iff_of_true (silent_of_eq hidle rfl rfl) fun h => absurd h hm

theorem silent_startSettled_iff (hidle : s.machine = initialMachineState)
    (answer : Except VerificationSourceError VerificationSession) :
    s.Silent (s.startSettled answer) ↔ s.mounted = false := by
  unfold startSettled
  split
  next hm =>
    refine iff_of_false (not_silent_of_status ?_) (by simp [hm])
    cases answer with
    | error cause => simp [failWithCause, machineReducer]
    | ok acquired =>
      dsimp only
      split <;> simp [machineReducer]
  next hm => exact iff_of_true (silent_of_eq hidle rfl rfl) (by simpa using hm)

theorem silent_launchSettled (hidle : s.machine = initialMachineState)
    (answer : Except VerificationSourceError IdentityVerificationResult) :
    s.Silent (s.launchSettled p answer) := by
  have hsettled : s.machine.Settled := by
    rw [hidle]
    exact Or.inr (Or.inl rfl)
  unfold launchSettled
  rw [if_neg fun h => h.2 hsettled]
  exact silent_of_eq hidle rfl rfl

theorem silent_refreshResolved (hidle : s.machine = initialMachineState) (seq : ℕ)
    (token : String) : s.Silent (s.refreshSettled p seq (.ok token)) := by
  unfold refreshSettled
  split
  · dsimp only
    split <;> exact silent_of_eq hidle rfl rfl
  · exact silent_of_eq hidle rfl rfl

theorem silent_refreshRejected_iff (hidle : s.machine = initialMachineState) (seq : ℕ)
    (message : Option String) :
    s.Silent (s.refreshSettled p seq (.error message)) ↔
      (s.mounted → seq = s.seq → ∀ r ∈ s.refreshes, r.seq ≠ seq) := by
  unfold refreshSettled
  cases hf : s.refreshes.find? (·.seq = seq) with
  | none =>
    have hnone : ∀ r ∈ s.refreshes, r.seq ≠ seq := by simpa using List.find?_eq_none.mp hf
    exact iff_of_true (silent_of_eq hidle rfl rfl) fun _ _ => hnone
  | some refresh =>
    have hseq : refresh.seq = seq := by simpa using List.find?_some hf
    have hmem := List.mem_of_find?_eq_some hf
    dsimp only
    split
    next hc =>
      refine iff_of_false (not_silent_of_status (by simp [machineReducer])) fun h => ?_
      exact h hc.1 (hseq.symm.trans hc.2) refresh hmem hseq
    next hc =>
      refine iff_of_true (silent_of_eq hidle rfl rfl) fun hm hs => ?_
      exact absurd ⟨hm, hseq.trans hs⟩ hc

theorem silent_timerFired_iff (hidle : s.machine = initialMachineState) (id : ℕ) :
    s.Silent (s.timerFired id) ↔ (s.mounted → ∀ t ∈ s.timers, t.id ≠ id) := by
  have hfires : (s.mounted → ∀ t ∈ s.timers, t.id ≠ id) ↔ ¬ s.Fires id := by
    rw [fires_iff]
    push Not
    rfl
  rw [hfires, Fires]
  unfold timerFired
  split
  · dsimp only
    split
    · exact iff_of_false (not_silent_tell (by simp) rfl) fun h => h (by simp [tell])
    · exact iff_of_true (silent_of_eq hidle rfl rfl) fun h => h rfl
  · exact iff_of_true (silent_of_eq hidle rfl rfl) fun h => h rfl

theorem silent_goOffline (hidle : s.machine = initialMachineState) : s.Silent s.goOffline := by
  have hstatus : s.machine.status = .idle := by rw [hidle]; rfl
  rw [goOffline, if_neg (by simp [hstatus, VerificationState.Embeds])]
  exact silent_of_eq hidle rfl rfl

/-- What does not begin a run leaves an idle flow silent exactly when it is harmless. -/
theorem silent_react_iff (hidle : s.machine = initialMachineState) {i : Input}
    (hi : ¬ i.Begins) : s.Silent (s.react p i) ↔ s.Harmless i := by
  have hsilent : s.Silent s := silent_of_eq hidle rfl rfl
  cases i with
  | start | retry | restart => exact absurd trivial hi
  | render | attach | unmount => exact iff_of_true (silent_of_eq hidle rfl rfl) trivial
  | cancel =>
    refine iff_of_true ⟨rfl, ?_⟩ trivial
    simp [react, runEffect, reports, tell, applyAction, clearCompleteTimeout]
  | event e => exact silent_handleEvent_iff hidle e
  | message interpreted =>
    cases interpreted with
    | none => exact iff_of_true hsilent trivial
    | some e => exact silent_handleEvent_iff hidle e
  | permissionChecked answer =>
    rw [react, Harmless]
    split
    next hs => simp [silent_permissionChecked_iff hidle, hs]
    next hs => exact iff_of_true hsilent fun _ h => absurd h hs
  | connectionChecked answer =>
    rw [react, Harmless]
    split
    next hs => simp [silent_connectionChecked_iff hidle, hs]
    next hs => exact iff_of_true hsilent fun _ h => absurd h hs
  | startSettled answer =>
    rw [react, Harmless]
    split
    next hs => simp [silent_startSettled_iff hidle, hs]
    next hs => exact iff_of_true hsilent fun _ => hs
  | launchSettled answer =>
    refine iff_of_true ?_ trivial
    rw [react]
    split
    · exact silent_launchSettled hidle answer
    · exact hsilent
  | refreshSettled seq answer =>
    cases answer with
    | ok token => exact iff_of_true (silent_refreshResolved hidle seq token) trivial
    | error message => exact silent_refreshRejected_iff (p := p) hidle seq message
  | timerFired id => exact silent_timerFired_iff hidle id
  | online =>
    refine iff_of_true ?_ trivial
    rw [react]
    split
    · exact silent_of_eq hidle rfl rfl
    · exact hsilent
  | offline =>
    refine iff_of_true ?_ trivial
    rw [react]
    split
    · exact silent_goOffline hidle
    · exact hsilent

theorem Silent.next_iff (h : s.Silent s') {s'' : Hook} : s.Silent s'' ↔ s'.Silent s'' := by
  constructor
  · exact fun h' => ⟨h'.machine, h'.reports.trans h.reports.symm⟩
  · exact fun h' => ⟨h'.machine, h'.reports.trans h.reports⟩

end Silent

end Hook

open Hook

/-- Until a new run begins, a cancelled one is silent exactly when all that comes of it finds a hook
that it is harmless to. -/
theorem cancelled_run_silent_iff (p : Platform) (host : Host) (isOnline : Bool)
    (inputs later : List Input) (hl : ∀ i ∈ later, ¬ i.Begins) :
    let s := (mount host isOnline).run p (inputs ++ [.cancel])
    Reactions.Always (react p) s.Silent s later ↔ Reactions.Meets (react p) Harmless s later := by
  intro s
  have hidle : s.machine = initialMachineState := by
    have hs : s = ((mount host isOnline).run p inputs).react p .cancel :=
      Reactions.run_concat (react p) _ inputs .cancel
    rw [hs]
    rfl
  refine Reactions.always_iff_meets (I := fun _ => True) (fun _ _ _ => trivial) ?_ trivial
    (silent_of_eq hidle rfl rfl)
  intro s' i hi _ hsilent
  rw [hsilent.next_iff, silent_react_iff hsilent.machine (hl i hi)]

/-- A launch that settles after the cancel is dropped. -/
theorem cancelled_run_silent_iff_launch :
    let s := (mount ⟨true, false, false, true⟩ true).run .native
      ([.start true, .connectionChecked (.ok true), .startSettled (.ok { provider := "sumsub" })] ++
        [.cancel])
    Reactions.Always (react .native) s.Silent s [.launchSettled (.ok ⟨.approved, none⟩)] :=
  (cancelled_run_silent_iff .native ⟨true, false, false, true⟩ true
    [.start true, .connectionChecked (.ok true), .startSettled (.ok { provider := "sumsub" })]
    [.launchSettled (.ok ⟨.approved, none⟩)] (by simp [Input.Begins])).mpr ⟨trivial, trivial⟩

/-- A session that was still being acquired is shown after it. -/
theorem cancelled_run_verifies :
    ¬ ∀ (p : Platform) (host : Host) (isOnline : Bool) (inputs later : List Input),
      (∀ i ∈ later, ¬ i.Begins) →
        let s := (mount host isOnline).run p (inputs ++ [.cancel])
        Reactions.Always (react p) s.Silent s later := by
  intro h
  have hsilent := h .web ⟨false, true, false, true⟩ true [.start true]
    [.startSettled (.ok { provider := "sumsub" })] (by simp [Input.Begins])
  exact absurd hsilent.2.machine (by decide)

end Kyc.Client
