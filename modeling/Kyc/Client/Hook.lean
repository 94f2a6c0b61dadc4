import Kyc.Client.Machine
import Kyc.Programs.Reactions

/-! # The verification hook

`useIdentityVerification` together with `useTokenRefresh`, on both platforms: what their
refs hold, the work that is still out, and how they react to the host's calls, to events,
to settled promises and to timers. Everything between two awaits is one reaction.
-/

namespace Kyc.Client

inductive Platform | web | native
  deriving DecidableEq, Repr

structure Host where
  launchable : Bool
  refreshable : Bool
  checksPermissions : Bool
  observesStatus : Bool
  deriving DecidableEq, Repr

/-- What a run of `begin` awaits. -/
inductive Stage
  | permission
  | connection
  | starting
  | launching
  deriving DecidableEq, Repr

inductive PermissionState
  | granted
  | refused (reason : PermissionReason)
  deriving DecidableEq, Repr

/-- A delayed `onComplete` that is neither cleared nor fired. -/
structure CompleteTimer where
  id : ℕ
  result : IdentityVerificationResult
  deriving DecidableEq, Repr

structure TokenRefresh where
  seq : ℕ
  identity : Option String
  allowedOrigin : Option String
  deriving DecidableEq, Repr

inductive HostCall
  | onComplete (result : IdentityVerificationResult)
  | onError (error : IdentityVerificationError)
  | onCancel
  | onStatusChange (status : VerificationStatus)
  deriving DecidableEq, Repr

/-- A token handed to the page; only the web names a target origin. -/
structure TokenPost where
  token : String
  targetOrigin : Option String
  deriving DecidableEq, Repr

/-- Which session a token belongs to. -/
def identityOf (session : VerificationSession) : Option String := session.sessionId.or session.url

/-- The refs of a mounted hook, its outstanding work, and what it did so far, oldest first. -/
structure Hook where
  machine : MachineState
  host : Host
  isOnline : Bool
  mounted : Bool
  running : Bool
  stage : Option Stage
  completeTimeout : Option ℕ
  timers : List CompleteTimer
  scheduled : ℕ
  attached : Bool
  seq : ℕ
  refreshes : List TokenRefresh
  calls : List HostCall
  posts : List TokenPost
  deriving DecidableEq, Repr

def Hook.mount (host : Host) (isOnline : Bool) : Hook where
  machine := initialMachineState
  host := host
  isOnline := isOnline
  mounted := true
  running := false
  stage := none
  completeTimeout := none
  timers := []
  scheduled := 0
  attached := false
  seq := 0
  refreshes := []
  calls := []
  posts := []

/-- What a hook reacts to. A user call that begins a run comes with `navigator.onLine` at that
moment; a raw message, with what the source's `interpret` makes of it. -/
inductive Input
  | render (host : Host)
  | attach (attached : Bool)
  | start (onLine : Bool)
  | retry (onLine : Bool)
  | restart (onLine : Bool)
  | cancel
  | event (event : VerificationEvent)
  | message (interpreted : Option VerificationEvent)
  | permissionChecked (answer : Except (Option String) PermissionState)
  | connectionChecked (answer : Except (Option String) Bool)
  | startSettled (answer : Except VerificationSourceError VerificationSession)
  | launchSettled (answer : Except VerificationSourceError IdentityVerificationResult)
  | refreshSettled (seq : ℕ) (answer : Except (Option String) String)
  | timerFired (id : ℕ)
  | online
  | offline
  | unmount

/-- A refused permission of the camera, as the page reports it. -/
def VerificationEvent.DeniesPermission : VerificationEvent → Prop
  | .error code _ => code = ClientErrorCode.permissionDenied.name
  | _ => False

instance (e : VerificationEvent) : Decidable e.DeniesPermission := by
  cases e <;> unfold VerificationEvent.DeniesPermission <;> infer_instance

namespace Hook

variable (p : Platform) (s : Hook)

def applyAction (action : MachineAction) : Hook :=
  { s with machine := machineReducer s.machine action }

def tell (call : HostCall) : Hook := { s with calls := s.calls ++ [call] }

/-- Clear the timer whose handle is kept, if there is one. -/
def clearCompleteTimeout : Hook :=
  { s with
    timers := s.timers.filter fun t => s.completeTimeout ≠ some t.id
    completeTimeout := none }

def failWith (error : IdentityVerificationError) (keepSession : Bool) : Hook :=
  (s.applyAction (.failed error keepSession)).tell (.onError error)

/-- Dispatch a refresh for the current session. On the web a session without an origin to post to
cannot be refreshed. -/
def refreshToken : Hook :=
  let refused :=
    s.failWith (toIdentityVerificationError ClientErrorCode.tokenExpired.name none) true
  match s.machine.session with
  | some session =>
    if s.host.refreshable = false ∨ (p = .web ∧ truthy session.allowedOrigin = none) then refused
    else
      { s with
        seq := s.seq + 1
        refreshes := s.refreshes ++ [⟨s.seq + 1, identityOf session, session.allowedOrigin⟩] }
  | none => refused

/-- Schedule the `onComplete` that follows the success screen. -/
def scheduleComplete (result : IdentityVerificationResult) : Hook :=
  { s with
    completeTimeout := some s.scheduled
    timers := s.timers ++ [⟨s.scheduled, result⟩]
    scheduled := s.scheduled + 1 }

def runEffect : VerificationEffect → Hook
  | .statusChange status => if s.host.observesStatus then s.tell (.onStatusChange status) else s
  | .complete result delayed =>
    if delayed then s.scheduleComplete result else s.tell (.onComplete result)
  | .cancel => s.tell .onCancel
  | .error error => s.tell (.onError error)
  | .refreshToken => s.refreshToken p

def runPlan (plan : VerificationPlan) : Hook :=
  let acted := match plan.action with
    | some action => s.applyAction action
    | none => s
  match plan.effect with
  | some effect => acted.runEffect p effect
  | none => acted

/-- The browser prompts for the camera itself, so there a refusal is no failure but a state. -/
def handleEvent (event : VerificationEvent) : Hook :=
  if s.mounted then
    if p = .web ∧ event.DeniesPermission then s.applyAction (.permission .denied)
    else s.runPlan p (planEvent event s.machine.session)
  else s

/-- The end of a run of `begin`. -/
def finish : Hook := { s with stage := none, running := false }

def failWithCause (cause : VerificationSourceError) : Hook :=
  s.failWith (toIdentityVerificationError (cause.code.getD unknownErrorCode) cause.message) false

def failWithThrown (message : Option String) : Hook :=
  s.failWith (toIdentityVerificationError unknownErrorCode message) false

/-- A run of `begin`, up to its first await. -/
def begin (onLine : Bool) : Hook :=
  let begun := ({ s with running := true }.clearCompleteTimeout).applyAction .begin
  match p with
  | .web =>
    if onLine then { begun with stage := some .starting } else (begun.applyAction .offline).finish
  | .native =>
    { begun with stage := some (if s.host.checksPermissions then .permission else .connection) }

/-- A run of `begin` after its permission check. -/
def permissionChecked (answer : Except (Option String) PermissionState) : Hook :=
  if s.mounted then
    match answer with
    | .ok .granted => { s with stage := some .connection }
    | .ok (.refused reason) => (s.applyAction (.permission reason)).finish
    | .error message => (s.failWithThrown message).finish
  else s.finish

/-- A run of `begin` after its connectivity check. -/
def connectionChecked (answer : Except (Option String) Bool) : Hook :=
  if s.mounted then
    match answer with
    | .ok true => { s with stage := some .starting }
    | .ok false => (s.applyAction .offline).finish
    | .error message => (s.failWithThrown message).finish
  else s.finish

/-- A run of `begin` after the source's `start`. -/
def startSettled (answer : Except VerificationSourceError VerificationSession) : Hook :=
  if s.mounted then
    match answer with
    | .ok acquired =>
      if s.host.launchable then
        { s.applyAction (.session acquired) with stage := some .launching }
      else (s.applyAction (.session acquired)).finish
    | .error cause => (s.failWithCause cause).finish
  else s.finish

end Hook

def MachineState.Settled (m : MachineState) : Prop :=
  m.result ≠ none ∨ m.status = .idle ∨ m.status = .error

instance (m : MachineState) : Decidable m.Settled :=
  inferInstanceAs (Decidable (m.result ≠ none ∨ m.status = .idle ∨ m.status = .error))

namespace Hook

variable (p : Platform) (s : Hook)

/-- A run of `begin` after the source's `launch`, whose outcome only counts if nothing settled the
flow before. -/
def launchSettled (answer : Except VerificationSourceError IdentityVerificationResult) : Hook :=
  if s.mounted ∧ ¬ s.machine.Settled then
    match answer with
    | .ok result => (s.handleEvent p (.complete result.status (truthy result.applicantId))).finish
    | .error cause => (s.failWithCause cause).finish
  else s.finish

/-- A settled refresh: its token is posted if it is the newest one, for the session at hand. -/
def refreshSettled (seq : ℕ) (answer : Except (Option String) String) : Hook :=
  match s.refreshes.find? (·.seq = seq) with
  | some refresh =>
    let settled := { s with refreshes := s.refreshes.filter (·.seq ≠ seq) }
    match answer with
    | .ok token =>
      if s.mounted ∧ refresh.seq = s.seq ∧
          s.machine.session.map identityOf = some refresh.identity ∧
          s.attached then
        { settled with
          posts := s.posts ++ [⟨token, if p = .web then refresh.allowedOrigin else none⟩] }
      else settled
    | .error message =>
      if s.mounted ∧ refresh.seq = s.seq then
        settled.failWith
          (toIdentityVerificationError ClientErrorCode.tokenRefreshFailed.name message) true
      else settled
  | none => s

/-- A timer that fires forgets the handle that is kept, whosever it is. -/
def timerFired (id : ℕ) : Hook :=
  match s.timers.find? (·.id = id) with
  | some timer =>
    let fired := { s with timers := s.timers.filter (·.id ≠ id), completeTimeout := none }
    if s.mounted then fired.tell (.onComplete timer.result) else fired
  | none => s

/-- Losing the connection while the page is on screen parks the flow; only the web listens. -/
def goOffline : Hook :=
  if s.machine.status = .loading ∨ s.machine.status.Embeds then
    { s with isOnline := false }.applyAction .offline
  else { s with isOnline := false }

def react : Input → Hook
  | .render host => { s with host }
  | .attach attached => { s with attached }
  | .start onLine => if s.running then s else s.begin p onLine
  | .retry onLine => if s.running then s else s.begin p onLine
  | .restart onLine => if s.running then s else (s.applyAction .clearSession).begin p onLine
  | .cancel => (s.clearCompleteTimeout.applyAction .cancelled).runEffect p .cancel
  | .event event => s.handleEvent p event
  | .message interpreted => match interpreted with
    | some event => s.handleEvent p event
    | none => s
  | .permissionChecked answer =>
    if s.stage = some .permission then s.permissionChecked answer else s
  | .connectionChecked answer =>
    if s.stage = some .connection then s.connectionChecked answer else s
  | .startSettled answer => if s.stage = some .starting then s.startSettled answer else s
  | .launchSettled answer => if s.stage = some .launching then s.launchSettled p answer else s
  | .refreshSettled seq answer => s.refreshSettled p seq answer
  | .timerFired id => s.timerFired id
  | .online => if p = .web ∧ s.mounted then { s with isOnline := true } else s
  | .offline => if p = .web ∧ s.mounted then s.goOffline else s
  | .unmount => { s with mounted := false }.clearCompleteTimeout

/-- The event that an input makes the hook handle. -/
def handled : Input → Option VerificationEvent
  | .event event => if s.mounted then some event else none
  | .message interpreted => if s.mounted then interpreted else none
  | .launchSettled (.ok result) =>
    if s.stage = some .launching ∧ s.mounted ∧ ¬ s.machine.Settled then
      some (.complete result.status (truthy result.applicantId))
    else none
  | _ => none

abbrev run (inputs : List Input) : Hook := Reactions.run (react p) s inputs

end Hook

namespace Hook

variable {p : Platform} {s : Hook}

@[simp] theorem machine_applyAction (action : MachineAction) :
    (s.applyAction action).machine = machineReducer s.machine action := rfl

@[simp] theorem machine_finish : s.finish.machine = s.machine := rfl

@[simp] theorem machine_failWith (error : IdentityVerificationError) (keepSession : Bool) :
    (s.failWith error keepSession).machine = machineReducer s.machine (.failed error keepSession) :=
  rfl

@[simp] theorem machine_timerFired (id : ℕ) : (s.timerFired id).machine = s.machine := by
  unfold timerFired
  split
  · dsimp only
    split <;> rfl
  · rfl

theorem machine_refreshToken :
    (s.refreshToken p).machine = s.machine ∨
      ∃ error, (s.refreshToken p).machine = machineReducer s.machine (.failed error true) := by
  unfold refreshToken
  split
  · dsimp only
    split
    · exact Or.inr ⟨_, rfl⟩
    · exact Or.inl rfl
  · exact Or.inr ⟨_, rfl⟩

/-- An event is handled by a mounted hook only, and a launch that it comes of ends with it. -/
theorem react_of_handled {i : Input} {e : VerificationEvent} (hi : s.handled i = some e) :
    s.mounted ∧ (s.react p i = s.handleEvent p e ∨ s.react p i = (s.handleEvent p e).finish) := by
  cases i with
  | event event =>
    rw [handled] at hi
    split at hi
    next hm =>
      cases hi
      exact ⟨hm, Or.inl rfl⟩
    next => cases hi
  | message interpreted =>
    rw [handled] at hi
    split at hi
    next hm =>
      subst hi
      exact ⟨hm, Or.inl rfl⟩
    next => cases hi
  | launchSettled answer =>
    cases answer with
    | error cause => cases hi
    | ok result =>
      rw [handled] at hi
      split at hi
      next hlive =>
        cases hi
        refine ⟨hlive.2.1, Or.inr ?_⟩
        rw [react, if_pos hlive.1]
        unfold launchSettled
        rw [if_pos hlive.2]
      next => cases hi
  | _ => cases hi

theorem machine_runEffect {effect : VerificationEffect} (h : effect ≠ .refreshToken) :
    (s.runEffect p effect).machine = s.machine := by
  cases effect with
  | statusChange status => rw [runEffect]; split <;> rfl
  | complete result delayed => rw [runEffect]; split <;> rfl
  | cancel | error => rfl
  | refreshToken => exact absurd rfl h

/-- So otherwise only the action of a plan does. -/
theorem machine_runPlan {plan : VerificationPlan} (h : plan.effect ≠ some .refreshToken) :
    (s.runPlan p plan).machine =
      (plan.action.map (machineReducer s.machine)).getD s.machine := by
  obtain ⟨action, effect⟩ := plan
  cases effect with
  | none => cases action <;> rfl
  | some effect =>
    have he : effect ≠ .refreshToken := by
      rintro rfl
      exact h rfl
    cases action with
    | none => exact machine_runEffect he
    | some action => exact machine_runEffect he

/-! What an event leaves alone: where a run of `begin` is, and whether the hook is mounted. -/

theorem frame_refreshToken :
    (s.refreshToken p).stage = s.stage ∧ (s.refreshToken p).mounted = s.mounted := by
  unfold refreshToken
  split
  · dsimp only
    split <;> exact ⟨rfl, rfl⟩
  · exact ⟨rfl, rfl⟩

theorem frame_runEffect (effect : VerificationEffect) :
    (s.runEffect p effect).stage = s.stage ∧ (s.runEffect p effect).mounted = s.mounted := by
  cases effect with
  | statusChange status => rw [runEffect]; split <;> exact ⟨rfl, rfl⟩
  | complete result delayed => rw [runEffect]; split <;> exact ⟨rfl, rfl⟩
  | cancel | error => exact ⟨rfl, rfl⟩
  | refreshToken => exact frame_refreshToken

theorem frame_runPlan (plan : VerificationPlan) :
    (s.runPlan p plan).stage = s.stage ∧ (s.runPlan p plan).mounted = s.mounted := by
  obtain ⟨action, effect⟩ := plan
  cases effect with
  | none => cases action <;> exact ⟨rfl, rfl⟩
  | some effect =>
    cases action with
    | none => exact frame_runEffect effect
    | some action => exact frame_runEffect (s := s.applyAction action) effect

theorem frame_handleEvent (e : VerificationEvent) :
    (s.handleEvent p e).stage = s.stage ∧ (s.handleEvent p e).mounted = s.mounted := by
  unfold handleEvent
  split
  · split
    · exact ⟨rfl, rfl⟩
    · exact frame_runPlan _
  · exact ⟨rfl, rfl⟩

section Mounted

theorem mounted_begin (onLine : Bool) : (s.begin p onLine).mounted = s.mounted := by
  cases p with
  | native => rfl
  | web => cases onLine <;> rfl

theorem mounted_permissionChecked (answer : Except (Option String) PermissionState) :
    (s.permissionChecked answer).mounted = s.mounted := by
  unfold permissionChecked
  split
  · split <;> rfl
  · rfl

theorem mounted_connectionChecked (answer : Except (Option String) Bool) :
    (s.connectionChecked answer).mounted = s.mounted := by
  unfold connectionChecked
  split
  · split <;> rfl
  · rfl

theorem mounted_startSettled (answer : Except VerificationSourceError VerificationSession) :
    (s.startSettled answer).mounted = s.mounted := by
  unfold startSettled
  split
  · split
    · split <;> rfl
    · rfl
  · rfl

theorem mounted_launchSettled
    (answer : Except VerificationSourceError IdentityVerificationResult) :
    (s.launchSettled p answer).mounted = s.mounted := by
  unfold launchSettled
  split
  · split
    · exact (frame_handleEvent _).2
    · rfl
  · rfl

theorem mounted_refreshSettled (seq : ℕ) (answer : Except (Option String) String) :
    (s.refreshSettled p seq answer).mounted = s.mounted := by
  unfold refreshSettled
  split
  · dsimp only
    split
    · split <;> rfl
    · split <;> rfl
  · rfl

theorem mounted_timerFired (id : ℕ) : (s.timerFired id).mounted = s.mounted := by
  unfold timerFired
  split
  · dsimp only
    split <;> rfl
  · rfl

theorem mounted_goOffline : s.goOffline.mounted = s.mounted := by
  unfold goOffline
  split <;> rfl

/-- Only an unmount unmounts. -/
theorem mounted_react {i : Input} (h : i ≠ .unmount) : (s.react p i).mounted = s.mounted := by
  cases i with
  | start onLine | retry onLine | restart onLine =>
    rw [react]
    split
    · rfl
    · exact mounted_begin onLine
  | event e => exact (frame_handleEvent e).2
  | message interpreted =>
    cases interpreted with
    | none => rfl
    | some e => exact (frame_handleEvent e).2
  | permissionChecked answer =>
    rw [react]
    split
    · exact mounted_permissionChecked answer
    · rfl
  | connectionChecked answer =>
    rw [react]
    split
    · exact mounted_connectionChecked answer
    · rfl
  | startSettled answer =>
    rw [react]
    split
    · exact mounted_startSettled answer
    · rfl
  | launchSettled answer =>
    rw [react]
    split
    · exact mounted_launchSettled answer
    · rfl
  | refreshSettled seq answer => exact mounted_refreshSettled seq answer
  | timerFired id => exact mounted_timerFired id
  | online => rw [react]; split <;> rfl
  | offline =>
    rw [react]
    split
    · exact mounted_goOffline
    · rfl
  | unmount => exact absurd rfl h
  | render | attach | cancel => rfl

end Mounted

end Hook

end Kyc.Client
