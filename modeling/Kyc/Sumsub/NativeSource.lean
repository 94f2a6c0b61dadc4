import Kyc.Client.Machine
import Kyc.Sumsub.Mapping

/-! # Launches of the mobile SDK

A source runs the mobile SDK, one launch at a time. What the SDK throws, reports and returns
becomes events for the host and a settlement of the launch, all of which the launch's log
keeps in order.
-/

namespace Kyc.Sumsub

open Json Hosted Client

/-! ## The vocabulary of the mobile SDK -/

section Vocabulary

inductive SNSMobileSDKStatus
  | ready
  | failed
  | initial
  | incomplete
  | pending
  | temporarilyDeclined
  | finallyRejected
  | approved
  | actionCompleted
  deriving DecidableEq, Repr

def SNSMobileSDKStatus.name : SNSMobileSDKStatus → String
  | ready => "Ready"
  | failed => "Failed"
  | initial => "Initial"
  | incomplete => "Incomplete"
  | pending => "Pending"
  | temporarilyDeclined => "TemporarilyDeclined"
  | finallyRejected => "FinallyRejected"
  | approved => "Approved"
  | actionCompleted => "ActionCompleted"

def snsMobileSDKStatuses : List SNSMobileSDKStatus :=
  [.ready, .failed, .initial, .incomplete, .pending, .temporarilyDeclined, .finallyRejected,
    .approved, .actionCompleted]

inductive SNSMobileSDKErrorType
  | unknown
  | invalidParameters
  | unauthorized
  | initialLoadingFailed
  | applicantNotFound
  | applicantMisconfigured
  | networkError
  | unexpectedError
  | interruptedError
  deriving DecidableEq, Repr

def SNSMobileSDKErrorType.name : SNSMobileSDKErrorType → String
  | unknown => "Unknown"
  | invalidParameters => "InvalidParameters"
  | unauthorized => "Unauthorized"
  | initialLoadingFailed => "InitialLoadingFailed"
  | applicantNotFound => "ApplicantNotFound"
  | applicantMisconfigured => "ApplicantMisconfigured"
  | networkError => "NetworkError"
  | unexpectedError => "UnexpectedError"
  | interruptedError => "InterruptedError"

structure SNSMobileSDKResult where
  success : Bool
  status : SNSMobileSDKStatus
  errorType : Option SNSMobileSDKErrorType
  errorMsg : Option Text

/-- `MOBILE_STATUSES`. -/
def mobileStatuses : SNSMobileSDKStatus → EventStatus
  | .ready => .status .initial
  | .initial => .status .initial
  | .incomplete => .status .incomplete
  | .pending => .status .pending
  | .temporarilyDeclined => .status .declined
  | .finallyRejected => .status .finallyRejected
  | .approved => .status .approved
  | .failed => .null
  | .actionCompleted => .null

/-- `MOBILE_STATUSES[status] ?? null`. -/
def mapSumsubMobileStatus (status : Text) : EventStatus :=
  match snsMobileSDKStatuses.find? fun s => lit s.name = status with
  | some s => mobileStatuses s
  | none => if inherits status then .inherited status else .null

theorem mapSumsubMobileStatus_name (s : SNSMobileSDKStatus) :
    mapSumsubMobileStatus (lit s.name) = mobileStatuses s := by
  cases s <;> decide +kernel

/-- `MOBILE_ERROR_CODES`. -/
def mobileErrorCodes : SNSMobileSDKErrorType → Option ClientErrorCode
  | .unauthorized => some .tokenExpired
  | .networkError => some .networkError
  | _ => none

/-- `toUpperCase` of a letter of the Latin alphabet. -/
def upperUnit (c : UInt16) : UInt16 := if unit 'a' ≤ c ∧ c ≤ unit 'z' then c - 32 else c

/-- A code of its own for what has no normalized meaning. -/
def prefixedCode (name : String) : Text := lit "SUMSUB_" ++ (lit name).map upperUnit

def mapSumsubMobileErrorCode (result : SNSMobileSDKResult) : Text :=
  match result.errorType with
  | some errorType => ((mobileErrorCodes errorType).map fun code => lit code.name).getD
      (prefixedCode errorType.name)
  | none => prefixedCode result.status.name

def present (s : Option Text) : Option Text := s.filter (· ≠ [])

theorem present_present (s : Option Text) : present (present s) = present s := by
  simp [present, Option.filter_filter]

/-- An error with a code; an empty message is left out. -/
structure SourceError where
  code : Text
  message : Option Text
  deriving DecidableEq

def sourceError (code : Text) (message : Option Text) : SourceError := ⟨code, present message⟩

inductive LaunchEvent
  | statusChanged (status : EventStatus)
  | applicantLoaded (applicantId : Text)
  | complete (status : VerificationStatus) (applicantId : Option Text)
  | cancel
  | error (code : Text) (message : Option Text)
  deriving DecidableEq

/-- The result of the SDK's launch as the one event that ends the flow: completion with a status, or
an error. -/
def mapSumsubMobileResult (result : SNSMobileSDKResult) :
    VerificationStatus ⊕ SourceError :=
  match if result.success then mapSumsubMobileStatus (lit result.status.name) else .null with
  | .status status => .inl status
  | _ => .inr ⟨mapSumsubMobileErrorCode result, present result.errorMsg⟩

/-- What may be thrown: the string under `code` of an object, its message, and whether it is an
`Error`. -/
structure ThrownValue where
  code : Option Text
  message : Option Text
  isError : Bool
  deriving DecidableEq

def toSourceError (thrown : ThrownValue) (code : Text) : SourceError :=
  match thrown.code with
  | some own => ⟨own, thrown.message⟩
  | none => sourceError code (if thrown.isError then thrown.message else none)

def sumsubLaunchFailed : Text := lit "SUMSUB_LAUNCH_FAILED"

/-- `CANCELLED_STATUSES`: the applicant has closed the SDK before finishing. -/
def cancelledStatuses : List VerificationStatus := [.initial, .incomplete]

end Vocabulary

/-! ## Launches -/

inductive Outcome
  | resolved (status : VerificationStatus) (applicantId : Option Text)
  | rejected (cause : SourceError)
  deriving DecidableEq

/-- What happens in a launch: the SDK throws or its launch returns, an event is told to the host,
and the launch settles. -/
inductive Note
  | threw (thrown : ThrownValue)
  | returned (result : SNSMobileSDKResult)
  | emitted (event : LaunchEvent)
  | settled (outcome : Outcome)

inductive Phase
  | refused
  | running
  | finishing (answer : VerificationStatus ⊕ SourceError)
  | settled

structure NativeLaunch where
  phase : Phase
  applicantId : Option Text
  log : List Note

variable {ν : Type}

/-- What the SDK does once it is reached; the host's answer to the last event comes before the
launch goes on to settle. -/
inductive SdkAct (ν : Type)
  | statusChanged (newStatus : Text)
  | event (eventType : Text) (payload : Option (Value ν))
  | throws (thrown : ThrownValue)
  | returns (result : SNSMobileSDKResult)
  | proceeds

namespace NativeLaunch

def note (l : NativeLaunch) (n : Note) : NativeLaunch := { l with log := l.log ++ [n] }

def emit (l : NativeLaunch) (event : LaunchEvent) : NativeLaunch := l.note (.emitted event)

def settle (l : NativeLaunch) (outcome : Outcome) : NativeLaunch :=
  { l.note (.settled outcome) with phase := .settled }

/-- A launch that is over before the SDK is reached. -/
def refuse (cause : SourceError) : NativeLaunch := ⟨.refused, none, [.settled (.rejected cause)]⟩

def onStatusChanged (l : NativeLaunch) (newStatus : Text) : NativeLaunch :=
  match mapSumsubMobileStatus newStatus with
  | .null => l
  | status => l.emit (.statusChanged status)

def onEvent (l : NativeLaunch) (eventType : Text) (payload : Option (Value ν)) : NativeLaunch :=
  if eventType = lit "ApplicantLoaded" then
    match str (field payload "applicantId") with
    | some loaded => { l.emit (.applicantLoaded loaded) with applicantId := some loaded }
    | none => l
  else l

def lastEvent (applicantId : Option Text) : VerificationStatus ⊕ SourceError → LaunchEvent
  | .inl status =>
    if status ∈ cancelledStatuses then .cancel else .complete status (present applicantId)
  | .inr cause => .error cause.code cause.message

def onReturned (l : NativeLaunch) (result : SNSMobileSDKResult) : NativeLaunch :=
  let answer := mapSumsubMobileResult result
  { (l.note (.returned result)).emit (lastEvent l.applicantId answer) with
    phase := .finishing answer }

/-- What a launch settles with. -/
def outcome (applicantId : Option Text) : VerificationStatus ⊕ SourceError → Outcome
  | .inl status => .resolved status (present applicantId)
  | .inr cause => .rejected (sourceError cause.code cause.message)

def react (l : NativeLaunch) (act : SdkAct ν) : NativeLaunch :=
  match l.phase, act with
  | .refused, _ => l
  | _, .statusChanged newStatus => l.onStatusChanged newStatus
  | _, .event eventType payload => l.onEvent eventType payload
  | .running, .throws thrown =>
    (l.note (.threw thrown)).settle (.rejected (toSourceError thrown sumsubLaunchFailed))
  | .running, .returns result => l.onReturned result
  | .finishing answer, .proceeds => l.settle (outcome l.applicantId answer)
  | _, _ => l

def isActive (l : NativeLaunch) : Bool :=
  match l.phase with
  | .running | .finishing _ => true
  | _ => false

end NativeLaunch

/-- The flag that one launch is under way, and all launches so far. -/
structure NativeSource where
  launching : Bool
  launches : List NativeLaunch

inductive NativeInput (ν : Type)
  | launch (accessToken : Option Text) (installed : Bool)
  | sdk (i : ℕ) (act : SdkAct ν)

def launchInProgress : SourceError :=
  ⟨lit ClientErrorCode.sdkUnavailable.name, some (lit "launch already in progress")⟩

def noAccessToken : SourceError :=
  ⟨sumsubLaunchFailed, some (lit "session carries no access token")⟩

def sdkNotInstalled : SourceError :=
  ⟨lit ClientErrorCode.sdkUnavailable.name,
    some (lit "The Sumsub mobile SDK is not installed in this build.")⟩

namespace NativeSource

def fresh : NativeSource := ⟨false, []⟩

def react (s : NativeSource) : NativeInput ν → NativeSource
  | .launch accessToken installed =>
    if s.launching then { s with launches := s.launches ++ [.refuse launchInProgress] }
    else if present accessToken = none then
      { s with launches := s.launches ++ [.refuse noAccessToken] }
    else if installed then ⟨true, s.launches ++ [⟨.running, none, []⟩]⟩
    else { s with launches := s.launches ++ [.refuse sdkNotInstalled] }
  | .sdk i act =>
    match s.launches[i]? with
    | none => s
    | some l =>
      let next := l.react act
      ⟨if l.isActive ∧ ¬ next.isActive then false else s.launching, s.launches.set i next⟩

end NativeSource

end Kyc.Sumsub
