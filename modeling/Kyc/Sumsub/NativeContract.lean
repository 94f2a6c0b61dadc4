import Kyc.Programs.Reactions
import Kyc.Sumsub.NativeSource

/-! # What a launch owes to the host

Whatever the SDK does, a launch ends with at most one event, settles once, and settles the
way that event says. Launches that the SDK is never reached for are refused without an event,
and an empty applicant id is not passed on.
-/

namespace Kyc.Sumsub

open Json Hosted Client

variable {ν : Type}

/-! ## What a launch's log says -/

section Logs

def LaunchEvent.isLast : LaunchEvent → Bool
  | complete _ _ => true
  | cancel => true
  | error _ _ => true
  | _ => false

def Note.lastEvent? : Note → Option LaunchEvent
  | emitted event => if event.isLast then some event else none
  | _ => none

def Note.applicantId? : Note → Option Text
  | emitted (.applicantLoaded applicantId) => some applicantId
  | _ => none

def Note.outcome? : Note → Option Outcome
  | settled outcome => some outcome
  | _ => none

def Note.endsSdk : Note → Bool
  | threw _ => true
  | returned _ => true
  | _ => false

def lastEvents (log : List Note) : List LaunchEvent := log.filterMap Note.lastEvent?

def outcomes (log : List Note) : List Outcome := log.filterMap Note.outcome?

def lastApplicantId (log : List Note) : Option Text := (log.filterMap Note.applicantId?).getLast?

def beforeOutcome (log : List Note) : List Note := log.takeWhile fun n => n.outcome?.isNone

def beforeSdkEnds (log : List Note) : List Note := log.takeWhile fun n => ! n.endsSdk

/-- What a source owes to whoever launches it, for one launch. -/
structure HonoursContract (log : List Note) : Prop where
  one_last_event : (lastEvents log).length ≤ 1
  none_early : lastEvents (beforeSdkEnds log) = []
  one_outcome : (outcomes log).length ≤ 1
  completes : ∀ status applicantId, .complete status applicantId ∈ lastEvents log →
    status ∉ cancelledStatuses
  resolves_iff : ∀ outcome ∈ outcomes log,
    (∃ status applicantId, outcome = .resolved status applicantId) ↔
      .cancel ∈ lastEvents log ∨
        ∃ status applicantId, .complete status applicantId ∈ lastEvents log
  same_status : ∀ status applicantId, .resolved status applicantId ∈ outcomes log →
    (.cancel ∈ lastEvents log → status ∈ cancelledStatuses) ∧
      ∀ other applicantId, .complete other applicantId ∈ lastEvents log → other = status
  carries : ∀ status applicantId, .resolved status applicantId ∈ outcomes log →
    applicantId = present (lastApplicantId (beforeOutcome log))
  rejects_iff : ∀ outcome ∈ outcomes log, (∃ cause, outcome = .rejected cause) ↔
    (∃ code message, .error code message ∈ lastEvents log) ∨ (∃ thrown, .threw thrown ∈ log) ∨
      ∃ cause ∈ [launchInProgress, noAccessToken, sdkNotInstalled],
        log = [.settled (.rejected cause)]
  same_error : ∀ cause, .rejected cause ∈ outcomes log →
    (∀ code message, .error code message ∈ lastEvents log → cause = ⟨code, message⟩) ∧
      ∀ thrown, .threw thrown ∈ log → cause = toSourceError thrown sumsubLaunchFailed

/-- What happens apart from the end: the host is told of statuses and applicants. -/
def Chatter (log : List Note) : Prop :=
  ∀ n ∈ log, ∃ event, n = .emitted event ∧ event.isLast = false

/-- The ways a launch can go, up to where it is. -/
inductive Chronicle : Phase → List Note → Prop
  | refused {cause : SourceError}
      (h : cause ∈ [launchInProgress, noAccessToken, sdkNotInstalled]) :
      Chronicle .refused [.settled (.rejected cause)]
  | running {early : List Note} (h : Chatter early) : Chronicle .running early
  | threw {early late : List Note} (h : Chatter early) (thrown : ThrownValue) (h' : Chatter late) :
      Chronicle .settled (early ++ .threw thrown ::
        .settled (.rejected (toSourceError thrown sumsubLaunchFailed)) :: late)
  | finishing {early mid : List Note} (h : Chatter early) (result : SNSMobileSDKResult)
      (h' : Chatter mid) :
      Chronicle (.finishing (mapSumsubMobileResult result)) (early ++ .returned result ::
        .emitted (NativeLaunch.lastEvent (lastApplicantId early) (mapSumsubMobileResult result)) ::
        mid)
  | settled {early mid late : List Note} (h : Chatter early) (result : SNSMobileSDKResult)
      (h' : Chatter mid) (h'' : Chatter late) :
      Chronicle .settled (early ++ .returned result ::
        .emitted (NativeLaunch.lastEvent (lastApplicantId early) (mapSumsubMobileResult result)) ::
        (mid ++ .settled (NativeLaunch.outcome (lastApplicantId (early ++ mid))
          (mapSumsubMobileResult result)) :: late))

/-- The launch goes one of these ways, and remembers the last applicant id. -/
structure NativeLaunch.Sound (l : NativeLaunch) : Prop where
  chronicle : Chronicle l.phase l.log
  applicantId : l.applicantId = lastApplicantId l.log

end Logs

section Chatter

variable {log : List Note} {event : LaunchEvent}

theorem Chatter.nil : Chatter [] := by
  intro n hn
  cases hn

theorem Chatter.concat (h : Chatter log) (hevent : event.isLast = false) :
    Chatter (log ++ [.emitted event]) := by
  intro n hn
  rcases List.mem_append.mp hn with hn | hn
  · exact h n hn
  · exact ⟨event, List.mem_singleton.mp hn, hevent⟩

theorem lastApplicantId_append (a b : List Note) :
    lastApplicantId (a ++ b) = (lastApplicantId b).or (lastApplicantId a) := by
  rw [lastApplicantId, List.filterMap_append, List.getLast?_append]
  rfl

theorem lastApplicantId_concat (n : Note) (a : List Note) :
    lastApplicantId (a ++ [n]) = n.applicantId?.or (lastApplicantId a) := by
  rw [lastApplicantId_append]
  cases h : n.applicantId? <;> simp [lastApplicantId, h]

theorem lastApplicantId_cons {n : Note} (hn : n.applicantId? = none) (a : List Note) :
    lastApplicantId (n :: a) = lastApplicantId a := by
  rw [lastApplicantId, List.filterMap_cons_none hn, ← lastApplicantId]

theorem lastEvent_applicantId? (applicantId : Option Text)
    (answer : VerificationStatus ⊕ SourceError) :
    (Note.emitted (NativeLaunch.lastEvent applicantId answer)).applicantId? = none := by
  rcases answer with status | cause
  · rw [NativeLaunch.lastEvent]
    split_ifs <;> rfl
  · rfl

theorem lastApplicantId_returned (early mid : List Note) (result : SNSMobileSDKResult)
    (applicantId : Option Text) (answer : VerificationStatus ⊕ SourceError) :
    lastApplicantId (early ++ .returned result ::
      .emitted (NativeLaunch.lastEvent applicantId answer) :: mid) =
        lastApplicantId (early ++ mid) := by
  have last := lastEvent_applicantId? applicantId answer
  rw [lastApplicantId_append, lastApplicantId_cons rfl, lastApplicantId_cons last,
    lastApplicantId_append]

theorem Chronicle.emit {phase : Phase} (h : Chronicle phase log) (hphase : phase ≠ .refused)
    (hevent : event.isLast = false) : Chronicle phase (log ++ [.emitted event]) := by
  cases h with
  | refused => exact absurd rfl hphase
  | running h => exact .running (h.concat hevent)
  | threw h thrown h' =>
    rw [List.append_assoc]
    exact .threw h thrown (h'.concat hevent)
  | finishing h result h' =>
    rw [List.append_assoc]
    exact .finishing h result (h'.concat hevent)
  | settled h result h' h'' =>
    rw [List.append_assoc, List.cons_append, List.cons_append, List.append_assoc]
    exact .settled h result h' (h''.concat hevent)

end Chatter

namespace NativeLaunch

variable {l : NativeLaunch}

theorem Sound.onStatusChanged (h : l.Sound) (hphase : l.phase ≠ .refused) (newStatus : Text) :
    (l.onStatusChanged newStatus).Sound := by
  rw [NativeLaunch.onStatusChanged]
  split
  · exact h
  · refine ⟨h.chronicle.emit hphase rfl, h.applicantId.trans ?_⟩
    exact (lastApplicantId_concat (.emitted (.statusChanged _)) l.log).symm

theorem Sound.onEvent (h : l.Sound) (hphase : l.phase ≠ .refused) (eventType : Text)
    (payload : Option (Value ν)) : (l.onEvent eventType payload).Sound := by
  rw [NativeLaunch.onEvent]
  split_ifs
  · split
    · refine ⟨h.chronicle.emit hphase rfl, ?_⟩
      exact (lastApplicantId_concat (.emitted (.applicantLoaded _)) l.log).symm
    · exact h
  · exact h

section Steps

variable {applicantId : Option Text} {log : List Note}

theorem Sound.throws (h : Sound ⟨.running, applicantId, log⟩) (thrown : ThrownValue) :
    ((note ⟨.running, applicantId, log⟩ (.threw thrown)).settle
      (.rejected (toSourceError thrown sumsubLaunchFailed))).Sound := by
  have happlicant : applicantId = lastApplicantId log := h.applicantId
  have chronicle : Chronicle .running log := h.chronicle
  cases chronicle with
  | running quiet =>
    constructor
    · have way := Chronicle.threw quiet thrown Chatter.nil
      simpa [note, settle] using way
    · simp only [note, settle, lastApplicantId_concat]
      exact happlicant

theorem Sound.onReturned (h : Sound ⟨.running, applicantId, log⟩) (result : SNSMobileSDKResult) :
    (NativeLaunch.onReturned ⟨.running, applicantId, log⟩ result).Sound := by
  obtain rfl : applicantId = lastApplicantId log := h.applicantId
  have chronicle : Chronicle .running log := h.chronicle
  cases chronicle with
  | running quiet =>
    constructor
    · have way := Chronicle.finishing quiet result Chatter.nil
      simpa [NativeLaunch.onReturned, note, emit] using way
    · have last := lastEvent_applicantId? (lastApplicantId log) (mapSumsubMobileResult result)
      simp only [NativeLaunch.onReturned, emit, note, lastApplicantId_concat, last]
      rfl

theorem Sound.proceeds {answer : VerificationStatus ⊕ SourceError}
    (h : Sound ⟨.finishing answer, applicantId, log⟩) :
    (settle ⟨.finishing answer, applicantId, log⟩ (outcome applicantId answer)).Sound := by
  have happlicant : applicantId = lastApplicantId log := h.applicantId
  have chronicle : Chronicle (.finishing answer) log := h.chronicle
  constructor
  · cases chronicle with
    | @finishing early mid quiet result quiet' =>
      have known : applicantId = lastApplicantId (early ++ mid) :=
        happlicant.trans (lastApplicantId_returned early mid result _ _)
      have way := Chronicle.settled quiet result quiet' Chatter.nil
      rw [← known] at way
      simpa [settle, note] using way
  · exact happlicant.trans (lastApplicantId_concat (.settled _) log).symm

end Steps

/-- Every act of the SDK keeps a launch on its way. -/
theorem Sound.react (h : l.Sound) (act : SdkAct ν) : (l.react act).Sound := by
  obtain ⟨phase, applicantId, log⟩ := l
  cases phase with
  | refused => exact h
  | running =>
    cases act with
    | statusChanged newStatus => exact h.onStatusChanged (by simp) newStatus
    | event eventType payload => exact h.onEvent (by simp) eventType payload
    | throws thrown => exact h.throws thrown
    | returns result => exact h.onReturned result
    | proceeds => exact h
  | finishing answer =>
    cases act with
    | statusChanged newStatus => exact h.onStatusChanged (by simp) newStatus
    | event eventType payload => exact h.onEvent (by simp) eventType payload
    | proceeds => exact h.proceeds
    | throws | returns => exact h
  | settled =>
    cases act with
    | statusChanged newStatus => exact h.onStatusChanged (by simp) newStatus
    | event eventType payload => exact h.onEvent (by simp) eventType payload
    | throws | returns | proceeds => exact h

theorem not_isActive_react (l : NativeLaunch) (act : SdkAct ν) (h : l.isActive = false) :
    (l.react act).isActive = false := by
  have told (newStatus : Text) : (l.onStatusChanged newStatus).phase = l.phase := by
    rw [NativeLaunch.onStatusChanged]
    split <;> rfl
  have heard (eventType : Text) (payload : Option (Value ν)) :
      (l.onEvent eventType payload).phase = l.phase := by
    rw [NativeLaunch.onEvent]
    split_ifs
    · split <;> rfl
    · rfl
  cases hphase : l.phase with
  | running | finishing => simp [isActive, hphase] at h
  | refused => simpa [NativeLaunch.react, hphase] using h
  | settled =>
    cases act with
    | statusChanged newStatus => simp [NativeLaunch.react, isActive, hphase, told]
    | event eventType payload => simp [NativeLaunch.react, isActive, hphase, heard]
    | throws | returns | proceeds => simpa [NativeLaunch.react, hphase] using h

theorem sound_refuse {cause : SourceError}
    (h : cause ∈ [launchInProgress, noAccessToken, sdkNotInstalled]) : (refuse cause).Sound :=
  ⟨.refused h, rfl⟩

theorem sound_running : Sound ⟨.running, none, []⟩ := ⟨.running Chatter.nil, rfl⟩

end NativeLaunch

/-! ## The contract of a launch -/

section Contract

variable {early mid late log : List Note} {phase : Phase}

theorem lastEvents_append (a b : List Note) :
    lastEvents (a ++ b) = lastEvents a ++ lastEvents b := List.filterMap_append

theorem outcomes_append (a b : List Note) : outcomes (a ++ b) = outcomes a ++ outcomes b :=
  List.filterMap_append

theorem lastEvents_cons (n : Note) (log : List Note) :
    lastEvents (n :: log) = n.lastEvent?.toList ++ lastEvents log := by
  cases h : n.lastEvent? <;> simp [lastEvents, h]

theorem outcomes_cons (n : Note) (log : List Note) :
    outcomes (n :: log) = n.outcome?.toList ++ outcomes log := by
  cases h : n.outcome? <;> simp [outcomes, h]

theorem Chatter.lastEvents (h : Chatter log) : lastEvents log = [] := by
  refine List.filterMap_eq_nil_iff.mpr fun n hn => ?_
  obtain ⟨event, rfl, hevent⟩ := h n hn
  simp [Note.lastEvent?, hevent]

theorem Chatter.outcomes (h : Chatter log) : outcomes log = [] := by
  refine List.filterMap_eq_nil_iff.mpr fun n hn => ?_
  obtain ⟨event, rfl, -⟩ := h n hn
  rfl

theorem Chatter.not_threw (h : Chatter log) (thrown : ThrownValue) : .threw thrown ∉ log := by
  intro hn
  obtain ⟨event, hevent, -⟩ := h _ hn
  cases hevent

theorem Chatter.beforeSdkEnds (h : Chatter early) {n : Note} (hn : n.endsSdk) :
    beforeSdkEnds (early ++ n :: late) = early := by
  have quiet : ∀ n ∈ early, (! n.endsSdk) = true := by
    intro n hn
    obtain ⟨event, rfl, -⟩ := h n hn
    rfl
  rw [Sumsub.beforeSdkEnds, List.takeWhile_append_of_pos quiet,
    List.takeWhile_cons_of_neg (by simp [hn]), List.append_nil]

theorem Chatter.beforeOutcome (h : Chatter early) :
    beforeOutcome (early ++ log) = early ++ beforeOutcome log := by
  refine List.takeWhile_append_of_pos fun n hn => ?_
  obtain ⟨event, rfl, -⟩ := h n hn
  rfl

theorem lastEvent_isLast (applicantId : Option Text) (answer : VerificationStatus ⊕ SourceError) :
    (NativeLaunch.lastEvent applicantId answer).isLast := by
  rcases answer with status | cause
  · rw [NativeLaunch.lastEvent]
    split_ifs <;> rfl
  · rfl

theorem present_message {result : SNSMobileSDKResult} {cause : SourceError}
    (h : mapSumsubMobileResult result = .inr cause) : present cause.message = cause.message := by
  rw [mapSumsubMobileResult] at h
  split at h
  · cases h
  · rw [← Sum.inr.inj h]
    exact present_present _

theorem honours_of_refused {cause : SourceError}
    (h : cause ∈ [launchInProgress, noAccessToken, sdkNotInstalled]) :
    HonoursContract [.settled (.rejected cause)] where
  one_last_event := Nat.zero_le _
  none_early := rfl
  one_outcome := Nat.le_refl _
  completes := by simp [lastEvents, Note.lastEvent?]
  resolves_iff := by simp [lastEvents, outcomes, Note.lastEvent?, Note.outcome?]
  same_status := by simp [outcomes, Note.outcome?]
  carries := by simp [outcomes, Note.outcome?]
  rejects_iff outcome houtcome :=
    iff_of_true ⟨cause, List.mem_singleton.mp houtcome⟩ (Or.inr (Or.inr ⟨cause, h, rfl⟩))
  same_error := by simp [lastEvents, Note.lastEvent?]

theorem honours_of_chatter (h : Chatter log) : HonoursContract log := by
  have events := h.lastEvents
  have none := h.outcomes
  constructor
  case none_early =>
    exact List.filterMap_eq_nil_iff.mpr fun n hn =>
      List.filterMap_eq_nil_iff.mp events n (List.takeWhile_subset _ hn)
  all_goals simp [events, none]

theorem honours_of_threw (h : Chatter early) (thrown : ThrownValue) (h' : Chatter late) :
    HonoursContract (early ++ .threw thrown ::
      .settled (.rejected (toSourceError thrown sumsubLaunchFailed)) :: late) := by
  generalize hlog : early ++ Note.threw thrown ::
    .settled (.rejected (toSourceError thrown sumsubLaunchFailed)) :: late = log
  have events : lastEvents log = [] := by
    rw [← hlog, lastEvents_append, lastEvents_cons, lastEvents_cons, h.lastEvents, h'.lastEvents]
    rfl
  have settlements : outcomes log = [.rejected (toSourceError thrown sumsubLaunchFailed)] := by
    rw [← hlog, outcomes_append, outcomes_cons, outcomes_cons, h.outcomes, h'.outcomes]
    rfl
  have only : ∀ other, .threw other ∈ log → other = thrown := by
    intro other hother
    simpa [← hlog, h.not_threw, h'.not_threw] using hother
  have threw : .threw thrown ∈ log := by simp [← hlog]
  constructor
  case none_early => rw [← hlog, h.beforeSdkEnds rfl, h.lastEvents]
  case rejects_iff =>
    intro outcome houtcome
    rw [settlements] at houtcome
    exact iff_of_true ⟨_, List.mem_singleton.mp houtcome⟩ (Or.inr (Or.inl ⟨thrown, threw⟩))
  case same_error =>
    intro cause hcause
    rw [settlements] at hcause
    refine ⟨by simp [events], fun other hother => ?_⟩
    rw [only other hother]
    simpa using hcause
  all_goals simp [events, settlements]

theorem honours_of_event (event : LaunchEvent) (events : lastEvents log = [event])
    (settlements : outcomes log = []) (early : lastEvents (beforeSdkEnds log) = [])
    (completes : ∀ status applicantId, event = .complete status applicantId →
      status ∉ cancelledStatuses) : HonoursContract log := by
  constructor
  case none_early => exact early
  case completes =>
    intro status applicantId hevent
    rw [events] at hevent
    exact completes status applicantId (List.mem_singleton.mp hevent).symm
  all_goals simp [events, settlements]

theorem lastEvent_completes {applicantId id : Option Text}
    {answer : VerificationStatus ⊕ SourceError} {status : VerificationStatus}
    (h : NativeLaunch.lastEvent applicantId answer = .complete status id) :
    answer = .inl status ∧ status ∉ cancelledStatuses := by
  rcases answer with other | cause
  · rw [NativeLaunch.lastEvent] at h
    split_ifs at h with cancelled
    obtain ⟨rfl, -⟩ := LaunchEvent.complete.inj h
    exact ⟨rfl, cancelled⟩
  · cases h

theorem lastEvent?_lastEvent (applicantId : Option Text)
    (answer : VerificationStatus ⊕ SourceError) :
    (Note.emitted (NativeLaunch.lastEvent applicantId answer)).lastEvent? =
      some (NativeLaunch.lastEvent applicantId answer) :=
  if_pos (lastEvent_isLast applicantId answer)

theorem honours_of_finishing (h : Chatter early) (result : SNSMobileSDKResult) (h' : Chatter mid) :
    HonoursContract (early ++ .returned result ::
      .emitted (NativeLaunch.lastEvent (lastApplicantId early) (mapSumsubMobileResult result)) ::
      mid) := by
  refine honours_of_event
    (NativeLaunch.lastEvent (lastApplicantId early) (mapSumsubMobileResult result))
    ?_ ?_ ?_ fun status applicantId hevent => (lastEvent_completes hevent).2
  · rw [lastEvents_append, lastEvents_cons, lastEvents_cons, h.lastEvents, h'.lastEvents,
      lastEvent?_lastEvent]
    rfl
  · rw [outcomes_append, outcomes_cons, outcomes_cons, h.outcomes, h'.outcomes]
    rfl
  · rw [h.beforeSdkEnds rfl, h.lastEvents]

/-- A launch that has completed or was cancelled. -/
theorem honours_of_resolved {status : VerificationStatus} {applicantId carried : Option Text}
    (events : lastEvents log = [NativeLaunch.lastEvent applicantId (.inl status)])
    (settlements : outcomes log = [.resolved status carried])
    (none_early : lastEvents (beforeSdkEnds log) = [])
    (known : carried = present (lastApplicantId (beforeOutcome log)))
    (not_threw : ∀ thrown, .threw thrown ∉ log)
    (not_refused : ∀ cause, log ≠ [.settled (.rejected cause)]) : HonoursContract log := by
  have complete (other : VerificationStatus) (id : Option Text)
      (h : .complete other id ∈ lastEvents log) : other = status ∧ other ∉ cancelledStatuses := by
    rw [events] at h
    obtain ⟨hstatus, apart⟩ := lastEvent_completes (List.mem_singleton.mp h).symm
    exact ⟨(Sum.inl.inj hstatus).symm, apart⟩
  have cancel : .cancel ∈ lastEvents log → status ∈ cancelledStatuses := by
    rw [events, NativeLaunch.lastEvent]
    split_ifs with cancelled <;> simp [cancelled]
  have no_error (code : Text) (message : Option Text) : .error code message ∉ lastEvents log := by
    rw [events, NativeLaunch.lastEvent]
    split_ifs <;> simp
  constructor
  case one_last_event => simp [events]
  case none_early => exact none_early
  case one_outcome => simp [settlements]
  case completes => exact fun other id h => (complete other id h).2
  case resolves_iff =>
    intro outcome houtcome
    rw [settlements] at houtcome
    refine iff_of_true ⟨_, _, List.mem_singleton.mp houtcome⟩ ?_
    rw [events, NativeLaunch.lastEvent]
    split_ifs
    · exact Or.inl List.mem_cons_self
    · exact Or.inr ⟨_, _, List.mem_cons_self⟩
  case same_status =>
    intro other id houtcome
    rw [settlements] at houtcome
    obtain ⟨rfl, -⟩ := Outcome.resolved.inj (List.mem_singleton.mp houtcome)
    exact ⟨cancel, fun other id h => (complete other id h).1⟩
  case carries =>
    intro other id houtcome
    rw [settlements] at houtcome
    obtain ⟨-, rfl⟩ := Outcome.resolved.inj (List.mem_singleton.mp houtcome)
    exact known
  case rejects_iff =>
    intro outcome houtcome
    rw [settlements] at houtcome
    obtain rfl := List.mem_singleton.mp houtcome
    refine iff_of_false (by simp) ?_
    rintro (⟨code, message, h⟩ | ⟨thrown, h⟩ | ⟨cause, -, h⟩)
    · exact no_error code message h
    · exact not_threw thrown h
    · exact not_refused cause h
  case same_error => simp [settlements]

/-- A launch that has failed. -/
theorem honours_of_rejected {cause : SourceError} {applicantId : Option Text}
    (events : lastEvents log = [NativeLaunch.lastEvent applicantId (.inr cause)])
    (settlements : outcomes log = [.rejected (sourceError cause.code cause.message)])
    (none_early : lastEvents (beforeSdkEnds log) = [])
    (message : present cause.message = cause.message)
    (not_threw : ∀ thrown, .threw thrown ∉ log) : HonoursContract log := by
  rw [NativeLaunch.lastEvent] at events
  constructor
  case one_last_event => simp [events]
  case none_early => exact none_early
  case one_outcome => simp [settlements]
  case rejects_iff =>
    intro outcome houtcome
    rw [settlements] at houtcome
    refine iff_of_true ⟨_, List.mem_singleton.mp houtcome⟩ (Or.inl ⟨cause.code, cause.message, ?_⟩)
    rw [events]
    exact List.mem_cons_self
  case same_error =>
    intro other houtcome
    rw [settlements] at houtcome
    obtain rfl := Outcome.rejected.inj (List.mem_singleton.mp houtcome)
    refine ⟨fun code text h => ?_, fun thrown h => absurd h (not_threw thrown)⟩
    rw [events] at h
    obtain ⟨rfl, rfl⟩ := LaunchEvent.error.inj (List.mem_singleton.mp h)
    rw [sourceError, message]
  all_goals simp [events, settlements]

theorem honours_of_settled (h : Chatter early) (result : SNSMobileSDKResult) (h' : Chatter mid)
    (h'' : Chatter late) :
    HonoursContract (early ++ .returned result ::
      .emitted (NativeLaunch.lastEvent (lastApplicantId early) (mapSumsubMobileResult result)) ::
      (mid ++ .settled (NativeLaunch.outcome (lastApplicantId (early ++ mid))
        (mapSumsubMobileResult result)) :: late)) := by
  generalize hlog : early ++ Note.returned result ::
    .emitted (NativeLaunch.lastEvent (lastApplicantId early) (mapSumsubMobileResult result)) ::
    (mid ++ .settled (NativeLaunch.outcome (lastApplicantId (early ++ mid))
      (mapSumsubMobileResult result)) :: late) = log
  have events : lastEvents log =
      [NativeLaunch.lastEvent (lastApplicantId early) (mapSumsubMobileResult result)] := by
    rw [← hlog, lastEvents_append, lastEvents_cons, lastEvents_cons, lastEvents_append,
      lastEvents_cons, h.lastEvents, h'.lastEvents, h''.lastEvents, lastEvent?_lastEvent]
    rfl
  have settlements : outcomes log =
      [NativeLaunch.outcome (lastApplicantId (early ++ mid)) (mapSumsubMobileResult result)] := by
    rw [← hlog, outcomes_append, outcomes_cons, outcomes_cons, outcomes_append, outcomes_cons,
      h.outcomes, h'.outcomes, h''.outcomes]
    rfl
  have none_early : lastEvents (beforeSdkEnds log) = [] := by
    rw [← hlog, h.beforeSdkEnds rfl, h.lastEvents]
  have not_threw : ∀ thrown, .threw thrown ∉ log := by
    intro thrown hthrown
    simp [← hlog, h.not_threw, h'.not_threw, h''.not_threw] at hthrown
  cases hanswer : mapSumsubMobileResult result with
  | inl status =>
    have before : lastApplicantId (beforeOutcome log) = lastApplicantId (early ++ mid) := by
      rw [← hlog, h.beforeOutcome, beforeOutcome, List.takeWhile_cons_of_pos rfl,
        List.takeWhile_cons_of_pos rfl, ← beforeOutcome, h'.beforeOutcome, beforeOutcome,
        List.takeWhile_cons_of_neg (by simp [Note.outcome?]), List.append_nil]
      exact lastApplicantId_returned early mid result _ _
    rw [hanswer] at events settlements
    refine honours_of_resolved events settlements none_early (congrArg present before.symm)
      not_threw ?_
    rintro cause rfl
    cases events
  | inr cause =>
    rw [hanswer] at events settlements
    exact honours_of_rejected events settlements none_early (present_message hanswer) not_threw

theorem Chronicle.honours (h : Chronicle phase log) : HonoursContract log := by
  cases h with
  | refused h => exact honours_of_refused h
  | running h => exact honours_of_chatter h
  | threw h thrown h' => exact honours_of_threw h thrown h'
  | finishing h result h' => exact honours_of_finishing h result h'
  | settled h result h' h'' => exact honours_of_settled h result h' h''

end Contract

/-! ## The contract of a source -/

namespace NativeSource

/-- One launch is under way if the flag says so, or else none. -/
structure Sound (s : NativeSource) : Prop where
  launches : ∀ l ∈ s.launches, l.Sound
  active : s.launches.countP NativeLaunch.isActive = if s.launching then 1 else 0

/-- What a source owes to whoever launches it: every launch is honoured, a launch while another one
is under way is refused and leaves that alone, and any other one is let through. -/
structure HonoursContract (ν : Type) (s : NativeSource) : Prop where
  launches : ∀ l ∈ s.launches, Sumsub.HonoursContract l.log
  one_active : s.launches.countP NativeLaunch.isActive ≤ 1
  refuses : (∃ l ∈ s.launches, l.isActive) → ∀ accessToken installed,
    s.react (.launch accessToken installed : NativeInput ν) =
      { s with launches := s.launches ++ [.refuse launchInProgress] }
  accepts : (∀ l ∈ s.launches, ¬ l.isActive) → ∀ accessToken : Text, accessToken ≠ [] →
    s.react (.launch (some accessToken) true : NativeInput ν) =
      ⟨true, s.launches ++ [⟨.running, none, []⟩]⟩

theorem sound_fresh : fresh.Sound where
  launches := by simp [fresh]
  active := rfl

variable {s : NativeSource}

theorem Sound.launches_concat (h : s.Sound) {l : NativeLaunch} (hl : l.Sound) :
    ∀ other ∈ s.launches ++ [l], other.Sound := by
  intro other hother
  rcases List.mem_append.mp hother with hother | hother
  · exact h.launches other hother
  · rwa [List.mem_singleton.mp hother]

theorem Sound.refuse (h : s.Sound) {cause : SourceError}
    (hcause : cause ∈ [launchInProgress, noAccessToken, sdkNotInstalled]) :
    Sound { s with launches := s.launches ++ [.refuse cause] } := by
  constructor
  case launches => exact h.launches_concat (NativeLaunch.sound_refuse hcause)
  case active =>
    rw [List.countP_append, h.active]
    rfl

theorem Sound.begin (h : s.Sound) (idle : s.launching = false) :
    Sound ⟨true, s.launches ++ [⟨.running, none, []⟩]⟩ := by
  constructor
  case launches => exact h.launches_concat NativeLaunch.sound_running
  case active =>
    rw [List.countP_append, h.active, idle]
    rfl

theorem Sound.sdk (h : s.Sound) (i : ℕ) (act : SdkAct ν) : (s.react (.sdk i act)).Sound := by
  rw [NativeSource.react]
  cases hi : s.launches[i]? with
  | none => exact h
  | some l =>
    obtain ⟨hlt, rfl⟩ := List.getElem?_eq_some_iff.mp hi
    have rest := NativeLaunch.not_isActive_react (s.launches[i]) act
    have active := h.active
    constructor
    case launches =>
      intro l hl
      rcases List.mem_or_eq_of_mem_set hl with hl | rfl
      · exact h.launches l hl
      · exact (h.launches _ (List.getElem_mem hlt)).react act
    case active =>
      have at_least : s.launches[i].isActive → 0 < s.launches.countP NativeLaunch.isActive :=
        fun hactive => List.countP_pos_iff.mpr ⟨_, List.getElem_mem hlt, hactive⟩
      rw [List.countP_set hlt]
      cases before : s.launches[i].isActive with
      | false =>
        simpa [before, rest before] using active
      | true =>
        have busy : s.launching := by
          by_contra idle
          rw [active, if_neg idle] at at_least
          exact absurd (at_least before) (by decide)
        rw [if_pos busy] at active
        cases after : (s.launches[i].react act).isActive <;> simp [active, busy, before, after]

theorem Sound.react (h : s.Sound) (input : NativeInput ν) : (s.react input).Sound := by
  cases input with
  | launch accessToken installed =>
    rw [NativeSource.react]
    split_ifs with busy tokenless available
    · exact h.refuse (by simp)
    · exact h.refuse (by simp)
    · exact h.begin (by simpa using busy)
    · exact h.refuse (by simp)
  | sdk i act => exact h.sdk i act

theorem Sound.honours (h : s.Sound) : s.HonoursContract ν := by
  have active := h.active
  constructor
  case launches => exact fun l hl => (h.launches l hl).chronicle.honours
  case one_active =>
    rw [active]
    split_ifs <;> omega
  case refuses =>
    intro busy accessToken installed
    have pos := List.countP_pos_iff.mpr busy
    have launching : s.launching := by
      by_contra idle
      rw [active, if_neg idle] at pos
      omega
    rw [NativeSource.react, if_pos launching]
  case accepts =>
    intro idle accessToken hpresent
    have launching : ¬ s.launching := by
      intro busy
      rw [List.countP_eq_zero.mpr idle, if_pos busy] at active
      omega
    have token : present (some accessToken) ≠ none := by simp [present, hpresent]
    rw [NativeSource.react, if_neg launching, if_neg token, if_pos rfl]

end NativeSource

def emptyIdLaunch : List (NativeInput ℕ) :=
  [.launch (some (lit "tok-1")) true,
    .sdk 0 (.event (lit "ApplicantLoaded") (some (.object [(lit "applicantId", .string [])]))),
    .sdk 0 (.returns ⟨true, .approved, none, none⟩), .sdk 0 .proceeds]

end Kyc.Sumsub
