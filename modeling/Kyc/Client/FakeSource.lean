import Kyc.Client.Machine
import Kyc.Programs.Reactions
import Mathlib.Algebra.Order.Ring.Unbundled.Rat
import Mathlib.Data.List.Nodup

/-! # The fake source

A source without an SDK, for demonstrations: a launch ends by a script, at once or on a timer,
or by the host's own buttons. It calls its host back in the middle of its code, and the host
may call it again before it returns, and may throw. A timer does not know its launch, and a
host that throws at the start of a launch leaves it open.
-/

namespace Kyc.Client

inductive FakeOutcome
  | approved
  | declined
  | cancel
  | error
  | manual
  deriving DecidableEq, Repr

structure FakeLaunchableSourceOptions where
  outcome : Option FakeOutcome := none
  delayMs : Option ℚ := none
  applicantId : Option String := none

def FakeLaunchableSourceOptions.script (o : FakeLaunchableSourceOptions) : FakeOutcome :=
  o.outcome.getD .approved

def FakeLaunchableSourceOptions.delay (o : FakeLaunchableSourceOptions) : ℚ := o.delayMs.getD 0

def FakeLaunchableSourceOptions.applicant (o : FakeLaunchableSourceOptions) : String :=
  o.applicantId.getD "fake-applicant"

/-- What makes a launch end: the controller, which may find it running or not, or a script, which a
launch has run itself or on a timer. -/
inductive Trigger
  | controller (running : Bool)
  | script (owner : ℕ) (timer : Bool)
  deriving DecidableEq, Repr

/-- How a launch ends; completion takes two events. -/
inductive Ending
  | finish (status : VerificationStatus) (completed : Bool)
  | cancel
  | fail (code : String) (message : Option String)
  deriving DecidableEq, Repr

/-- Code that has called the host back: a launch that tells of its two first events, or the end of
a launch whose promise it has taken. -/
inductive Frame
  | opening (launch : ℕ) (submitted : Bool)
  | closing (launch : ℕ) (ending : Ending) (trigger : Trigger)
  deriving DecidableEq, Repr

/-- What settles a promise: the end of its launch, or an error thrown while it was made. -/
inductive Cause
  | trigger (trigger : Trigger)
  | threw
  deriving DecidableEq, Repr

structure Settlement where
  launch : ℕ
  cause : Cause
  answer : Except VerificationSourceError IdentityVerificationResult

/-- The launch whose promise is kept, the one that events go to, how many were accepted, the code
that has called the host back, innermost first, and the launches that timers are set for. -/
structure FakeSource where
  pending : Option ℕ
  emit : ℕ
  accepted : ℕ
  stack : List Frame
  timers : List ℕ
  settlements : List Settlement
  events : List (ℕ × VerificationEvent)
  refusals : List VerificationSourceError

inductive Control
  | approve
  | decline
  | cancel
  | fail (code : String) (message : Option String)

/-- What the host does, at the top or in a callback, and the timer that a launch has set. -/
inductive FakeInput
  | launch
  | control (control : Control)
  | returns
  | throws (thrown : VerificationSourceError)
  | timer (owner : ℕ)

/-- The first event of an ending. -/
def Ending.firstEvent : Ending → VerificationEvent
  | finish status _ => .statusChanged status
  | cancel => .cancel
  | fail code message => .error code message

namespace FakeSource

def fresh : FakeSource := ⟨none, 0, 0, [], [], [], [], []⟩

variable (o : FakeLaunchableSourceOptions) (s : FakeSource)

/-- `emit(event)`, up to what the host does in it. -/
def emitEvent (event : VerificationEvent) : FakeSource :=
  { s with events := s.events ++ [(s.emit, event)] }

def settle (launch : ℕ) (cause : Cause)
    (answer : Except VerificationSourceError IdentityVerificationResult) : FakeSource :=
  if launch ∈ s.settlements.map Settlement.launch then s
  else { s with settlements := s.settlements ++ [⟨launch, cause, answer⟩] }

/-- Take the promise, if there is one, and begin to end its launch. -/
def close (ending : Ending) (trigger : Trigger) : FakeSource :=
  match s.pending with
  | none => s
  | some k =>
    emitEvent { s with pending := none, stack := .closing k ending trigger :: s.stack }
      ending.firstEvent

def finish (status : VerificationStatus) (trigger : Trigger) : FakeSource :=
  s.close (.finish status false) trigger

def cancel (trigger : Trigger) : FakeSource := s.close .cancel trigger

def fail (code : String) (message : Option String) (trigger : Trigger) : FakeSource :=
  s.close (.fail code message) trigger

def runScript (trigger : Trigger) : FakeSource :=
  match o.script with
  | .approved => s.finish .approved trigger
  | .declined => s.finish .declined trigger
  | .cancel => s.cancel trigger
  | .error => s.fail ClientErrorCode.sdkUnavailable.name (some "scripted fake failure") trigger
  | .manual => s

def isRunning : Bool := s.pending.any fun k => k ∉ s.settlements.map Settlement.launch

def controller (control : Control) : FakeSource :=
  let trigger := .controller s.isRunning
  match control with
  | .approve => s.finish .approved trigger
  | .decline => s.finish .declined trigger
  | .cancel => s.cancel trigger
  | .fail code message => s.fail code message trigger

def launch : FakeSource :=
  match s.pending with
  | some _ =>
    let refusal := ⟨some ClientErrorCode.sdkUnavailable.name, some "launch already in progress"⟩
    { s with refusals := s.refusals ++ [refusal] }
  | none =>
    emitEvent
      { s with
        emit := s.accepted
        pending := some s.accepted
        accepted := s.accepted + 1
        stack := .opening s.accepted false :: s.stack }
      (.applicantLoaded o.applicant)

def answer : Ending → Except VerificationSourceError IdentityVerificationResult
  | .finish status _ => .ok ⟨status, some o.applicant⟩
  | .cancel => .ok ⟨.incomplete, some o.applicant⟩
  | .fail code message => .error ⟨some code, message⟩

/-- The host returns from the innermost callback. -/
def returns : FakeSource :=
  match s.stack with
  | [] => s
  | .opening k false :: rest => emitEvent { s with stack := .opening k true :: rest } .submitted
  | .opening k true :: rest =>
    if 0 < o.delay then { s with stack := rest, timers := k :: s.timers }
    else runScript o { s with stack := rest } (.script k false)
  | .closing k (.finish status false) trigger :: rest =>
    emitEvent { s with stack := .closing k (.finish status true) trigger :: rest }
      (.complete status (some o.applicant))
  | .closing k ending trigger :: rest =>
    settle { s with stack := rest } k (.trigger trigger) (answer o ending)

/-- The host throws out of the innermost callback. What is thrown while a promise is made rejects
it; it goes to whoever has called the controller, and is lost in a timer. -/
def throws (thrown : VerificationSourceError) : FakeSource :=
  match s.stack with
  | [] => s
  | .opening k _ :: rest => settle { s with stack := rest } k .threw (.error thrown)
  | .closing _ _ (.script owner false) :: rest =>
    settle { s with stack := rest } owner .threw (.error thrown)
  | .closing _ _ _ :: rest => { s with stack := rest }

def timer (owner : ℕ) : FakeSource :=
  if s.stack = [] ∧ owner ∈ s.timers then
    runScript o { s with timers := s.timers.erase owner } (.script owner true)
  else s

def react : FakeInput → FakeSource
  | .launch => s.launch o
  | .control control => s.controller control
  | .returns => s.returns o
  | .throws thrown => s.throws thrown
  | .timer owner => s.timer o owner

end FakeSource

/-! ## A launch settles only itself -/

/-- The trigger of a launch: its own script, or the controller while it is running. -/
def Trigger.IsOf (k : ℕ) : Trigger → Prop
  | controller running => running
  | script owner _ => owner = k

instance (k : ℕ) (trigger : Trigger) : Decidable (trigger.IsOf k) := by
  cases trigger <;> unfold Trigger.IsOf <;> infer_instance

def Cause.IsOf (k : ℕ) : Cause → Prop
  | trigger t => t.IsOf k
  | threw => True

instance (k : ℕ) (cause : Cause) : Decidable (cause.IsOf k) := by
  cases cause <;> unfold Cause.IsOf <;> infer_instance

/-- Launches settle once and by a trigger of their own, and after the last one has settled the next
one is accepted. -/
structure SettlesOnlyItself (o : FakeLaunchableSourceOptions) (s : FakeSource) : Prop where
  once : (s.settlements.map Settlement.launch).Nodup
  own : ∀ x ∈ s.settlements, x.launch < s.accepted ∧ x.cause.IsOf x.launch
  accepts : ∀ x ∈ s.settlements, x.launch + 1 = s.accepted →
    (s.launch o).accepted = s.accepted + 1

/-- A timer with a script does not fire while the launch of another one has its promise kept, and
nothing is thrown out of the first two events of a launch that has. -/
def Uncrossed (o : FakeLaunchableSourceOptions) (s : FakeSource) : FakeInput → Prop
  | .timer owner => s.stack = [] → owner ∈ s.timers → o.script ≠ .manual →
    ∀ k ∈ s.pending, k = owner
  | .throws _ => ∀ k ∈ s.pending, ∀ submitted ∈ [true, false],
    s.stack.head? ≠ some (.opening k submitted)
  | _ => True

instance (o : FakeLaunchableSourceOptions) (s : FakeSource) (i : FakeInput) :
    Decidable (Uncrossed o s i) := by
  cases i <;> unfold Uncrossed <;> infer_instance

def Frame.opening? : Frame → Option ℕ
  | opening k _ => some k
  | closing _ _ _ => none

def Frame.launch : Frame → ℕ
  | opening k _ => k
  | closing k _ _ => k

namespace FakeSource

variable {o : FakeLaunchableSourceOptions} {s : FakeSource}

/-- Launches are numbered in the order in which they were accepted, and the promise that is kept is
the last one's, which has not settled. -/
structure Orderly (s : FakeSource) : Prop where
  frames : ∀ f ∈ s.stack, f.launch < s.accepted
  last : ∀ k, s.pending = some k → k + 1 = s.accepted
  openings : (s.stack.filterMap Frame.opening?).Pairwise (· > ·)
  taken : ∀ k ending trigger, .closing k ending trigger ∈ s.stack →
    s.pending ≠ some k ∧ trigger.IsOf k
  settled : ∀ x ∈ s.settlements,
    x.launch < s.accepted ∧ s.pending ≠ some x.launch ∧ x.cause.IsOf x.launch
  once : (s.settlements.map Settlement.launch).Nodup

/-- Without a timer the promise is kept no longer than the first two events take. -/
def Prompt (o : FakeLaunchableSourceOptions) (s : FakeSource) : Prop :=
  ¬ 0 < o.delay → o.script ≠ .manual → ∀ k, s.pending = some k →
    k ∈ s.stack.filterMap Frame.opening?

theorem orderly_fresh : fresh.Orderly where
  frames := by simp [fresh]
  last := by simp [fresh]
  openings := by simp [fresh]
  taken := by simp [fresh]
  settled := by simp [fresh]
  once := by simp [fresh]

theorem Orderly.pop (h : s.Orderly) {f : Frame} {rest : List Frame} (hs : s.stack = f :: rest) :
    Orderly { s with stack := rest } where
  frames g hg := h.frames g (hs ▸ List.mem_cons_of_mem f hg)
  last := h.last
  openings := by
    have ordered := h.openings
    rw [hs, List.filterMap_cons] at ordered
    split at ordered
    · exact ordered
    · exact ordered.of_cons
  taken k ending trigger hg := h.taken k ending trigger (hs ▸ List.mem_cons_of_mem f hg)
  settled := h.settled
  once := h.once

theorem Orderly.settle (h : s.Orderly) {k : ℕ} {cause : Cause} (hk : k < s.accepted)
    (hpending : s.pending ≠ some k) (hcause : cause.IsOf k)
    (answer : Except VerificationSourceError IdentityVerificationResult) :
    (s.settle k cause answer).Orderly := by
  rw [FakeSource.settle]
  split_ifs with again
  · exact h
  · refine { h with settled := ?_, once := ?_ }
    · intro x hx
      rcases List.mem_append.mp hx with hx | hx
      · exact h.settled x hx
      · rw [List.mem_singleton.mp hx]
        exact ⟨hk, hpending, hcause⟩
    · rw [List.map_append]
      exact List.Nodup.append h.once (List.nodup_singleton k) (by simpa using again)

theorem close_pending (ending : Ending) (trigger : Trigger) :
    (s.close ending trigger).pending = none := by
  rw [FakeSource.close]
  split
  · assumption
  · rfl

theorem runScript_pending (trigger : Trigger) (scripted : o.script ≠ .manual) :
    (s.runScript o trigger).pending = none := by
  rw [FakeSource.runScript]
  split
  case h_5 => contradiction
  all_goals exact close_pending _ _

theorem Orderly.close (h : s.Orderly) (ending : Ending) {trigger : Trigger}
    (htrigger : ∀ k, s.pending = some k → trigger.IsOf k) :
    (s.close ending trigger).Orderly := by
  rw [FakeSource.close]
  split
  case h_1 => exact h
  case h_2 k hp =>
    constructor
    case frames =>
      intro f hf
      rcases List.mem_cons.mp hf with rfl | hf
      · have last := h.last k hp
        exact last ▸ Nat.lt_succ_self k
      · exact h.frames f hf
    case last => simp [emitEvent]
    case openings => exact h.openings
    case taken =>
      intro m other trigger' hf
      refine ⟨by simp [emitEvent], ?_⟩
      rcases List.mem_cons.mp hf with heq | hf
      · obtain ⟨rfl, -, rfl⟩ := Frame.closing.inj heq
        exact htrigger m hp
      · exact (h.taken m other trigger' hf).2
    case settled =>
      intro x hx
      obtain ⟨accepted, -, cause⟩ := h.settled x hx
      exact ⟨accepted, by simp [emitEvent], cause⟩
    case once => exact h.once

theorem Orderly.runScript (h : s.Orderly) {owner : ℕ} (timer : Bool)
    (own : o.script ≠ .manual → ∀ k, s.pending = some k → k = owner) :
    (s.runScript o (.script owner timer)).Orderly := by
  have trigger (scripted : o.script ≠ .manual) :
      ∀ k, s.pending = some k → (Trigger.script owner timer).IsOf k :=
    fun k hk => (own scripted k hk).symm
  rw [FakeSource.runScript]
  split
  case h_5 => exact h
  all_goals
    rename_i hscript
    exact h.close _ (trigger (by simp [hscript]))

theorem Orderly.controller (h : s.Orderly) (control : Control) :
    (s.controller control).Orderly := by
  have running : ∀ k, s.pending = some k → (Trigger.controller s.isRunning).IsOf k := by
    intro k hk
    have unsettled : k ∉ s.settlements.map Settlement.launch := by
      intro hmem
      obtain ⟨x, hx, rfl⟩ := List.mem_map.mp hmem
      exact (h.settled x hx).2.1 hk
    have running : s.isRunning = decide (k ∉ s.settlements.map Settlement.launch) := by
      rw [isRunning, hk, Option.any_some]
    rw [Trigger.IsOf, running]
    exact decide_eq_true unsettled
  cases control <;> exact h.close _ running

theorem Orderly.launch (h : s.Orderly) : (s.launch o).Orderly := by
  rw [FakeSource.launch]
  split
  · exact ⟨h.frames, h.last, h.openings, h.taken, h.settled, h.once⟩
  · constructor
    case frames =>
      intro f hf
      rcases List.mem_cons.mp hf with rfl | hf
      · exact Nat.lt_succ_self _
      · exact (h.frames f hf).trans (Nat.lt_succ_self _)
    case last =>
      intro k hk
      rw [← Option.some.inj hk]
      rfl
    case openings =>
      refine List.pairwise_cons.mpr ⟨fun k hk => ?_, h.openings⟩
      obtain ⟨f, hf, hfk⟩ := List.mem_filterMap.mp hk
      cases f with
      | opening m submitted =>
        obtain rfl := Option.some.inj hfk
        exact h.frames _ hf
      | closing => cases hfk
    case taken =>
      intro k ending trigger hf
      have old := (List.mem_cons.mp hf).resolve_left (by simp)
      have less : k < s.accepted := h.frames _ old
      refine ⟨fun heq => ?_, (h.taken k ending trigger old).2⟩
      have last : s.accepted = k := Option.some.inj heq
      omega
    case settled =>
      intro x hx
      obtain ⟨less, -, cause⟩ := h.settled x hx
      refine ⟨Nat.lt_succ_of_lt less, fun heq => ?_, cause⟩
      have last : s.accepted = x.launch := Option.some.inj heq
      omega
    case once => exact h.once

/-- A launch that goes on to its next event. -/
theorem Orderly.goOn (h : s.Orderly) {f : Frame} {rest : List Frame} (hs : s.stack = f :: rest)
    (g : Frame) (hlaunch : g.launch = f.launch) (hopening : g.opening? = f.opening?)
    (htaken : ∀ k ending trigger, g = .closing k ending trigger →
      ∃ other, f = .closing k other trigger) (event : VerificationEvent) :
    Orderly (emitEvent { s with stack := g :: rest } event) where
  frames := by
    rintro f' hf
    rcases List.mem_cons.mp hf with rfl | hf
    · rw [hlaunch]
      exact h.frames f (hs ▸ List.mem_cons_self)
    · exact h.frames f' (hs ▸ List.mem_cons_of_mem f hf)
  last := h.last
  openings := by
    have same : (g :: rest).filterMap Frame.opening? = s.stack.filterMap Frame.opening? := by
      rw [hs, List.filterMap_cons, List.filterMap_cons, hopening]
    exact same ▸ h.openings
  taken := by
    rintro k ending trigger hf
    rcases List.mem_cons.mp hf with rfl | hf
    · obtain ⟨other, rfl⟩ := htaken k ending trigger rfl
      exact h.taken k other trigger (hs ▸ List.mem_cons_self)
    · exact h.taken k ending trigger (hs ▸ List.mem_cons_of_mem f hf)
  settled := h.settled
  once := h.once

theorem openings_of_opening {k : ℕ} {submitted : Bool} {rest : List Frame}
    (hs : s.stack = .opening k submitted :: rest) :
    s.stack.filterMap Frame.opening? = k :: rest.filterMap Frame.opening? := by
  rw [hs]
  rfl

theorem Orderly.eq_of_pending (h : s.Orderly) (hprompt : Prompt o s) {k : ℕ} {submitted : Bool}
    {rest : List Frame} (hs : s.stack = .opening k submitted :: rest) (delayed : ¬ 0 < o.delay)
    (scripted : o.script ≠ .manual) {m : ℕ} (hm : s.pending = some m) : m = k := by
  have opening := hprompt delayed scripted m hm
  have ordered := h.openings
  rw [openings_of_opening hs] at opening ordered
  rcases List.mem_cons.mp opening with rfl | older
  · rfl
  · have less : m < k := (List.pairwise_cons.mp ordered).1 m older
    have last := h.last m hm
    have accepted : k < s.accepted := h.frames (.opening k submitted) (hs ▸ List.mem_cons_self)
    omega

theorem Orderly.returns (h : s.Orderly) (hprompt : Prompt o s) : (s.returns o).Orderly := by
  rw [FakeSource.returns]
  split
  case h_1 => exact h
  case h_2 k rest hs => exact h.goOn hs (.opening k true) rfl rfl (by simp) _
  case h_3 k rest hs =>
    have popped := h.pop hs
    split_ifs with delayed
    · exact ⟨popped.frames, popped.last, popped.openings, popped.taken, popped.settled,
        popped.once⟩
    · exact popped.runScript false fun scripted m hm =>
        h.eq_of_pending hprompt hs delayed scripted hm
  case h_4 k status trigger rest hs =>
    refine h.goOn hs (.closing k (.finish status true) trigger) rfl rfl ?_ _
    rintro m ending trigger' heq
    obtain ⟨rfl, -, rfl⟩ := Frame.closing.inj heq
    exact ⟨_, rfl⟩
  case h_5 k ending trigger rest _ hs =>
    have member : .closing k ending trigger ∈ s.stack := hs ▸ List.mem_cons_self
    obtain ⟨apart, own⟩ := h.taken k ending trigger member
    have accepted : k < s.accepted := h.frames _ member
    have cause : (Cause.trigger trigger).IsOf k := own
    exact (h.pop hs).settle accepted apart cause _

theorem Orderly.throws (h : s.Orderly) (thrown : VerificationSourceError)
    (uncrossed : Uncrossed o s (.throws thrown)) : (s.throws thrown).Orderly := by
  rw [FakeSource.throws]
  split
  case h_1 => exact h
  case h_2 k submitted rest hs =>
    have accepted : k < s.accepted := h.frames (.opening k submitted) (hs ▸ List.mem_cons_self)
    have cause : Cause.threw.IsOf k := trivial
    refine (h.pop hs).settle accepted (fun hk => ?_) cause _
    exact uncrossed k hk submitted (by cases submitted <;> simp) (by rw [hs, List.head?_cons])
  case h_3 k ending owner rest hs =>
    have member : .closing k ending (.script owner false) ∈ s.stack := hs ▸ List.mem_cons_self
    obtain ⟨apart, rfl⟩ := h.taken k ending _ member
    have accepted : owner < s.accepted := h.frames _ member
    have cause : Cause.threw.IsOf owner := trivial
    exact (h.pop hs).settle accepted apart cause _
  case h_4 rest hs => exact h.pop hs

theorem Orderly.timer (h : s.Orderly) {owner : ℕ} (uncrossed : Uncrossed o s (.timer owner)) :
    (s.timer o owner).Orderly := by
  rw [FakeSource.timer]
  split_ifs with fires
  · have waited : Orderly { s with timers := s.timers.erase owner } :=
      ⟨h.frames, h.last, h.openings, h.taken, h.settled, h.once⟩
    exact waited.runScript true fun scripted k hk => uncrossed fires.1 fires.2 scripted k hk
  · exact h

theorem Orderly.react (h : s.Orderly) (hprompt : Prompt o s) {i : FakeInput}
    (uncrossed : Uncrossed o s i) : (s.react o i).Orderly := by
  cases i with
  | launch => exact h.launch
  | control control => exact h.controller control
  | returns => exact h.returns hprompt
  | throws thrown => exact h.throws thrown uncrossed
  | timer owner => exact h.timer uncrossed

theorem prompt_of_pending (h : s.pending = none) : Prompt o s := by
  intro _ _ k hk
  rw [h] at hk
  cases hk

theorem Prompt.of_eq (h : Prompt o s) {s' : FakeSource} (hpending : s'.pending = s.pending)
    (hopenings : s'.stack.filterMap Frame.opening? = s.stack.filterMap Frame.opening?) :
    Prompt o s' := by
  intro delayed scripted k hk
  rw [hopenings]
  exact h delayed scripted k (hpending ▸ hk)

theorem settle_stack (k : ℕ) (cause : Cause)
    (answer : Except VerificationSourceError IdentityVerificationResult) :
    (s.settle k cause answer).stack = s.stack ∧ (s.settle k cause answer).pending = s.pending := by
  rw [settle]
  split_ifs <;> exact ⟨rfl, rfl⟩

theorem Prompt.launch (h : Prompt o s) : Prompt o (s.launch o) := by
  rw [FakeSource.launch]
  split
  · exact h.of_eq rfl rfl
  · intro _ _ k hk
    obtain rfl : s.accepted = k := Option.some.inj hk
    exact List.mem_cons_self

theorem Prompt.close (ending : Ending) (trigger : Trigger) : Prompt o (s.close ending trigger) :=
  prompt_of_pending (close_pending ending trigger)

theorem Prompt.runScript (h : o.script = .manual → Prompt o s) (trigger : Trigger) :
    Prompt o (s.runScript o trigger) := by
  by_cases manual : o.script = .manual
  · have same : s.runScript o trigger = s := by rw [FakeSource.runScript, manual]
    rw [same]
    exact h manual
  · exact prompt_of_pending (runScript_pending trigger manual)

theorem Prompt.returns (h : Prompt o s) : Prompt o (s.returns o) := by
  rw [FakeSource.returns]
  split
  case h_1 => exact h
  case h_2 k rest hs => exact h.of_eq rfl (by rw [hs]; rfl)
  case h_3 k rest hs =>
    split_ifs with delayed
    · exact fun prompt => absurd delayed prompt
    · exact .runScript (fun manual _ scripted => absurd manual scripted) _
  case h_4 k status trigger rest hs => exact h.of_eq rfl (by rw [hs]; rfl)
  case h_5 k ending trigger rest _ hs =>
    obtain ⟨hstack, hpending⟩ := settle_stack (s := { s with stack := rest }) k (.trigger trigger)
      (answer o ending)
    exact h.of_eq hpending (by rw [hstack, hs]; rfl)

theorem Prompt.throws (h : Prompt o s) (thrown : VerificationSourceError)
    (uncrossed : Uncrossed o s (.throws thrown)) : Prompt o (s.throws thrown) := by
  rw [FakeSource.throws]
  split
  case h_1 => exact h
  case h_2 k submitted rest hs =>
    obtain ⟨hstack, hpending⟩ := settle_stack (s := { s with stack := rest }) k .threw
      (.error thrown)
    intro delayed scripted m hm
    rw [hpending] at hm
    have opening := h delayed scripted m hm
    rw [openings_of_opening hs] at opening
    rw [hstack]
    refine (List.mem_cons.mp opening).resolve_left ?_
    rintro rfl
    exact uncrossed m hm submitted (by cases submitted <;> simp) (by rw [hs, List.head?_cons])
  case h_3 k ending owner rest hs =>
    obtain ⟨hstack, hpending⟩ := settle_stack (s := { s with stack := rest }) owner .threw
      (.error thrown)
    exact h.of_eq hpending (by rw [hstack, hs]; rfl)
  case h_4 rest hs => exact h.of_eq rfl (by rw [hs]; rfl)

theorem Prompt.react (h : Prompt o s) {i : FakeInput} (uncrossed : Uncrossed o s i) :
    Prompt o (s.react o i) := by
  cases i with
  | launch => exact h.launch
  | control control => cases control <;> exact .close _ _
  | returns => exact h.returns
  | throws thrown => exact h.throws thrown uncrossed
  | timer owner =>
    rw [FakeSource.react, FakeSource.timer]
    split_ifs
    · exact .runScript (s := { s with timers := s.timers.erase owner })
        (fun _ => h.of_eq rfl rfl) _
    · exact h

/-- In order, a launch settles only itself. -/
theorem Orderly.settlesOnlyItself (h : s.Orderly) : SettlesOnlyItself o s where
  once := h.once
  own x hx := ⟨(h.settled x hx).1, (h.settled x hx).2.2⟩
  accepts x hx hlast := by
    rw [FakeSource.launch]
    split
    case h_1 k hp =>
      have last := h.last k hp
      obtain rfl : k = x.launch := by omega
      exact absurd hp (h.settled x hx).2.1
    case h_2 => rfl

end FakeSource

/-- In every run in which no timer of one launch fires on another and nothing is thrown at the start
of one, launches settle only themselves. -/
theorem fake_launches_settle_only_themselves (o : FakeLaunchableSourceOptions)
    (inputs : List FakeInput)
    (uncrossed : Reactions.Meets (FakeSource.react o) (Uncrossed o) .fresh inputs) :
    Reactions.Always (FakeSource.react o) (SettlesOnlyItself o) .fresh inputs := by
  refine Reactions.Meets.always (I := fun s => s.Orderly ∧ FakeSource.Prompt o s)
    ?_ ?_ ?_ uncrossed
  · exact fun s i h hi => ⟨h.1.react h.2 hi, h.2.react hi⟩
  · exact fun s h => h.1.settlesOnlyItself
  · exact ⟨FakeSource.orderly_fresh, FakeSource.prompt_of_pending rfl⟩

/-- A launch that is approved by its timer, and the next one. -/
theorem fake_launch_by_timer :
    Reactions.Always (FakeSource.react { delayMs := some 5 })
      (SettlesOnlyItself { delayMs := some 5 }) .fresh
      [.launch, .returns, .returns, .timer 0, .returns, .returns, .launch] :=
  fake_launches_settle_only_themselves { delayMs := some 5 } _ (by decide +kernel)

/-- The timer of a launch that was cancelled approves the next one, and a host that throws out of
its first event cannot launch again. -/
theorem not_settlesOnlyItself :
    (¬ SettlesOnlyItself { delayMs := some 5 }
      (Reactions.run (FakeSource.react { delayMs := some 5 }) .fresh
        [.launch, .returns, .returns, .control .cancel, .returns, .launch, .returns, .returns,
          .timer 0, .returns, .returns])) ∧
    ¬ SettlesOnlyItself { delayMs := some 5 }
      (Reactions.run (FakeSource.react { delayMs := some 5 }) .fresh
        [.launch, .throws ⟨none, some "unmounted"⟩]) := by
  constructor
  · intro h
    have own := h.own
    revert own
    decide +kernel
  · intro h
    have accepts := h.accepts
    revert accepts
    decide +kernel

end Kyc.Client
