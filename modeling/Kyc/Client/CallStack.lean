import Kyc.Client.Hook

/-! # Callbacks that throw and call back

A hook calls its host in the middle of its own code. The host may call the hook's functions
before it returns, and it may throw; what happens then depends on the `try` blocks that the
call is made in. A callback that is on is kept with what is left to do after it.
-/

namespace Kyc.Client

/-- What is left to do after a callback: nothing but to go back to the caller, the `finally` of
`begin`, or the end of `runLaunch`, whose `catch` comes before that. -/
inductive Rest | caller | begin | launch
  deriving DecidableEq, Repr

structure ActiveCall where
  call : HostCall
  rest : Rest
  deriving DecidableEq, Repr

/-- A hook and the callbacks that are on, the last one first. -/
structure CallStack where
  hook : Hook
  active : List ActiveCall
  /-- Whether a promise of `begin` was rejected. -/
  rejected : Bool
  deriving DecidableEq, Repr

/-- An input, or the end of the callback that is on. -/
inductive Turn
  | input (i : Input)
  | returns
  | throws (cause : VerificationSourceError)

/-- Only the functions that a hook hands out can be called from a callback: promises and timers
wait. -/
def Input.Callable : Input → Bool
  | .start _ | .retry _ | .restart _ | .cancel | .event _ | .message _ => true
  | _ => false

/-- `onError` is called in a `try` block of its own, and nothing else is. -/
def HostCall.Swallowed : HostCall → Bool
  | .onError _ => true
  | _ => false

/-- What an input makes the hook do up to a callback, and what is left to do after it. -/
def Hook.upToCall (p : Platform) (s : Hook) (i : Input) : Hook × Rest :=
  match i with
  | .permissionChecked (.error message) =>
    if s.stage = some .permission ∧ s.mounted then (s.failWithThrown message, .begin)
    else (s.react p i, .caller)
  | .connectionChecked (.error message) =>
    if s.stage = some .connection ∧ s.mounted then (s.failWithThrown message, .begin)
    else (s.react p i, .caller)
  | .startSettled (.error cause) =>
    if s.stage = some .starting ∧ s.mounted then (s.failWithCause cause, .begin)
    else (s.react p i, .caller)
  | .launchSettled (.ok result) =>
    if s.stage = some .launching ∧ s.mounted ∧ ¬ s.machine.Settled then
      (s.handleEvent p (.complete result.status (truthy result.applicantId)), .launch)
    else (s.react p i, .caller)
  | .launchSettled (.error cause) =>
    if s.stage = some .launching ∧ s.mounted ∧ ¬ s.machine.Settled then
      (s.failWithCause cause, .begin)
    else (s.react p i, .caller)
  | i => (s.react p i, .caller)

namespace CallStack

def mount (host : Host) (isOnline : Bool) : CallStack := ⟨.mount host isOnline, [], false⟩

variable (p : Platform) (c : CallStack)

/-- Go on after a callback. -/
def resume : Rest → CallStack
  | .caller => c
  | .begin => { c with hook := c.hook.finish }
  | .launch => { c with hook := c.hook.finish }

/-- The hook has gone on to a callback, or past all of its code when it calls none. -/
def goOn (hook : Hook) (rest : Rest) : CallStack :=
  match hook.calls.drop c.hook.calls.length with
  | call :: _ => { c with hook, active := ⟨call, rest⟩ :: c.active }
  | [] => { c with hook }.resume rest

/-- Go on after a callback that threw, and whose error is not swallowed. -/
def unwind (cause : VerificationSourceError) : Rest → CallStack
  | .caller => c
  | .begin =>
    match p with
    -- only `finally`: the promise is rejected
    | .web => { c with hook := c.hook.finish, rejected := true }
    | .native =>
      if c.hook.mounted then c.goOn (c.hook.failWithThrown cause.message) .begin
      else { c with hook := c.hook.finish }
  | .launch =>
    if c.hook.mounted ∧ ¬ c.hook.machine.Settled then c.goOn (c.hook.failWithCause cause) .begin
    else { c with hook := c.hook.finish }

def step : Turn → CallStack
  | .input i =>
    if c.active = [] ∨ i.Callable then c.goOn (c.hook.upToCall p i).1 (c.hook.upToCall p i).2
    else c
  | .returns =>
    match c.active with
    | [] => c
    | last :: active => { c with active }.resume last.rest
  | .throws cause =>
    match c.active with
    | [] => c
    | last :: active =>
      if last.call.Swallowed then { c with active }.resume last.rest
      else { c with active }.unwind p cause last.rest

abbrev run (turns : List Turn) : CallStack := Reactions.run (step p) c turns

end CallStack

/-! ## Callbacks that return at once -/

/-- What a reaction does up to a callback, with what is left to do after it. -/
theorem Hook.upToCall_spec (p : Platform) (s : Hook) (i : Input) :
    ((s.upToCall p i).2 = .caller ∧ (s.upToCall p i).1 = s.react p i) ∨
      ((s.upToCall p i).2 ≠ .caller ∧ (s.upToCall p i).1.finish = s.react p i) := by
  cases i with
  | permissionChecked answer =>
    cases answer with
    | ok permission => exact Or.inl ⟨rfl, rfl⟩
    | error message =>
      rw [upToCall]
      split_ifs with h
      · refine Or.inr ⟨by simp, ?_⟩
        simp [react, Hook.permissionChecked, h]
      · exact Or.inl ⟨rfl, rfl⟩
  | connectionChecked answer =>
    cases answer with
    | ok online => exact Or.inl ⟨rfl, rfl⟩
    | error message =>
      rw [upToCall]
      split_ifs with h
      · refine Or.inr ⟨by simp, ?_⟩
        simp [react, Hook.connectionChecked, h]
      · exact Or.inl ⟨rfl, rfl⟩
  | startSettled answer =>
    cases answer with
    | ok acquired => exact Or.inl ⟨rfl, rfl⟩
    | error cause =>
      rw [upToCall]
      split_ifs with h
      · refine Or.inr ⟨by simp, ?_⟩
        simp [react, Hook.startSettled, h]
      · exact Or.inl ⟨rfl, rfl⟩
  | launchSettled answer =>
    cases answer with
    | ok result =>
      rw [upToCall]
      split_ifs with h
      · refine Or.inr ⟨by simp, ?_⟩
        simp [react, Hook.launchSettled, h]
      · exact Or.inl ⟨rfl, rfl⟩
    | error cause =>
      rw [upToCall]
      split_ifs with h
      · refine Or.inr ⟨by simp, ?_⟩
        simp [react, Hook.launchSettled, h]
      · exact Or.inl ⟨rfl, rfl⟩
  | _ => exact Or.inl ⟨rfl, rfl⟩

namespace CallStack

variable {p : Platform} {c : CallStack}

theorem hook_resume (rest : Rest) :
    (c.resume rest).hook = if rest = .caller then c.hook else c.hook.finish := by
  cases rest <;> rfl

theorem active_resume (rest : Rest) : (c.resume rest).active = c.active := by
  cases rest <;> rfl

/-- A callback that returns at once makes no difference: the hook reacts as it does without. -/
theorem step_input_returns (hc : c.active = []) (i : Input) :
    ((c.step p (.input i)).active = [] ∧ (c.step p (.input i)).hook = c.hook.react p i) ∨
      (((c.step p (.input i)).step p .returns).active = [] ∧
        ((c.step p (.input i)).step p .returns).hook = c.hook.react p i) := by
  have whole : (if (c.hook.upToCall p i).2 = .caller then (c.hook.upToCall p i).1
      else (c.hook.upToCall p i).1.finish) = c.hook.react p i := by
    rcases c.hook.upToCall_spec p i with ⟨rest, same⟩ | ⟨rest, same⟩
    · rw [if_pos rest, same]
    · rw [if_neg rest, same]
  have reacted : c.step p (.input i) = c.goOn (c.hook.upToCall p i).1 (c.hook.upToCall p i).2 := by
    rw [step, if_pos (Or.inl hc)]
  rw [reacted, goOn]
  split
  · refine Or.inr ⟨?_, ?_⟩
    · rw [step, active_resume, hc]
    · rw [step, hook_resume]
      exact whole
  · refine Or.inl ⟨?_, ?_⟩
    · rw [active_resume]
      exact hc
    · rw [hook_resume]
      exact whole

/-! ## `begin` never rejects, and ends -/

/-- No error gets out of a callback that leaves `begin` to go on after it. -/
def Guarded (c : CallStack) : Prop := ∀ a ∈ c.active, a.rest = .begin → a.call.Swallowed

/-- The run of `begin` is over, or is once the callback that is on is. -/
def Ends (c : CallStack) : Prop :=
  c.hook.running = false ∨ ∃ last active, c.active = last :: active ∧ last.rest ≠ .caller

theorem calls_failWith (s : Hook) (error : IdentityVerificationError) (keepSession : Bool) :
    (s.failWith error keepSession).calls = s.calls ++ [.onError error] := rfl

theorem calls_upToCall {i : Input} {s : Hook} (h : (s.upToCall p i).2 = .begin) :
    ∃ error, (s.upToCall p i).1.calls = s.calls ++ [.onError error] := by
  cases i with
  | permissionChecked answer | connectionChecked answer | startSettled answer =>
    cases answer with
    | ok => cases h
    | error =>
      rw [Hook.upToCall] at h ⊢
      split_ifs at h ⊢
      exact ⟨_, calls_failWith ..⟩
  | launchSettled answer =>
    cases answer with
    | ok =>
      rw [Hook.upToCall] at h
      split_ifs at h
    | error =>
      rw [Hook.upToCall] at h ⊢
      split_ifs at h ⊢
      exact ⟨_, calls_failWith ..⟩
  | _ => cases h

theorem rejected_resume (rest : Rest) : (c.resume rest).rejected = c.rejected := by
  cases rest <;> rfl

theorem guarded_resume {rest : Rest} (hg : c.Guarded) : (c.resume rest).Guarded := by
  cases rest <;> exact hg

theorem goOn_of_call {hook : Hook} {call : HostCall} (rest : Rest)
    (h : hook.calls = c.hook.calls ++ [call]) :
    c.goOn hook rest = { c with hook, active := ⟨call, rest⟩ :: c.active } := by
  rw [goOn, h, List.drop_left]

theorem goOn_of_calls {hook : Hook} (rest : Rest) (h : hook.calls = c.hook.calls) :
    c.goOn hook rest = { c with hook }.resume rest := by
  rw [goOn, h, List.drop_length]

theorem guarded_goOn {hook : Hook} {rest : Rest} (hg : c.Guarded)
    (h : rest = .begin → ∃ error, hook.calls = c.hook.calls ++ [.onError error]) :
    (c.goOn hook rest).Guarded := by
  by_cases hr : rest = .begin
  · obtain ⟨error, calls⟩ := h hr
    rw [goOn_of_call rest calls]
    rintro a ha begins
    rcases List.mem_cons.mp ha with rfl | ha
    · rfl
    · exact hg a ha begins
  · rw [goOn]
    split
    · rintro a ha begins
      rcases List.mem_cons.mp ha with rfl | ha
      · exact absurd begins hr
      · exact hg a ha begins
    · exact guarded_resume hg

theorem rejected_goOn (hook : Hook) (rest : Rest) : (c.goOn hook rest).rejected = c.rejected := by
  rw [goOn]
  split
  · rfl
  · cases rest <;> rfl

/-- A callback that throws is unwound to `runLaunch` or to its caller only. -/
theorem guarded_unwind {cause : VerificationSourceError} {rest : Rest} (hg : c.Guarded)
    (h : rest ≠ .begin) :
    (c.unwind p cause rest).Guarded ∧ (c.unwind p cause rest).rejected = c.rejected := by
  cases rest with
  | caller => exact ⟨hg, rfl⟩
  | begin => exact absurd rfl h
  | launch =>
    rw [unwind]
    split_ifs
    · exact ⟨guarded_goOn hg fun _ => ⟨_, calls_failWith ..⟩, rejected_goOn _ _⟩
    · exact ⟨hg, rfl⟩

/-- Whatever the host and the source do, every turn keeps the guards, and rejects no promise. -/
theorem guarded_step (hg : c.Guarded) (turn : Turn) :
    (c.step p turn).Guarded ∧ (c.step p turn).rejected = c.rejected := by
  cases turn with
  | input i =>
    rw [step]
    split_ifs
    · exact ⟨guarded_goOn hg calls_upToCall, rejected_goOn _ _⟩
    · exact ⟨hg, rfl⟩
  | returns =>
    obtain ⟨hook, active, rejected⟩ := c
    cases active with
    | nil => exact ⟨hg, rfl⟩
    | cons last active =>
      have tail : Guarded ⟨hook, active, rejected⟩ := fun a ha => hg a (List.mem_cons_of_mem _ ha)
      exact ⟨guarded_resume (c := ⟨hook, active, rejected⟩) tail, rejected_resume _⟩
  | throws cause =>
    obtain ⟨hook, active, rejected⟩ := c
    cases active with
    | nil => exact ⟨hg, rfl⟩
    | cons last active =>
      have tail : Guarded ⟨hook, active, rejected⟩ := fun a ha => hg a (List.mem_cons_of_mem _ ha)
      rw [step]
      dsimp only
      split_ifs with swallowed
      · exact ⟨guarded_resume (c := ⟨hook, active, rejected⟩) tail, rejected_resume _⟩
      · exact guarded_unwind (c := ⟨hook, active, rejected⟩) tail fun begins =>
          swallowed (hg last List.mem_cons_self begins)

theorem guarded_run (hg : c.Guarded) (turns : List Turn) :
    (c.run p turns).Guarded ∧ (c.run p turns).rejected = c.rejected := by
  induction turns generalizing c with
  | nil => exact ⟨hg, rfl⟩
  | cons turn turns ih =>
    obtain ⟨kept, same⟩ := guarded_step (p := p) hg turn
    obtain ⟨all, rejected⟩ := ih kept
    exact ⟨all, rejected.trans same⟩

variable (p c) in
/-- No promise of `begin` was rejected, and `begin` is over once the promises of the source have
settled and the host has been told; after its start it may go on to the launch. -/
structure Clears : Prop where
  never_rejects : c.rejected = false
  start : c.active = [] → c.hook.stage = some .starting → ∀ answer,
    (c.step p (.input (.startSettled answer))).Ends ∨
      (c.step p (.input (.startSettled answer))).hook.stage = some .launching
  launch : c.active = [] → c.hook.stage = some .launching → ∀ answer,
    (c.step p (.input (.launchSettled answer))).Ends
  returned : ∀ last active, c.active = last :: active → last.rest ≠ .caller →
    (c.step p .returns).hook.running = false
  thrown : ∀ last active, c.active = last :: active → last.rest ≠ .caller → ∀ cause,
    (c.step p (.throws cause)).Ends

theorem ends_resume {rest : Rest} (h : rest ≠ .caller) : (c.resume rest).hook.running = false := by
  cases rest with
  | caller => exact absurd rfl h
  | begin | launch => rfl

theorem ends_goOn (hook : Hook) {rest : Rest} (h : rest ≠ .caller) : (c.goOn hook rest).Ends := by
  rw [goOn]
  split
  · exact Or.inr ⟨_, _, rfl, h⟩
  · exact Or.inl (ends_resume h)

theorem hook_goOn_caller (hook : Hook) (h : hook.calls = c.hook.calls) :
    (c.goOn hook .caller).hook = hook := by
  rw [goOn_of_calls _ h]
  rfl

theorem ends_finish {hook : Hook} (h : hook.finish.calls = c.hook.calls) :
    (c.goOn hook.finish .caller).Ends := by
  left
  rw [hook_goOn_caller _ h]
  rfl

theorem ends_startSettled (hc : c.active = []) (hs : c.hook.stage = some .starting)
    (answer : Except VerificationSourceError VerificationSession) :
    (c.step p (.input (.startSettled answer))).Ends ∨
      (c.step p (.input (.startSettled answer))).hook.stage = some .launching := by
  have reacted : c.hook.react p (.startSettled answer) = c.hook.startSettled answer := if_pos hs
  rw [step, if_pos (Or.inl hc)]
  rcases c.hook.upToCall_spec p (.startSettled answer) with ⟨rest, same⟩ | ⟨rest, -⟩
  · rw [rest, same, reacted]
    by_cases hm : c.hook.mounted
    · cases answer with
      | error cause =>
        rw [Hook.upToCall, if_pos ⟨hs, hm⟩] at rest
        cases rest
      | ok acquired =>
        rw [Hook.startSettled, if_pos hm]
        dsimp only
        split_ifs
        · right
          rw [hook_goOn_caller]
          rfl
        · exact Or.inl (ends_finish rfl)
    · unfold Hook.startSettled
      rw [if_neg hm]
      exact Or.inl (ends_finish rfl)
  · exact Or.inl (ends_goOn _ rest)

theorem ends_launchSettled (hc : c.active = []) (hs : c.hook.stage = some .launching)
    (answer : Except VerificationSourceError IdentityVerificationResult) :
    (c.step p (.input (.launchSettled answer))).Ends := by
  have reacted : c.hook.react p (.launchSettled answer) = c.hook.launchSettled p answer := if_pos hs
  rw [step, if_pos (Or.inl hc)]
  by_cases live : c.hook.mounted ∧ ¬ c.hook.machine.Settled
  · refine ends_goOn _ ?_
    cases answer with
    | error cause =>
      rw [Hook.upToCall, if_pos ⟨hs, live⟩]
      simp
    | ok result =>
      rw [Hook.upToCall, if_pos ⟨hs, live⟩]
      simp
  · rcases c.hook.upToCall_spec p (.launchSettled answer) with ⟨rest, same⟩ | ⟨rest, -⟩
    · rw [rest, same, reacted]
      unfold Hook.launchSettled
      rw [if_neg live]
      exact ends_finish rfl
    · exact ends_goOn _ rest

theorem ends_thrown {last : ActiveCall} {active : List ActiveCall} (hc : c.active = last :: active)
    (h : last.rest ≠ .caller) (cause : VerificationSourceError) :
    (c.step p (.throws cause)).Ends := by
  rw [step, hc]
  dsimp only
  split_ifs
  · exact Or.inl (ends_resume h)
  · cases hr : last.rest with
    | caller => exact absurd hr h
    | begin =>
      cases p with
      | web => exact Or.inl rfl
      | native =>
        rw [unwind]
        split_ifs
        · exact ends_goOn _ (by simp)
        · exact Or.inl rfl
    | launch =>
      rw [unwind]
      split_ifs
      · exact ends_goOn _ (by simp)
      · exact Or.inl rfl

theorem clears (h : c.rejected = false) : c.Clears p where
  never_rejects := h
  start hc hs answer := ends_startSettled hc hs answer
  launch hc hs answer := ends_launchSettled hc hs answer
  returned last active hc hr := by
    rw [step, hc]
    exact ends_resume hr
  thrown last active hc hr cause := ends_thrown hc hr cause

end CallStack

end Kyc.Client
