import Kyc.Client.CallStack

/-! # Both platforms run the same machine

The hook of React Native awaits its checks before it starts the source, where the web hook
starts it at once. As long as the checks succeed they leave no trace, and for the rest the
two hooks go in lockstep, whatever the source and the host do.
-/

namespace Kyc.Client

def Stage.onWeb : Stage → Stage
  | .permission => .starting
  | .connection => .starting
  | s => s

/-- The web hook that a hook of React Native goes along with. -/
def Hook.onWeb (n : Hook) (posts : List TokenPost) : Hook :=
  { n with stage := n.stage.map Stage.onWeb, posts }

def Turn.IsCheck : Turn → Bool
  | .input (.permissionChecked _) => true
  | .input (.connectionChecked _) => true
  | _ => false

/-- The camera was not refused, and no expired token is left to a page without an origin. -/
def VerificationEvent.Comparable (s : Hook) (e : VerificationEvent) : Prop :=
  ¬ e.DeniesPermission ∧ (e = .tokenExpired → s.host.refreshable →
    ∀ session, s.machine.session = some session → truthy session.allowedOrigin ≠ none)

/-- With the connection up and the camera granted; a source settles once it is started. -/
def Input.Comparable (s : Hook) : Input → Prop
  | .start onLine | .retry onLine | .restart onLine => onLine = true
  | .event e => VerificationEvent.Comparable s e
  | .message interpreted => ∀ e, interpreted = some e → VerificationEvent.Comparable s e
  | .permissionChecked answer => answer = .ok .granted
  | .connectionChecked answer => answer = .ok true
  | .startSettled _ => s.stage = some .starting
  | .online | .offline | .unmount => False
  | _ => True

def Turn.Comparable (c : CallStack) : Turn → Prop
  | .input i => (c.active = [] ∨ i.Callable) ∧ Input.Comparable c.hook i
  | _ => True

namespace Hook

variable {n : Hook} {posts : List TokenPost}

theorem onWeb_refreshToken (h : n.host.refreshable → ∀ session, n.machine.session = some session →
    truthy session.allowedOrigin ≠ none) :
    (n.refreshToken .native).onWeb posts = (n.onWeb posts).refreshToken .web := by
  have session : (n.onWeb posts).machine.session = n.machine.session := rfl
  have refreshable : (n.onWeb posts).host.refreshable = n.host.refreshable := rfl
  unfold refreshToken
  rw [session, refreshable]
  cases hs : n.machine.session with
  | none => rfl
  | some acquired =>
    dsimp only
    by_cases hr : n.host.refreshable = false
    · rw [if_pos (Or.inl hr), if_pos (Or.inl hr)]
      rfl
    · have origin := h (by simpa using hr) acquired hs
      rw [if_neg (by simp [hr]), if_neg (by simp [hr, origin])]
      rfl

theorem onWeb_runEffect {effect : VerificationEffect}
    (h : effect = .refreshToken → n.host.refreshable → ∀ session,
      n.machine.session = some session → truthy session.allowedOrigin ≠ none) :
    (n.runEffect .native effect).onWeb posts = (n.onWeb posts).runEffect .web effect := by
  cases effect with
  | statusChange status =>
    have observes : (n.onWeb posts).host = n.host := rfl
    rw [runEffect, runEffect, observes]
    split_ifs <;> rfl
  | complete result delayed => cases delayed <;> rfl
  | cancel => rfl
  | error error => rfl
  | refreshToken => exact onWeb_refreshToken (h rfl)

theorem onWeb_runPlan {plan : VerificationPlan}
    (h : plan.effect = some .refreshToken → plan.action = none ∧ (n.host.refreshable →
      ∀ session, n.machine.session = some session → truthy session.allowedOrigin ≠ none)) :
    (n.runPlan .native plan).onWeb posts = (n.onWeb posts).runPlan .web plan := by
  obtain ⟨action, effect⟩ := plan
  cases effect with
  | none => cases action <;> rfl
  | some effect =>
    cases action with
    | none => exact onWeb_runEffect fun refresh => (h (congrArg some refresh)).2
    | some action =>
      refine onWeb_runEffect fun refresh => ?_
      cases (h (congrArg some refresh)).1

theorem onWeb_handleEvent {e : VerificationEvent} (h : e.Comparable n) :
    (n.handleEvent .native e).onWeb posts = (n.onWeb posts).handleEvent .web e := by
  have mounted : (n.onWeb posts).mounted = n.mounted := rfl
  have machine : (n.onWeb posts).machine = n.machine := rfl
  have native : ¬ (Platform.native = .web ∧ e.DeniesPermission) := by simp
  have web : ¬ (Platform.web = .web ∧ e.DeniesPermission) := fun hw => h.1 hw.2
  rw [handleEvent, handleEvent, mounted, machine, if_neg native, if_neg web]
  split_ifs
  · refine onWeb_runPlan fun refresh => ?_
    obtain rfl := planEvent_effect_eq_refreshToken_iff.mp refresh
    exact ⟨rfl, h.2 rfl⟩
  · rfl

theorem onWeb_begin (onLine : Bool) :
    (n.begin .native onLine).onWeb posts = (n.onWeb posts).begin .web true := by
  rw [begin, begin]
  cases n.host.checksPermissions
  all_goals
    simp only [Bool.false_eq_true, if_false, if_true]
    rfl

theorem onWeb_start (onLine : Bool) :
    (if n.running then n else n.begin .native onLine).onWeb posts =
      if (n.onWeb posts).running then n.onWeb posts else (n.onWeb posts).begin .web true := by
  have running : (n.onWeb posts).running = n.running := rfl
  rw [running]
  split_ifs
  · rfl
  · exact onWeb_begin onLine

theorem stage_onWeb_eq_launching_iff :
    (n.onWeb posts).stage = some .launching ↔ n.stage = some .launching := by
  obtain ⟨machine, host, isOnline, mounted, running, stage⟩ := n
  rcases stage with _ | _ | _ | _ | _ <;> simp [onWeb, Stage.onWeb]

theorem onWeb_launchSettled (answer : Except VerificationSourceError IdentityVerificationResult) :
    ((n.upToCall .native (.launchSettled answer)).1.onWeb posts,
        (n.upToCall .native (.launchSettled answer)).2)
      = (n.onWeb posts).upToCall .web (.launchSettled answer) := by
  by_cases live : n.stage = some .launching ∧ n.mounted ∧ ¬ n.machine.Settled
  · have web : (n.onWeb posts).stage = some .launching ∧ (n.onWeb posts).mounted ∧
        ¬ (n.onWeb posts).machine.Settled := ⟨stage_onWeb_eq_launching_iff.mpr live.1, live.2⟩
    cases answer with
    | error cause =>
      rw [upToCall, upToCall, if_pos live, if_pos web]
      rfl
    | ok result =>
      rw [upToCall, upToCall, if_pos live, if_pos web]
      exact congrArg (·, Rest.launch) (onWeb_handleEvent ⟨id, by simp⟩)
  · have web : ¬ ((n.onWeb posts).stage = some .launching ∧ (n.onWeb posts).mounted ∧
        ¬ (n.onWeb posts).machine.Settled) := fun web =>
      live ⟨stage_onWeb_eq_launching_iff.mp web.1, web.2⟩
    have reacted : (n.react .native (.launchSettled answer)).onWeb posts
        = (n.onWeb posts).react .web (.launchSettled answer) := by
      change (if n.stage = some .launching then n.launchSettled .native answer else n).onWeb posts =
        if (n.onWeb posts).stage = some .launching then
          (n.onWeb posts).launchSettled .web answer else n.onWeb posts
      by_cases launching : n.stage = some .launching
      · have settled : ¬ (n.mounted ∧ ¬ n.machine.Settled) := fun h => live ⟨launching, h⟩
        rw [if_pos launching, if_pos (stage_onWeb_eq_launching_iff.mpr launching)]
        unfold launchSettled
        rw [if_neg settled,
          if_neg
            (show ¬ ((n.onWeb posts).mounted ∧ ¬ (n.onWeb posts).machine.Settled) from settled)]
        rfl
      · rw [if_neg launching, if_neg fun h => launching (stage_onWeb_eq_launching_iff.mp h)]
    cases answer with
    | error cause =>
      rw [upToCall, upToCall, if_neg live, if_neg web]
      exact congrArg (·, Rest.caller) reacted
    | ok result =>
      rw [upToCall, upToCall, if_neg live, if_neg web]
      exact congrArg (·, Rest.caller) reacted

theorem onWeb_timerFired (id : ℕ) :
    (n.timerFired id).onWeb posts = (n.onWeb posts).timerFired id := by
  unfold timerFired
  have timers : (n.onWeb posts).timers = n.timers := rfl
  rw [timers]
  cases n.timers.find? (·.id = id) with
  | none => rfl
  | some timer =>
    change (if n.mounted then _ else _ : Hook).onWeb posts = if n.mounted then _ else _
    split_ifs <;> rfl

/-- A token is posted by both hooks, though not to the same target. -/
theorem onWeb_refreshSettled (n : Hook) (posts : List TokenPost) (seq : ℕ)
    (answer : Except (Option String) String) :
    ∃ posts', (n.refreshSettled .native seq answer).onWeb posts'
      = (n.onWeb posts).refreshSettled .web seq answer := by
  unfold refreshSettled
  have refreshes : (n.onWeb posts).refreshes = n.refreshes := rfl
  rw [refreshes]
  cases n.refreshes.find? (·.seq = seq) with
  | none => exact ⟨posts, rfl⟩
  | some refresh =>
    cases answer with
    | ok token =>
      by_cases live : n.mounted ∧ refresh.seq = n.seq ∧
          n.machine.session.map identityOf = some refresh.identity ∧ n.attached
      · have web : (n.onWeb posts).mounted ∧ refresh.seq = (n.onWeb posts).seq ∧
            (n.onWeb posts).machine.session.map identityOf = some refresh.identity ∧
            (n.onWeb posts).attached := live
        refine ⟨posts ++ [⟨token, refresh.allowedOrigin⟩], ?_⟩
        dsimp only
        rw [if_pos live, if_pos web, if_pos rfl]
        rfl
      · have web : ¬ ((n.onWeb posts).mounted ∧ refresh.seq = (n.onWeb posts).seq ∧
            (n.onWeb posts).machine.session.map identityOf = some refresh.identity ∧
            (n.onWeb posts).attached) := live
        refine ⟨posts, ?_⟩
        dsimp only
        rw [if_neg live, if_neg web]
        rfl
    | error message =>
      refine ⟨posts, ?_⟩
      change (if n.mounted ∧ refresh.seq = n.seq then _ else _ : Hook).onWeb posts
        = if n.mounted ∧ refresh.seq = n.seq then _ else _
      split_ifs <;> rfl

/-- What both hooks do alike up to a callback. -/
theorem onWeb_upToCall {i : Input} (hm : n.mounted) (h : Input.Comparable n i)
    (hi : Turn.IsCheck (.input i) = false) (posts : List TokenPost) :
    ∃ posts', ((n.upToCall .native i).1.onWeb posts', (n.upToCall .native i).2)
      = (n.onWeb posts).upToCall .web i := by
  cases i with
  | render host => exact ⟨posts, rfl⟩
  | attach attached => exact ⟨posts, rfl⟩
  | start onLine =>
    obtain rfl : onLine = true := h
    exact ⟨posts, congrArg (·, Rest.caller) (onWeb_start true)⟩
  | retry onLine =>
    obtain rfl : onLine = true := h
    exact ⟨posts, congrArg (·, Rest.caller) (onWeb_start true)⟩
  | restart onLine =>
    obtain rfl : onLine = true := h
    refine ⟨posts, congrArg (·, Rest.caller) ?_⟩
    change (if n.running then n else (n.applyAction .clearSession).begin .native true).onWeb posts =
      if n.running then n.onWeb posts
      else ((n.onWeb posts).applyAction .clearSession).begin .web true
    split_ifs
    · rfl
    · exact onWeb_begin true
  | cancel => exact ⟨posts, rfl⟩
  | event event => exact ⟨posts, congrArg (·, Rest.caller) (onWeb_handleEvent h)⟩
  | message interpreted =>
    cases interpreted with
    | none => exact ⟨posts, rfl⟩
    | some event => exact ⟨posts, congrArg (·, Rest.caller) (onWeb_handleEvent (h event rfl))⟩
  | permissionChecked answer => cases hi
  | connectionChecked answer => cases hi
  | startSettled answer =>
    have starting : n.stage = some .starting := h
    have web : (n.onWeb posts).stage = some .starting := by rw [onWeb, starting]; rfl
    refine ⟨posts, ?_⟩
    cases answer with
    | error cause =>
      rw [upToCall, upToCall, if_pos ⟨starting, hm⟩, if_pos ⟨web, hm⟩]
      rfl
    | ok acquired =>
      refine congrArg (·, Rest.caller) ?_
      change (if n.stage = some .starting then n.startSettled (.ok acquired) else n).onWeb posts =
        if (n.onWeb posts).stage = some .starting then (n.onWeb posts).startSettled (.ok acquired)
        else n.onWeb posts
      rw [if_pos starting, if_pos web, Hook.startSettled, Hook.startSettled, if_pos hm,
        if_pos (show (n.onWeb posts).mounted from hm)]
      change (if n.host.launchable then _ else _ : Hook).onWeb posts
        = if n.host.launchable then _ else _
      split_ifs <;> rfl
  | launchSettled answer => exact ⟨posts, onWeb_launchSettled answer⟩
  | refreshSettled seq answer =>
    obtain ⟨posts', same⟩ := onWeb_refreshSettled n posts seq answer
    exact ⟨posts', congrArg (·, Rest.caller) same⟩
  | timerFired id => exact ⟨posts, congrArg (·, Rest.caller) (onWeb_timerFired id)⟩
  | online => exact absurd h id
  | offline => exact absurd h id
  | unmount => exact absurd h id

/-- A check that succeeds is no more than a step on the way to the source. -/
theorem onWeb_check {i : Input} (hm : n.mounted) (h : Input.Comparable n i)
    (hi : Turn.IsCheck (.input i)) (posts : List TokenPost) :
    (n.upToCall .native i).2 = .caller ∧ (n.upToCall .native i).1.calls = n.calls ∧
      (n.upToCall .native i).1.onWeb posts = n.onWeb posts := by
  cases i with
  | permissionChecked answer =>
    obtain rfl : answer = .ok .granted := h
    by_cases stage : n.stage = some .permission
    · have next : (n.upToCall .native (.permissionChecked (.ok .granted))).1
          = { n with stage := some .connection } := by
        change (if n.stage = some .permission then n.permissionChecked _ else n) = _
        rw [if_pos stage, Hook.permissionChecked, if_pos hm]
      refine ⟨rfl, by rw [next], ?_⟩
      rw [next, onWeb, onWeb, stage]
      rfl
    · have next : (n.upToCall .native (.permissionChecked (.ok .granted))).1 = n := if_neg stage
      exact ⟨rfl, by rw [next], by rw [next]⟩
  | connectionChecked answer =>
    obtain rfl : answer = .ok true := h
    by_cases stage : n.stage = some .connection
    · have next : (n.upToCall .native (.connectionChecked (.ok true))).1
          = { n with stage := some .starting } := by
        change (if n.stage = some .connection then n.connectionChecked _ else n) = _
        rw [if_pos stage, Hook.connectionChecked, if_pos hm]
      refine ⟨rfl, by rw [next], ?_⟩
      rw [next, onWeb, onWeb, stage]
      rfl
    · have next : (n.upToCall .native (.connectionChecked (.ok true))).1 = n := if_neg stage
      exact ⟨rfl, by rw [next], by rw [next]⟩
  | _ => cases hi

section Mounted

variable {p : Platform} {s : Hook}

theorem mounted_upToCall {i : Input} (h : i ≠ .unmount) :
    (s.upToCall p i).1.mounted = s.mounted := by
  rcases s.upToCall_spec p i with ⟨-, same⟩ | ⟨-, same⟩
  · rw [same, mounted_react h]
  · exact (congrArg Hook.mounted same).trans (mounted_react h)

end Mounted

end Hook

namespace CallStack

variable {c : CallStack} {posts : List TokenPost}

def onWeb (c : CallStack) (posts : List TokenPost) : CallStack :=
  { c with hook := c.hook.onWeb posts }

theorem onWeb_resume (rest : Rest) : (c.resume rest).onWeb posts = (c.onWeb posts).resume rest := by
  cases rest <;> rfl

theorem onWeb_goOn (hook : Hook) (rest : Rest) (posts' : List TokenPost) :
    (c.goOn hook rest).onWeb posts' = (c.onWeb posts).goOn (hook.onWeb posts') rest := by
  have calls : (hook.onWeb posts').calls = hook.calls := rfl
  have before : (c.onWeb posts).hook.calls = c.hook.calls := rfl
  rw [goOn, goOn, calls, before]
  cases hook.calls.drop c.hook.calls.length with
  | nil => cases rest <;> rfl
  | cons call calls => rfl

theorem onWeb_unwind {cause : VerificationSourceError} {rest : Rest} (h : rest ≠ .begin) :
    (c.unwind .native cause rest).onWeb posts = (c.onWeb posts).unwind .web cause rest := by
  cases rest with
  | caller => rfl
  | begin => exact absurd rfl h
  | launch =>
    change (if c.hook.mounted ∧ ¬ c.hook.machine.Settled then _ else _ : CallStack).onWeb posts
      = if c.hook.mounted ∧ ¬ c.hook.machine.Settled then _ else _
    split_ifs
    · exact onWeb_goOn _ _ _
    · rfl

/-- One turn: a check leaves the web hook as it is, everything else both hooks do alike. -/
theorem onWeb_step {turn : Turn} (hm : c.hook.mounted) (hg : c.Guarded)
    (h : Turn.Comparable c turn) (posts : List TokenPost) :
    ∃ posts', (c.step .native turn).onWeb posts' =
      if turn.IsCheck then c.onWeb posts else (c.onWeb posts).step .web turn := by
  cases turn with
  | returns =>
    refine ⟨posts, ?_⟩
    obtain ⟨hook, active, rejected⟩ := c
    cases active with
    | nil => rfl
    | cons last active => exact onWeb_resume _
  | throws cause =>
    refine ⟨posts, ?_⟩
    obtain ⟨hook, active, rejected⟩ := c
    cases active with
    | nil => rfl
    | cons last active =>
      change (if last.call.Swallowed then _ else _ : CallStack).onWeb posts
        = if last.call.Swallowed then _ else _
      split_ifs with swallowed
      · exact onWeb_resume _
      · exact onWeb_unwind fun rest => swallowed (hg last List.mem_cons_self rest)
  | input i =>
    obtain ⟨open_stack, hi⟩ := h
    have native : c.step .native (.input i)
        = c.goOn (c.hook.upToCall .native i).1 (c.hook.upToCall .native i).2 := if_pos open_stack
    have web : (c.onWeb posts).step .web (.input i)
        = (c.onWeb posts).goOn ((c.hook.onWeb posts).upToCall .web i).1
          ((c.hook.onWeb posts).upToCall .web i).2 := if_pos open_stack
    rw [native, web]
    split_ifs with check
    · obtain ⟨rest, calls, same⟩ := Hook.onWeb_check hm hi check posts
      refine ⟨posts, ?_⟩
      rw [rest, goOn_of_calls _ calls]
      exact congrArg (fun hook => CallStack.mk hook c.active c.rejected) same
    · obtain ⟨posts', same⟩ := Hook.onWeb_upToCall hm hi (by simpa using check) posts
      obtain ⟨hook, rest⟩ := Prod.mk.inj same
      exact ⟨posts', (onWeb_goOn _ _ _).trans (congrArg₂ _ hook rest)⟩

theorem mounted_resume (rest : Rest) : (c.resume rest).hook.mounted = c.hook.mounted := by
  cases rest <;> rfl

theorem mounted_goOn (hook : Hook) (rest : Rest) :
    (c.goOn hook rest).hook.mounted = hook.mounted := by
  rw [goOn]
  split
  · rfl
  · exact mounted_resume _

theorem mounted_unwind {p : Platform} (cause : VerificationSourceError) (rest : Rest) :
    (c.unwind p cause rest).hook.mounted = c.hook.mounted := by
  cases rest with
  | caller => rfl
  | begin =>
    cases p with
    | web => rfl
    | native =>
      rw [unwind]
      split
      · exact mounted_goOn _ _
      · rfl
  | launch =>
    rw [unwind]
    split
    · exact mounted_goOn _ _
    · rfl

theorem mounted_step {turn : Turn} (h : Turn.Comparable c turn) :
    (c.step .native turn).hook.mounted = c.hook.mounted := by
  cases turn with
  | input i =>
    rw [step]
    split_ifs
    · rw [mounted_goOn, Hook.mounted_upToCall]
      rintro rfl
      exact h.2
    · rfl
  | returns =>
    rw [step]
    split
    · rfl
    · exact mounted_resume _
  | throws cause =>
    rw [step]
    split
    · rfl
    · split_ifs
      · exact mounted_resume _
      · exact mounted_unwind _ _

theorem onWeb_run {turns : List Turn} (hm : c.hook.mounted) (hg : c.Guarded)
    (h : Reactions.Meets (step .native) Turn.Comparable c turns) (posts : List TokenPost) :
    ∃ posts', (c.run .native turns).onWeb posts'
      = (c.onWeb posts).run .web (turns.filter fun turn => ¬ turn.IsCheck) := by
  induction turns generalizing c posts with
  | nil => exact ⟨posts, rfl⟩
  | cons turn turns ih =>
    obtain ⟨first, rest⟩ := h
    obtain ⟨posts', same⟩ := onWeb_step hm hg first posts
    have mounted : (c.step .native turn).hook.mounted := (mounted_step first).trans hm
    obtain ⟨posts'', all⟩ := ih mounted (guarded_step hg turn).1 rest posts'
    refine ⟨posts'', all.trans ?_⟩
    rw [same, List.filter_cons]
    split_ifs with check check' check'
    · simp [check] at check'
    · rfl
    · rfl
    · simp [check] at check'

/-- The checks of a run of `begin` that go well. -/
def checks : List Turn :=
  [.input (.permissionChecked (.ok .granted)), .input (.connectionChecked (.ok true))]

theorem step_check {i : Input} (hm : c.hook.mounted) (hc : c.active = [])
    (h : Input.Comparable c.hook i) (hi : Turn.IsCheck (.input i)) :
    c.step .native (.input i) = { c with hook := c.hook.react .native i } := by
  obtain ⟨rest, calls, -⟩ := Hook.onWeb_check hm h hi []
  have same : (c.hook.upToCall .native i).1 = c.hook.react .native i := by
    rcases c.hook.upToCall_spec .native i with ⟨-, same⟩ | ⟨other, -⟩
    · exact same
    · exact absurd rest other
  rw [step, if_pos (Or.inl hc), rest, goOn_of_calls _ calls, same]
  rfl

theorem run_checks (hm : c.hook.mounted) (hc : c.active = []) (posts : List TokenPost)
    (hs : (c.onWeb posts).hook.stage = some .starting) :
    c.run .native checks = { c with hook := { c.hook with stage := some .starting } } := by
  have permission := step_check (i := .permissionChecked (.ok .granted)) hm hc rfl rfl
  have mounted : (c.hook.react .native (.permissionChecked (.ok .granted))).mounted :=
    (Hook.mounted_react (by simp)).trans hm
  have connection := step_check (i := .connectionChecked (.ok true))
    (c := { c with hook := c.hook.react .native (.permissionChecked (.ok .granted)) })
    mounted hc rfl rfl
  have both : c.run .native checks =
      (c.step .native (.input (.permissionChecked (.ok .granted)))).step
      .native (.input (.connectionChecked (.ok true))) := rfl
  rw [both, permission, connection]
  obtain ⟨⟨machine, host, isOnline, _, running, stage⟩, active, rejected⟩ := c
  obtain rfl : _ = true := hm
  rcases stage with _ | _ | _ | _ | _
  · cases hs
  · rfl
  · rfl
  · rfl
  · cases hs

/-- What the web hook does next React Native can do too, after checks that go well if the source
has yet to be called. -/
theorem exists_checks {turn : Turn} (hm : c.hook.mounted) (hg : c.Guarded)
    (no_check : turn.IsCheck = false) (h : Turn.Comparable (c.onWeb posts) turn) :
    ∃ before : List Turn, before.filter (fun turn => ¬ turn.IsCheck) = [] ∧
      Reactions.Meets (step .native) Turn.Comparable c before ∧
      (c.run .native before).hook.mounted ∧ (c.run .native before).Guarded ∧
      (c.run .native before).onWeb posts = c.onWeb posts ∧
      Turn.Comparable (c.run .native before) turn := by
  by_cases settles : ∃ answer, turn = .input (.startSettled answer)
  · obtain ⟨answer, rfl⟩ := settles
    obtain ⟨open_stack, starting⟩ := h
    have hc : c.active = [] := open_stack.resolve_right (by simp [Input.Callable])
    have after : (c.step .native (.input (.permissionChecked (.ok .granted)))).active = [] :=
      (congrArg CallStack.active
        (step_check (i := .permissionChecked (.ok .granted)) hm hc rfl rfl)).trans hc
    have run := run_checks hm hc posts starting
    refine ⟨checks, rfl, ⟨⟨Or.inl hc, rfl⟩, ⟨Or.inl after, rfl⟩, trivial⟩, ?_, ?_, ?_, ?_⟩
    · rw [run]
      exact hm
    · rw [run]
      exact hg
    · have stage : c.hook.stage.map Stage.onWeb = some .starting := starting
      rw [run]
      unfold onWeb Hook.onWeb
      rw [stage]
      rfl
    · rw [run]
      exact ⟨Or.inl hc, rfl⟩
  · refine ⟨[], rfl, trivial, hm, hg, rfl, ?_⟩
    cases turn with
    | input i =>
      cases i with
      | startSettled answer => exact absurd ⟨answer, rfl⟩ settles
      | _ => exact h
    | returns | throws => trivial

theorem exists_native_run {turns : List Turn} (hm : c.hook.mounted) (hg : c.Guarded)
    (posts : List TokenPost)
    (h : Reactions.Meets (step .web) (fun c turn => turn.IsCheck = false ∧ Turn.Comparable c turn)
      (c.onWeb posts) turns) :
    ∃ turns', turns'.filter (fun turn => ¬ turn.IsCheck) = turns ∧
      Reactions.Meets (step .native) Turn.Comparable c turns' := by
  induction turns generalizing c posts with
  | nil => exact ⟨[], rfl, trivial⟩
  | cons turn turns ih =>
    obtain ⟨⟨no_check, first⟩, rest⟩ := h
    obtain ⟨before, made_up, meets, mounted, guarded, along, comparable⟩ :=
      exists_checks hm hg no_check first
    obtain ⟨posts', same⟩ := onWeb_step mounted guarded comparable posts
    rw [if_neg (by simp [no_check]), along] at same
    obtain ⟨turns', filtered, all⟩ := ih ((mounted_step comparable).trans mounted)
      (guarded_step guarded turn).1 posts' (same ▸ rest)
    refine ⟨before ++ turn :: turns', ?_, Reactions.meets_append_iff.mpr ⟨meets, comparable, all⟩⟩
    rw [List.filter_append, made_up, List.filter_cons, if_pos (by simp [no_check]), filtered]
    rfl

end CallStack

def sampleSession : VerificationSession := { provider := "sample", sessionId := some "s-1" }

def sampleTurns : List Turn :=
  [.input (.start true), .input (.permissionChecked (.ok .granted)),
    .input (.connectionChecked (.ok true)), .input (.startSettled (.ok sampleSession)),
    .input (.event .submitted), .throws ⟨none, none⟩]

theorem meets_sampleTurns : Reactions.Meets (CallStack.step .native) Turn.Comparable
    (.mount ⟨false, false, true, true⟩ true) sampleTurns := by
  refine ⟨⟨Or.inl rfl, rfl⟩, ⟨Or.inl ?_, rfl⟩, ⟨Or.inl ?_, rfl⟩, ⟨Or.inl ?_, ?_⟩,
    ⟨Or.inl ?_, id, ?_⟩,
    trivial, trivial⟩
  · decide +kernel
  · decide +kernel
  · decide +kernel
  · change _ = _
    decide +kernel
  · decide +kernel
  · exact nofun

end Kyc.Client
