import Kyc.Limits.Admissions
import Kyc.Programs.Ghosts
import Kyc.Server.Provenance

/-! # Behind the limiter

Every connection first asks the limiter, once and as itself, and takes no step in the app
unless it was let in. The order in which connections ask is the order of the limiter's
requests, whatever else happens in between.
-/

namespace Kyc.Server

open Http Json Boot Program

/-- What a step of a connection is: the limiter decides on its request, or the app goes on. -/
inductive Turn
  | asked (request : RateRequest) (decision : Option RateLimitDecision)
  | reached

def limiterLog (turns : List (ℕ × Turn)) : List (RateRequest × Option RateLimitDecision) :=
  turns.filterMap fun
    | (_, .asked request decision) => some (request, decision)
    | (_, .reached) => none

def askers (turns : List (ℕ × Turn)) : List ℕ :=
  turns.filterMap fun
    | (i, .asked _ _) => some i
    | (_, .reached) => none

def counterOf (app : KycApp) (c : Request × Option String) : Option (LimitedRoute × String) :=
  (limitedRoute c.1.pathname).map (·, clientOf app.trustProxy c.1 c.2)

def refusal (text : NumberText) (app : KycApp) (request : Request)
    (decision : RateLimitDecision) : Response Body :=
  withDefaults (withDefaults (tooManyRequests text decision) (corsHeaders app.origins request))
    securityHeaders

section Turns

variable (text : NumberText) (backend : Backend) (env : Env) (app : KycApp)
  (around : Surroundings) (deps : VerificationServiceDeps) (limits : RateLimits)

def turnOf (p : Process) : Container (Response Body) → Option Turn
  | .await (.limit pathname client) _ =>
    let request : RateRequest := ⟨pathname, client, around.now p.asked⟩
    some (.asked request (rateLimiter limits p.windows request).1)
  | .await (.app _) _ => some .reached
  | .ret _ => none
  | .err _ => none

def turnsOf (w : World) (connections : List (Request × Option String)) (steps : List ℕ) :
    List (ℕ × Turn) :=
  (runContainer around text backend env app (.fresh w) (connections.map .start)).trace
    (execContainer around (createServices backend app) (rateLimitsFromEnv env))
    (fun c => fetch text backend env app c.1 c.2) (turnOf around (rateLimitsFromEnv env)) steps

def OfApp : ContainerOp → Prop
  | .app _ => True
  | .limit _ _ => False

/-- How far a connection is. -/
inductive Standing (c : Request × Option String) (turns : List (ℕ × Turn)) (i : ℕ) :
    Container (Response Body) → Prop
  | waiting (unasked : ∀ turn, (i, turn) ∉ turns) :
      Standing c turns i (fetch text backend env app c.1 c.2)
  | inside {rest : Container (Response Body)}
      (asked : ∃ request decision, (i, .asked request decision) ∈ turns)
      (let_in : ∀ request decision, (i, .asked request decision) ∈ turns → admits decision)
      (uses : rest.Uses OfApp) : Standing c turns i rest
  | refused {decision : RateLimitDecision} (denied : decision.allowed = false)
      (answered : ∀ request decision', (i, .asked request decision') ∈ turns →
        decision' = some decision) :
      Standing c turns i (.ret (refusal text app c.1 decision))

/-- What the turns so far say about the connections and the limiter. -/
structure Course (connections : List (Request × Option String)) (pool : Connections Process)
    (turns : List (ℕ × Turn)) : Prop where
  calls : pool.threads.map Thread.call = connections
  standing : ∀ i t, pool.threads[i]? = some t →
    Standing text backend env app t.call turns i t.rest
  windows : pool.state.windows =
    Reactions.run (afterRequest limits) .empty ((limiterLog turns).map Prod.fst)
  served : limiterLog turns = serve limits .empty ((limiterLog turns).map Prod.fst)
  earlier : ∀ x ∈ limiterLog turns, ∃ n ≤ pool.state.asked, x.1.now = around.now n
  sorted : ((limiterLog turns).map Prod.fst |>.map RateRequest.now).Pairwise (· ≤ ·)
  own : ∀ i request decision, (i, .asked request decision) ∈ turns →
    ∃ c, connections[i]? = some c ∧ request.pathname = c.1.pathname ∧
      request.client = clientOf app.trustProxy c.1 c.2
  once : (askers turns).Nodup
  guarded : ∀ past i later, turns = past ++ (i, .reached) :: later →
    ∃ request decision, (i, .asked request decision) ∈ past ∧ admits decision

end Turns

section Steps

variable {text : NumberText} {backend : Backend} {env : Env} {app : KycApp}
  {around : Surroundings} {deps : VerificationServiceDeps} {limits : RateLimits}
  {connections : List (Request × Option String)} {pool : Connections Process}
  {turns : List (ℕ × Turn)} {c : Request × Option String} {i j : ℕ}
  {rest : Container (Response Body)}

@[simp] theorem limiterLog_append (turns turns' : List (ℕ × Turn)) :
    limiterLog (turns ++ turns') = limiterLog turns ++ limiterLog turns' :=
  List.filterMap_append

@[simp] theorem askers_append (turns turns' : List (ℕ × Turn)) :
    askers (turns ++ turns') = askers turns ++ askers turns' :=
  List.filterMap_append

theorem mem_limiterLog {x : RateRequest × Option RateLimitDecision} :
    x ∈ limiterLog turns ↔ ∃ i, (i, .asked x.1 x.2) ∈ turns := by
  simp only [limiterLog, List.mem_filterMap]
  constructor
  · rintro ⟨⟨i, turn⟩, hm, h⟩
    cases turn with
    | asked request decision =>
      obtain rfl := Option.some.inj h
      exact ⟨i, hm⟩
    | reached => cases h
  · rintro ⟨i, hm⟩
    exact ⟨_, hm, rfl⟩

theorem mem_askers :
    i ∈ askers turns ↔ ∃ request decision, (i, .asked request decision) ∈ turns := by
  simp only [askers, List.mem_filterMap]
  constructor
  · rintro ⟨⟨j, turn⟩, hm, h⟩
    cases turn with
    | asked request decision =>
      obtain rfl := Option.some.inj h
      exact ⟨request, decision, hm⟩
    | reached => cases h
  · rintro ⟨request, decision, hm⟩
    exact ⟨_, hm, rfl⟩

theorem Standing.of_other (h : Standing text backend env app c turns i rest) (hij : j ≠ i)
    (turn : Turn) : Standing text backend env app c (turns ++ [(j, turn)]) i rest := by
  have others {turn' : Turn} (hm : (i, turn') ∈ turns ++ [(j, turn)]) : (i, turn') ∈ turns := by
    rcases List.mem_append.mp hm with hm | hm
    · exact hm
    · exact absurd (congrArg Prod.fst (List.mem_singleton.mp hm)).symm hij
  cases h with
  | waiting unasked => exact .waiting fun turn' hm => unasked turn' (others hm)
  | inside asked let_in uses =>
    obtain ⟨request, decision, hm⟩ := asked
    exact .inside ⟨request, decision, List.mem_append_left _ hm⟩
      (fun request decision hm => let_in request decision (others hm)) uses
  | refused denied answered =>
    exact .refused denied fun request decision hm => answered request decision (others hm)

theorem uses_app {α : Type} (p : App α) : (Container.app p).Uses OfApp := by
  refine uses_expand (fun o => ?_) p
  exact uses_perform.mpr trivial

def afterDecision (text : NumberText) (backend : Backend) (env : Env) (app : KycApp)
    (request : Request) : Option RateLimitDecision → Container (Response Body)
  | none => Container.app (app.fetch backend env request)
  | some decision =>
    if decision.allowed then do
      let response ← Container.app (app.fetch backend env request)
      pure (withHeaders response (rateLimitHeaders text decision))
    else pure (refusal text app request decision)

theorem fetch_eq (c : Request × Option String) :
    fetch text backend env app c.1 c.2 =
      .await (.limit c.1.pathname (clientOf app.trustProxy c.1 c.2)) fun r =>
        Program.ofExcept r >>= afterDecision text backend env app c.1 := by
  have cont : afterDecision text backend env app c.1 = fun decision => match decision with
      | none => Container.app (app.fetch backend env c.1)
      | some decision =>
        if decision.allowed then do
          let response ← Container.app (app.fetch backend env c.1)
          pure (withHeaders response (rateLimitHeaders text decision))
        else pure (refusal text app c.1 decision) := by
    funext decision
    cases decision <;> rfl
  rw [cont]
  unfold fetch Container.limit
  rw [perform_eq]
  rfl

theorem standing_afterDecision {request : RateRequest} {decision : Option RateLimitDecision}
    (unasked : ∀ turn, (i, turn) ∉ turns) :
    Standing text backend env app c (turns ++ [(i, .asked request decision)]) i
      (afterDecision text backend env app c.1 decision) := by
  have own {request' decision'} (hm : (i, Turn.asked request' decision') ∈
      turns ++ [(i, .asked request decision)]) : decision' = decision := by
    rcases List.mem_append.mp hm with hm | hm
    · exact absurd hm (unasked _)
    · simp only [List.mem_singleton, Prod.mk.injEq, Turn.asked.injEq] at hm
      exact hm.2.2
  have asked : ∃ request' decision', (i, Turn.asked request' decision') ∈
      turns ++ [(i, .asked request decision)] :=
    ⟨request, decision, List.mem_append_right _ List.mem_cons_self⟩
  cases decision with
  | none =>
    refine .inside asked (fun _ _ hm => ?_) (uses_app _)
    rw [own hm]
    rfl
  | some decision =>
    cases ha : decision.allowed with
    | true =>
      refine .inside asked (fun _ _ hm => ?_) ?_
      · rw [own hm]
        exact ha
      · rw [afterDecision, if_pos ha]
        exact (uses_app _).bind fun _ => uses_pure _
    | false =>
      rw [afterDecision, if_neg (by simp [ha])]
      exact .refused ha fun _ _ hm => own hm

theorem map_call_set {t : Thread ContainerSig Thrown (Response Body) (Request × Option String)}
    (hi : pool.threads[i]? = some t) (rest : Container (Response Body)) :
    (pool.threads.set i ⟨t.call, rest⟩).map Thread.call = pool.threads.map Thread.call := by
  obtain ⟨hlt, rfl⟩ := List.getElem?_eq_some_iff.mp hi
  rw [List.map_set, ← List.getElem_map Thread.call]
  · exact List.set_getElem_self _
  · rwa [List.length_map]

theorem Course.get (h : Course text backend env app around limits connections pool turns)
    {t : Thread ContainerSig Thrown (Response Body) (Request × Option String)}
    (hi : pool.threads[i]? = some t) : connections[i]? = some t.call := by
  rw [← h.calls, List.getElem?_map, hi]
  rfl

/-- A turn of the limiter: the connection asks it as itself. -/
theorem Course.asked (h : Course text backend env app around limits connections pool turns)
    (hclock : Monotone around.now) {t : Thread ContainerSig Thrown (Response Body) _}
    (hi : pool.threads[i]? = some t) (unasked : ∀ turn, (i, turn) ∉ turns) :
    let request : RateRequest :=
      ⟨t.call.1.pathname, clientOf app.trustProxy t.call.1 t.call.2, around.now pool.state.asked⟩
    let decided := rateLimiter limits pool.state.windows request
    Course text backend env app around limits connections
      { state := { pool.state.answered with windows := decided.2 }
        threads := pool.threads.set i
          ⟨t.call, afterDecision text backend env app t.call.1 decided.1⟩ }
      (turns ++ [(i, .asked request decided.1)]) := by
  intro request decided
  have log : limiterLog [(i, .asked request decided.1)] = [(request, decided.1)] := rfl
  constructor
  case calls => exact (map_call_set hi _).trans h.calls
  case standing =>
    intro j t' ht'
    by_cases hij : i = j
    · subst hij
      obtain rfl := Option.some.inj
        ((List.getElem?_set_self (List.getElem?_eq_some_iff.mp hi).1).symm.trans ht')
      exact standing_afterDecision unasked
    · exact (h.standing j t' ((List.getElem?_set_ne hij).symm.trans ht')).of_other hij _
  case windows =>
    change decided.2 = _
    rw [limiterLog_append, log, List.map_append, List.map_singleton, Reactions.run_concat,
      ← h.windows]
    rfl
  case served =>
    rw [limiterLog_append, log, List.map_append, List.map_singleton, serve_concat, ← h.served,
      ← h.windows]
  case earlier =>
    intro x hx
    rw [limiterLog_append, log] at hx
    rcases List.mem_append.mp hx with hx | hx
    · obtain ⟨n, hn, heq⟩ := h.earlier x hx
      exact ⟨n, hn.trans (Nat.le_succ _), heq⟩
    · rw [List.mem_singleton.mp hx]
      exact ⟨pool.state.asked, Nat.le_succ _, rfl⟩
  case sorted =>
    rw [limiterLog_append, log, List.map_append, List.map_append]
    refine List.pairwise_append.mpr ⟨h.sorted, List.pairwise_singleton _ _, ?_⟩
    rintro _ hx _ hy
    obtain ⟨_, hr, rfl⟩ := List.mem_map.mp hx
    obtain ⟨x, hm, rfl⟩ := List.mem_map.mp hr
    rw [List.mem_singleton.mp hy]
    obtain ⟨n, hn, heq⟩ := h.earlier x hm
    exact heq.trans_le (hclock hn)
  case own =>
    intro j request' decision' hm
    rcases List.mem_append.mp hm with hm | hm
    · exact h.own j request' decision' hm
    · simp only [List.mem_singleton, Prod.mk.injEq, Turn.asked.injEq] at hm
      obtain ⟨rfl, rfl, -⟩ := hm
      exact ⟨t.call, h.get hi, rfl, rfl⟩
  case once =>
    have single : askers [(i, .asked request decided.1)] = [i] := rfl
    rw [askers_append, single]
    refine List.nodup_append.mpr ⟨h.once, List.nodup_singleton i, ?_⟩
    rintro j hj _ hi' rfl
    obtain ⟨request', decision', hm⟩ := mem_askers.mp hj
    rw [List.mem_singleton.mp hi'] at hm
    exact unasked _ hm
  case guarded =>
    intro past j later heq
    rcases List.append_eq_append_iff.mp heq with ⟨tail, rfl, htail⟩ | ⟨tail, rfl, htail⟩
    · cases tail with
      | nil => cases htail
      | cons first tail => simp at htail
    · cases tail with
      | nil => cases htail
      | cons first tail =>
        obtain ⟨rfl, rfl⟩ := List.cons.inj htail
        exact h.guarded past j tail rfl

/-- A turn of the app, which leaves the limiter alone. -/
theorem Course.reached (h : Course text backend env app around limits connections pool turns)
    {t : Thread ContainerSig Thrown (Response Body) _} (hi : pool.threads[i]? = some t)
    {rest : Container (Response Body)} (uses : rest.Uses OfApp)
    (asked : ∃ request decision, (i, .asked request decision) ∈ turns)
    (let_in : ∀ request decision, (i, .asked request decision) ∈ turns → admits decision)
    {p : Process} (hw : p.windows = pool.state.windows) (hp : pool.state.asked ≤ p.asked) :
    Course text backend env app around limits connections
      { state := p, threads := pool.threads.set i ⟨t.call, rest⟩ } (turns ++ [(i, .reached)]) := by
  have log : limiterLog (turns ++ [(i, .reached)]) = limiterLog turns := by
    rw [limiterLog_append]
    exact List.append_nil _
  have kept {j request decision} (hm : (j, Turn.asked request decision) ∈
      turns ++ [(i, .reached)]) : (j, Turn.asked request decision) ∈ turns := by
    simpa using hm
  constructor
  case calls => exact (map_call_set hi _).trans h.calls
  case standing =>
    intro j t' ht'
    by_cases hij : i = j
    · subst hij
      obtain rfl := Option.some.inj
        ((List.getElem?_set_self (List.getElem?_eq_some_iff.mp hi).1).symm.trans ht')
      obtain ⟨request, decision, hm⟩ := asked
      exact .inside ⟨request, decision, List.mem_append_left _ hm⟩
        (fun request decision hm => let_in request decision (kept hm)) uses
    · exact (h.standing j t' ((List.getElem?_set_ne hij).symm.trans ht')).of_other hij _
  case windows =>
    rw [log]
    exact hw.trans h.windows
  case served => rw [log]; exact h.served
  case earlier =>
    intro x hx
    rw [log] at hx
    obtain ⟨n, hn, heq⟩ := h.earlier x hx
    exact ⟨n, hn.trans hp, heq⟩
  case sorted => rw [log]; exact h.sorted
  case own => exact fun j request decision hm => h.own j request decision (kept hm)
  case once =>
    rw [askers_append]
    exact (List.append_nil (askers turns)).symm ▸ h.once
  case guarded =>
    intro past j later heq
    rcases List.append_eq_append_iff.mp heq with ⟨tail, rfl, htail⟩ | ⟨tail, rfl, htail⟩
    · cases tail with
      | nil =>
        obtain ⟨heq, -⟩ := List.cons.inj htail
        obtain rfl : i = j := congrArg Prod.fst heq
        obtain ⟨request, decision, hm⟩ := asked
        rw [List.append_nil]
        exact ⟨request, decision, hm, let_in request decision hm⟩
      | cons first tail => simp at htail
    · cases tail with
      | nil =>
        obtain ⟨heq, -⟩ := List.cons.inj htail
        obtain rfl : j = i := congrArg Prod.fst heq
        obtain ⟨request, decision, hm⟩ := asked
        rw [List.append_nil] at hm let_in
        exact ⟨request, decision, hm, let_in request decision hm⟩
      | cons first tail =>
        obtain ⟨rfl, rfl⟩ := List.cons.inj htail
        exact h.guarded past j tail rfl

theorem Course.outcome (h : Course text backend env app around limits connections pool turns)
    (hc : connections[i]? = some c) {request : RateRequest} {decision : RateLimitDecision}
    (hm : (i, .asked request (some decision)) ∈ turns) (denied : decision.allowed = false) :
    pool.outcome i = some (.ok (refusal text app c.1 decision)) := by
  rw [← h.calls, List.getElem?_map] at hc
  obtain ⟨t, hi, rfl⟩ := Option.map_eq_some_iff.mp hc
  have standing := h.standing i t hi
  rw [Pool.outcome, hi]
  dsimp only
  generalize t.rest = rest at standing
  cases standing with
  | waiting unasked => exact absurd hm (unasked _)
  | inside _ let_in _ =>
    have allowed := let_in request _ hm
    rw [admits, denied] at allowed
    cases allowed
  | refused _ answered =>
    obtain rfl := Option.some.inj (answered request _ hm)
    rfl

theorem turnOf_of_settled (p : Process) (rest : Container (Response Body))
    (h : rest.result ≠ none) : turnOf around limits p rest = none := by
  cases rest with
  | ret | err => rfl
  | await => exact absurd rfl h

theorem windows_execApp (around : Surroundings) (deps : VerificationServiceDeps) (o : AppOp)
    (p : Process) : (execApp around deps o p).2.windows = p.windows ∧
      p.asked ≤ (execApp around deps o p).2.asked := by
  cases o with
  | service o => exact ⟨rfl, le_rfl⟩
  | _ => exact ⟨rfl, Nat.le_succ _⟩

variable (deps) in
/-- Every step keeps the course of the connections. -/
theorem Course.step (h : Course text backend env app around limits connections pool turns)
    (hclock : Monotone around.now) (i : ℕ) :
    Course text backend env app around limits connections
      (pool.next (execContainer around deps limits) (fun c => fetch text backend env app c.1 c.2)
        (.step i))
      (turns ++ pool.noted (turnOf around limits) i) := by
  obtain ⟨hnext, hnoted⟩ | ⟨t, o, k, hi, hr, hnext, hnoted⟩ :
      pool.next (execContainer around deps limits)
        (fun c => fetch text backend env app c.1 c.2) (.step i) = pool ∧ _ ∨ _ :=
    Pool.noted_cases turnOf_of_settled pool i
  · rw [hnext, hnoted, List.append_nil]
    exact h
  · rw [hnext, hnoted]
    have standing := h.standing i t hi
    rw [hr] at standing ⊢
    generalize hrest : Program.await o k = rest at standing
    cases standing with
    | waiting unasked =>
      rw [fetch_eq] at hrest
      obtain ⟨rfl, hk⟩ := Program.await.inj hrest
      obtain rfl := eq_of_heq hk
      exact h.asked hclock hi unasked
    | inside asked let_in uses =>
      subst hrest
      cases o with
      | limit pathname client => exact uses.1.elim
      | app o =>
        obtain ⟨hw, hp⟩ := windows_execApp around deps o pool.state
        exact h.reached hi (uses.2 _) asked let_in hw hp
    | refused => cases hrest

/-- The course of connections that are open and have taken no turn yet. -/
theorem course_start (w : World) :
    Course text backend env app around limits connections
      (runContainer around text backend env app (.fresh w) (connections.map .start)) [] := by
  have opened : runContainer around text backend env app (.fresh w) (connections.map .start) =
      { state := .fresh w
        threads := connections.map fun c => ⟨c, fetch text backend env app c.1 c.2⟩ } := by
    rw [runContainer, serveRequests, Pool.run_start]
    rfl
  constructor
  case calls =>
    rw [opened, List.map_map]
    exact List.map_id connections
  case standing =>
    intro i t hi
    rw [opened] at hi
    obtain ⟨c, -, rfl⟩ := Option.map_eq_some_iff.mp ((List.getElem?_map ..).symm.trans hi)
    exact .waiting fun _ => List.not_mem_nil
  case windows =>
    rw [opened]
    rfl
  case served => rfl
  case earlier => exact fun _ hx => absurd hx List.not_mem_nil
  case sorted => exact .nil
  case own => exact fun _ _ _ hm => absurd hm List.not_mem_nil
  case once => exact List.nodup_nil
  case guarded => exact fun past _ _ heq => absurd heq.symm (by simp)

end Steps

section Main

variable (text : NumberText) (backend : Backend) {env : Env} (app : KycApp)
  {around : Surroundings}

/-- What the limiter does for a container, by the turns that connections took in it. -/
structure Gated (text : NumberText) (app : KycApp) (limits : RateLimits)
    (connections : List (Request × Option String)) (turns : List (ℕ × Turn))
    (pool : Connections Process) : Prop where
  /-- A connection asks at most once, as what it is. -/
  once : (askers turns).Nodup
  own : ∀ i request decision, (i, .asked request decision) ∈ turns →
    ∃ c, connections[i]? = some c ∧ request.counter = counterOf app c
  /-- It is in the app only after it was let in. -/
  guarded : ∀ past i later, turns = past ++ (i, .reached) :: later →
    ∃ request decision, (i, .asked request decision) ∈ past ∧ admits decision
  /-- Within any minute no more than twice the limit of a client's connections are let in. -/
  bounded : ∀ counter since, ((admissions counter (limiterLog turns)).countP fun t =>
    since ≤ t ∧ t < since + rateLimitWindowMs : ℕ) ≤ 2 * limits.of counter.1
  /-- A connection is turned away only if in the minute before the client's limit was let in, and
  is told to come back within the minute after. -/
  refused : ∀ i request decision, (i, .asked request (some decision)) ∈ turns →
    decision.allowed = false → ∃ c counter, connections[i]? = some c ∧
      counterOf app c = some counter ∧
      pool.outcome i = some (.ok (refusal text app c.1 decision)) ∧
      limits.of counter.1 < ((admissions counter (limiterLog turns)).countP fun t =>
        t ≤ request.now ∧ request.now < t + rateLimitWindowMs : ℕ) + 1 ∧
      1 ≤ decision.resetSeconds ∧ decision.resetSeconds ≤ 60

theorem dedup_length_le {α : Type} [DecidableEq α] {xs ys : List α} (h : xs ⊆ ys) :
    xs.dedup.length ≤ ys.dedup.length :=
  (List.subperm_of_subset (List.nodup_dedup xs) fun _ hx =>
    List.mem_dedup.mpr (h (List.mem_dedup.mp hx))).length_le

theorem counter_of_mem_serve {limits : RateLimits} {windows : RateWindows}
    {requests : List RateRequest} {request : RateRequest} {decision : RateLimitDecision}
    (hm : (request, some decision) ∈ serve limits windows requests) :
    ∃ counter, request.counter = some counter := by
  induction requests generalizing windows with
  | nil => cases hm
  | cons first requests ih =>
    rcases List.mem_cons.mp hm with heq | hm
    · obtain ⟨rfl, hdecision⟩ := Prod.mk.inj heq
      refine Option.ne_none_iff_exists'.mp fun hc => ?_
      rw [rateLimiter_of_none hc] at hdecision
      cases hdecision
    · exact ih hm

/-- In every interleaving of the connections of fewer clients than the limiter has windows for, no
connection gets to the app without the limiter, which lets no more than twice the limit of a client
in within any minute, and turns none away before the limit is used up. -/
theorem connections_are_gated (limited : ∀ route, 1 ≤ (rateLimitsFromEnv env).of route)
    (hclock : Monotone around.now) (w : World) (connections : List (Request × Option String))
    (few : (connections.filterMap (counterOf app)).dedup.length < rateLimitMaxWindows)
    (steps : List ℕ) :
    Gated text app (rateLimitsFromEnv env) connections
      (turnsOf text backend env app around w connections steps)
      (runContainer around text backend env app (.fresh w)
        (connections.map .start ++ steps.map .step)) := by
  have course : Course text backend env app around (rateLimitsFromEnv env) connections
      (runContainer around text backend env app (.fresh w)
        (connections.map .start ++ steps.map .step))
      (turnsOf text backend env app around w connections steps) := by
    have run := Pool.trace_invariant
      (I := Course text backend env app around (rateLimitsFromEnv env) connections)
      (fun _ _ i h => h.step (createServices backend app) hclock i) (course_start w) steps
    rw [List.nil_append] at run
    rwa [runContainer, serveRequests, Pool.run_append]
  generalize turnsOf text backend env app around w connections steps = turns at course ⊢
  have own : ∀ i request decision, (i, .asked request decision) ∈ turns →
      ∃ c, connections[i]? = some c ∧ request.counter = counterOf app c := by
    intro i request decision hm
    obtain ⟨c, hc, path, client⟩ := course.own i request decision hm
    exact ⟨c, hc, by rw [RateRequest.counter, path, client, counterOf]⟩
  have keys : (((limiterLog turns).map Prod.fst).filterMap RateRequest.counter).dedup.length <
      rateLimitMaxWindows := by
    refine lt_of_le_of_lt (dedup_length_le fun counter hc => ?_) few
    obtain ⟨request, hr, hcounter⟩ := List.mem_filterMap.mp hc
    obtain ⟨x, hx, rfl⟩ := List.mem_map.mp hr
    obtain ⟨i, hm⟩ := mem_limiterLog.mp hx
    obtain ⟨c, hget, heq⟩ := own i _ _ hm
    exact List.mem_filterMap.mpr ⟨c, List.mem_of_getElem? hget, heq ▸ hcounter⟩
  have whole : ∀ request ∈ (limiterLog turns).map Prod.fst, WholeMs request.now := by
    intro request hr
    obtain ⟨x, hx, rfl⟩ := List.mem_map.mp hr
    obtain ⟨n, -, heq⟩ := course.earlier x hx
    exact heq ▸ around.wholeMs n
  constructor
  case once => exact course.once
  case own => exact own
  case guarded => exact course.guarded
  case bounded =>
    intro counter since
    rw [course.served]
    exact countP_admissions_le limited keys counter course.sorted whole since
  case refused =>
    intro i request decision hm denied
    obtain ⟨c, hc, hcounter⟩ := own i request _ hm
    have served : (request, some decision) ∈
        serve (rateLimitsFromEnv env) .empty ((limiterLog turns).map Prod.fst) := by
      rw [← course.served]
      exact mem_limiterLog.mpr ⟨i, hm⟩
    obtain ⟨counter, hcount⟩ := counter_of_mem_serve served
    have away := turned_away limited keys counter course.sorted whole served hcount denied
    rw [← course.served] at away
    refine ⟨c, counter, hc, hcounter.symm.trans hcount, course.outcome hc hm denied, away⟩

def scarceEnv : Env := fun name =>
  if name = "RATE_LIMIT_TOKEN_PER_MIN" then some (lit "1") else none

theorem one_le_scarceEnv (route : LimitedRoute) : 1 ≤ (rateLimitsFromEnv scarceEnv).of route := by
  cases route <;> decide +kernel

def tokenRequest : Request × Option String :=
  (⟨"POST", "/verification/token", "", .ofRecord [], []⟩, some "10.0.0.1")

/-- The second of two requests from one address is turned away. -/
theorem connections_are_gated_twice :
    let turns := turnsOf (fun _ => "") startingBackend scarceEnv sessionsApp quietSurroundings
      .empty [tokenRequest, tokenRequest] [0, 1]
    ((limiterLog turns).map fun x => admits x.2) = [true, false] ∧
      Gated (fun _ => "") sessionsApp (rateLimitsFromEnv scarceEnv) [tokenRequest, tokenRequest]
        turns (runContainer quietSurroundings (fun _ => "") startingBackend scarceEnv sessionsApp
          (.fresh .empty) ([tokenRequest, tokenRequest].map .start ++ [0, 1].map .step)) :=
  ⟨by decide +kernel, connections_are_gated _ _ _ one_le_scarceEnv (fun _ _ _ => le_rfl) _
    [tokenRequest, tokenRequest] (by decide +kernel) [0, 1]⟩

end Main

end Kyc.Server
