import Kyc.Server.Provenance
import Kyc.Service.Authority

/-! # Whom the provider works for

A request that nobody is verified for makes the provider do nothing but serve the page it
names. Every other call is made for a caller that some request was verified for, and about
that caller's sessions only.
-/

namespace Kyc.Server

open Http Json Boot Program

section Authority

variable {deps : VerificationServiceDeps} {caller : Option String → Prop}
  {opened : String → Prop} {before : List ProviderCall} {w : World}

theorem safe_mintAccessTokenHttp {userId : Option String} (called : caller userId)
    (hi : (authority deps caller opened before).Inv w) (body : Option JsonValue) :
    Authority.SafeWith deps caller opened before Anyhow
      (mintAccessTokenHttp userId body none) w := by
  refine Safe.tryCatch_anyhow (Q := Anyhow) ?_ hi fun _ _ _ _ _ => safe_pure_anyhow
  refine safe_decided fun owner ho => safe_decided fun validated _ => ?_
  refine safe_decided fun levelName _ => ?_
  obtain ⟨rfl, named⟩ := truthy_eq_some.mp (requireUser_eq_ok.mp ho)
  refine Safe.bind_anyhow (Q := Anyhow) ?_ hi fun minted _ _ _ _ => safe_pure_anyhow
  exact Safe.tryCatch_anyhow
    (Authority.safe_provider fun _ _ => .mint called named { validated with levelName }) hi
    fun _ _ _ _ _ => safe_throw_anyhow

theorem serviceKeeps_authority (deps : VerificationServiceDeps) (caller : Option String → Prop)
    (delivered : WebhookEvent → Prop) (opened : String → Prop) (before : List ProviderCall) :
    ServiceKeeps (authority deps caller opened before) deps caller delivered opened where
  start called input := ⟨fun _ hi => Authority.safe_start called hi input⟩
  refresh called sessionId := ⟨fun _ hi => Authority.safe_refresh called hi sessionId⟩
  status called id := ⟨fun _ hi => Authority.safe_status called hi id⟩
  latestForUser called reconciling :=
    ⟨fun _ hi => Authority.safe_latestForUser called hi reconciling⟩
  mint called body := ⟨fun _ hi => safe_mintAccessTokenHttp called hi body⟩
  hostedPage ho := ⟨fun _ hi => Authority.safe_hostedPage ho hi⟩
  deliver {event} _ := ⟨fun _ hi => Authority.safe_handleWebhookEvent hi event⟩

end Authority

section Verification

/-- What may be asked on the way of a request: the verifier, about the request's own token. -/
def Asked (request : Request) : AppOp → Prop
  | .verifySession token => token = request.sessionToken
  | _ => True

/-- The program asks the verifier about the request's own token only. -/
structure AsksFor {α : Type} (request : Request) (q : App α) : Prop where
  uses : q.Uses (Asked request)

variable {α β : Type} {backend : Backend} {env : Env} {app : KycApp} {request : Request}

theorem AsksFor.bind {q : App α} {f : α → App β} (hq : AsksFor request q)
    (hf : ∀ a, AsksFor request (f a)) : AsksFor request (q >>= f) :=
  ⟨hq.uses.bind fun a => (hf a).uses⟩

theorem asksFor_pure (a : α) : AsksFor request (pure a) := ⟨uses_pure a⟩

theorem asksFor_ofExcept (r : Except Thrown α) : AsksFor request (Program.ofExcept r) :=
  ⟨uses_ofExcept r⟩

theorem asksFor_expand {S : Kyc.Signature} {f : (o : S.Op) → App (S.Ans o)}
    (hf : ∀ o, AsksFor request (f o)) (q : Program S Thrown α) : AsksFor request (q.expand f) :=
  ⟨uses_expand (fun o => (hf o).uses) q⟩

theorem asksFor_service (q : Service α) : AsksFor request (App.service q) := by
  refine asksFor_expand (fun _ => ⟨?_⟩) q
  exact uses_perform.mpr trivial

theorem asksFor_timestamp : AsksFor request App.timestamp := ⟨uses_perform.mpr trivial⟩

theorem asksFor_authenticate : AsksFor request (authenticate request) := ⟨uses_perform.mpr rfl⟩

theorem asksFor_tokens : AsksFor request (tokens backend app request) := by
  unfold tokens createAccessTokenApp
  dsimp only
  generalize (if app.origins = [] then none else some app.origins) = cors
  split_ifs
  · exact asksFor_pure _
  · cases readJson backend.parseJson request with
    | none => exact asksFor_pure _
    | some body =>
      refine asksFor_authenticate.bind fun userId => (asksFor_service _).bind fun result => ?_
      exact (asksFor_ofExcept _).bind fun _ => asksFor_pure _
  · exact asksFor_timestamp.bind fun _ => asksFor_pure _
  · exact asksFor_pure _

theorem asksFor_webhook : AsksFor request (Sessions.webhook backend env app request) := by
  refine AsksFor.bind (asksFor_expand (fun o => ?_) _) fun result => asksFor_ofExcept _
  cases o with
  | verifyWebhook headers rawBody ip => exact asksFor_pure _
  | parseWebhookEvent rawBody => exact ⟨uses_perform.mpr trivial⟩
  | handleWebhookEvent event => exact asksFor_service _

theorem asksFor_graphql : AsksFor request (Sessions.graphql backend app request) := by
  unfold Sessions.graphql
  cases backend.apollo app.introspection
    (httpGraphQLRequestFrom backend.parseJson request) with
  | answered response => exact asksFor_ofExcept _
  | inContext run =>
    refine asksFor_authenticate.bind fun userId => ?_
    refine (asksFor_expand (fun resolver => ?_) run).bind fun _ => asksFor_ofExcept _
    cases resolver with
    | health => exact asksFor_timestamp
    | verificationSession | myVerification | verificationSessionStart
      | verificationSessionRefresh => exact asksFor_service _

theorem asksFor_hosted : AsksFor request (Sessions.hosted backend app request) := by
  have nonce : AsksFor request App.randomNonce := ⟨uses_perform.mpr trivial⟩
  refine AsksFor.bind (nonce.bind fun _ => (asksFor_service _).bind fun decision => ?_)
    fun _ => asksFor_pure _
  cases decision with
  | page session accessToken => exact asksFor_pure _
  | not_found status => exact asksFor_pure _

theorem asksFor_route : AsksFor request (route backend env app request) := by
  have loads := (asksFor_ofExcept backend.loaded : AsksFor request _)
  unfold route
  split_ifs
  · exact asksFor_timestamp.bind fun _ => asksFor_pure _
  · exact loads.bind fun _ => asksFor_webhook.bind fun _ => asksFor_pure _
  · exact loads.bind fun _ => asksFor_graphql.bind fun _ => asksFor_pure _
  · exact loads.bind fun _ => asksFor_hosted.bind fun _ => asksFor_pure _
  · exact asksFor_tokens.bind fun _ => asksFor_pure _

theorem asksFor_app : AsksFor request (app.fetch backend env request) := by
  unfold KycApp.fetch
  dsimp only
  split_ifs
  · exact asksFor_pure _
  · exact asksFor_route.bind fun _ => asksFor_pure _

def Permitted (request : Request) : ContainerOp → Prop
  | .limit _ _ => True
  | .app o => Asked request o

theorem uses_fetch (text : NumberText) (c : Request × Option String) :
    (fetch text backend env app c.1 c.2).Uses (Permitted c.1) := by
  have reached : (Container.app (app.fetch backend env c.1)).Uses (Permitted c.1) :=
    asksFor_app.uses.expand fun o ho => uses_perform.mpr ho
  unfold fetch
  refine Uses.bind (uses_perform.mpr trivial) fun decision => ?_
  cases decision with
  | none => exact reached
  | some decision =>
    dsimp only
    split_ifs
    · exact reached.bind fun _ => uses_pure _
    · exact uses_pure _

end Verification

section Main

variable (text : NumberText) (backend : Backend) (env : Env) (app : KycApp)
  (around : Surroundings) (p : Process) (events : List (Event (Request × Option String)))

/-- In the run, the verifier is asked about the token at its `n`-th turn, by a step of the
connection. -/
def AsksVerifier (c : Request × Option String) (n : ℕ) (token : String) : Prop :=
  ∃ pre i k, pre ++ [.step i] <+: events ∧
    (runContainer around text backend env app p pre).state.asked = n ∧
    (runContainer around text backend env app p pre).threads[i]? =
      some ⟨c, .await (.app (.verifySession token)) k⟩

/-- In the run, the verifier is asked about the token of the connection's request, and names its
user. -/
def Identifies (c : Request × Option String) (userId : Option String) : Prop :=
  ∃ n, AsksVerifier text backend env app around p events c n c.1.sessionToken ∧
    around.verifySession n c.1.sessionToken = .ok userId

open Classical in
/-- The surroundings of the run, except for a verifier that knows nobody where it is not asked. -/
noncomputable def discreet : Surroundings :=
  { around with
    verifySession := fun n token =>
      if ∃ c, AsksVerifier text backend env app around p events c n token then
        around.verifySession n token
      else .ok none }

variable {text backend env app around p events}

/-- The run does not depend on what the verifier is not asked. -/
theorem runContainer_discreet :
    runContainer (discreet text backend env app around p events) text backend env app p events =
      runContainer around text backend env app p events := by
  refine Pool.run_congr fun pre i t o k hpre hi hrest => ?_
  cases o with
  | limit pathname client => rfl
  | app o =>
    cases o with
    | verifySession token =>
      have asked : ∃ c, AsksVerifier text backend env app around p events c
          (runContainer around text backend env app p pre).state.asked token :=
        ⟨t.call, pre, i, k, hpre, rfl, by rw [← hrest]; exact hi⟩
      exact Prod.ext (if_pos asked) rfl
    | parseWebhookEvent | randomNonce | timestamp | service => rfl

/-- The verifier is asked by requests that came in, and about their own tokens. -/
theorem AsksVerifier.own {c : Request × Option String} {n : ℕ} {token : String}
    (h : AsksVerifier text backend env app around p events c n token) :
    .start c ∈ events ∧ token = c.1.sessionToken := by
  obtain ⟨pre, i, k, hpre, -, hi⟩ := h
  obtain ⟨started, uses⟩ := Pool.uses_of_started
    (fun c _ => uses_fetch text c) p _ (List.mem_of_getElem? hi)
  exact ⟨hpre.subset (List.mem_append_left _ started), uses.1⟩

end Main

/-- However requests interleave, all that the provider is asked is asked for a caller that the
verifier named for one of them, about a session of the caller's own, or for the page of a session
that one of them names. -/
theorem every_provider_call_is_authorized (text : NumberText) (backend : Backend) (env : Env)
    (app : KycApp) (around : Surroundings) (p : Process)
    (fresh : p.world.Fresh (createServices backend app))
    (events : List (Event (Request × Option String))) :
    let w := (runContainer around text backend env app p events).state.world
    ∃ asked, w.providerCalls = p.world.providerCalls ++ asked ∧
      ∀ call ∈ asked, Authorized (createServices backend app)
        (fun userId => ∃ c, .start c ∈ events ∧
          Identifies text backend env app around p events c userId)
        (fun sessionId => ∃ c, .start c ∈ events ∧ c.1.Opens app sessionId) w.tables call := by
  have keeps := serviceKeeps_authority (createServices backend app)
    (fun userId => ∃ c, .start c ∈ events ∧
      c.1.CalledBy (discreet text backend env app around p events) userId)
    (fun event => ∃ c, .start c ∈ events ∧
      c.1.Delivers backend env app (discreet text backend env app around p events) event)
    (fun sessionId => ∃ c, .start c ∈ events ∧ c.1.Opens app sessionId) p.world.providerCalls
  obtain ⟨-, asked, hasked, authorized⟩ :=
    inv_runContainer keeps ⟨fresh, [], (List.append_nil _).symm, by simp⟩ text
  rw [runContainer_discreet] at hasked authorized
  refine ⟨asked, hasked, fun call hc => (authorized call hc).mono ?_⟩
  rintro userId ⟨c, -, n, named⟩
  by_cases asks : ∃ c', AsksVerifier text backend env app around p events c' n c.1.sessionToken
  · have answer : around.verifySession n c.1.sessionToken = .ok (some userId) :=
      (if_pos asks).symm.trans named
    obtain ⟨c', asks⟩ := asks
    obtain ⟨started, own⟩ := asks.own
    rw [own] at asks answer
    exact ⟨c', started, n, asks, answer⟩
  · cases (if_neg asks).symm.trans named

theorem every_provider_call_is_authorized_start :
    let w := (runContainer quietSurroundings (fun _ => "") startingBackend sampleEnv sessionsApp
      (.fresh .empty) approvingRequests).state.world
    w.providerCalls ≠ [] ∧ ∃ asked, w.providerCalls = [] ++ asked ∧
      ∀ call ∈ asked, Authorized (createServices startingBackend sessionsApp)
        (fun userId => ∃ c, .start c ∈ approvingRequests ∧
          Identifies (fun _ => "") startingBackend sampleEnv sessionsApp quietSurroundings
            (.fresh .empty) approvingRequests c userId)
        (fun sessionId => ∃ c, .start c ∈ approvingRequests ∧ c.1.Opens sessionsApp sessionId)
        w.tables call :=
  ⟨by decide +kernel, every_provider_call_is_authorized (fun _ => "") startingBackend sampleEnv
    sessionsApp quietSurroundings (.fresh .empty) (World.fresh_empty _) approvingRequests⟩

end Kyc.Server
