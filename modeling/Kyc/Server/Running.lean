import Kyc.Limits.EnvLimits
import Kyc.Programs.Embedding
import Kyc.Server.Policies

/-! # A running container

What a container holds while requests interleave in it: the world of the service and the
windows of the limiter. Everything else comes from its surroundings. Whatever discipline
the service's calls keep among each other, all requests keep together.
-/

namespace Kyc.Server

open Http Json Boot Program

/-- What surrounds a container: clocks, randomness, the verifier of sessions, at the `n`-th time
that something is asked of it, and the provider's parser of webhooks. The limiter's clock is
`Date.now`. -/
structure Surroundings where
  now : ℕ → ℚ
  wholeMs : ∀ n, WholeMs (now n)
  timestamp : ℕ → String
  randomNonce : ℕ → String
  verifySession : ℕ → String → Except Thrown (Option String)
  parseWebhookEvent : Text → Except Thrown (Option WebhookEvent)
  wellFormed : ∀ rawBody event, parseWebhookEvent rawBody = .ok (some event) → event.WellFormed

/-- What a container holds: the service's world, the limiter's windows, and how often its
surroundings were asked. -/
structure Process where
  world : World
  windows : RateWindows
  asked : ℕ

namespace Process

/-- A process that was just started over a store. -/
def fresh (w : World) : Process := ⟨w, .empty, 0⟩

/-- The process after its surroundings answered once more. -/
def answered (p : Process) : Process := { p with asked := p.asked + 1 }

end Process

section Handlers

variable (around : Surroundings) (deps : VerificationServiceDeps)

def execApp : Handler AppSig Thrown Process
  | .verifySession token, p => (around.verifySession p.asked token, p.answered)
  | .parseWebhookEvent rawBody, p => (around.parseWebhookEvent rawBody, p.answered)
  | .randomNonce, p => (.ok (around.randomNonce p.asked), p.answered)
  | .timestamp, p => (.ok (around.timestamp p.asked), p.answered)
  | .service o, p => ((exec deps o p.world).1, { p with world := (exec deps o p.world).2 })

def execContainer (limits : RateLimits) : Handler ContainerSig Thrown Process
  | .limit pathname client, p =>
    let decided := rateLimiter limits p.windows ⟨pathname, client, around.now p.asked⟩
    (.ok decided.1, { p.answered with windows := decided.2 })
  | .app o, p => execApp around deps o p

/-- A container that takes requests and lets them go on in the given order. -/
def runContainer (text : NumberText) (backend : Backend) (env : Env) (app : KycApp)
    (p : Process) (events : List (Event (Request × Option String))) : Connections Process :=
  serveRequests text backend env app
    (execContainer around (createServices backend app) (rateLimitsFromEnv env)) p events

theorem embeds_service : Embeds Process.world (exec deps) (execApp around deps)
    (fun o => perform (S := AppSig) (.service o)) :=
  fun o => ⟨.service o, Program.ofExcept, perform_eq (S := AppSig) (.service o),
    fun _ => ⟨rfl, rfl⟩⟩

theorem embeds_app (limits : RateLimits) :
    Embeds id (execApp around deps) (execContainer around deps limits)
      (fun o => perform (S := ContainerSig) (.app o)) :=
  fun o => ⟨.app o, Program.ofExcept, perform_eq (S := ContainerSig) (.app o), fun _ => ⟨rfl, rfl⟩⟩

end Handlers

section Discipline

def Request.sessionToken (request : Request) : String :=
  (bearerToken (request.headers "authorization")).getD ""

/-- Someone whom the verifier can name as the caller of the request. -/
def Request.CalledBy (around : Surroundings) (request : Request) (userId : Option String) : Prop :=
  ∃ n, around.verifySession n request.sessionToken = .ok userId

/-- The request is one for the webhook route. -/
structure Request.PostsWebhook (request : Request) : Prop where
  post : request.method = "POST"
  route : "/webhook/kyc/".toList <+: request.pathname.toList

/-- The request delivers the event: it is a webhook of the app's provider, gets past the
provider's verifier, and its body is read as the event. -/
structure Request.Delivers (backend : Backend) (env : Env) (app : KycApp) (around : Surroundings)
    (request : Request) (event : WebhookEvent) : Prop extends request.PostsWebhook where
  serves : app.servesSessions
  provider : webhookProviderOf request = lit app.provider.name
  verified : deployedVerifier backend.H env app.provider (headersOf request) request.body
  parsed : around.parseWebhookEvent request.body = .ok (some event)

/-- The request opens the page of the session. -/
structure Request.Opens (app : KycApp) (request : Request) (sessionId : String) : Prop where
  serves : app.servesSessions
  get : request.method = "GET"
  route : "/hosted/".toList <+: request.pathname.toList
  session : lastPathSegment request = sessionId

abbrev Somehow {α : Type} : Except Thrown α → Prop := fun _ => True

/-- The calls of the service keep the discipline, for the callers, the events and the pages that
requests come with. -/
structure ServiceKeeps (D : Discipline World) (deps : VerificationServiceDeps)
    (caller : Option String → Prop) (delivered : WebhookEvent → Prop) (opened : String → Prop) :
    Prop where
  start : ∀ {userId}, caller userId → ∀ input, (start deps userId input).Keeps D (exec deps) Somehow
  refresh : ∀ {userId}, caller userId → ∀ sessionId,
    (refresh userId sessionId).Keeps D (exec deps) Somehow
  status : ∀ {userId}, caller userId → ∀ id, (status deps userId id).Keeps D (exec deps) Somehow
  latestForUser : ∀ {userId}, caller userId → ∀ reconciling,
    (latestForUser deps userId reconciling).Keeps D (exec deps) Somehow
  mint : ∀ {userId}, caller userId → ∀ body,
    (mintAccessTokenHttp userId body none).Keeps D (exec deps) Somehow
  hostedPage : ∀ {sessionId}, opened sessionId →
    (hostedPage deps sessionId).Keeps D (exec deps) Somehow
  deliver : ∀ {event}, delivered event → (handleWebhookEvent deps event).Keeps D (exec deps) Somehow

variable {D : Discipline World} {around : Surroundings} {backend : Backend} {env : Env}
  {app : KycApp} {deps : VerificationServiceDeps} {request : Request} {p : Process}
  {caller : Option String → Prop} {delivered : WebhookEvent → Prop} {opened : String → Prop}

/-- Among requests that keep the discipline, the program keeps it too. -/
abbrev AppKeeps (D : Discipline World) (around : Surroundings) (deps : VerificationServiceDeps)
    {α : Type} (Q : Except Thrown α → Prop) (q : App α) : Prop :=
  q.Keeps (D.comap Process.world) (execApp around deps) Q

theorem keeps_aside {o : AppOp} {Q : Except Thrown o.Ans → Prop}
    (h : ∀ p, (execApp around deps o p).2.world = p.world)
    (hQ : ∀ p, Q (execApp around deps o p).1) :
    AppKeeps D around deps Q (perform (S := AppSig) o) := by
  refine keeps_perform (S := AppSig) (fun p hi => ⟨?_, ?_⟩) hQ
  · change D.Inv _
    rwa [h]
  · change D.Le _ _
    rw [h]
    exact D.refl _

theorem keeps_service {α : Type} {Q : Except Thrown α → Prop} {q : Service α}
    (h : q.Keeps D (exec deps) Q) : AppKeeps D around deps Q (App.service q) :=
  h.expand (embeds_service around deps)

theorem keeps_timestamp : AppKeeps D around deps Somehow App.timestamp :=
  keeps_aside (o := .timestamp) (fun _ => rfl) fun _ => trivial

theorem keeps_randomNonce : AppKeeps D around deps Somehow App.randomNonce :=
  keeps_aside (o := .randomNonce) (fun _ => rfl) fun _ => trivial

theorem keeps_authenticate :
    AppKeeps D around deps (fun r => ∀ userId, r = .ok userId → request.CalledBy around userId)
      (authenticate request) :=
  keeps_aside (o := .verifySession _) (fun _ => rfl) fun p _ h => ⟨p.asked, h⟩

theorem AppKeeps.andThen {α β : Type} {Q : Except Thrown α → Prop} {q : App α} {f : α → App β}
    (hq : AppKeeps D around deps Q q)
    (hf : ∀ a, Q (.ok a) → AppKeeps D around deps Somehow (f a)) :
    AppKeeps D around deps Somehow (q >>= f) :=
  hq.bind hf fun _ _ => trivial

theorem keeps_limit (limits : RateLimits) (pathname client : String) :
    (Container.limit pathname client).Keeps (D.comap Process.world)
      (execContainer around deps limits) Somehow :=
  keeps_perform (S := ContainerSig) (o := .limit pathname client)
    (fun p hi => ⟨hi, D.refl p.world⟩) fun _ => trivial

/-- What a webhook awaits of the app, behind its provider and its verifier. -/
theorem deliver_eq (request : Request) :
    Sessions.deliver backend env app request =
      if webhookProviderOf request = lit app.provider.name then
        if deployedVerifier backend.H env app.provider (headersOf request) request.body then
          App.parseWebhookEvent request.body >>= fun
            | none => pure ⟨.number 400, .error "Invalid payload"⟩
            | some event =>
              tryCatch
                (App.service (handleWebhookEvent (createServices backend app) event) >>=
                  fun outcome => pure ⟨.number 200, .result outcome⟩)
                fun _ => pure ⟨.number 500, .error "Processing failed"⟩
        else pure ⟨.number 401, .error "Unauthorized"⟩
      else pure ⟨.number 404, .error "Unknown provider"⟩ := by
  have verify (ip : Option String) :
      (perform (S := WebhookSig WebhookEvent)
          (.verifyWebhook (headersOf request) request.body ip) : Program _ Thrown Bool).expand
        (answerWebhook backend env app) =
      pure (deployedVerifier backend.H env app.provider (headersOf request) request.body) :=
    expand_perform (S := WebhookSig WebhookEvent) _ (.verifyWebhook _ _ ip)
  have read : (perform (S := WebhookSig WebhookEvent)
        (.parseWebhookEvent request.body) : Program _ Thrown (Option WebhookEvent)).expand
      (answerWebhook backend env app) = App.parseWebhookEvent request.body :=
    expand_perform (S := WebhookSig WebhookEvent) _ (.parseWebhookEvent request.body)
  have handle (event : WebhookEvent) :
      (perform (S := WebhookSig WebhookEvent)
          (.handleWebhookEvent event) : Program _ Thrown WebhookOutcome).expand
        (answerWebhook backend env app) =
      App.service (handleWebhookEvent (createServices backend app) event) :=
    expand_perform (S := WebhookSig WebhookEvent) _ (.handleWebhookEvent event)
  unfold Sessions.deliver webhookRoute processWebhookHttp
  split_ifs with hprovider hverified
  · rw [expand_bind, expand_tryCatch, verify, hverified]
    change (perform (S := WebhookSig WebhookEvent) _ >>= _).expand _ = _
    rw [expand_bind, read]
    congr 1
    funext event
    cases event with
    | none => rfl
    | some event =>
      dsimp only
      rw [expand_tryCatch, expand_bind, handle]
      rfl
  · rw [expand_bind, expand_tryCatch, verify, Bool.not_eq_true _ |>.mp hverified]
    rfl
  · rfl

section Routes

variable (hk : ServiceKeeps D (createServices backend app) caller delivered opened)
  (hcaller : ∀ userId, request.CalledBy around userId → caller userId)

include hk

theorem keeps_hosted (ho : opened (lastPathSegment request)) :
    AppKeeps D around (createServices backend app) Somehow
      (Sessions.hosted backend app request) := by
  unfold Sessions.hosted createHostedPageHandler hostedPageHttp
  refine AppKeeps.andThen (Q := Somehow) ?_ fun _ _ => keeps_pure trivial
  refine keeps_randomNonce.andThen fun nonce _ => ?_
  refine (keeps_service (hk.hostedPage ho)).andThen fun decision _ => ?_
  cases decision with
  | page session accessToken => exact keeps_pure trivial
  | not_found status => exact keeps_pure trivial

theorem keeps_webhook (hd : ∀ event, webhookProviderOf request = lit app.provider.name →
      deployedVerifier backend.H env app.provider (headersOf request) request.body →
      around.parseWebhookEvent request.body = .ok (some event) → delivered event) :
    AppKeeps D around (createServices backend app) Somehow
      (Sessions.webhook backend env app request) := by
  unfold Sessions.webhook
  refine AppKeeps.andThen (Q := Somehow) ?_ fun _ _ => keeps_ofExcept trivial
  rw [deliver_eq]
  split_ifs with hprovider hverified
  · refine AppKeeps.andThen (Q := fun r => around.parseWebhookEvent request.body = r)
      (keeps_aside (o := .parseWebhookEvent _) (fun _ => rfl) fun _ => rfl) fun event hparsed => ?_
    cases event with
    | none => exact keeps_pure trivial
    | some event =>
      refine Keeps.tryCatch (Q := Somehow) ?_ (fun _ _ => keeps_pure trivial) fun _ _ => trivial
      exact (keeps_service (hk.deliver (hd event hprovider hverified hparsed))).andThen
        fun _ _ => keeps_pure trivial
  · exact keeps_pure trivial
  · exact keeps_pure trivial

include hcaller

theorem keeps_tokens :
    AppKeeps D around (createServices backend app) Somehow (tokens backend app request) := by
  unfold tokens createAccessTokenApp
  dsimp only
  generalize (if app.origins = [] then none else some app.origins) = cors
  split_ifs
  · exact keeps_pure trivial
  · cases readJson backend.parseJson request with
    | none => exact keeps_pure trivial
    | some body =>
      refine keeps_authenticate.andThen fun userId hu => ?_
      refine (keeps_service (hk.mint (hcaller userId (hu userId rfl)) body)).andThen fun _ _ => ?_
      exact AppKeeps.andThen (keeps_ofExcept (Q := Somehow) trivial) fun _ _ => keeps_pure trivial
  · exact keeps_timestamp.andThen fun _ _ => keeps_pure trivial
  · exact keeps_pure trivial

theorem keeps_graphql :
    AppKeeps D around (createServices backend app) Somehow
      (Sessions.graphql backend app request) := by
  unfold Sessions.graphql
  cases backend.apollo app.introspection
    (httpGraphQLRequestFrom backend.parseJson request) with
  | answered response => exact keeps_ofExcept trivial
  | inContext run =>
    refine keeps_authenticate.andThen fun userId hu => ?_
    have called := hcaller userId (hu userId rfl)
    refine AppKeeps.andThen (keeps_expand (fun resolver => ?_) run)
      fun _ _ => keeps_ofExcept trivial
    cases resolver with
    | health => exact keeps_timestamp
    | verificationSession id => exact keeps_service (hk.status called _)
    | myVerification reconcile => exact keeps_service (hk.latestForUser called _)
    | verificationSessionStart input => exact keeps_service (hk.start called _)
    | verificationSessionRefresh sessionId => exact keeps_service (hk.refresh called _)

variable (hdelivered : ∀ event, request.Delivers backend env app around event → delivered event)
  (hopened : ∀ sessionId, request.Opens app sessionId → opened sessionId)

include hdelivered hopened

theorem keeps_route :
    AppKeeps D around (createServices backend app) Somehow (route backend env app request) := by
  have loads : AppKeeps D around (createServices backend app) Somehow
      (Program.ofExcept backend.loaded) := keeps_ofExcept trivial
  unfold route
  split_ifs with health webhook graphql hosted
  · exact keeps_timestamp.andThen fun _ _ => keeps_pure trivial
  · obtain ⟨serves, post, path⟩ := webhook
    refine loads.andThen fun _ _ => (keeps_webhook hk ?_).andThen fun _ _ => keeps_pure trivial
    exact fun event hprovider hverified hparsed =>
      hdelivered event ⟨⟨post, path⟩, serves, hprovider, hverified, hparsed⟩
  · exact loads.andThen fun _ _ => (keeps_graphql hk hcaller).andThen fun _ _ => keeps_pure trivial
  · obtain ⟨serves, get, path⟩ := hosted
    refine loads.andThen fun _ _ => (keeps_hosted hk ?_).andThen fun _ _ => keeps_pure trivial
    exact hopened _ ⟨serves, get, path, rfl⟩
  · exact (keeps_tokens hk hcaller).andThen fun _ _ => keeps_pure trivial

theorem keeps_app :
    AppKeeps D around (createServices backend app) Somehow (app.fetch backend env request) := by
  unfold KycApp.fetch
  dsimp only
  split_ifs
  · exact keeps_pure trivial
  · exact (keeps_route hk hcaller hdelivered hopened).andThen fun _ _ => keeps_pure trivial

theorem keeps_fetch (text : NumberText) (limits : RateLimits) (address : Option String) :
    (fetch text backend env app request address).Keeps (D.comap Process.world)
      (execContainer around (createServices backend app) limits) Somehow := by
  have reached : (Container.app (app.fetch backend env request)).Keeps (D.comap Process.world)
      (execContainer around (createServices backend app) limits) Somehow :=
    (keeps_app hk hcaller hdelivered hopened).expand
      (embeds_app around (createServices backend app) limits)
  unfold fetch
  refine (keeps_limit limits _ _).bind (fun decision _ => ?_) fun _ _ => trivial
  cases decision with
  | none => exact reached
  | some decision =>
    dsimp only
    split
    · exact reached.bind (fun _ _ => keeps_pure trivial) fun _ _ => trivial
    · exact keeps_pure trivial

end Routes

/-- What the service's calls keep for the callers and events of the requests, the container keeps
in every interleaving of the requests. -/
theorem inv_runContainer {events : List (Event (Request × Option String))}
    (hk : ServiceKeeps D (createServices backend app)
      (fun userId => ∃ c, .start c ∈ events ∧ c.1.CalledBy around userId)
      (fun event => ∃ c, .start c ∈ events ∧ c.1.Delivers backend env app around event)
      (fun sessionId => ∃ c, .start c ∈ events ∧ c.1.Opens app sessionId))
    (hi : D.Inv p.world) (text : NumberText) :
    D.Inv (runContainer around text backend env app p events).state.world := by
  have hprog (c : Request × Option String) (hc : .start c ∈ events) :
      (fetch text backend env app c.1 c.2).Keeps (D.comap Process.world)
        (execContainer around (createServices backend app) (rateLimitsFromEnv env)) Somehow :=
    keeps_fetch hk (fun _ called => ⟨c, hc, called⟩) (fun _ delivers => ⟨c, hc, delivers⟩)
      (fun _ opens => ⟨c, hc, opens⟩) ..
  exact (Pool.keeps_run (D := D.comap Process.world) hi hprog).inv

end Discipline

end Kyc.Server
