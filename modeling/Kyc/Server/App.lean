import Kyc.Boot.Guard
import Kyc.Server.AccessTokens

/-! # The service as one Fetch handler

`createKycApp` decides from the environment which routes exist: the token mint's and, with
sessions on, the webhook, the hosted page and the GraphQL endpoint. Of the GraphQL server
only that is known that it runs resolvers in the context of a request.
-/

namespace Kyc.Server

open Http Json Boot Sumsub

section Environment

def capabilitiesFromEnv (env : Env) : List Capability :=
  if hasSessions env then [.tokens, .sessions] else [.tokens]

def describeCapabilities (capabilities : List Capability) : String :=
  ", ".intercalate (capabilities.map Capability.name)

def trustsProxy (env : Env) : Bool := env "TRUST_PROXY" = some (lit "true")

def getAllowedOrigins (env : Env) : List Text :=
  ((((env "CORS_ALLOWED_ORIGINS").getD []).splitOn (unit ',')).map fun origin =>
    (origin.dropWhile isTrimmedUnit).rdropWhile isTrimmedUnit).filter (· ≠ [])

structure KycApp where
  capabilities : List Capability
  provider : ProviderName
  origins : List Text
  introspection : Bool
  trustProxy : Bool

/-- The target: where the app runs, and whether its entry can load the sessions. -/
structure KycAppDeps where
  runtime : Runtime
  loadSessions : Bool

def refusingToStart (env : Env) (errors : List Text) : Text :=
  lit ("Refusing to start (capabilities: " ++ describeCapabilities (capabilitiesFromEnv env) ++
    "): ") ++ (lit "; ").intercalate errors

/-- The app for an environment, or the error that keeps it from starting. -/
def createKycApp (protocol : UrlProtocol) (env : Env) (deps : KycAppDeps) : Except Text KycApp :=
  match configErrors protocol env deps.runtime with
  | [] => do
    let provider ← deployedProvider env
    let _ ← sessionVerifierFromEnv protocol env
    if hasSessions env ∧ ¬ deps.loadSessions then
      .error (lit ("Refusing to start: DATABASE_URL asks for sessions, but this target was built "
        ++ "without the sessions module. Deploy the container, or @blinkbitcoin/kyc-service/node"))
    else
      .ok
        { capabilities := capabilitiesFromEnv env
          provider
          origins := getAllowedOrigins env
          introspection := env "KYC_ENV" ≠ some (lit "production")
          trustProxy := trustsProxy env }
  | errors => .error (refusingToStart env errors)

def corsHeaders (origins : List Text) (request : Request) : HeaderRecord :=
  if origins = [] then []
  else ("vary", "origin") :: allowOrigin origins (request.headers "origin")

end Environment

section GraphQL

/-- The resolvers, with the arguments that the schema leaves them. -/
inductive Resolver
  | health
  | verificationSession (id : String)
  | myVerification (reconcile : Option Bool)
  | verificationSessionStart (input : JsonValue)
  | verificationSessionRefresh (sessionId : String)

@[reducible] def Resolver.Ans : Resolver → Type
  | health => String
  | verificationSession _ => SessionView
  | myVerification _ => Option SessionView
  | verificationSessionStart _ => StartResult
  | verificationSessionRefresh _ => RefreshResult

@[reducible] def ResolverSig : Kyc.Signature := ⟨Resolver, Resolver.Ans⟩

/-- The body of a request as the GraphQL server gets it: parsed, or as it is if it is no JSON. -/
inductive GraphQLBody
  | none
  | parsed (value : JsonValue)
  | raw (text : Text)

structure HTTPGraphQLRequest where
  method : String
  headers : Headers
  search : String
  body : GraphQLBody

inductive HTTPGraphQLResponseBody
  | complete (string : Text)
  | chunked (chunks : List Text)

structure HTTPGraphQLResponse where
  status : Option ℕ
  headers : HeaderRecord
  body : HTTPGraphQLResponseBody

/-- What the GraphQL server makes of a request: an answer, or resolvers to run in its context. -/
inductive Execution
  | answered (response : HTTPGraphQLResponse)
  | inContext (resolve : Program ResolverSig Thrown HTTPGraphQLResponse)

/-- The GraphQL server's `executeHTTPGraphQLRequest`, by whether introspection is on. -/
abbrev Apollo := Bool → HTTPGraphQLRequest → Execution

def httpGraphQLRequestFrom (parseJson : Text → Option JsonValue) (request : Request) :
    HTTPGraphQLRequest where
  method := request.method
  headers := request.headers
  search := request.search
  body :=
    if request.method = "POST" ∧ request.body ≠ [] then
      match parseJson request.body with
      | some value => .parsed value
      | none => .raw request.body
    else .none

def graphQLResponseBody : HTTPGraphQLResponseBody → Text
  | .complete string => string
  | .chunked chunks => chunks.flatten

/-- The resolvers over the service, for the user of the context. -/
def resolve (deps : VerificationServiceDeps) (userId : Option String) :
    (resolver : Resolver) → App resolver.Ans
  | .health => App.timestamp
  | .verificationSession id => App.service (status deps userId (some id))
  | .myVerification reconcile => App.service (latestForUser deps userId (reconcile = some true))
  | .verificationSessionStart input => App.service (start deps userId (some input))
  | .verificationSessionRefresh sessionId => App.service (refresh userId (some sessionId))

end GraphQL

section HostedPage

structure HostedPageCspOptions where
  scriptSrc : List String
  connectSrc : List String
  extra : List String

def hostedPageCsp (nonce : String) (options : HostedPageCspOptions) : String :=
  "; ".intercalate <|
    ["default-src 'none'",
      " ".intercalate (("script-src 'nonce-" ++ nonce ++ "'") :: options.scriptSrc),
      "connect-src " ++ " ".intercalate options.connectSrc] ++
    options.extra ++
    ["style-src 'nonce-" ++ nonce ++ "'", "base-uri 'none'", "form-action 'none'",
      "frame-ancestors *"]

def defaultPermissionsPolicy : String := "camera=(self), microphone=(self)"

def sumsubPermissionsPolicy : String :=
  "camera=(self \"https://api.sumsub.com\"), microphone=(self \"https://api.sumsub.com\")"

def sumsubPageCsp (nonce : String) : String :=
  hostedPageCsp nonce
    { scriptSrc := ["https://static.sumsub.com"]
      connectSrc := ["https://api.sumsub.com", "https://*.sumsub.com"]
      extra :=
        ["frame-src https://*.sumsub.com", "img-src 'self' data: blob: https://*.sumsub.com",
          "media-src blob: mediastream:"] }

/-- The policies of a provider's page, or the neutral ones. -/
def pageCsp (provider : ProviderName) (nonce : String) : String :=
  match provider with
  | .mock => hostedPageCsp nonce ⟨[], ["'self'"], []⟩
  | .sumsub => sumsubPageCsp nonce

def pagePermissionsPolicy : ProviderName → String
  | .mock => defaultPermissionsPolicy
  | .sumsub => sumsubPermissionsPolicy

def hostedPageHeaders (provider : ProviderName) (nonce : String) : HeaderRecord :=
  [("content-security-policy", pageCsp provider nonce),
    ("permissions-policy", pagePermissionsPolicy provider),
    ("referrer-policy", "no-referrer"),
    ("cache-control", "no-store")]

structure HostedPageHttpResult where
  status : ℕ
  html : Body
  headers : HeaderRecord

def hostedPageHttp (provider : ProviderName) (deps : VerificationServiceDeps)
    (sessionId : String) : App HostedPageHttpResult := do
  let nonce ← App.randomNonce
  let headers := hostedPageHeaders provider nonce
  match ← App.service (hostedPage deps sessionId) with
  | .not_found status => pure ⟨status, .notFoundPage nonce, headers⟩
  | .page session accessToken =>
    let params : HostedPageParams :=
      { sessionId := session.id
        userId := session.userId
        accessToken
        locale := session.locale
        applicantId := session.providerApplicantId
        nonce }
    pure ⟨200, .page params, headers⟩

/-- The last segment of the path that is not empty. -/
def lastPathSegment (request : Request) : String :=
  (((request.pathname.toList.splitOn '/').filter (· ≠ [])).getLast?.map String.ofList).getD ""

def pageResponse (result : HostedPageHttpResult) : Response Body where
  status := result.status
  headers := .ofRecord (result.headers ++ [("content-type", "text/html; charset=utf-8")])
  body := result.html

def createHostedPageHandler (provider : ProviderName) (deps : VerificationServiceDeps)
    (request : Request) : App (Response Body) := do
  let result ← hostedPageHttp provider deps (lastPathSegment request)
  pure (pageResponse result)

end HostedPage

/-- What the app is built on besides its environment: the hash of its signatures, the service's
store and provider, `JSON.parse`, the GraphQL server, and how loading the sessions went. -/
structure Backend where
  H : Hmac
  service : VerificationServiceDeps
  parseJson : Text → Option JsonValue
  apollo : Apollo
  loaded : Except Thrown Unit

section Sessions

variable (backend : Backend) (env : Env) (app : KycApp)

/-- The service over the app's provider; the deployment has no effects of its own. -/
def createServices : VerificationServiceDeps :=
  { backend.service with
    providerName := app.provider.name
    onStatusTransition := none
    hostedUrlFor := none }

def webhookProviderOf (request : Request) : Text :=
  lit (String.ofList (request.pathname.toList.rtakeWhile (· ≠ '/')))

/-- How the handler of webhooks is answered: by the provider's verifier and parser, and by the
service. -/
def answerWebhook : (o : WebhookOp WebhookEvent) → App o.Ans
  | .verifyWebhook headers rawBody _ =>
    pure (deployedVerifier backend.H env app.provider headers rawBody)
  | .parseWebhookEvent rawBody => App.parseWebhookEvent rawBody
  | .handleWebhookEvent event => App.service (handleWebhookEvent (createServices backend app) event)

namespace Sessions

/-- Only the app's own provider may deliver. -/
def deliver (request : Request) : App (HttpResult WebhookOutcome) :=
  (webhookRoute WebhookEvent app.provider (webhookProviderOf request) (headersOf request)
    request.body (forwardedClientIp request app.trustProxy)).expand (answerWebhook backend env app)

def webhook (request : Request) : App (Response Body) := do
  let result ← deliver backend env app request
  Program.ofExcept (json .processed result)

def answer (response : HTTPGraphQLResponse) : App (Response Body) :=
  Program.ofExcept (newResponse (.number (response.status.getD 200)) response.headers
    (.text (graphQLResponseBody response.body)))

def graphql (request : Request) : App (Response Body) :=
  match backend.apollo app.introspection (httpGraphQLRequestFrom backend.parseJson request) with
  | .answered response => answer response
  | .inContext run => do
    let userId ← authenticate request
    let response ← run.expand (resolve (createServices backend app) userId)
    answer response

def hosted (request : Request) : App (Response Body) :=
  createHostedPageHandler app.provider (createServices backend app) request

end Sessions

end Sessions

section Routes

def securityHeaders : HeaderRecord :=
  [("content-security-policy", "default-src 'none';frame-ancestors 'none'"),
    ("x-content-type-options", "nosniff"),
    ("x-frame-options", "DENY"),
    ("referrer-policy", "no-referrer"),
    ("cross-origin-resource-policy", "same-origin"),
    ("strict-transport-security", "max-age=15552000; includeSubDomains")]

/-- What the hosted page may carry of them. -/
def pageHeaders : HeaderRecord :=
  [("x-content-type-options", "nosniff"),
    ("strict-transport-security", "max-age=15552000; includeSubDomains")]

variable (backend : Backend) (env : Env) (app : KycApp)

def tokens (request : Request) : App (Response Body) :=
  createAccessTokenApp backend.parseJson
    { authenticate
      levelFor := none
      path := accessTokenPath
      health := false
      cors := if app.origins = [] then none else some app.origins }
    request

def KycApp.servesSessions (app : KycApp) : Bool := .sessions ∈ app.capabilities

def route (request : Request) : App (Response Body) :=
  if request.method = "GET" ∧ request.pathname = "/health" then do
    let timestamp ← App.timestamp
    pure (withDefaults
      ⟨200, .ofRecord contentTypeJson, .health (some app.capabilities) timestamp⟩ securityHeaders)
  else if app.servesSessions ∧ request.method = "POST" ∧
      "/webhook/kyc/".toList <+: request.pathname.toList then do
    Program.ofExcept backend.loaded
    let response ← Sessions.webhook backend env app request
    pure (withDefaults response securityHeaders)
  else if app.servesSessions ∧ request.pathname = "/graphql" then do
    Program.ofExcept backend.loaded
    let response ← Sessions.graphql backend app request
    pure (withDefaults response securityHeaders)
  else if app.servesSessions ∧ request.method = "GET" ∧
      "/hosted/".toList <+: request.pathname.toList then do
    Program.ofExcept backend.loaded
    let response ← Sessions.hosted backend app request
    pure (withDefaults response pageHeaders)
  else do
    let response ← tokens backend app request
    pure (withDefaults response securityHeaders)

def KycApp.fetch (request : Request) : App (Response Body) :=
  let cors := corsHeaders app.origins request
  if request.method = "OPTIONS" ∧ request.pathname = "/graphql" then pure (preflight cors)
  else do
    let response ← route backend env app request
    pure (withDefaults response cors)

end Routes

end Kyc.Server
