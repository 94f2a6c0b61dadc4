import Kyc.Server.Fetch
import Mathlib.Data.List.DropRight

/-! # Minting access tokens over HTTP

The handlers that need no store: what they read from a request, what they await, the
answers they are made of, and the preset that mints a token for an authenticated caller.
-/

namespace Kyc.Server

open Http Json

inductive Capability | tokens | sessions
  deriving DecidableEq, Repr

def Capability.name : Capability → String
  | tokens => "tokens"
  | sessions => "sessions"

structure HostedPageParams where
  sessionId : String
  userId : String
  accessToken : String
  locale : Option String
  applicantId : Option String
  nonce : String
  deriving DecidableEq, Repr

inductive Body
  | empty
  | minted (body : HttpBody ProviderSession)
  | processed (body : HttpBody WebhookOutcome)
  | error (error : String)
  | health (capabilities : Option (List Capability)) (timestamp : String)
  | text (text : Text)
  | notFoundPage (nonce : String)
  | page (params : HostedPageParams)

/-- What a request awaits on its way: the verifier of sessions, the provider's parser of
webhooks, randomness, the clock, and what the service awaits. -/
inductive AppOp : Type 1
  | verifySession (token : String)
  | parseWebhookEvent (rawBody : Text)
  | randomNonce
  | timestamp
  | service (o : ServiceOp)

@[reducible] def AppOp.Ans : AppOp → Type
  | verifySession _ => Option String
  | parseWebhookEvent _ => Option WebhookEvent
  | randomNonce => String
  | timestamp => String
  | service o => o.Ans

@[reducible] def AppSig : Kyc.Signature := ⟨AppOp, AppOp.Ans⟩

abbrev App (α : Type) := Program AppSig Thrown α

namespace App

def verifySession (token : String) : App (Option String) :=
  Program.perform (S := AppSig) (.verifySession token)

def parseWebhookEvent (rawBody : Text) : App (Option WebhookEvent) :=
  Program.perform (S := AppSig) (.parseWebhookEvent rawBody)

def randomNonce : App String := Program.perform (S := AppSig) .randomNonce

def timestamp : App String := Program.perform (S := AppSig) .timestamp

def service {α : Type} (p : Service α) : App α :=
  p.expand fun o => Program.perform (S := AppSig) (.service o)

end App

section Requests

/-- `trim`. -/
def trim (s : String) : String :=
  String.ofList ((s.toList.dropWhile isTrimmed).rdropWhile isTrimmed)

/-- The token of a `Bearer` header, if there is one. -/
def bearerToken (header : Option String) : Option String :=
  match header with
  | none => none
  | some header =>
    if "Bearer ".toList <+: header.toList then
      truthy (some (trim (String.ofList (header.toList.drop "Bearer ".length))))
    else none

def authenticate (request : Request) : App (Option String) :=
  App.verifySession ((bearerToken (request.headers "authorization")).getD "")

/-- The body of a request as JSON: `none` if it is none, and `some none` for an empty one. -/
def readJson (parseJson : Text → Option JsonValue) (request : Request) :
    Option (Option JsonValue) :=
  if request.body = [] then some none else (parseJson request.body).map some

def headersOf (request : Request) : WebhookHeaders :=
  fun name => (request.headers name).map fun value => .single (lit value)

/-- The client address that a trusted proxy reported: the first entry of the chain. -/
def forwardedClientIp (request : Request) (trustProxy : Bool) : Option String :=
  if trustProxy then
    truthy ((request.headers "x-forwarded-for").map fun chain =>
      trim (String.ofList (chain.toList.takeWhile (· ≠ ','))))
  else none

end Requests

section Responses

/-- What `new Response` throws for a status that it refuses. -/
def invalidStatus : Thrown := plainError "status must be in the range of 200 to 599, inclusive"

/-- `new Response(body, init)` with a body and a status that is not fixed. -/
def newResponse (status : HttpStatus) (headers : HeaderRecord) (body : Body) :
    Except Thrown (Response Body) :=
  match status with
  | .number n =>
    if 200 ≤ n ∧ n ≤ 599 ∧ n ∉ [204, 205, 304] then .ok ⟨n, .ofRecord headers, body⟩
    else .error invalidStatus
  | .inherited _ => .error invalidStatus

def contentTypeJson : HeaderRecord := [("content-type", "application/json")]

def json {α : Type} (body : HttpBody α → Body) (result : HttpResult α) :
    Except Thrown (Response Body) :=
  newResponse result.status contentTypeJson (body result.body)

def jsonError (status : ℕ) (error : String) : Response Body :=
  ⟨status, .ofRecord contentTypeJson, .error error⟩

def preflightHeaders : HeaderRecord :=
  [("access-control-allow-methods", "POST, OPTIONS"),
    ("access-control-allow-headers", "authorization, content-type"),
    ("access-control-max-age", "86400")]

def preflight (cors : HeaderRecord) : Response Body :=
  ⟨204, .ofRecord (cors ++ preflightHeaders), .empty⟩

def allowOrigin (origins : List Text) (origin : Option String) : HeaderRecord :=
  match truthy origin with
  | none => []
  | some origin =>
    if origins.contains (lit "*") then [("access-control-allow-origin", "*")]
    else if origins.contains (lit origin) then [("access-control-allow-origin", origin)]
    else []

def AccessTokenApp.corsHeaders (cors : Option (List Text)) (request : Request) : HeaderRecord :=
  match cors with
  | none => []
  | some origins => ("vary", "origin") :: allowOrigin origins (request.headers "origin")

end Responses

section AccessTokens

structure AccessTokenAppOptions where
  authenticate : Request → App (Option String)
  levelFor : Option (Request → LevelForHook)
  path : String
  health : Bool
  cors : Option (List Text)

def accessTokenPath : String := "/verification/token"

/-- The mint-only preset: the token endpoint, its preflight, and a health check. -/
def createAccessTokenApp (parseJson : Text → Option JsonValue) (options : AccessTokenAppOptions)
    (request : Request) : App (Response Body) :=
  let cors := AccessTokenApp.corsHeaders options.cors request
  if options.cors.isSome ∧ request.method = "OPTIONS" ∧ request.pathname = options.path then
    pure (preflight cors)
  else if request.method = "POST" ∧ request.pathname = options.path then
    match readJson parseJson request with
    | none => pure (withHeaders (jsonError 400 "Invalid JSON body") cors)
    | some body => do
      let userId ← options.authenticate request
      let result ← App.service
        (mintAccessTokenHttp userId body (options.levelFor.map fun hook => hook request))
      let response ← Program.ofExcept (json .minted result)
      pure (withHeaders response cors)
  else if options.health ∧ request.method = "GET" ∧ request.pathname = "/health" then do
    let timestamp ← App.timestamp
    pure ⟨200, .ofRecord contentTypeJson, .health none timestamp⟩
  else pure (jsonError 404 "Not found")

end AccessTokens

end Kyc.Server
