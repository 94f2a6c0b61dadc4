import Kyc.Json.Value
import Kyc.Service.Sessions

/-! # The HTTP handlers

What a host answers to the requests that start and refresh sessions, mint tokens without a
store, and deliver webhooks. Errors become statuses by their code, through a table that is
a plain object and so also answers for the names that objects inherit.
-/

namespace Kyc.Http

open Json

/-- A status of an answer: a number, or what an object inherits under a name. -/
inductive HttpStatus
  | number (n : ℕ)
  | inherited (name : String)
  deriving DecidableEq

inductive HttpBody (α : Type)
  | result (a : α)
  | error (error : String)
  | coded (error : String) (message : Option String)
  deriving DecidableEq

structure HttpResult (α : Type) where
  status : HttpStatus
  body : HttpBody α
  deriving DecidableEq

def errorCodes : List ErrorCode :=
  [.unauthorized, .validationError, .sessionNotFound, .sessionCreationFailed,
    .providerUnavailable, .persistenceFailed]

/-- The rows of `STATUS_BY_CODE`. -/
def httpStatus : ErrorCode → ℕ
  | .unauthorized => 401
  | .validationError => 400
  | .sessionNotFound => 404
  | .sessionCreationFailed => 502
  | .providerUnavailable => 502
  | .persistenceFailed => 500

def errorCode? (name : String) : Option ErrorCode := errorCodes.find? fun code => code.name = name

/-- `STATUS_BY_CODE[code]`. -/
def statusByCode (code : String) : Option HttpStatus :=
  match errorCode? code with
  | some known => some (.number (httpStatus known))
  | none => if code ∈ objectPrototype then some (.inherited code) else none

/-- `(error as Error).message`. -/
def messageOf : Thrown → Option String
  | .object message _ _ => message
  | .nonObject => none

/-- The answer to an error: by its code, else an internal error. -/
def failed {α : Type} (error : Thrown) : HttpResult α :=
  match truthy (getErrorCode error) with
  | some code => match statusByCode code with
    | some status => ⟨status, .coded code (messageOf error)⟩
    | none => ⟨.number 500, .error "INTERNAL_ERROR"⟩
  | none => ⟨.number 500, .error "INTERNAL_ERROR"⟩

section Sessions

variable (deps : VerificationServiceDeps)

def startSessionHttp (userId : Option String) (body : Option JsonValue) :
    Service (HttpResult StartResult) :=
  tryCatch
    (do
      let started ← start deps userId body
      pure ⟨.number 200, .result started⟩)
    fun error => pure (failed error)

/-- `body?.sessionId` if it is a string, else the empty one. -/
def sessionIdOf (body : Option JsonValue) : String :=
  match JsonValue.field? body "sessionId" with
  | some (.string s) => s
  | _ => ""

def refreshSessionHttp (userId : Option String) (body : Option JsonValue) :
    Service (HttpResult RefreshResult) :=
  tryCatch
    (do
      let refreshed ← refresh userId (some (sessionIdOf body))
      pure ⟨.number 200, .result refreshed⟩)
    fun error => pure (failed error)

end Sessions

/-- The host's choice of the level to mint, from the validated input of a user. -/
abbrev LevelForHook := CreateSessionOptions → String → Except Thrown (Option String)

/-- The level to mint: the hook's, or without one the caller's. -/
def mintedLevel (levelFor : Option LevelForHook) (validated : CreateSessionOptions)
    (owner : String) : Except Thrown (Option String) :=
  match levelFor with
  | some levelFor => levelFor validated owner
  | none => .ok validated.levelName

/-- Mint a token for the caller, with no session stored. -/
def mintAccessTokenHttp (userId : Option String) (body : Option JsonValue)
    (levelFor : Option LevelForHook) : Service (HttpResult ProviderSession) :=
  tryCatch
    (do
      let owner ← Program.ofExcept (requireUser userId)
      let validated ← Program.ofExcept (validateStartInput body)
      let levelName ← Program.ofExcept (mintedLevel levelFor validated owner)
      let minted ← tryCatch (Provider.createSession owner { validated with levelName })
        fun error => throw (codedOrUnavailable error)
      pure ⟨.number 200, .result minted⟩)
    fun error => pure (failed error)

section Webhooks

/-- A header as a request carries it, once or several times. -/
inductive HeaderValue
  | single (s : Text)
  | many (values : List Text)
  deriving DecidableEq

abbrev WebhookHeaders := String → Option HeaderValue

/-- What the webhook handler awaits: the provider's verifier and parser, and the service. -/
inductive WebhookOp (α : Type)
  | verifyWebhook (headers : WebhookHeaders) (rawBody : Text) (ip : Option String)
  | parseWebhookEvent (rawBody : Text)
  | handleWebhookEvent (event : α)

@[reducible] def WebhookOp.Ans {α : Type} : WebhookOp α → Type
  | verifyWebhook _ _ _ => Bool
  | parseWebhookEvent _ => Option α
  | handleWebhookEvent _ => WebhookOutcome

@[reducible] def WebhookSig (α : Type) : Signature := ⟨WebhookOp α, WebhookOp.Ans⟩

/-- The handler of a provider's webhook route; what the parser throws is not caught. -/
def processWebhookHttp (α : Type) (headers : WebhookHeaders) (rawBody : Text)
    (ip : Option String) : Program (WebhookSig α) Thrown (HttpResult WebhookOutcome) := do
  let verified ← tryCatch
    (Program.perform (S := WebhookSig α) (.verifyWebhook headers rawBody ip))
    fun _ => pure false
  if verified then
    match ← Program.perform (S := WebhookSig α) (.parseWebhookEvent rawBody) with
    | none => pure ⟨.number 400, .error "Invalid payload"⟩
    | some event =>
      tryCatch
        (do
          let outcome ← Program.perform (S := WebhookSig α) (.handleWebhookEvent event)
          pure ⟨.number 200, .result outcome⟩)
        fun _ => pure ⟨.number 500, .error "Processing failed"⟩
  else pure ⟨.number 401, .error "Unauthorized"⟩

end Webhooks

end Kyc.Http
