import Kyc.Limits.RateLimiter
import Kyc.Server.App

/-! # The container

The app behind the rate limiter of a long-lived process. The limiter answers before the app
is reached, and puts the headers of the app on the one response that it writes itself.
-/

namespace Kyc.Server

open Http Json Boot

inductive ContainerOp : Type 1
  | limit (pathname client : String)
  | app (o : AppOp)

@[reducible] def ContainerOp.Ans : ContainerOp → Type
  | limit _ _ => Option RateLimitDecision
  | app o => o.Ans

@[reducible] def ContainerSig : Kyc.Signature := ⟨ContainerOp, ContainerOp.Ans⟩

abbrev Container (α : Type) := Program ContainerSig Thrown α

def Container.limit (pathname client : String) : Container (Option RateLimitDecision) :=
  Program.perform (S := ContainerSig) (.limit pathname client)

def Container.app {α : Type} (p : App α) : Container α :=
  p.expand fun o => Program.perform (S := ContainerSig) (.app o)

/-- The client that a request is counted for: what a trusted proxy says, else the socket. -/
def clientOf (trustProxy : Bool) (request : Request) (address : Option String) : String :=
  (forwardedClientIp request trustProxy).getD ((truthy address).getD "unknown")

/-- How `String` writes a number. -/
abbrev NumberText := ℚ → String

variable (text : NumberText)

def rateLimitHeaders (decision : RateLimitDecision) : HeaderRecord :=
  [("ratelimit", "limit=" ++ text decision.limit ++ ", remaining=" ++ text decision.remaining ++
      ", reset=" ++ text decision.resetSeconds),
    ("ratelimit-policy", text decision.limit ++ ";w=" ++ text (rateLimitWindowMs / 1000))]

def tooManyRequests (decision : RateLimitDecision) : Response Body :=
  ⟨429,
    .ofRecord (contentTypeJson ++ [("retry-after", text decision.resetSeconds)] ++
      rateLimitHeaders text decision),
    .error "Too many requests"⟩

/-- `fetch` of the server, for a request that came from the address. -/
def fetch (backend : Backend) (env : Env) (app : KycApp) (request : Request)
    (address : Option String) : Container (Response Body) := do
  let decision ← Container.limit request.pathname (clientOf app.trustProxy request address)
  match decision with
  | none => Container.app (app.fetch backend env request)
  | some decision =>
    if decision.allowed then do
      let response ← Container.app (app.fetch backend env request)
      pure (withHeaders response (rateLimitHeaders text decision))
    else
      pure (withDefaults
        (withDefaults (tooManyRequests text decision) (corsHeaders app.origins request))
        securityHeaders)

end Kyc.Server
