import Kyc.Boot.Guard
import Kyc.Encoding.Percent
import Kyc.Sumsub.Upstream
import Mathlib.Data.List.DropRight

/-! # The client of Sumsub

The REST client: the requests that its calls make, the signature over them, and what is made of
the answers.
-/

namespace Kyc.Sumsub

open Json Encoding
open Boot (Env setting)

structure ClientConfig extends Boot.SumsubConfig where
  baseUrl : Text

def stripTrailingSlashes (value : Text) : Text := value.rdropWhile (· = unit '/')

def clientConfigFromEnv (env : Env) : ClientConfig where
  toSumsubConfig := Boot.sumsubConfigFromEnv env
  baseUrl := stripTrailingSlashes
    ((setting env "SUMSUB_BASE_URL").getD (lit "https://api.sumsub.com"))

inductive Method | get | post
  deriving DecidableEq, Repr

def Method.text : Method → Text
  | get => lit "GET"
  | post => lit "POST"

/-- What keeps a call from being sent. -/
inductive SendError
  | notConfigured (name : String)
  | uri
  deriving DecidableEq, Repr

def SendError.message : SendError → String
  | notConfigured name => "Sumsub provider: " ++ name ++ " is not configured"
  | uri => "URI malformed"

def SendError.thrown : SendError → UpstreamError
  | notConfigured _ => .error "Error"
  | uri => .error "URIError"

structure SumsubRequest where
  url : Text
  method : Text
  headers : List (String × Text)
  body : Option Text
  deriving DecidableEq

section Requests

variable (H : Hmac)

/-- The bytes that are signed: of the second, the method and the path, then the body's. -/
def signedBytes (ts : ℕ) (method : Method) (pathWithQuery : Text) (body : Text ⊕ List UInt8) :
    List UInt8 :=
  utf8 (decimal.print ts ++ method.text ++ pathWithQuery) ++ body.elim utf8 id

def signPayload (ts : ℕ) (method : Method) (pathWithQuery : Text) (body : Text ⊕ List UInt8)
    (secretKey : Text) : Text :=
  hex (H.digest .sha256 (utf8 secretKey) (signedBytes ts method pathWithQuery body))

variable (config : ClientConfig) (ts : ℕ)

def request (method : Method) (pathWithQuery : Text) (body : Option Text) :
    Except SendError SumsubRequest :=
  match config.appToken.filter (· ≠ []), config.secretKey.filter (· ≠ []) with
  | none, _ => .error (.notConfigured "SUMSUB_APP_TOKEN")
  | some _, none => .error (.notConfigured "SUMSUB_SECRET_KEY")
  | some appToken, some secretKey =>
    .ok
      { url := config.baseUrl ++ pathWithQuery
        method := method.text
        headers :=
          [("Accept", lit "application/json"), ("X-App-Token", appToken),
            ("X-App-Access-Ts", decimal.print ts),
            ("X-App-Access-Sig",
              signPayload H ts method pathWithQuery (.inl (body.getD [])) secretKey)] ++
          if body.isSome then [("Content-Type", lit "application/json")] else []
        body }

variable {ν : Type} (N : Numerals ν)

def tokenBody (first second : String) (a b : Text) (ttlInSecs : ν) : Value ν :=
  .object [(lit first, .string a), (lit second, .string b), (lit "ttlInSecs", .number ttlInSecs)]

def accessTokenBody (userId levelName : Text) (ttlInSecs : ν) : Value ν :=
  tokenBody "userId" "levelName" userId levelName ttlInSecs

def createAccessToken (externalUserId levelName : Text) (ttlInSecs : ν) :
    Except SendError SumsubRequest :=
  request H config ts .post (lit "/resources/accessTokens/sdk")
    (some (stringify N (accessTokenBody externalUserId levelName ttlInSecs)))

def shareTokenBody (applicantId forClientId : Text) (ttlInSecs : ν) : Value ν :=
  tokenBody "applicantId" "forClientId" applicantId forClientId ttlInSecs

def createShareToken (applicantId forClientId : Text) (ttlInSecs : ν) :
    Except SendError SumsubRequest :=
  request H config ts .post (lit "/resources/accessTokens/shareToken")
    (some (stringify N (shareTokenBody applicantId forClientId ttlInSecs)))

def lookupPath (front id back : Text) : Option Text :=
  (encodeURIComponent id).map fun id => front ++ id ++ back

def applicantPath (applicantId : Text) : Option Text :=
  lookupPath (lit "/resources/applicants/") applicantId (lit "/status")

def externalUserPath (externalUserId : Text) : Option Text :=
  lookupPath (lit "/resources/applicants/-;externalUserId=") externalUserId (lit "/one")

def lookup (path : Option Text) : Except SendError SumsubRequest :=
  match path with
  | none => .error .uri
  | some path => request H config ts .get path none

def fetchApplicantStatus (applicantId : Text) : Except SendError SumsubRequest :=
  lookup H config ts (applicantPath applicantId)

def fetchApplicantByExternalUserId (externalUserId : Text) : Except SendError SumsubRequest :=
  lookup H config ts (externalUserPath externalUserId)

end Requests

inductive SumsubCall (ν : Type)
  | createAccessToken (externalUserId levelName : Text) (ttlInSecs : ν)
  | createShareToken (applicantId forClientId : Text) (ttlInSecs : ν)
  | fetchApplicantStatus (applicantId : Text)
  | fetchApplicantByExternalUserId (externalUserId : Text)

section Calls

variable {ν : Type} (H : Hmac) (N : Numerals ν) (config : ClientConfig) (ts : ℕ)

def SumsubCall.request : SumsubCall ν → Except SendError SumsubRequest
  | createAccessToken externalUserId levelName ttlInSecs =>
    Sumsub.createAccessToken H config ts N externalUserId levelName ttlInSecs
  | createShareToken applicantId forClientId ttlInSecs =>
    Sumsub.createShareToken H config ts N applicantId forClientId ttlInSecs
  | fetchApplicantStatus applicantId => Sumsub.fetchApplicantStatus H config ts applicantId
  | fetchApplicantByExternalUserId externalUserId =>
    Sumsub.fetchApplicantByExternalUserId H config ts externalUserId

end Calls

section Answers

variable {ν : Type}

structure SumsubResponse where
  status : ℕ
  text : Except UpstreamError Text

/-- What a call makes of the answer to its request. -/
def answered (N : Numerals ν) (fetch : SumsubRequest → Except UpstreamError SumsubResponse) :
    Except SendError SumsubRequest → Except UpstreamError (Value ν)
  | .error e => .error e.thrown
  | .ok request => do
    let response ← fetch request
    let text ← response.text
    if 200 ≤ response.status ∧ response.status < 300 then
      match parse N text with
      | some v => return v
      | none => throw (.error "SyntaxError")
    else throw (.http response.status text)

/-- The applicant in an answer; without a review, with an empty one. -/
def applicantOf (v : Value ν) : Except UpstreamError (SumsubApplicant ν) := do
  let applicantId ← readField v "id"
  let review ← readField v "review"
  return ⟨applicantId, (review.filter fun r => ¬ r.isNull).getD (.object [])⟩

def createSumsubClient (H : Hmac) (N : Numerals ν) (number : ℤ → ν) (config : ClientConfig)
    (now : ℕ → ℕ) (fetch : ℕ → SumsubRequest → Except UpstreamError SumsubResponse) :
    SumsubClient ν where
  createAccessToken n externalUserId levelName ttlInSecs :=
    answered N (fetch n) (createAccessToken H config (now n) N (utf16 externalUserId)
      (utf16 levelName) (number ttlInSecs))
  fetchApplicantStatus n applicantId :=
    answered N (fetch n) (fetchApplicantStatus H config (now n) (utf16 applicantId))
  fetchApplicantByExternalUserId n externalUserId :=
    (answered N (fetch n)
      (fetchApplicantByExternalUserId H config (now n) (utf16 externalUserId))).bind applicantOf

end Answers

end Kyc.Sumsub
