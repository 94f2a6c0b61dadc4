import Kyc.Sumsub.Signature

/-! # The boot guard

What the service reads from its environment: the session source, the provider, whether
sessions are on, and where it is reachable. The guard checks them once; the deployment reads
the same variables again through other functions.
-/

namespace Kyc.Boot

open Json Http Sumsub

/-- The environment: names to values. -/
abbrev Env := String → Option Text

/-- A variable that is set to more than the empty text. -/
def setting (env : Env) (name : String) : Option Text := (env name).filter (· ≠ [])

def isInsecureDevAllowed (env : Env) : Bool := env "ALLOW_INSECURE_DEV" = some (lit "true")

def isWebhookSignatureRequired (env : Env) : Bool := ! isInsecureDevAllowed env

/-- Sessions are on when the database URL is not blank. -/
def hasSessions (env : Env) : Bool := ! ((env "DATABASE_URL").getD []).all isTrimmedUnit

/-- `new URL(value).protocol`, which fails for what is no absolute URL. -/
abbrev UrlProtocol := Text → Option Text

section Sessions

inductive SessionSource | jwks | hs256 | insecure
  deriving DecidableEq, Repr

def sessionSourceFromEnv (env : Env) : Option SessionSource :=
  if (setting env "SESSION_JWKS_URL").isSome then some .jwks
  else if (setting env "SESSION_HS256_SECRET").isSome ∨ (setting env "JWT_SECRET").isSome then
    some .hs256
  else if isInsecureDevAllowed env then some .insecure
  else none

/-- What verifies a session: keys from a URL, a shared secret, or nothing, where the token is
taken for the user id. -/
inductive SessionVerifier
  | jwks (url : Text)
  | hs256 (secret : Text)
  | passThrough
  deriving DecidableEq

/-- `sessionVerifierFromEnv`, which throws for a key set that is at no URL, and where no source is
configured. -/
def sessionVerifierFromEnv (protocol : UrlProtocol) (env : Env) : Except Text SessionVerifier :=
  match sessionSourceFromEnv env with
  | some .jwks =>
    let url := (env "SESSION_JWKS_URL").getD []
    if (protocol url).isSome then .ok (.jwks url) else .error (lit "Invalid URL")
  | some .hs256 =>
    .ok (.hs256 (((setting env "SESSION_HS256_SECRET").or (env "JWT_SECRET")).getD []))
  | some .insecure => .ok .passThrough
  | none =>
    .error (lit ("no session verification configured: set SESSION_JWKS_URL or "
      ++ "SESSION_HS256_SECRET (or ALLOW_INSECURE_DEV=true for local dev)"))

end Sessions

section Providers

structure SumsubConfig where
  appToken : Option Text
  secretKey : Option Text
  webhookSecret : Option Text
  deriving DecidableEq

def sumsubConfigFromEnv (env : Env) : SumsubConfig where
  appToken := setting env "SUMSUB_APP_TOKEN"
  secretKey := setting env "SUMSUB_SECRET_KEY"
  webhookSecret := setting env "SUMSUB_WEBHOOK_SECRET"

/-- `missingSumsubConfig` for `ACCESS_TOKEN_SETTINGS`: the variables a mint lacks. -/
def missingTokenSettings (config : SumsubConfig) : List String :=
  (if config.appToken.isSome then [] else ["SUMSUB_APP_TOKEN"]) ++
    if config.secretKey.isSome then [] else ["SUMSUB_SECRET_KEY"]

def sumsubConfigError (missing : List String) : String :=
  "Sumsub provider: missing required environment variables: " ++ ", ".intercalate missing

/-- `sumsubDemoSettingsInUse`: a sandbox token, reduced to its prefix. -/
def sumsubDemoSettingsInUse (config : SumsubConfig) : List String :=
  if config.appToken.any fun token => lit "sbx:" <+: token then ["SUMSUB_APP_TOKEN=sbx:…"] else []

/-- `productionErrors` for a provider that is itself a demo, or uses demo settings. -/
def productionErrors (env : Env) (provider : String) (demo : Bool) (demoSettings : List String) :
    List String :=
  if env "KYC_ENV" ≠ some (lit "production") ∨ env "KYC_ALLOW_DEMO" = some (lit "true") then []
  else
    (if demo then ["KYC_ENV=production: the " ++ provider ++ " provider is a demo provider"]
      else []) ++
    demoSettings.map fun setting => "KYC_ENV=production: " ++ setting ++ " is a demo setting"

def assertProductionConfig (env : Env) (provider : String) (demo : Bool)
    (demoSettings : List String) : Except Text Unit :=
  let errors := productionErrors env provider demo demoSettings
  if errors = [] then .ok ()
  else .error (lit ("; ".intercalate errors ++
    ". Set KYC_ALLOW_DEMO=true to allow demo settings in production."))

def assertMockProviderAllowed (env : Env) : Except Text Unit :=
  if isInsecureDevAllowed env then .ok ()
  else .error (lit ("Refusing to start: KYC_PROVIDER=mock signs its own webhooks and is forgeable. "
    ++ "Set ALLOW_INSECURE_DEV=true for local dev, or configure a real provider."))

def assertSumsubSettings (env : Env) : Except Text Unit :=
  match missingTokenSettings (sumsubConfigFromEnv env) with
  | [] => .ok ()
  | missing => .error (lit (sumsubConfigError missing))

inductive ProviderName | mock | sumsub
  deriving DecidableEq, Repr

def ProviderName.name : ProviderName → String
  | mock => "mock"
  | sumsub => "sumsub"

/-- The own entry of the registry under a name. -/
def registered? (name : Text) : Option ProviderName :=
  [ProviderName.mock, .sumsub].find? fun provider => lit provider.name = name

/-- `providerNameFromEnv`: an unknown name is reported, then the mock is the fallback. -/
def providerNameFromEnv (env : Env) (onUnknown : Text → Except Text Unit) :
    Except Text ProviderName :=
  let name := (env "KYC_PROVIDER").getD (lit "mock")
  match registered? name with
  | some provider => .ok provider
  | none => do
    onUnknown name
    return .mock

/-- `selectProvider`: the provider's name, after what the entry asserts. -/
def selectProvider (env : Env) (onUnknown : Text → Except Text Unit) :
    Except Text ProviderName := do
  let provider ← providerNameFromEnv env onUnknown
  match provider with
  | .mock =>
    assertMockProviderAllowed env
    assertProductionConfig env "mock" true []
  | .sumsub =>
    assertSumsubSettings env
    assertProductionConfig env "sumsub" false (sumsubDemoSettingsInUse (sumsubConfigFromEnv env))
  return provider

end Providers

section Errors

inductive Runtime | node | edge
  deriving DecidableEq, Repr

variable (protocol : UrlProtocol) (env : Env)

def isHttpUrl (value : Text) : Bool :=
  protocol value = some (lit "http:") ∨ protocol value = some (lit "https:")

def sessionErrors : List Text :=
  if sessionSourceFromEnv env = none then
    [lit ("no session verification is configured: set SESSION_JWKS_URL or SESSION_HS256_SECRET "
      ++ "(JWT_SECRET is an accepted alias), or ALLOW_INSECURE_DEV=true for local dev")]
  else []

def publicBaseUrlErrors : List Text :=
  if hasSessions env then
    match setting env "PUBLIC_BASE_URL" with
    | none =>
      if isInsecureDevAllowed env then []
      else [lit ("PUBLIC_BASE_URL is required once sessions are on "
        ++ "(or set ALLOW_INSECURE_DEV=true for local dev)")]
    | some value =>
      if isHttpUrl protocol value then []
      else [lit "PUBLIC_BASE_URL must be an absolute http(s) URL (got \"" ++ value ++ lit "\")"]
  else []

def providerErrors : List Text :=
  match selectProvider env fun name => .error (lit "unknown KYC_PROVIDER: " ++ name) with
  | .ok _ => []
  | .error message => [message]

def webhookErrors : List Text :=
  if hasSessions env ∧ env "KYC_PROVIDER" = some (lit "sumsub") ∧
      setting env "SUMSUB_WEBHOOK_SECRET" = none ∧ ¬ isInsecureDevAllowed env then
    [lit ("SUMSUB_WEBHOOK_SECRET is required to verify the Sumsub webhook "
      ++ "(or ALLOW_INSECURE_DEV=true)")]
  else []

def runtimeErrors (runtime : Runtime) : List Text :=
  if runtime = .edge ∧ hasSessions env then
    [lit ("DATABASE_URL is set, but this runtime cannot open a Postgres connection: the "
      ++ "Cloudflare target serves access tokens only. Deploy the container or the Node target "
      ++ "for sessions")]
  else []

def configErrors (runtime : Runtime) : List Text :=
  sessionErrors env ++ publicBaseUrlErrors protocol env ++ providerErrors env ++
    webhookErrors env ++ runtimeErrors env runtime

end Errors

section Deployment

/-- The provider a deployment runs on, where an unknown name only warns. -/
def deployedProvider (env : Env) : Except Text ProviderName :=
  selectProvider env fun _ => .ok ()

variable (H : Hmac)

def verifyMockWebhook (secret : Text) (headers : WebhookHeaders) (rawBody : Text) : Bool :=
  match headers "x-mock-signature" with
  | some (.single signature) =>
    signature ≠ [] && timingSafeEqualString signature (hmacHex H .sha256 secret rawBody)
  | _ => false

def deployedVerifier (env : Env) : ProviderName → WebhookHeaders → Text → Bool
  | .mock => verifyMockWebhook H ((setting env "MOCK_WEBHOOK_SECRET").getD (lit "mock"))
  | .sumsub =>
    verifyWebhook H (sumsubConfigFromEnv env).webhookSecret (! isWebhookSignatureRequired env)

/-- The webhook route: only the deployment's provider may deliver. -/
def webhookRoute (α : Type) (provider : ProviderName) (path : Text) (headers : WebhookHeaders)
    (rawBody : Text) (ip : Option String) :
    Program (WebhookSig α) Thrown (HttpResult WebhookOutcome) :=
  if path = lit provider.name then processWebhookHttp α headers rawBody ip
  else pure ⟨.number 404, .error "Unknown provider"⟩

end Deployment

section FailClosed

variable {env : Env} {protocol : UrlProtocol}

theorem ne_nil_of_setting {name : String} {value : Text} (h : setting env name = some value) :
    env name = some value ∧ value ≠ [] := by
  simpa [setting] using Option.filter_eq_some_iff.mp h

theorem source_of_secure (hsource : sessionSourceFromEnv env ≠ none)
    (secure : isInsecureDevAllowed env = false) :
    sessionSourceFromEnv env = some .jwks ∨ sessionSourceFromEnv env = some .hs256 := by
  unfold sessionSourceFromEnv at hsource ⊢
  split_ifs at hsource ⊢ with jwks hs256 insecure
  · exact Or.inl rfl
  · exact Or.inr rfl
  · rw [secure] at insecure
    cases insecure
  · exact absurd rfl hsource

theorem verifier_of_source
    (h : sessionSourceFromEnv env = some .jwks ∨ sessionSourceFromEnv env = some .hs256) :
    sessionVerifierFromEnv protocol env ≠ .ok .passThrough ∧
      ((∃ verifier, sessionVerifierFromEnv protocol env = .ok verifier) ↔
        (sessionSourceFromEnv env = some .jwks →
          (protocol ((env "SESSION_JWKS_URL").getD [])).isSome)) := by
  unfold sessionVerifierFromEnv
  rcases h with jwks | hs256
  · rw [jwks]
    dsimp only
    split <;> simp_all
  · rw [hs256]
    simp

theorem assertMockProviderAllowed_of_secure (secure : isInsecureDevAllowed env = false) :
    ∃ message, assertMockProviderAllowed env = .error message := by
  rw [assertMockProviderAllowed, secure]
  exact ⟨_, rfl⟩

/-- A selection that passes outside insecure development is Sumsub, by its exact name. -/
theorem selectProvider_of_secure {message : Text → Text} {provider : ProviderName}
    (secure : isInsecureDevAllowed env = false)
    (h : selectProvider env (fun name => .error (message name)) = .ok provider) :
    env "KYC_PROVIDER" = some (lit "sumsub") ∧ deployedProvider env = .ok .sumsub := by
  unfold deployedProvider
  unfold selectProvider providerNameFromEnv at h ⊢
  dsimp only at h ⊢
  cases hr : registered? ((env "KYC_PROVIDER").getD (lit "mock")) with
  | none =>
    rw [hr] at h
    cases h
  | some registered =>
    rw [hr] at h
    cases registered with
    | mock =>
      obtain ⟨refusal, hrefused⟩ := assertMockProviderAllowed_of_secure secure
      simp [hrefused, bind, Except.bind] at h
    | sumsub =>
      have named : lit ProviderName.sumsub.name = (env "KYC_PROVIDER").getD (lit "mock") := by
        simpa using List.find?_some hr
      change lit "sumsub" = _ at named
      refine ⟨?_, ?_⟩
      · cases hname : env "KYC_PROVIDER" with
        | none => rw [hname] at named; exact absurd named (by decide)
        | some name => rw [hname] at named; rw [named]; rfl
      · cases hsettings : assertSumsubSettings env with
        | error message => simp [hsettings, bind, Except.bind] at h
        | ok _ =>
          cases hdemo : assertProductionConfig env "sumsub" false
              (sumsubDemoSettingsInUse (sumsubConfigFromEnv env)) with
          | error message => simp [hsettings, hdemo, bind, Except.bind] at h
          | ok _ => rfl

theorem source_of_no_sessionErrors (h : sessionErrors env = []) :
    sessionSourceFromEnv env ≠ none := by
  unfold sessionErrors at h
  split_ifs at h with hsource
  exact hsource

theorem selects_of_no_providerErrors (h : providerErrors env = []) :
    ∃ provider, selectProvider env (fun name => .error (lit "unknown KYC_PROVIDER: " ++ name))
      = .ok provider := by
  unfold providerErrors at h
  split at h
  · rename_i provider hprovider
    exact ⟨provider, hprovider⟩
  · cases h

theorem publicUrl_of_no_errors (h : publicBaseUrlErrors protocol env = [])
    (sessions : hasSessions env) (secure : isInsecureDevAllowed env = false) :
    ∃ url, env "PUBLIC_BASE_URL" = some url ∧ isHttpUrl protocol url := by
  unfold publicBaseUrlErrors at h
  rw [if_pos sessions] at h
  cases hurl : setting env "PUBLIC_BASE_URL" with
  | none => simp [hurl, secure] at h
  | some url =>
    rw [hurl] at h
    dsimp only at h
    split_ifs at h with http
    exact ⟨url, (ne_nil_of_setting hurl).1, http⟩

theorem secret_of_no_webhookErrors (h : webhookErrors env = []) (sessions : hasSessions env)
    (named : env "KYC_PROVIDER" = some (lit "sumsub"))
    (secure : isInsecureDevAllowed env = false) :
    ∃ secret, secret ≠ [] ∧ (sumsubConfigFromEnv env).webhookSecret = some secret := by
  unfold webhookErrors at h
  split_ifs at h with missing
  cases hsecret : setting env "SUMSUB_WEBHOOK_SECRET" with
  | none => exact absurd ⟨sessions, named, hsecret, by simp [secure]⟩ missing
  | some secret => exact ⟨secret, (ne_nil_of_setting hsecret).2, hsecret⟩

variable (H : Hmac)

/-- The webhook carries the digest of its body under the secret. -/
def Signed (secret : Text) (headers : WebhookHeaders) (rawBody : Text) : Prop :=
  ∃ hash, ChoosesAlgorithm headers hash ∧
    headers digestHeader = some (.single (hmacHex H hash secret rawBody))

variable {H}

theorem signed_of_deployedVerifier {secret : Text} {headers : WebhookHeaders} {rawBody : Text}
    (hsecret : (sumsubConfigFromEnv env).webhookSecret = some secret) (hne : secret ≠ [])
    (h : deployedVerifier H env .sumsub headers rawBody) : Signed H secret headers rawBody := by
  rw [deployedVerifier, hsecret] at h
  rcases verifyWebhook_iff.mp h with ⟨missing, -⟩ | ⟨key, hash, hkey, -, chosen, hdigest⟩
  · simp [hne] at missing
  · obtain rfl := Option.some.inj hkey
    exact ⟨hash, chosen, hdigest⟩

theorem run_webhookRoute_of_not_signed {σ α : Type} {h : Handler (WebhookSig α) Thrown σ}
    {secret path rawBody : Text} {headers : WebhookHeaders} {ip : Option String} {s : σ}
    (hsecret : (sumsubConfigFromEnv env).webhookSecret = some secret) (hne : secret ≠ [])
    (hverify : (h (.verifyWebhook headers rawBody ip) s).1
      = .ok (deployedVerifier H env .sumsub headers rawBody))
    (unsigned : ¬ Signed H secret headers rawBody) :
    ((webhookRoute α .sumsub path headers rawBody ip).run h s).1
        = .ok ⟨.number 404, .error "Unknown provider"⟩ ∨
      (webhookRoute α .sumsub path headers rawBody ip).run h s
        = (.ok ⟨.number 401, .error "Unauthorized"⟩,
          (h (.verifyWebhook headers rawBody ip) s).2) := by
  unfold webhookRoute
  split_ifs
  · refine Or.inr (run_processWebhookHttp_of_unverified h fun verified => unsigned ?_)
    rw [hverify] at verified
    exact signed_of_deployedVerifier hsecret hne (Except.ok.inj verified)
  · exact Or.inl rfl

end FailClosed

section Main

variable (H : Hmac) (protocol : UrlProtocol) {env : Env}

/-- Boot is fail-closed: an environment without errors, outside insecure development, verifies
sessions or does not boot, and runs on Sumsub; with sessions on it has a public URL and a
webhook secret, and what gets past its webhook route is signed under that secret. -/
theorem boot_is_fail_closed (h : configErrors protocol env .node = [])
    (secure : env "ALLOW_INSECURE_DEV" ≠ some (lit "true")) :
    (sessionSourceFromEnv env = some .jwks ∨ sessionSourceFromEnv env = some .hs256) ∧
    (sessionVerifierFromEnv protocol env ≠ .ok .passThrough ∧
      ((∃ verifier, sessionVerifierFromEnv protocol env = .ok verifier) ↔
        (sessionSourceFromEnv env = some .jwks →
          (protocol ((env "SESSION_JWKS_URL").getD [])).isSome))) ∧
    deployedProvider env = .ok .sumsub ∧
    (hasSessions env →
      (∃ url, env "PUBLIC_BASE_URL" = some url ∧ isHttpUrl protocol url) ∧
      ∃ secret, secret ≠ [] ∧ (sumsubConfigFromEnv env).webhookSecret = some secret ∧
        ∀ {σ α : Type} (h : Handler (WebhookSig α) Thrown σ) path headers rawBody ip s,
          (h (.verifyWebhook headers rawBody ip) s).1
              = .ok (deployedVerifier H env .sumsub headers rawBody) →
          ¬ Signed H secret headers rawBody →
          ((webhookRoute α .sumsub path headers rawBody ip).run h s).1
              = .ok ⟨.number 404, .error "Unknown provider"⟩ ∨
            (webhookRoute α .sumsub path headers rawBody ip).run h s
              = (.ok ⟨.number 401, .error "Unauthorized"⟩,
                (h (.verifyWebhook headers rawBody ip) s).2)) := by
  have insecure : isInsecureDevAllowed env = false := by simp [isInsecureDevAllowed, secure]
  simp only [configErrors, List.append_eq_nil_iff] at h
  obtain ⟨⟨⟨⟨noSession, noUrl⟩, noProvider⟩, noWebhook⟩, -⟩ := h
  obtain ⟨provider, selected⟩ := selects_of_no_providerErrors noProvider
  obtain ⟨named, deployed⟩ := selectProvider_of_secure insecure selected
  have source := source_of_secure (source_of_no_sessionErrors noSession) insecure
  refine ⟨source, verifier_of_source source, deployed, fun sessions =>
    ⟨publicUrl_of_no_errors noUrl sessions insecure, ?_⟩⟩
  obtain ⟨secret, hne, hsecret⟩ := secret_of_no_webhookErrors noWebhook sessions named insecure
  refine ⟨secret, hne, hsecret, fun h path headers rawBody ip s hverify unsigned => ?_⟩
  exact run_webhookRoute_of_not_signed hsecret hne hverify unsigned

def sampleEnv : Env
  | "SESSION_JWKS_URL" => some (lit "https://id.example/jwks")
  | "KYC_PROVIDER" => some (lit "sumsub")
  | "SUMSUB_APP_TOKEN" => some (lit "prd:token")
  | "SUMSUB_SECRET_KEY" => some (lit "key")
  | "SUMSUB_WEBHOOK_SECRET" => some (lit "secret")
  | "DATABASE_URL" => some (lit "postgres://db/kyc")
  | "PUBLIC_BASE_URL" => some (lit "https://kyc.example")
  | _ => none

def sampleProtocol : UrlProtocol := fun value =>
  if lit "https://" <+: value then some (lit "https:") else none

theorem boot_is_fail_closed_sampleEnv :
    (∃ verifier, sessionVerifierFromEnv sampleProtocol sampleEnv = .ok verifier) ∧
      deployedProvider sampleEnv = .ok .sumsub ∧
      ∃ secret, secret ≠ [] ∧ (sumsubConfigFromEnv sampleEnv).webhookSecret = some secret := by
  have valid : configErrors sampleProtocol sampleEnv .node = [] := by decide +kernel
  obtain ⟨-, ⟨-, built⟩, deployed, sessions⟩ :=
    boot_is_fail_closed sampleHmac sampleProtocol valid (by decide +kernel)
  obtain ⟨-, secret, hne, hsecret, -⟩ := sessions (by decide +kernel)
  exact ⟨built.mpr fun _ => by decide +kernel, deployed, secret, hne, hsecret⟩

/-- A key set at no URL passes the guard, but the app is not built. -/
example :
    let env : Env := fun name =>
      if name = "SESSION_JWKS_URL" then some (lit "not a url") else sampleEnv name
    configErrors sampleProtocol env .node = [] ∧
      sessionVerifierFromEnv sampleProtocol env = .error (lit "Invalid URL") := by
  decide +kernel

end Main

end Kyc.Boot
