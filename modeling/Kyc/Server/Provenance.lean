import Kyc.Server.Running
import Kyc.Service.Provenance

/-! # Only the provider decides

In a deployment that boots as it should, the status of a session is what the provider said:
in a webhook that is signed under the configured secret, or as its answer to a lookup.
Nothing else that a client sends, however requests interleave, moves a session.
-/

namespace Kyc.Server

open Encoding Http Json Boot Sumsub Program

theorem uses_mintAccessTokenHttp (deps : VerificationServiceDeps) (userId : Option String)
    (body : Option JsonValue) (levelFor : Option LevelForHook) :
    (mintAccessTokenHttp userId body levelFor).Uses (Silent deps) := by
  refine Uses.tryCatch (Uses.bind (uses_ofExcept _) fun owner => ?_) fun _ => trivial
  refine Uses.bind (uses_ofExcept _) fun validated => Uses.bind (uses_ofExcept _) fun level => ?_
  refine Uses.bind ?_ fun _ => trivial
  exact Uses.tryCatch (uses_provider Silent.admits id) fun _ => trivial

theorem serviceKeeps_provenance (deps : VerificationServiceDeps) (before : Tables)
    (caller : Option String → Prop) {delivered : WebhookEvent → Prop} (opened : String → Prop)
    (wellFormed : ∀ event, delivered event → event.WellFormed) :
    ServiceKeeps (provenance deps before delivered) deps caller delivered opened where
  start _ input := ⟨fun _ _ => Provenance.safe_start _ input⟩
  refresh _ sessionId := ⟨fun _ _ => Provenance.safe_refresh _ sessionId⟩
  status _ id := ⟨fun _ hi => Provenance.safe_status hi _ id⟩
  latestForUser _ reconciling := ⟨fun _ hi => Provenance.safe_latestForUser hi _ reconciling⟩
  mint _ body := ⟨fun _ _ => Provenance.safe_silent (uses_mintAccessTokenHttp deps _ body none)⟩
  hostedPage _ := ⟨fun _ _ => Provenance.safe_hostedPage _⟩
  deliver h := ⟨fun _ hi => Provenance.safe_handleWebhookEvent hi h (wellFormed _ h).applicant⟩

section Boot

variable {protocol : UrlProtocol} {env : Env} {deps : KycAppDeps} {app : KycApp}

/-- An app outside insecure development runs on Sumsub, and has a secret for its webhooks once
sessions are on. -/
theorem secret_of_createKycApp (boot : createKycApp protocol env deps = .ok app)
    (secure : env "ALLOW_INSECURE_DEV" ≠ some (lit "true")) :
    app.provider = .sumsub ∧ (app.servesSessions →
      ∃ secret, secret ≠ [] ∧ (sumsubConfigFromEnv env).webhookSecret = some secret) := by
  have insecure : isInsecureDevAllowed env = false := by simp [isInsecureDevAllowed, secure]
  unfold createKycApp at boot
  cases herrors : configErrors protocol env deps.runtime with
  | cons error errors => simp [herrors] at boot
  | nil =>
    rw [herrors] at boot
    simp only [configErrors, List.append_eq_nil_iff] at herrors
    obtain ⟨⟨⟨⟨-, -⟩, noProvider⟩, noWebhook⟩, -⟩ := herrors
    obtain ⟨provider, selected⟩ := selects_of_no_providerErrors noProvider
    obtain ⟨named, deployed⟩ := selectProvider_of_secure insecure selected
    dsimp only at boot
    obtain ⟨verifier, hverifier⟩ :
        ∃ verifier, sessionVerifierFromEnv protocol env = .ok verifier := by
      cases h : sessionVerifierFromEnv protocol env with
      | error error => simp [deployed, h, bind, Except.bind] at boot
      | ok verifier => exact ⟨verifier, rfl⟩
    rw [deployed, hverifier] at boot
    change (if hasSessions env ∧ ¬ deps.loadSessions then Except.error _ else Except.ok _) = _
      at boot
    split_ifs at boot
    obtain rfl := Except.ok.inj boot
    refine ⟨rfl, fun serves => ?_⟩
    have sessions : hasSessions env := by
      simp only [KycApp.servesSessions, capabilitiesFromEnv] at serves
      split_ifs at serves with on
      · exact on
      · simp at serves
    exact secret_of_no_webhookErrors noWebhook sessions named insecure

end Boot

section Main

variable (text : NumberText) (backend : Backend) {protocol : UrlProtocol} {env : Env}
  {deps : KycAppDeps} {app : KycApp} (around : Surroundings)

/-- A webhook that is signed under the configured secret, and read as the event. -/
structure SignedWebhook (backend : Backend) (env : Env) (around : Surroundings)
    (request : Request) (event : WebhookEvent) : Prop where
  signed : ∃ secret, secret ≠ [] ∧ (sumsubConfigFromEnv env).webhookSecret = some secret ∧
    Signed backend.H secret (headersOf request) request.body
  parsed : around.parseWebhookEvent request.body = .ok (some event)

/-- Whatever clients send, and however their requests interleave, the status of a session is the
one it had, the one it begins with, or one that the provider named: in a signed webhook about the
session's applicant, or in its answer when it was asked about the session. -/
theorem every_status_is_the_providers (boot : createKycApp protocol env deps = .ok app)
    (secure : env "ALLOW_INSECURE_DEV" ≠ some (lit "true")) (p : Process)
    (fresh : p.world.Fresh (createServices backend app))
    (events : List (Event (Request × Option String))) :
    let w := (runContainer around text backend env app p events).state.world
    ∀ r ∈ w.tables.sessions.rows, r.status ≠ .initial →
      Told (createServices backend app) p.world.tables
        (fun event => ∃ c, .start c ∈ events ∧ SignedWebhook backend env around c.1 event)
        w.providerCalls r := by
  obtain ⟨sumsub, secret⟩ := secret_of_createKycApp boot secure
  have signed : ∀ request event, request.Delivers backend env app around event →
      SignedWebhook backend env around request event := by
    intro request event h
    obtain ⟨key, hne, hkey⟩ := secret h.serves
    refine ⟨⟨key, hne, hkey, ?_⟩, h.parsed⟩
    have verified := h.verified
    rw [sumsub] at verified
    exact signed_of_deployedVerifier hkey hne verified
  have wellFormed : ∀ event, (∃ c, .start c ∈ events ∧
      c.1.Delivers backend env app around event) → event.WellFormed := by
    rintro event ⟨c, -, h⟩
    exact around.wellFormed _ _ h.parsed
  intro w r hr hs
  have inv := inv_runContainer (p := p)
    (serviceKeeps_provenance (createServices backend app) p.world.tables _ _ wellFormed)
    ⟨fresh, fun r hr _ => .before hr (.refl r) rfl⟩ text
  cases inv.2 r hr hs with
  | before h kept status => exact .before h kept status
  | event h status applicant =>
    obtain ⟨c, hc, delivers⟩ := h
    exact .event ⟨c, hc, signed c.1 _ delivers⟩ status applicant
  | answer h about answered status => exact .answer h about answered status

end Main

section Sample

def sessionsApp : KycApp := ⟨[.tokens, .sessions], .sumsub, [], true, false⟩

theorem createKycApp_sampleEnv :
    createKycApp sampleProtocol sampleEnv ⟨.node, true⟩ = .ok sessionsApp := rfl

def reviewBody : Text :=
  lit ("\x7b\"applicantId\":\"a\",\"externalUserId\":\"u\",\"type\":\"applicantReviewed\","
    ++ "\"reviewStatus\":\"completed\",\"reviewResult\":\x7b\"reviewAnswer\":\"GREEN\"\x7d\x7d")

def reviewHmac : Hmac where
  digest
    | .sha256, key, message =>
      if key = utf8 (lit "secret") ∧ message = utf8 reviewBody then
        [123, 236, 142, 249, 234, 234, 216, 120, 11, 250, 229, 178, 181, 117, 183, 154, 50, 52, 4,
          39, 39, 27, 78, 39, 229, 54, 105, 21, 39, 139, 106, 133]
      else List.replicate 32 0
    | algorithm, _, _ => List.replicate algorithm.size 0
  length_digest := by
    intro algorithm key message
    cases algorithm with
    | sha256 => dsimp only; split_ifs <;> rfl
    | _ => exact List.length_replicate

def startingBackend : Backend where
  H := reviewHmac
  service := bareDeps
  parseJson _ := none
  apollo _ _ := .inContext do
    let _ ← perform (S := ResolverSig) (.verificationSessionStart (startInput "basic"))
    pure ⟨some 200, [], .complete []⟩
  loaded := .ok ()

def quietSurroundings : Surroundings where
  now _ := 0
  wholeMs _ := ⟨0, by norm_num, rfl⟩
  timestamp _ := "1970-01-01T00:00:00.000Z"
  randomNonce _ := "nonce"
  verifySession _ _ := .ok (some "u")
  parseWebhookEvent rawBody :=
    .ok (if rawBody = reviewBody then
      some ⟨"a", some "u", some .approved, "applicantReviewed:completed", none, none⟩ else none)
  wellFormed := by
    intro rawBody event h
    have found := Except.ok.inj h
    split_ifs at found
    obtain rfl := Option.some.inj found
    exact ⟨by decide, by decide⟩

def approvingRequests : List (Event (Request × Option String)) :=
  [.start (⟨"POST", "/graphql", "", .ofRecord [], []⟩, none), .step 0, .step 0, .step 0, .step 0,
    .start (⟨"POST", "/webhook/kyc/sumsub", "", .ofRecord [("x-payload-digest",
      "7bec8ef9eaead8780bfae5b2b575b79a32340427271b4e27e5366915278b6a85")], reviewBody⟩, none),
    .step 1, .step 1, .step 1, .step 1, .step 1]

theorem every_status_is_the_providers_approved :
    let w := (runContainer quietSurroundings (fun _ => "") startingBackend sampleEnv sessionsApp
      (.fresh .empty) approvingRequests).state.world
    (∃ r ∈ w.tables.sessions.rows, r.status = .approved) ∧
      ∀ r ∈ w.tables.sessions.rows, r.status ≠ .initial →
        Told (createServices startingBackend sessionsApp) (Process.fresh .empty).world.tables
          (fun event => ∃ c, .start c ∈ approvingRequests ∧
            SignedWebhook startingBackend sampleEnv quietSurroundings c.1 event)
          w.providerCalls r := by
  have secure : sampleEnv "ALLOW_INSECURE_DEV" ≠ some (lit "true") := by decide +kernel
  exact ⟨by decide +kernel, every_status_is_the_providers (fun _ => "") startingBackend
    quietSurroundings createKycApp_sampleEnv secure (.fresh .empty) (World.fresh_empty _)
    approvingRequests⟩

end Sample

end Kyc.Server
