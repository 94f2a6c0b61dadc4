import Kyc.Server.Provenance
import Kyc.Service.Acknowledged

/-! # Webhooks that were acknowledged

The provider delivers a webhook again until it is answered with 200, and never after. So what
it is answered with must be true: the webhook was the provider's, and an event of a session
that is known was applied, and is on the record, when the 200 goes out, whatever other
requests the container served meanwhile.
-/

namespace Kyc.Server

open Http Json Boot Program

variable {D : Discipline World} {around : Surroundings} {backend : Backend} {env : Env}
  {app : KycApp} {deps : VerificationServiceDeps} {request : Request} {p : Process}
  {event : WebhookEvent} {known : Prop}

theorem serviceKeeps_of_keptByCalls (hD : KeptByCalls deps D) :
    ServiceKeeps D deps (fun _ => True) (fun _ => True) fun _ => True := by
  have keeps {α : Type} {q : Service α} (hq : q.Uses (Issued deps)) :
      q.Keeps D (exec deps) Somehow :=
    ⟨fun _ _ => hD.safe_anyhow hq⟩
  exact
    { start := fun _ _ => keeps (uses_start Issued.admits.toAdmits ..)
      refresh := fun _ _ => keeps ((uses_refresh ..).mono fun _ => Silent.issued)
      status := fun _ _ => keeps (uses_status Issued.admits ..)
      latestForUser := fun _ _ => keeps (uses_latestForUser Issued.admits ..)
      mint := fun _ _ => keeps ((uses_mintAccessTokenHttp ..).mono fun _ => Silent.issued)
      hostedPage := fun _ => keeps ((uses_hostedPage ..).mono fun _ => Silent.issued)
      deliver := fun _ => keeps (uses_handleWebhookEvent Issued.admits ..) }

/-- What a client reads in a response with 200: its request delivered the event, and what the body
says of the event is true of what the container holds. -/
def Acknowledges (delivers : Prop) (event : WebhookEvent) (known : Prop)
    (r : Except Thrown (Response Body)) (p : Process) : Prop :=
  ∀ response, r = .ok response → response.status = 200 →
    delivers ∧ ∃ outcome, response.body = .processed (.result outcome) ∧
      p.world.tables.Honours event outcome ∧ (known → p.world.tables.Applied event outcome)

variable {delivers : Prop}

theorem acknowledges_of_ne {response : Response Body} (h : response.status ≠ 200) :
    Acknowledges delivers event known (.ok response) p := by
  intro response' hr h200
  obtain rfl := Except.ok.inj hr
  exact absurd h200 h

theorem Acknowledges.later {r : Except Thrown (Response Body)} {p' : Process}
    (h : Acknowledges delivers event known r p)
    (he : Evolves p.world.tables p'.world.tables) : Acknowledges delivers event known r p' := by
  intro response hr h200
  obtain ⟨hd, outcome, hbody, honours, applied⟩ := h response hr h200
  exact ⟨hd, outcome, hbody, Acknowledged.honours_of_evolves honours he,
    fun hk => Acknowledged.applied_of_evolves (applied hk) he⟩

theorem Acknowledges.of_same {response response' : Response Body}
    (h : Acknowledges delivers event known (.ok response) p)
    (hs : response'.status = response.status) (hb : response'.body = response.body) :
    Acknowledges delivers event known (.ok response') p := by
  intro other hr h200
  obtain rfl := Except.ok.inj hr
  rw [hb]
  exact h response rfl (hs ▸ h200)

/-- What is added to the headers of a response does not matter to what it acknowledges. -/
theorem ensures_adjusted {S : Kyc.Signature} {h : Handler S Thrown Process}
    {q : Program S Thrown (Response Body)} {f : Response Body → Response Body}
    (hq : q.Ensures ((acknowledging deps event known).comap Process.world) h
      (Acknowledges delivers event known))
    (status : ∀ response, (f response).status = response.status)
    (body : ∀ response, (f response).body = response.body) :
    (q >>= fun response => pure (f response)).Ensures
      ((acknowledging deps event known).comap Process.world) h
      (Acknowledges delivers event known) := by
  refine hq.bind (fun response p _ ha => safe_pure fun p' hle _ => ?_)
    fun e _ _ response hr => nomatch hr
  exact (ha.of_same (status response) (body response)).later hle

theorem status_newResponse {status : HttpStatus} {record : HeaderRecord} {body : Body}
    {response : Response Body} (h : newResponse status record body = .ok response) :
    status = .number response.status := by
  unfold newResponse at h
  split at h
  · split_ifs at h
    obtain rfl := Except.ok.inj h
    rfl
  · cases h

/-- What a request ensures, among all that count on the event's session. -/
abbrev AppEnsures (around : Surroundings) (deps : VerificationServiceDeps) (event : WebhookEvent)
    (known : Prop) {α : Type} (Q : Except Thrown α → Process → Prop) (q : App α) : Prop :=
  q.Ensures ((acknowledging deps event known).comap Process.world) (execApp around deps) Q

theorem tokens_of_webhook (hp : request.PostsWebhook) :
    tokens backend app request = pure (jsonError 404 "Not found") := by
  have elsewhere : request.pathname ≠ accessTokenPath := by
    intro h
    have route := hp.route
    rw [h] at route
    exact absurd route (by decide)
  unfold tokens createAccessTokenApp
  simp [hp.post, elsewhere]

section Routes

variable (hp : request.PostsWebhook)
  (only : ∀ event', around.parseWebhookEvent request.body = .ok (some event') → event' = event)

include hp only

/-- Only a webhook that is verified and read as the event is answered with 200. -/
theorem ensures_deliver (serves : app.servesSessions) :
    AppEnsures around (createServices backend app) event known
      (fun r p => ∀ result, r = .ok result → result.status = .number 200 →
        request.Delivers backend env app around event ∧ ∃ outcome,
          result.body = .result outcome ∧
            Acknowledged.Answers event known (.ok outcome) p.world)
      (Sessions.deliver backend env app request) := by
  rw [deliver_eq]
  split_ifs with provider verified
  · refine Keeps.ensures (Q := fun r => around.parseWebhookEvent request.body = r)
      (keeps_aside (o := .parseWebhookEvent _) (fun _ => rfl) fun _ => rfl)
      (fun parsed hparsed => ⟨fun p hi => ?_⟩) fun e _ _ result hr => nomatch hr
    cases parsed with
    | none => exact safe_pure fun _ _ _ result hr h200 => by cases hr; cases h200
    | some event' =>
      obtain rfl := only event' hparsed
      have hwf := around.wellFormed _ _ hparsed
      refine Safe.tryCatch (Q := fun r p => ∀ result, r = .ok result →
        ∃ outcome, result.body = .result outcome ∧
          Acknowledged.Answers event' known (.ok outcome) p.world) ?_ hi (fun e _ _ _ _ => ?_)
        fun result _ _ _ hq result' hr _ => by
          cases hr
          exact ⟨⟨hp, serves, provider, verified, hparsed⟩, hq result rfl⟩
      · refine Safe.bind ((Acknowledged.safe_handleWebhookEvent hi hwf).expand
          (embeds_service around (createServices backend app))) hi
          (fun outcome p₁ _ _ ho => safe_pure fun p₂ hle _ result hr => ?_)
          fun e _ _ _ _ result hr => nomatch hr
        obtain rfl := Except.ok.inj hr
        refine ⟨outcome, rfl, fun outcome' heq => ?_⟩
        obtain ⟨honours, applied⟩ := ho outcome' heq
        exact ⟨Acknowledged.honours_of_evolves honours hle,
          fun hk => Acknowledged.applied_of_evolves (applied hk) hle⟩
      · exact safe_pure fun _ _ _ result hr h200 => by cases hr; cases h200
  · exact ⟨fun p _ => safe_pure fun _ _ _ result hr h200 => by cases hr; cases h200⟩
  · exact ⟨fun p _ => safe_pure fun _ _ _ result hr h200 => by cases hr; cases h200⟩

theorem ensures_webhook (serves : app.servesSessions) :
    AppEnsures around (createServices backend app) event known
      (Acknowledges (request.Delivers backend env app around event) event known)
      (Sessions.webhook backend env app request) := by
  refine (ensures_deliver hp only serves).bind (fun result p hi hq => ?_)
    fun e _ _ response hr => nomatch hr
  cases hj : json .processed result with
  | error e => exact safe_throw fun _ _ _ response hr => nomatch hr
  | ok response =>
    refine safe_pure fun p' hle _ => Acknowledges.later ?_ hle
    intro response' hr h200
    obtain rfl := Except.ok.inj hr
    obtain ⟨delivers, outcome, hbody, answers⟩ :=
      hq result rfl ((status_newResponse hj).trans (by rw [h200]))
    refine ⟨delivers, outcome, ?_, answers outcome rfl⟩
    rw [(newResponse_eq_ok hj).2, hbody]

theorem ensures_route :
    AppEnsures around (createServices backend app) event known
      (Acknowledges (request.Delivers backend env app around event) event known)
      (route backend env app request) := by
  unfold route
  rw [if_neg (by simp [hp.post])]
  by_cases serves : app.servesSessions
  · rw [if_pos ⟨serves, hp.post, hp.route⟩]
    refine (keeps_ofExcept (Q := Somehow) trivial).ensures (fun _ _ => ?_)
      fun e _ _ response hr => nomatch hr
    exact ensures_adjusted (ensures_webhook hp only serves) (fun _ => status_withDefaults ..)
      fun _ => body_withDefaults ..
  · rw [if_neg fun h => serves h.1, if_neg fun h => serves h.1, if_neg fun h => serves h.1,
      tokens_of_webhook hp]
    exact ⟨fun p _ => safe_pure fun _ _ _ => acknowledges_of_ne (by simp [jsonError])⟩

theorem ensures_app :
    AppEnsures around (createServices backend app) event known
      (Acknowledges (request.Delivers backend env app around event) event known)
      (app.fetch backend env request) := by
  unfold KycApp.fetch
  dsimp only
  rw [if_neg (by simp [hp.post])]
  exact ensures_adjusted (ensures_route hp only) (fun _ => status_withDefaults ..)
    fun _ => body_withDefaults ..

theorem ensures_fetch (text : NumberText) (limits : RateLimits) (address : Option String) :
    (fetch text backend env app request address).Ensures
      ((acknowledging (createServices backend app) event known).comap Process.world)
      (execContainer around (createServices backend app) limits)
      (Acknowledges (request.Delivers backend env app around event) event known) := by
  have reached : (Container.app (app.fetch backend env request)).Ensures
      ((acknowledging (createServices backend app) event known).comap Process.world)
      (execContainer around (createServices backend app) limits)
      (Acknowledges (request.Delivers backend env app around event) event known) :=
    (ensures_app hp only).expand (embeds_app around (createServices backend app) limits)
  unfold fetch
  refine (keeps_limit limits _ _).ensures (fun decision _ => ?_) fun e _ _ response hr => nomatch hr
  cases decision with
  | none => exact reached
  | some decision =>
    dsimp only
    split
    · exact ensures_adjusted reached (fun _ => status_withHeaders ..) fun _ => body_withHeaders ..
    · exact ⟨fun p _ => safe_pure fun _ _ _ => acknowledges_of_ne (by simp [tooManyRequests])⟩

end Routes

section Main

variable (text : NumberText) (backend : Backend) (env : Env) (app : KycApp)
  (around : Surroundings)

theorem keeps_of_keptByCalls (hD : KeptByCalls (createServices backend app) D)
    (c : Request × Option String) :
    (fetch text backend env app c.1 c.2).Keeps (D.comap Process.world)
      (execContainer around (createServices backend app) (rateLimitsFromEnv env)) Somehow :=
  keeps_fetch (serviceKeeps_of_keptByCalls hD) (fun _ _ => trivial) (fun _ _ => trivial)
    (fun _ _ => trivial) ..

theorem exists_only (around : Surroundings) (rawBody : Text) :
    ∃ event, ∀ event', around.parseWebhookEvent rawBody = .ok (some event') → event' = event := by
  by_cases h : ∃ event, around.parseWebhookEvent rawBody = .ok (some event)
  · obtain ⟨event, hparsed⟩ := h
    refine ⟨event, fun event' h => ?_⟩
    rw [hparsed] at h
    exact (Option.some.inj (Except.ok.inj h)).symm
  · exact ⟨⟨"", none, none, "", none, none⟩, fun event' h' => absurd ⟨event', h'⟩ h⟩

/-- A webhook that is answered with 200 was verified and read, and its event was acted on: what the
answer says of the event is true when it goes out and whenever one looks from then on, and if a
session of the event's applicant, on its level, was there when the webhook came in, then the
event was applied to one such session and its status is on the record. -/
theorem acknowledged_webhooks_are_applied (p : Process)
    (fresh : p.world.Fresh (createServices backend app)) (audited : p.world.tables.Audited)
    (before later : List (Event (Request × Option String))) :
    let here := runContainer around text backend env app p before
    let there := runContainer around text backend env app p (before ++ later)
    ∀ i t response, here.threads.length ≤ i → there.threads[i]? = some t →
      t.call.1.PostsWebhook → t.rest = .ret response → response.status = 200 →
        ∃ event, t.call.1.Delivers backend env app around event ∧
          ∃ outcome, response.body = .processed (.result outcome) ∧
            there.state.world.tables.Honours event outcome ∧
            (here.state.world.tables.Knows event →
              there.state.world.tables.Applied event outcome) := by
  intro here there i t response hlen hi posts hr h200
  obtain ⟨event, only⟩ := exists_only around t.call.1.body
  let known : Prop := here.state.world.tables.Knows event
  let D := (acknowledging (createServices backend app) event known).comap Process.world
  let h := execContainer around (createServices backend app) (rateLimitsFromEnv env)
  have begun : ((recorded (createServices backend app)).comap Process.world).Inv p :=
    ⟨fresh, audited⟩
  have started : Pool.AllSafe ((recorded (createServices backend app)).comap Process.world) h
      (fun _ _ _ => True) (fun _ r _ => Somehow r) here :=
    Pool.keeps_run begun fun c _ =>
      keeps_of_keptByCalls text backend env app around (Acknowledged.keptByCalls _) c
  have stays (s s' : Process) (he : Evolves s.world.tables s'.world.tables)
      (hs : known → s.world.tables.Knows event) (hk : known) : s'.world.tables.Knows event :=
    Acknowledged.knows_of_evolves (hs hk) he
  have counted : Pool.AllSafe D h (fun _ _ _ => True) (fun _ r _ => Somehow r) here :=
    started.restrict stays id
  have keeps (c : Request × Option String) (s : Process) (hs : D.Inv s) :=
    (keeps_of_keptByCalls text backend env app around
      (Acknowledged.known_keptByCalls _ event known) c).safe s hs
  have split : there = here.run h (fun c => fetch text backend env app c.1 c.2) later :=
    Pool.run_append h _ (Pool.idle p) before later
  rw [split] at hi ⊢
  have settled := counted.later (fun _ _ => trivial) later (fun c _ => keeps c)
    (R := fun c r p => c.1 = t.call.1 →
      Acknowledges (c.1.Delivers backend env app around event) event known r p)
    (fun c _ s hs => ?_) hi hlen
  · have inv := (counted.run (fun _ _ => trivial) later fun c _ => keeps c).inv
    obtain ⟨delivers, outcome, answers⟩ :=
      settled.of_result inv (by rw [hr]; rfl) rfl response rfl h200
    exact ⟨event, delivers, outcome, answers⟩
  · by_cases hc : c.1 = t.call.1
    · rw [← hc] at posts only
      exact ((ensures_fetch posts only text _ c.2).safe s hs).mono fun _ _ hq _ => hq
    · exact (keeps c s hs).mono fun _ _ _ h => absurd h hc

end Main

section Sample

def approvedEvent : WebhookEvent :=
  ⟨"a", some "u", some .approved, "applicantReviewed:completed", none, none⟩

def reviewRequest : Request × Option String :=
  (⟨"POST", "/webhook/kyc/sumsub", "", .ofRecord [("x-payload-digest",
    "7bec8ef9eaead8780bfae5b2b575b79a32340427271b4e27e5366915278b6a85")], reviewBody⟩, none)

def redelivery : List (Event (Request × Option String)) :=
  [.start reviewRequest, .step 2, .step 2, .step 2, .step 2]

def settledStatus : Container (Response Body) → Option ℕ
  | .ret response => some response.status
  | _ => none

theorem exists_of_settledStatus {rest : Container (Response Body)} {n : ℕ}
    (h : settledStatus rest = some n) : ∃ response, rest = .ret response ∧ response.status = n := by
  cases rest with
  | ret response => exact ⟨response, rfl, Option.some.inj h⟩
  | err | await => cases h

theorem delivers_reviewRequest : reviewRequest.1.Delivers startingBackend sampleEnv sessionsApp
    quietSurroundings approvedEvent where
  post := rfl
  route := by decide +kernel
  serves := by decide +kernel
  provider := by decide +kernel
  verified := by decide +kernel
  parsed := by
    unfold quietSurroundings reviewRequest approvedEvent
    dsimp only
    rw [if_pos rfl]

theorem acknowledged_webhooks_are_applied_again :
    ∃ outcome, (runContainer quietSurroundings (fun _ => "") startingBackend sampleEnv sessionsApp
      (.fresh .empty) (approvingRequests ++ redelivery)).state.world.tables.Applied approvedEvent
        outcome := by
  have settled : (runContainer quietSurroundings (fun _ => "") startingBackend sampleEnv
      sessionsApp (.fresh .empty) (approvingRequests ++ redelivery)).threads[2]?.map
        (fun t => settledStatus t.rest) = some (some 200) := by
    decide +kernel
  have calls : (runContainer quietSurroundings (fun _ => "") startingBackend sampleEnv
      sessionsApp (.fresh .empty) (approvingRequests ++ redelivery)).threads[2]?.map (·.call) =
        some reviewRequest := by
    rfl
  have bound : ∃ r ∈ (runContainer quietSurroundings (fun _ => "") startingBackend sampleEnv
      sessionsApp (.fresh .empty) approvingRequests).state.world.tables.sessions.rows,
        r.providerApplicantId = some "a" := by
    decide +kernel
  obtain ⟨t, hi, hs⟩ := Option.map_eq_some_iff.mp settled
  obtain ⟨response, hr, h200⟩ := exists_of_settledStatus hs
  rw [hi] at calls
  have call : t.call = reviewRequest := Option.some.inj calls
  obtain ⟨event, delivers, outcome, -, -, applied⟩ := acknowledged_webhooks_are_applied
    (fun _ => "") startingBackend sampleEnv sessionsApp quietSurroundings (.fresh .empty)
    (World.fresh_empty _) Tables.audited_empty approvingRequests redelivery 2 t
    response (by decide +kernel) hi (call ▸ delivers_reviewRequest.toPostsWebhook) hr h200
  have parsed := delivers.parsed
  rw [call, delivers_reviewRequest.parsed] at parsed
  obtain rfl := Option.some.inj (Except.ok.inj parsed)
  obtain ⟨r, hm, ha⟩ := bound
  exact ⟨outcome, applied ⟨r, hm, ha, fun level h => nomatch h⟩⟩

end Sample

end Kyc.Server
