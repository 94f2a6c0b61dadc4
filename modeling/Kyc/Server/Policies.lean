import Kyc.Programs.Yields
import Kyc.Server.Container
import Kyc.Service.Sample

/-! # What every response carries

Headers are put on a response in several layers: by the handlers, by the routes and the app
around them, and by the container. Whatever a request awaits and is answered, the response
ends up with the security headers of its route and with exactly the origin that is allowed.
-/

namespace Kyc.Server

open Http Json Boot Program

def securityNames : List String := securityHeaders.map Prod.fst

def corsNames : List String := ["vary", "access-control-allow-origin"]

def allowedOrigin (origins : List Text) (request : Request) : Option String :=
  (truthy (request.headers "origin")).bind fun origin =>
    if origins.contains (lit "*") then some "*"
    else if origins.contains (lit origin) then some origin
    else none

/-- The response allows the origin that it is to allow, and varies with it if any is. -/
structure CorsExactly (origins : List Text) (request : Request) (response : Response Body) :
    Prop where
  origin : response.headers "access-control-allow-origin" = allowedOrigin origins request
  vary : response.headers "vary" = if origins = [] then none else some "origin"

def isPreflight (request : Request) : Prop :=
  request.method = "OPTIONS" ∧ request.pathname = "/graphql"

def isHosted (app : KycApp) (request : Request) : Prop :=
  app.servesSessions ∧ request.method = "GET" ∧ "/hosted/".toList <+: request.pathname.toList

def Body.nonce : Body → Option String
  | notFoundPage nonce => some nonce
  | page params => some params.nonce
  | _ => none

/-- What a response does about the baseline, by what it answers. -/
inductive Secured (app : KycApp) (request : Request) (response : Response Body) : Prop
  | baseline (all : ∀ entry ∈ securityHeaders, response.headers entry.1 = some entry.2)
  | preflight (h : isPreflight request)
      (bare : ∀ name ∈ securityNames, response.headers name = none)
  /-- The GraphQL server may have policies of its own. -/
  | graphql (h : app.servesSessions ∧ request.pathname = "/graphql")
      (all : ∀ name ∈ securityNames, (response.headers name).isSome)
  /-- A page may be embedded, and allows what its provider needs under its own nonce. -/
  | page (h : isHosted app request) (nonce : String) (carried : response.body.nonce = some nonce)
      (csp : response.headers "content-security-policy" = some (pageCsp app.provider nonce))
      (embeddable : ∀ name ∈ ["x-frame-options", "cross-origin-resource-policy"],
        response.headers name = none)
      (kept : ∀ entry ∈ pageHeaders, response.headers entry.1 = some entry.2)

/-- Whatever the GraphQL server answers satisfies `Q`. -/
def Execution.Yields (Q : HTTPGraphQLResponse → Prop) : Execution → Prop
  | .answered response => Q response
  | .inContext run => run.Yields Q

/-- The GraphQL server leaves the headers alone that depend on the origin. -/
def LeavesCors (apollo : Apollo) : Prop :=
  ∀ introspection request, (apollo introspection request).Yields fun response =>
    ∀ name ∈ corsNames, response.headers.reverse.lookup name = none

section Records

variable {origins : List Text} {request : Request}

theorem corsHeaders_preset (origins : List Text) (request : Request) :
    AccessTokenApp.corsHeaders (if origins = [] then none else some origins) request =
      corsHeaders origins request := by
  unfold AccessTokenApp.corsHeaders corsHeaders
  by_cases h : origins = []
  · rw [if_pos h, if_pos h]
  · rw [if_neg h, if_neg h]

theorem lookup_allowOrigin (origins : List Text) (request : Request) :
    (allowOrigin origins (request.headers "origin")).lookup "access-control-allow-origin" =
      allowedOrigin origins request := by
  unfold allowOrigin allowedOrigin
  cases truthy (request.headers "origin") with
  | none => rfl
  | some origin =>
    dsimp only [Option.bind_some]
    split_ifs <;> rfl

theorem lookup_allowOrigin_of_ne {name : String} (h : name ≠ "access-control-allow-origin")
    (origins : List Text) (origin : Option String) :
    (allowOrigin origins origin).lookup name = none := by
  unfold allowOrigin
  cases truthy origin with
  | none => rfl
  | some origin =>
    dsimp only
    split_ifs <;> simp [List.lookup_cons, beq_false_of_ne h]

theorem reverse_allowOrigin (origins : List Text) (origin : Option String) :
    (allowOrigin origins origin).reverse = allowOrigin origins origin := by
  unfold allowOrigin
  cases truthy origin with
  | none => rfl
  | some origin =>
    dsimp only
    split_ifs <;> rfl

theorem lookup_corsHeaders_origin (origins : List Text) (request : Request) :
    (corsHeaders origins request).lookup "access-control-allow-origin" =
      allowedOrigin origins request := by
  unfold corsHeaders
  split_ifs with h
  · subst h
    unfold allowedOrigin
    cases truthy (request.headers "origin") with
    | none => rfl
    | some origin => simp
  · rw [List.lookup_cons]
    exact lookup_allowOrigin origins request

theorem lookup_corsHeaders_vary (origins : List Text) (request : Request) :
    (corsHeaders origins request).lookup "vary" = if origins = [] then none else some "origin" := by
  unfold corsHeaders
  split_ifs <;> rfl

theorem lookup_corsHeaders_of_not_mem {name : String} (h : name ∉ corsNames)
    (origins : List Text) (request : Request) :
    (corsHeaders origins request).lookup name = none := by
  obtain ⟨hvary, horigin⟩ := not_or.mp (mt List.mem_cons.mpr h)
  unfold corsHeaders
  split_ifs
  · rfl
  · rw [List.lookup_cons, beq_false_of_ne hvary]
    exact lookup_allowOrigin_of_ne (mt List.mem_singleton.mpr horigin) origins _

theorem lookup_reverse_corsHeaders (origins : List Text) (request : Request) (name : String) :
    (corsHeaders origins request).reverse.lookup name =
      (corsHeaders origins request).lookup name := by
  unfold corsHeaders
  split_ifs
  · rfl
  · rw [List.reverse_cons, reverse_allowOrigin, List.lookup_append, List.lookup_cons]
    by_cases h : name = "vary"
    · subst h
      rw [lookup_allowOrigin_of_ne (by decide)]
      rfl
    · rw [List.lookup_cons, beq_false_of_ne h]
      exact Option.or_none

end Records

section Handlers

variable {cors : HeaderRecord} {response : Response Body} {record : HeaderRecord}

/-- The headers that depend on the origin are missing, or those of the record. -/
def Fits (cors : HeaderRecord) (response : Response Body) : Prop :=
  ∀ name ∈ corsNames, response.headers name = none ∨ response.headers name = cors.lookup name

structure Plain (cors : HeaderRecord) (response : Response Body) : Prop where
  bare : ∀ name ∈ securityNames, response.headers name = none
  fits : Fits cors response

theorem newResponse_eq_ok {status : HttpStatus} {body : Body}
    (h : newResponse status record body = .ok response) :
    response.headers = .ofRecord record ∧ response.body = body := by
  unfold newResponse at h
  split at h
  · split_ifs at h
    obtain rfl := Except.ok.inj h
    exact ⟨rfl, rfl⟩
  · cases h

theorem fits_of_lookup (h : response.headers = .ofRecord record)
    (hr : ∀ name ∈ corsNames, record.reverse.lookup name = none) : Fits cors response := by
  intro name hname
  left
  rw [h, Headers.ofRecord_apply, hr name hname]

theorem plain_of_contentType (cors : HeaderRecord)
    (h : response.headers = .ofRecord contentTypeJson) : Plain cors response where
  bare := by
    intro name hname
    rw [h, Headers.ofRecord_apply]
    revert name
    decide
  fits := fits_of_lookup h (by decide)

theorem plain_json {α : Type} {body : HttpBody α → Body} {result : HttpResult α}
    (h : json body result = .ok response) : Plain cors response :=
  plain_of_contentType cors (newResponse_eq_ok h).1

theorem Fits.withHeaders (h : Fits cors response)
    (hr : ∀ name ∈ corsNames, record.reverse.lookup name = none ∨
      record.reverse.lookup name = cors.lookup name) : Fits cors (withHeaders response record) := by
  intro name hname
  rw [headers_withHeaders]
  rcases hr name hname with hr | hr
  · rw [hr, Option.none_or]
    exact h name hname
  · rw [hr]
    cases hc : cors.lookup name with
    | none =>
      have left := h name hname
      rwa [hc] at left
    | some value => exact Or.inr rfl

theorem Fits.withDefaults (h : Fits cors response)
    (hr : ∀ name ∈ corsNames, record.lookup name = none) :
    Fits cors (withDefaults response record) := by
  intro name hname
  rw [headers_withDefaults, hr name hname, Option.or_none]
  exact h name hname

theorem Fits.exactly {origins : List Text} {request : Request}
    (h : Fits (corsHeaders origins request) response) :
    CorsExactly origins request (Server.withDefaults response (corsHeaders origins request)) := by
  have filled : ∀ name ∈ corsNames,
      (Server.withDefaults response (corsHeaders origins request)).headers name =
        (corsHeaders origins request).lookup name := by
    intro name hname
    rw [headers_withDefaults]
    rcases h name hname with h | h
    · rw [h, Option.none_or]
    · rw [h, Option.or_self]
  constructor
  · rw [filled _ (by decide), lookup_corsHeaders_origin]
  · rw [filled _ (by decide), lookup_corsHeaders_vary]

theorem CorsExactly.withDefaults {origins : List Text} {request : Request}
    (h : CorsExactly origins request response)
    (hr : ∀ name ∈ corsNames, record.lookup name = none) :
    CorsExactly origins request (Server.withDefaults response record) where
  origin := by
    rw [headers_withDefaults, hr _ (by decide), Option.or_none, h.origin]
  vary := by
    rw [headers_withDefaults, hr _ (by decide), Option.or_none, h.vary]

theorem CorsExactly.withHeaders {origins : List Text} {request : Request}
    (h : CorsExactly origins request response)
    (hr : ∀ name ∈ corsNames, record.reverse.lookup name = none) :
    CorsExactly origins request (Server.withHeaders response record) where
  origin := by
    rw [headers_withHeaders, hr _ (by decide), Option.none_or, h.origin]
  vary := by
    rw [headers_withHeaders, hr _ (by decide), Option.none_or, h.vary]

theorem baseline_of_bare (h : ∀ name ∈ securityNames, response.headers name = none) :
    ∀ entry ∈ securityHeaders,
      (Server.withDefaults response securityHeaders).headers entry.1 = some entry.2 := by
  have looked : ∀ entry ∈ securityHeaders, securityHeaders.lookup entry.1 = some entry.2 := by
    decide
  intro entry hentry
  rw [headers_withDefaults, h entry.1 (List.mem_map_of_mem hentry), Option.none_or,
    looked entry hentry]

end Handlers

section Routes

variable {backend : Backend} {env : Env} {app : KycApp} {request : Request} {cors : HeaderRecord}

theorem plain_jsonError (status : ℕ) (error : String) : Plain cors (jsonError status error) :=
  plain_of_contentType cors rfl

theorem bare_preflight (origins : List Text) (request : Request) :
    ∀ name ∈ securityNames, (preflight (corsHeaders origins request)).headers name = none := by
  have apart : ∀ name ∈ securityNames,
      name ∉ corsNames ∧ preflightHeaders.reverse.lookup name = none := by decide
  intro name hname
  obtain ⟨hcors, hpreflight⟩ := apart name hname
  change Headers.ofRecord _ name = none
  rw [Headers.ofRecord_apply, List.reverse_append, List.lookup_append, hpreflight,
    lookup_reverse_corsHeaders, lookup_corsHeaders_of_not_mem hcors]
  rfl

theorem lookup_preflight (origins : List Text) (request : Request) {name : String}
    (h : name ∈ corsNames) : (preflight (corsHeaders origins request)).headers name =
      (corsHeaders origins request).lookup name := by
  have apart : ∀ name ∈ corsNames, preflightHeaders.reverse.lookup name = none := by decide
  change Headers.ofRecord _ name = _
  rw [Headers.ofRecord_apply, List.reverse_append, List.lookup_append, apart name h,
    lookup_reverse_corsHeaders, Option.none_or]

theorem plain_preflight (origins : List Text) (request : Request) :
    Plain (corsHeaders origins request) (preflight (corsHeaders origins request)) where
  bare := bare_preflight origins request
  fits := fun _ hname => Or.inr (lookup_preflight origins request hname)

theorem Plain.withCors {origins : List Text} {response : Response Body}
    (h : Plain (corsHeaders origins request) response) :
    Plain (corsHeaders origins request)
      (withHeaders response (corsHeaders origins request)) where
  bare := by
    have apart : ∀ name ∈ securityNames, name ∉ corsNames := by decide
    intro name hname
    rw [headers_withHeaders, lookup_reverse_corsHeaders,
      lookup_corsHeaders_of_not_mem (apart name hname), Option.none_or, h.bare name hname]
  fits := h.fits.withHeaders fun name _ => Or.inr (lookup_reverse_corsHeaders origins request name)

theorem yields_createAccessTokenApp {origins : List Text} {options : AccessTokenAppOptions}
    (h : AccessTokenApp.corsHeaders options.cors request = corsHeaders origins request)
    (parseJson : Text → Option JsonValue) :
    (createAccessTokenApp parseJson options request).Yields
      (Plain (corsHeaders origins request)) := by
  unfold createAccessTokenApp
  dsimp only
  rw [h]
  split_ifs
  · exact yields_pure (plain_preflight origins request)
  · cases readJson parseJson request with
    | none => exact yields_pure (plain_jsonError 400 "Invalid JSON body").withCors
    | some body =>
      refine yields_bind fun userId => yields_bind fun result => ?_
      refine (yields_ofExcept (Q := Plain (corsHeaders origins request)) ?_).bind ?_
      · exact fun response hresponse => plain_json hresponse
      · exact fun response plain => yields_pure plain.withCors
  · exact yields_bind fun timestamp => yields_pure (plain_of_contentType _ rfl)
  · exact yields_pure (plain_jsonError 404 "Not found")

theorem yields_tokens :
    (tokens backend app request).Yields (Plain (corsHeaders app.origins request)) :=
  yields_createAccessTokenApp (corsHeaders_preset app.origins request) backend.parseJson

theorem yields_webhook (cors : HeaderRecord) :
    (Sessions.webhook backend env app request).Yields (Plain cors) := by
  unfold Sessions.webhook
  exact yields_bind fun result => yields_ofExcept fun response h => plain_json h

theorem Execution.Yields.graphql {Q : HTTPGraphQLResponse → Prop} {R : Response Body → Prop}
    (h : (backend.apollo app.introspection
      (httpGraphQLRequestFrom backend.parseJson request)).Yields Q)
    (hR : ∀ response, Q response → (Sessions.answer response).Yields R) :
    (Sessions.graphql backend app request).Yields R := by
  unfold Sessions.graphql
  cases hx : backend.apollo app.introspection
    (httpGraphQLRequestFrom backend.parseJson request) with
  | answered response =>
    rw [hx] at h
    exact hR response h
  | inContext run =>
    rw [hx] at h
    have answered : run.Yields Q := h
    exact yields_bind fun userId => (answered.expand _).bind hR

theorem yields_graphql (cors : HeaderRecord) (h : LeavesCors backend.apollo) :
    (Sessions.graphql backend app request).Yields (Fits cors) := by
  refine (h app.introspection _).graphql fun response quiet => ?_
  refine yields_ofExcept fun response' hresponse => ?_
  exact fits_of_lookup (newResponse_eq_ok hresponse).1 quiet

/-- A page's response before the app adds to it. -/
structure PlainPage (provider : ProviderName) (cors : HeaderRecord) (response : Response Body) :
    Prop where
  carried : ∃ nonce, response.body.nonce = some nonce ∧
    response.headers "content-security-policy" = some (pageCsp provider nonce)
  bare : ∀ name ∈ ["x-frame-options", "cross-origin-resource-policy", "x-content-type-options",
    "strict-transport-security"], response.headers name = none
  fits : Fits cors response

def OwnNonce (provider : ProviderName) (result : HostedPageHttpResult) : Prop :=
  ∃ nonce, result.html.nonce = some nonce ∧ result.headers = hostedPageHeaders provider nonce

theorem yields_hostedPageHttp (provider : ProviderName) (deps : VerificationServiceDeps)
    (sessionId : String) : (hostedPageHttp provider deps sessionId).Yields (OwnNonce provider) := by
  unfold hostedPageHttp
  refine yields_bind fun nonce => yields_bind fun decision => ?_
  cases decision with
  | not_found status => exact yields_pure ⟨nonce, rfl, rfl⟩
  | page session accessToken => exact yields_pure ⟨nonce, rfl, rfl⟩

theorem OwnNonce.plainPage {provider : ProviderName} {result : HostedPageHttpResult}
    (h : OwnNonce provider result) : PlainPage provider cors (pageResponse result) := by
  obtain ⟨nonce, hnonce, headers⟩ := h
  have looked (name : String) : (pageResponse result).headers name =
      (hostedPageHeaders provider nonce ++
        [("content-type", "text/html; charset=utf-8")]).reverse.lookup name := by
    rw [pageResponse, headers]
    exact Headers.ofRecord_apply _ name
  constructor
  · exact ⟨nonce, hnonce, looked _⟩
  · intro name hname
    rw [looked]
    simp only [List.mem_cons, List.not_mem_nil, or_false] at hname
    rcases hname with rfl | rfl | rfl | rfl <;> rfl
  · intro name hname
    rw [looked]
    simp only [corsNames, List.mem_cons, List.not_mem_nil, or_false] at hname
    rcases hname with rfl | rfl <;> exact Or.inl rfl

theorem yields_hosted (cors : HeaderRecord) :
    (Sessions.hosted backend app request).Yields (PlainPage app.provider cors) := by
  unfold Sessions.hosted createHostedPageHandler
  exact (yields_hostedPageHttp _ _ _).bind fun result h => yields_pure h.plainPage

theorem Secured.of_headers {response response' : Response Body} (h : Secured app request response)
    (hb : response'.body = response.body)
    (hh : ∀ name ∈ securityNames, response'.headers name = response.headers name) :
    Secured app request response' := by
  cases h with
  | baseline all =>
    refine .baseline fun entry hentry => ?_
    rw [hh _ (List.mem_map_of_mem hentry)]
    exact all entry hentry
  | preflight h bare => exact .preflight h fun name hname => (hh name hname).trans (bare name hname)
  | graphql h all =>
    refine .graphql h fun name hname => ?_
    rw [hh name hname]
    exact all name hname
  | page h nonce carried csp embeddable kept =>
    have framing : ∀ name ∈ ["x-frame-options", "cross-origin-resource-policy"],
        name ∈ securityNames := by decide
    have keeping : ∀ entry ∈ pageHeaders, entry.1 ∈ securityNames := by decide
    refine .page h nonce (hb ▸ carried) ?_ ?_ ?_
    · rw [hh _ (by decide), csp]
    · exact fun name hname => (hh name (framing name hname)).trans (embeddable name hname)
    · exact fun entry hentry => (hh _ (keeping entry hentry)).trans (kept entry hentry)

theorem Secured.withCors {response : Response Body} (h : Secured app request response)
    (origins : List Text) :
    Secured app request (withDefaults response (corsHeaders origins request)) := by
  have apart : ∀ name ∈ securityNames, name ∉ corsNames := by decide
  refine h.of_headers rfl fun name hname => ?_
  rw [headers_withDefaults, lookup_corsHeaders_of_not_mem (apart name hname), Option.or_none]

theorem Plain.secured {response : Response Body} (h : Plain cors response) :
    Secured app request (withDefaults response securityHeaders) :=
  .baseline (baseline_of_bare h.bare)

theorem PlainPage.secured {response : Response Body} (h : PlainPage app.provider cors response)
    (hosted : isHosted app request) :
    Secured app request (withDefaults response pageHeaders) := by
  obtain ⟨nonce, carried, csp⟩ := h.carried
  refine .page hosted nonce carried ?_ ?_ ?_
  · rw [headers_withDefaults, csp]
    rfl
  · intro name hname
    have bare : response.headers name = none := by
      apply h.bare
      simp only [List.mem_cons, List.not_mem_nil, or_false] at hname ⊢
      tauto
    have absent : ∀ name ∈ ["x-frame-options", "cross-origin-resource-policy"],
        pageHeaders.lookup name = none := by decide
    rw [headers_withDefaults, bare, absent name hname]
    rfl
  · intro entry hentry
    have own : ∀ entry ∈ pageHeaders, entry.1 ∈ ["x-frame-options",
        "cross-origin-resource-policy", "x-content-type-options", "strict-transport-security"] ∧
        pageHeaders.lookup entry.1 = some entry.2 := by decide
    obtain ⟨hname, looked⟩ := own entry hentry
    rw [headers_withDefaults, h.bare _ hname, looked]
    rfl

theorem isSome_withDefaults (response : Response Body) {name : String}
    (h : name ∈ securityNames) : ((withDefaults response securityHeaders).headers name).isSome := by
  have looked : ∀ name ∈ securityNames, (securityHeaders.lookup name).isSome := by decide
  rw [headers_withDefaults, Option.isSome_or, looked name h, Bool.or_true]

theorem yields_route_secured : (route backend env app request).Yields (Secured app request) := by
  unfold route
  split_ifs with health webhook graphql hosted
  · refine yields_bind fun timestamp => yields_pure ?_
    exact (plain_of_contentType [] rfl).secured
  · refine yields_bind fun _ => (yields_webhook []).bind fun response h => ?_
    exact yields_pure h.secured
  · refine yields_bind fun _ => yields_bind fun response => yields_pure ?_
    exact .graphql graphql fun name hname => isSome_withDefaults response hname
  · refine yields_bind fun _ => (yields_hosted []).bind fun response h => ?_
    exact yields_pure (h.secured hosted)
  · exact yields_tokens.bind fun response h => yields_pure h.secured

theorem yields_app_secured :
    (app.fetch backend env request).Yields (Secured app request) := by
  unfold KycApp.fetch
  dsimp only
  split_ifs with preflighted
  · exact yields_pure (.preflight preflighted (bare_preflight app.origins request))
  · exact yields_route_secured.bind fun response h => yields_pure (h.withCors app.origins)

theorem yields_route_fits (h : LeavesCors backend.apollo) :
    (route backend env app request).Yields (Fits (corsHeaders app.origins request)) := by
  have security : ∀ name ∈ corsNames, securityHeaders.lookup name = none := by decide
  have page : ∀ name ∈ corsNames, pageHeaders.lookup name = none := by decide
  have minted : (tokens backend app request).Yields (Plain (corsHeaders app.origins request)) :=
    yields_tokens
  revert minted
  generalize corsHeaders app.origins request = cors
  intro minted
  unfold route
  split_ifs
  · refine yields_bind fun timestamp => yields_pure ?_
    exact (plain_of_contentType cors rfl).fits.withDefaults security
  · refine yields_bind fun _ => (yields_webhook cors).bind fun response plain => ?_
    exact yields_pure (plain.fits.withDefaults security)
  · refine yields_bind fun _ => (yields_graphql cors h).bind fun response fits => ?_
    exact yields_pure (fits.withDefaults security)
  · refine yields_bind fun _ => (yields_hosted cors).bind fun response plain => ?_
    exact yields_pure (plain.fits.withDefaults page)
  · exact minted.bind fun response plain => yields_pure (plain.fits.withDefaults security)

theorem yields_app_cors (h : LeavesCors backend.apollo) :
    (app.fetch backend env request).Yields (CorsExactly app.origins request) := by
  unfold KycApp.fetch
  dsimp only
  split_ifs
  · refine yields_pure ⟨?_, ?_⟩
    · rw [lookup_preflight _ _ (by decide), lookup_corsHeaders_origin]
    · rw [lookup_preflight _ _ (by decide), lookup_corsHeaders_vary]
  · exact (yields_route_fits h).bind fun response fits => yields_pure fits.exactly

end Routes

section Container

variable {text : NumberText} {backend : Backend} {env : Env} {app : KycApp} {request : Request}
  {address : Option String}

theorem plain_tooManyRequests (cors : HeaderRecord) (decision : RateLimitDecision) :
    Plain cors (tooManyRequests text decision) := by
  have looked (name : String) : (tooManyRequests text decision).headers name =
      (contentTypeJson ++ [("retry-after", text decision.resetSeconds)] ++
        rateLimitHeaders text decision).reverse.lookup name := Headers.ofRecord_apply _ name
  constructor
  · intro name hname
    rw [looked]
    simp only [securityNames, securityHeaders, List.map_cons, List.map_nil, List.mem_cons,
      List.not_mem_nil, or_false] at hname
    rcases hname with rfl | rfl | rfl | rfl | rfl | rfl <;> rfl
  · intro name hname
    rw [looked]
    simp only [corsNames, List.mem_cons, List.not_mem_nil, or_false] at hname
    rcases hname with rfl | rfl <;> exact Or.inl rfl

theorem lookup_rateLimitHeaders (decision : RateLimitDecision) {name : String}
    (h : name ∈ securityNames ∨ name ∈ corsNames) :
    (rateLimitHeaders text decision).reverse.lookup name = none := by
  have apart : ∀ name, name ∈ securityNames ∨ name ∈ corsNames →
      name ≠ "ratelimit" ∧ name ≠ "ratelimit-policy" := by
    rintro name (h | h)
    · revert name
      decide
    · revert name
      decide
  obtain ⟨first, second⟩ := apart name h
  simp [rateLimitHeaders, List.lookup_cons, beq_false_of_ne first, beq_false_of_ne second]

theorem yields_fetch {R : Response Body → Prop} (happ : (app.fetch backend env request).Yields R)
    (hadd : ∀ response decision, R response →
      R (withHeaders response (rateLimitHeaders text decision)))
    (hlimited : ∀ decision, R (withDefaults
      (withDefaults (tooManyRequests text decision) (corsHeaders app.origins request))
      securityHeaders)) :
    (fetch text backend env app request address).Yields R := by
  unfold fetch
  refine yields_bind fun decision => ?_
  cases decision with
  | none => exact happ.expand _
  | some decision =>
    dsimp only
    split
    · exact (happ.expand _).bind fun response h => yields_pure (hadd response decision h)
    · exact yields_pure (hlimited decision)

theorem yields_fetch_secured :
    (fetch text backend env app request address).Yields (Secured app request) := by
  refine yields_fetch yields_app_secured ?_ ?_
  · intro response decision h
    refine h.of_headers rfl fun name hname => ?_
    rw [headers_withHeaders, lookup_rateLimitHeaders decision (Or.inl hname), Option.none_or]
  · intro decision
    have apart : ∀ name ∈ securityNames, name ∉ corsNames := by decide
    refine .baseline (baseline_of_bare fun name hname => ?_)
    rw [headers_withDefaults, (plain_tooManyRequests [] decision).bare name hname,
      lookup_corsHeaders_of_not_mem (apart name hname)]
    rfl

theorem yields_fetch_cors (h : LeavesCors backend.apollo) :
    (fetch text backend env app request address).Yields (CorsExactly app.origins request) := by
  have security : ∀ name ∈ corsNames, securityHeaders.lookup name = none := by decide
  refine yields_fetch (yields_app_cors h) ?_ ?_
  · intro response decision cors
    exact cors.withHeaders fun name hname => lookup_rateLimitHeaders decision (Or.inr hname)
  · exact fun decision => (plain_tooManyRequests _ decision).fits.exactly.withDefaults security

abbrev Connections (σ : Type) :=
  Pool ContainerSig Thrown σ (Response Body) (Request × Option String)

/-- A container that takes requests and lets them go on in the given order. -/
def serveRequests {σ : Type} (text : NumberText) (backend : Backend) (env : Env) (app : KycApp)
    (h : Handler ContainerSig Thrown σ) (s : σ) (events : List (Event (Request × Option String))) :
    Connections σ :=
  (Pool.idle s : Connections σ).run h (fun c => fetch text backend env app c.1 c.2) events

end Container

section Main

variable {σ : Type} (text : NumberText) (backend : Backend) (env : Env) (app : KycApp)
  (h : Handler ContainerSig Thrown σ) (s : σ) (events : List (Event (Request × Option String)))

/-- However requests interleave and whatever they are answered on their way, every response has
the security headers of its route. -/
theorem every_response_is_secured :
    (serveRequests text backend env app h s events).Settles fun connection response =>
      Secured app connection.1 response :=
  Pool.settles_run (fun _ => yields_fetch_secured) s events

/-- However requests interleave and whatever they are answered on their way, every response of
every layer allows exactly the origin that it is to allow. -/
theorem every_response_allows_exactly (leaves : LeavesCors backend.apollo) :
    (serveRequests text backend env app h s events).Settles fun connection response =>
      CorsExactly app.origins connection.1 response :=
  Pool.settles_run (fun _ => yields_fetch_cors leaves) s events

def sampleApp : KycApp := ⟨[.tokens], .sumsub, [lit "https://app.example"], false, false⟩

def sampleBackend : Backend where
  H := Sumsub.sampleHmac
  service := bareDeps
  parseJson _ := none
  apollo _ _ := .answered ⟨some 400, [], .complete []⟩
  loaded := .ok ()

def sampleAnswers : Handler ContainerSig Thrown Unit
  | .limit _ _, s => (.ok none, s)
  | .app .timestamp, s => (.ok "1970-01-01T00:00:00.000Z", s)
  | .app _, s => (.error .nonObject, s)

def sampleRequest : Request where
  method := "GET"
  pathname := "/health"
  search := ""
  headers := .ofRecord [("origin", "https://app.example")]
  body := []

theorem every_response_allows_exactly_sample :
    (serveRequests (fun _ => "") sampleBackend Boot.sampleEnv sampleApp sampleAnswers ()
      [.start (sampleRequest, none), .step 0, .step 0]).Settles fun connection response =>
        CorsExactly sampleApp.origins connection.1 response :=
  every_response_allows_exactly _ sampleBackend _ _ _ _ _ fun _ _ _ _ => rfl

end Main

end Kyc.Server
