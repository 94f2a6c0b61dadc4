import Kyc.Client.Machine
import Kyc.Encoding.Url
import Kyc.Hosted.Bridge
import Kyc.Hosted.Navigation

/-! # The origin a hosted page is pinned to

`createHostedSource` reads the origin of its page with a regular expression, and the message
guard of the frame compares it with the origin that the browser reports.
-/

namespace Kyc.Hosted

open Json Encoding
open Client (VerificationSourceError)

structure VerificationSession where
  provider : Text
  sessionId : Option Text := none
  accessToken : Option Text := none
  url : Option Text := none
  allowedOrigin : Option Text := none
  applicantId : Option Text := none
  status : Option VerificationStatus := none

structure HostedSourceOptions where
  url : Option Text := none
  getSession : Option (Except VerificationSourceError VerificationSession) := none
  allowedOrigin : Option Text := none
  provider : Option Text := none
  refreshToken : Option (VerificationSession → Except VerificationSourceError Text) := none

structure VerificationSource (ν : Type) where
  start : Except VerificationSourceError VerificationSession
  interpret : Value ν → Option BridgeEvent
  refreshToken : Option (VerificationSession → Except VerificationSourceError Text)

namespace HostedSource

/-- `DEFAULT_PROVIDER`. -/
def defaultProvider : Text := lit "hosted"

/-- The origin of a URL, the way it is written there. -/
def originOf (url : Text) : Option Text := originMatch? url

def invalid (message : String) : VerificationSourceError :=
  ⟨some ErrorCode.validationError.name, some message⟩

def url? : Option Text → Option Text
  | some url => if url = [] then none else some url
  | none => none

def resolveSession (options : HostedSourceOptions) :
    Except VerificationSourceError VerificationSession :=
  match options.getSession with
  | some answer => do
    let session ← answer
    match url? session.url with
    | none => .error (invalid "getSession() returned a session without a url")
    | some url =>
      .ok { session with
        allowedOrigin := session.allowedOrigin <|> options.allowedOrigin <|> originOf url }
  | none =>
    match url? options.url with
    | none =>
      .error (invalid "createHostedSource requires either a url or a getSession callback")
    | some url =>
      .ok
        { provider := options.provider.getD defaultProvider
          url := some url
          allowedOrigin := options.allowedOrigin <|> originOf url }

def createHostedSource {ν : Type} [DecidableEq ν] [One ν] (N : Numerals ν)
    (options : HostedSourceOptions) : VerificationSource ν where
  start := resolveSession options
  interpret := interpretBridgeMessage N
  refreshToken := options.refreshToken

end HostedSource

/-- What the guard judges of a message; only some sources are windows. -/
structure GuardableMessage (ω : Type) where
  origin : Text
  source : Option ω

/-- Accept a message that came from the pinned origin and from the frame. -/
def createMessageGuard {ω : Type} [DecidableEq ω] (allowedOrigin : Option Text)
    (frameWindow : Option ω) (event : GuardableMessage ω) : Bool :=
  match allowedOrigin with
  | none => false
  | some allowed =>
    if allowed = [] ∨ event.origin ≠ allowed then false
    else
      match frameWindow with
      | none => false
      | some window => event.source = some window

/-- No origin is configured, neither for the source nor in the session it is given. -/
structure HostedSourceOptions.Unpinned (options : HostedSourceOptions) : Prop where
  of_options : options.allowedOrigin = none
  of_session : ∀ session, options.getSession = some (.ok session) → session.allowedOrigin = none

section Pin

variable {H : HostParser} {L : LowerCase} {session : VerificationSession} {url : Text}
  {origin : Origin H}

/-- The pin is the origin that the browser reports: it is the one the URL standard serialises, the
native package reads the same, and the guard lets the messages of the frame through. -/
structure Reported (L : LowerCase) (session : VerificationSession) (url : Text)
    (origin : Origin H) : Prop where
  derived : session.allowedOrigin = some origin.serialize
  native : Hosted.originOf L url = session.allowedOrigin
  accepted : ∀ (ω : Type) [DecidableEq ω] (window : ω),
    createMessageGuard session.allowedOrigin (some window) ⟨origin.serialize, some window⟩

/-- A URL that is written with a scheme in lower case, a host the way it is serialised and no
default port, and nothing else before the path, the query or the fragment. -/
def Canonical (H : HostParser) (url : Text) : Prop :=
  ∃ (scheme : WebScheme) (host : H.Host) (port : Option scheme.Port) (rest : Text),
    url = scheme.text ++ lit "//" ++ (H.serialize host ++ scheme.portText port) ++ rest ∧
      ∀ c ∈ rest.head?, c ∈ lit "/?#"

theorem canonical_iff :
    Canonical H url ↔ ∃ (origin : Origin H) (rest : Text),
      url = origin.serialize ++ rest ∧ ∀ c ∈ rest.head?, c ∈ lit "/?#" := by
  constructor
  · rintro ⟨scheme, host, port, rest, written, ends⟩
    exact ⟨⟨scheme, host, port⟩, rest, written, ends⟩
  · rintro ⟨⟨scheme, host, port⟩, rest, written, ends⟩
    exact ⟨scheme, host, port, rest, written, ends⟩

theorem exists_of_originMatch? {matched : Text} (h : originMatch? url = some matched) :
    ∃ rest, url = matched ++ rest ∧ ∀ c ∈ rest.head?, c ∈ lit "/?#" := by
  obtain ⟨scheme, -, h⟩ := Option.bind_eq_some_iff.mp h
  obtain ⟨rest, split, ends⟩ := exists_append_upTo (lit "/?#") (url.drop scheme.length)
  dsimp only at h
  split_ifs at h
  obtain rfl := Option.some.inj h
  refine ⟨rest, ?_, ends⟩
  rw [List.append_assoc, ← split, List.take_append_drop]

theorem originMatch?_serialize (origin : Origin H) {rest : Text}
    (ends : ∀ c ∈ rest.head?, c ∈ lit "/?#") :
    originMatch? (origin.serialize ++ rest) = some origin.serialize := by
  have mem : origin.scheme.text ++ lit "//" ∈ schemes := by cases origin.scheme <;> decide
  have free : ∀ c ∈ origin.authority, c ∉ lit "/?#" := fun c hc separator =>
    (origin.plain c hc).2.2.2 ((by decide : lit "/?#" ⊆ delimiters) separator)
  rw [Origin.serialize, List.append_assoc, originMatch?,
    scheme?_append mem (map_asciiLower_scheme mem), Option.bind_some, List.drop_left,
    List.take_left, upTo_append_of_ends free ends, if_neg origin.authority_ne_nil]

theorem createMessageGuard_iff {ω : Type} [DecidableEq ω] {allowedOrigin : Option Text}
    {frameWindow : Option ω} {event : GuardableMessage ω} :
    createMessageGuard allowedOrigin frameWindow event ↔
      event.origin ≠ [] ∧ allowedOrigin = some event.origin ∧
        ∃ window, frameWindow = some window ∧ event.source = some window := by
  unfold createMessageGuard
  cases allowedOrigin with
  | none => simp
  | some allowed =>
    dsimp only
    split_ifs with refused
    · simp only [Option.some.injEq, false_iff]
      rintro ⟨ne_nil, rfl, -⟩
      exact refused.elim ne_nil fun other => other rfl
    · push Not at refused
      cases frameWindow with
      | none => simp
      | some window => simp [refused.1, refused.2]

namespace HostedSource

theorem url?_eq_some {o : Option Text} (h : url? o = some url) : o = some url := by
  cases o with
  | none => cases h
  | some found =>
    rw [url?] at h
    split_ifs at h
    exact h

/-- Without a configured origin, the pin is read from the page. -/
theorem allowedOrigin_of_unpinned {options : HostedSourceOptions} (unpinned : options.Unpinned)
    (hs : resolveSession options = .ok session) (hurl : session.url = some url) :
    session.allowedOrigin = originMatch? url := by
  unfold resolveSession at hs
  cases hget : options.getSession with
  | none =>
    rw [hget] at hs
    dsimp only at hs
    cases hfound : url? options.url with
    | none => rw [hfound] at hs; cases hs
    | some found =>
      rw [hfound, unpinned.of_options] at hs
      obtain rfl := Except.ok.inj hs
      obtain rfl := Option.some.inj hurl
      rfl
  | some answer =>
    cases answer with
    | error e => rw [hget] at hs; cases hs
    | ok given =>
      rw [hget] at hs
      dsimp only [bind, Except.bind] at hs
      cases hfound : url? given.url with
      | none => rw [hfound] at hs; cases hs
      | some found =>
        rw [hfound, unpinned.of_session given hget, unpinned.of_options] at hs
        obtain rfl := Except.ok.inj hs
        obtain rfl := Option.some.inj ((url?_eq_some hfound).symm.trans hurl)
        rfl

end HostedSource

theorem Reported.canonical (derived : session.allowedOrigin = originMatch? url)
    (h : Reported L session url origin) : Canonical H url := by
  obtain ⟨rest, written, ends⟩ := exists_of_originMatch? (derived.symm.trans h.derived)
  exact canonical_iff.mpr ⟨origin, rest, written, ends⟩

theorem Canonical.reported (h : Canonical H url)
    (derived : session.allowedOrigin = originMatch? url)
    (page : pageOrigin? H url = some origin) : Reported L session url origin := by
  obtain ⟨written, rest, rfl, ends⟩ := canonical_iff.mp h
  obtain rfl : written = origin := by
    have own := pageOrigin?_serialize written fun c hc =>
      (by decide : lit "/?#" ⊆ lit "/\\?#") (ends c hc)
    exact Option.some.inj (own.symm.trans page)
  have matched := originMatch?_serialize written ends
  rw [matched] at derived
  constructor
  · exact derived
  · rw [Hosted.originOf, matched, Option.map_some, L.lower_serialize, derived]
  · intro ω _ window
    have ne_nil : written.serialize ≠ [] := fun empty =>
      written.authority_ne_nil (List.append_eq_nil_iff.mp empty).2
    exact createMessageGuard_iff.mpr ⟨ne_nil, derived, window, rfl, rfl⟩

end Pin

open HostedSource

section Pinned

variable {ν : Type} [DecidableEq ν] [One ν]

/-- Where no origin is configured, the pin of a web page is the origin that the browser reports
exactly when its URL is written in the canonical way. -/
theorem pinned_origin_reported_iff (N : Numerals ν) (H : HostParser) (L : LowerCase)
    {options : HostedSourceOptions} (unpinned : options.Unpinned) {session : VerificationSession}
    (hs : (createHostedSource N options).start = .ok session) {url : Text}
    (hurl : session.url = some url) {origin : Origin H} (page : pageOrigin? H url = some origin) :
    Reported L session url origin ↔ Canonical H url := by
  have derived := allowedOrigin_of_unpinned unpinned hs hurl
  constructor
  · rintro reported
    exact reported.canonical derived
  · rintro canonical
    exact canonical.reported derived page

end Pinned

def pageAt (url : Text) : HostedSourceOptions := { url := some url }

def sessionAt (url : Text) : VerificationSession where
  provider := defaultProvider
  url := some url
  allowedOrigin := HostedSource.originOf url

theorem unpinned_pageAt (url : Text) : (pageAt url).Unpinned := ⟨rfl, fun _ h => by cases h⟩

theorem start_pageAt {ν : Type} [DecidableEq ν] [One ν] (N : Numerals ν) {url : Text}
    (h : url ≠ []) : (createHostedSource N (pageAt url)).start = .ok (sessionAt url) := by
  have found : url? (some url) = some url := if_neg h
  simp only [createHostedSource, resolveSession, pageAt, found]
  rfl

def samplePage : Text := lit "https://kyc.example.com:8443/hosted/s-1"

def sampleOrigin : Origin nameHosts where
  scheme := .https
  host := ⟨lit "kyc.example.com", by decide⟩
  port := some ⟨8443, by decide⟩

theorem pinned_origin_reported_samplePage :
    Reported asciiCase (sessionAt samplePage) samplePage sampleOrigin := by
  have written : samplePage = sampleOrigin.serialize ++ lit "/hosted/s-1" := by decide
  have page : pageOrigin? nameHosts samplePage = some sampleOrigin := by
    rw [written]
    apply pageOrigin?_serialize
    rintro c ⟨⟩
    decide
  refine (pinned_origin_reported_iff decimal nameHosts asciiCase (unpinned_pageAt samplePage)
    (start_pageAt decimal (by decide)) rfl page).mpr
    ⟨.https, sampleOrigin.host, sampleOrigin.port, lit "/hosted/s-1", written, ?_⟩
  rintro c ⟨⟩
  decide

def upperCasePage : Text := lit "https://API.example.com/hosted/s-1"

/-- The browser lowers the host, and so does the native package, but the pin keeps it: the guard
refuses the messages of the page. -/
theorem upper_case_host_not_reported :
    ∃ origin : Origin nameHosts, pageOrigin? nameHosts upperCasePage = some origin ∧
      (createHostedSource decimal (pageAt upperCasePage)).start = .ok (sessionAt upperCasePage) ∧
      Hosted.originOf asciiCase upperCasePage = some origin.serialize ∧
      createMessageGuard (sessionAt upperCasePage).allowedOrigin (some ())
        ⟨origin.serialize, some ()⟩ = false ∧
      ¬ Reported asciiCase (sessionAt upperCasePage) upperCasePage origin := by
  have page : (pageOrigin? nameHosts upperCasePage).map Origin.serialize =
      some (lit "https://api.example.com") := by decide +kernel
  obtain ⟨origin, page, written⟩ := Option.map_eq_some_iff.mp page
  have pin : (sessionAt upperCasePage).allowedOrigin = some (lit "https://API.example.com") := by
    decide +kernel
  refine ⟨origin, page, start_pageAt decimal (by decide), ?_, ?_, ?_⟩
  · rw [written]
    decide +kernel
  · rw [written, pin]
    decide +kernel
  · rintro reported
    have same := pin.symm.trans reported.derived
    rw [written] at same
    revert same
    decide

end Kyc.Hosted
