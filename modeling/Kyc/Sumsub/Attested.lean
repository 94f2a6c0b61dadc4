import Kyc.Encoding.Url
import Kyc.Sumsub.Client

/-! # Signed requests

The bytes that are signed for a request are those of one call at one second. They are the bytes
that Sumsub checks, unless an applicant's id changes the path.
-/

namespace Kyc.Sumsub

open Json Encoding
open Boot (Env setting)

section Lines

variable {ν : Type} {H : Hmac} {N : Numerals ν} {config : ClientConfig} {ts ts' : ℕ}
  {call call' : SumsubCall ν}

structure Line where
  method : Method
  path : Text
  body : Option Text

/-- The line of a call, if its id can be written. -/
def SumsubCall.line (N : Numerals ν) : SumsubCall ν → Option Line
  | createAccessToken externalUserId levelName ttlInSecs =>
    some ⟨.post, lit "/resources/accessTokens/sdk",
      some (stringify N (accessTokenBody externalUserId levelName ttlInSecs))⟩
  | createShareToken applicantId forClientId ttlInSecs =>
    some ⟨.post, lit "/resources/accessTokens/shareToken",
      some (stringify N (shareTokenBody applicantId forClientId ttlInSecs))⟩
  | fetchApplicantStatus applicantId => (applicantPath applicantId).map (⟨.get, ·, none⟩)
  | fetchApplicantByExternalUserId externalUserId =>
    (externalUserPath externalUserId).map (⟨.get, ·, none⟩)

/-- The lifetime of a token is written as a numeral that stands for it. -/
def SumsubCall.Reads (N : Numerals ν) : SumsubCall ν → Prop
  | createAccessToken _ _ ttlInSecs => N.Reads ttlInSecs
  | createShareToken _ _ ttlInSecs => N.Reads ttlInSecs
  | fetchApplicantStatus _ => True
  | fetchApplicantByExternalUserId _ => True

def SumsubCall.signed (N : Numerals ν) (ts : ℕ) (call : SumsubCall ν) : Option (List UInt8) :=
  (call.line N).map fun line => signedBytes ts line.method line.path (.inl (line.body.getD []))

def requestOf (H : Hmac) (config : ClientConfig) (ts : ℕ) :
    Option Line → Except SendError SumsubRequest
  | none => .error .uri
  | some line => request H config ts line.method line.path line.body

theorem lookup_eq (path : Option Text) :
    lookup H config ts path = requestOf H config ts (path.map (⟨.get, ·, none⟩)) := by
  cases path <;> rfl

theorem request_eq_line (call : SumsubCall ν) :
    call.request H N config ts = requestOf H config ts (call.line N) := by
  cases call with
  | createAccessToken | createShareToken => rfl
  | fetchApplicantStatus applicantId => exact lookup_eq (applicantPath applicantId)
  | fetchApplicantByExternalUserId externalUserId =>
    exact lookup_eq (externalUserPath externalUserId)

def Line.text (line : Line) : Text := line.method.text ++ line.path ++ line.body.getD []

theorem ascii_component {s e : Text} (h : encodeURIComponent s = some e) : Ascii e := by
  intro c hc
  rcases Bool.or_eq_true _ _ |>.mp (isComponentUnit_of_encoded h c hc) with plain | percent
  · exact (isUnreserved_plain plain).1
  · rw [of_decide_eq_true percent]
    decide

theorem ascii_lookupPath {front id back path : Text} (hfront : Ascii front) (hback : Ascii back)
    (h : lookupPath front id back = some path) : Ascii path := by
  obtain ⟨e, he, rfl⟩ := Option.map_eq_some_iff.mp h
  exact ascii_append (ascii_append hfront (ascii_component he)) hback

theorem ascii_path {line : Line} (h : call.line N = some line) : Ascii line.path := by
  cases call with
  | createAccessToken =>
    obtain rfl := Option.some.inj h
    exact (by decide : Ascii (lit "/resources/accessTokens/sdk"))
  | createShareToken =>
    obtain rfl := Option.some.inj h
    exact (by decide : Ascii (lit "/resources/accessTokens/shareToken"))
  | fetchApplicantStatus =>
    obtain ⟨path, hp, rfl⟩ := Option.map_eq_some_iff.mp h
    exact ascii_lookupPath (by decide) (by decide) hp
  | fetchApplicantByExternalUserId =>
    obtain ⟨path, hp, rfl⟩ := Option.map_eq_some_iff.mp h
    exact ascii_lookupPath (by decide) (by decide) hp

def Distinct (first second : String) : Prop :=
  [lit first, lit second, lit "ttlInSecs"].Nodup

theorem distinct_accessToken : Distinct "userId" "levelName" := by
  unfold Distinct
  decide

theorem distinct_shareToken : Distinct "applicantId" "forClientId" := by
  unfold Distinct
  decide

theorem proper_tokenBody {first second : String} (names : Distinct first second) {ttl : ν}
    (h : N.Reads ttl) (a b : Text) : (tokenBody first second a b ttl).Proper N := by
  refine .object names ?_
  simp only [List.forall_mem_cons, List.not_mem_nil, false_imp_iff, implies_true, and_true]
  exact ⟨.string _, .string _, .number h⟩

theorem tokenBody_injective {first second : String} (names : Distinct first second)
    {a b a' b' : Text} {ttl ttl' : ν} (h : N.Reads ttl) (h' : N.Reads ttl')
    (same : stringify N (tokenBody first second a b ttl) =
      stringify N (tokenBody first second a' b' ttl')) : a = a' ∧ b = b' ∧ ttl = ttl' := by
  have parsed : some (tokenBody first second a b ttl) = some (tokenBody first second a' b' ttl') :=
    calc some (tokenBody first second a b ttl)
        = parse N (stringify N (tokenBody first second a b ttl)) :=
          (parse_stringify (proper_tokenBody names h a b)).symm
      _ = parse N (stringify N (tokenBody first second a' b' ttl')) := congrArg (parse N) same
      _ = some (tokenBody first second a' b' ttl') :=
          parse_stringify (proper_tokenBody names h' a' b')
  simpa [tokenBody] using parsed

theorem paired_body (reads : call.Reads N) {line : Line} (h : call.line N = some line) :
    Paired (line.body.getD []) := by
  cases call with
  | createAccessToken =>
    obtain rfl := Option.some.inj h
    exact paired_stringify (proper_tokenBody distinct_accessToken reads _ _).numeric
  | createShareToken =>
    obtain rfl := Option.some.inj h
    exact paired_stringify (proper_tokenBody distinct_shareToken reads _ _).numeric
  | fetchApplicantStatus =>
    obtain ⟨path, -, rfl⟩ := Option.map_eq_some_iff.mp h
    exact .nil
  | fetchApplicantByExternalUserId =>
    obtain ⟨path, -, rfl⟩ := Option.map_eq_some_iff.mp h
    exact .nil

theorem ascii_print (n : ℕ) : Ascii (decimal.print n) := by
  intro c hc
  have digit := isDigit_of_mem_print hc
  simp only [isDigit, decide_eq_true_eq] at digit
  exact Nat.lt_of_le_of_lt (UInt16.le_iff_toNat_le.mp digit.2) (by decide)

theorem ascii_method (method : Method) : Ascii method.text := by
  cases method <;> decide

theorem signedBytes_eq {line : Line} (h : call.line N = some line) (ts : ℕ) :
    signedBytes ts line.method line.path (.inl (line.body.getD [])) =
      utf8 (decimal.print ts ++ line.text) := by
  have front : Ascii (decimal.print ts ++ line.method.text ++ line.path) :=
    ascii_append (ascii_append (ascii_print ts) (ascii_method _)) (ascii_path h)
  rw [signedBytes, Sum.elim_inl, Line.text, ← List.append_assoc, ← List.append_assoc,
    utf8_append (.of_ascii front)]

theorem takeWhile_print (n : ℕ) {s : Text} (hs : ∀ c ∈ s.head?, isDigit c = false) :
    (decimal.print n ++ s).takeWhile isDigit = decimal.print n := by
  rw [List.takeWhile_append_of_pos fun _ hc => isDigit_of_mem_print hc]
  cases s with
  | nil => exact List.append_nil _
  | cons c s => rw [List.takeWhile_cons_of_neg (by simp [hs c rfl]), List.append_nil]

theorem print_append_injective {n m : ℕ} {s t : Text} (hs : ∀ c ∈ s.head?, isDigit c = false)
    (ht : ∀ c ∈ t.head?, isDigit c = false) (h : decimal.print n ++ s = decimal.print m ++ t) :
    n = m ∧ s = t := by
  have printed : decimal.print n = decimal.print m := by
    rw [← takeWhile_print n hs, h, takeWhile_print m ht]
  have value : n = m := by
    rw [← decimal_read_print n, printed, decimal_read_print]
  subst value
  exact ⟨rfl, List.append_cancel_left h⟩

theorem not_isDigit_text (line : Line) : ∀ c ∈ line.text.head?, isDigit c = false := by
  obtain ⟨method, path, body⟩ := line
  cases method with
  | get =>
    rintro c ⟨rfl⟩
    decide
  | post =>
    rintro c ⟨rfl⟩
    decide

theorem method_of_text {line line' : Line} (h : line.text = line'.text) :
    line.method = line'.method := by
  have first := congrArg List.head? h
  obtain ⟨method, path, body⟩ := line
  obtain ⟨method', path', body'⟩ := line'
  cases method <;> cases method'
  · rfl
  · exact absurd (Option.some.inj first) (by decide)
  · exact absurd (Option.some.inj first) (by decide)
  · rfl

theorem rest_of_text {line line' : Line} (h : line.text = line'.text) :
    line.path ++ line.body.getD [] = line'.path ++ line'.body.getD [] := by
  rw [Line.text, Line.text, method_of_text h, List.append_assoc, List.append_assoc] at h
  exact List.append_cancel_left h

theorem lookupPath_injective {front back id id' path : Text}
    (h : lookupPath front id back = some path) (h' : lookupPath front id' back = some path) :
    id = id' := by
  obtain ⟨e, he, rfl⟩ := Option.map_eq_some_iff.mp h
  obtain ⟨e', he', same⟩ := Option.map_eq_some_iff.mp h'
  obtain rfl := List.append_cancel_left (List.append_cancel_right same)
  exact encodeURIComponent_injective he he'

theorem getLast?_lookupPath {front back id path : Text} (hback : back ≠ [])
    (h : lookupPath front id back = some path) : path.getLast? = back.getLast? := by
  obtain ⟨e, -, rfl⟩ := Option.map_eq_some_iff.mp h
  exact List.getLast?_append_of_ne_nil _ hback

theorem sdk_ne_shareToken (a b : Text) :
    lit "/resources/accessTokens/sdk" ++ a ≠ lit "/resources/accessTokens/shareToken" ++ b := by
  intro h
  have first : lit "/resources/accessTokens/sdk" =
      lit "/resources/accessTokens/s" ++ lit "dk" := rfl
  have second : lit "/resources/accessTokens/shareToken" =
      lit "/resources/accessTokens/s" ++ lit "hareToken" := rfl
  rw [first, second, List.append_assoc, List.append_assoc] at h
  exact absurd (List.cons_eq_cons.mp (List.append_cancel_left h)).1 (by decide)

theorem applicantPath_ne_externalUserPath {applicantId userId path : Text}
    (h : applicantPath applicantId = some path) : externalUserPath userId ≠ some path := by
  intro h'
  have last := (getLast?_lookupPath (by decide) h).symm.trans (getLast?_lookupPath (by decide) h')
  revert last
  decide

/-- What is signed after the second is that of one call alone. -/
theorem call_of_text (reads : call.Reads N) (reads' : call'.Reads N) {line line' : Line}
    (h : call.line N = some line) (h' : call'.line N = some line')
    (same : line.text = line'.text) : call = call' := by
  have methods := method_of_text same
  have rest := rest_of_text same
  cases call with
  | createAccessToken =>
    obtain rfl := Option.some.inj h
    cases call' with
    | createAccessToken =>
      obtain rfl := Option.some.inj h'
      obtain ⟨rfl, rfl, rfl⟩ := tokenBody_injective distinct_accessToken reads reads'
        (List.append_cancel_left rest)
      rfl
    | createShareToken =>
      obtain rfl := Option.some.inj h'
      exact absurd rest (sdk_ne_shareToken _ _)
    | fetchApplicantStatus | fetchApplicantByExternalUserId =>
      obtain ⟨path, -, rfl⟩ := Option.map_eq_some_iff.mp h'
      cases methods
  | createShareToken =>
    obtain rfl := Option.some.inj h
    cases call' with
    | createAccessToken =>
      obtain rfl := Option.some.inj h'
      exact absurd rest.symm (sdk_ne_shareToken _ _)
    | createShareToken =>
      obtain rfl := Option.some.inj h'
      obtain ⟨rfl, rfl, rfl⟩ := tokenBody_injective distinct_shareToken reads reads'
        (List.append_cancel_left rest)
      rfl
    | fetchApplicantStatus | fetchApplicantByExternalUserId =>
      obtain ⟨path, -, rfl⟩ := Option.map_eq_some_iff.mp h'
      cases methods
  | fetchApplicantStatus =>
    obtain ⟨path, hp, rfl⟩ := Option.map_eq_some_iff.mp h
    cases call' with
    | createAccessToken | createShareToken =>
      obtain rfl := Option.some.inj h'
      cases methods
    | fetchApplicantStatus =>
      obtain ⟨path', hp', rfl⟩ := Option.map_eq_some_iff.mp h'
      obtain rfl := List.append_cancel_right rest
      rw [lookupPath_injective hp hp']
    | fetchApplicantByExternalUserId =>
      obtain ⟨path', hp', rfl⟩ := Option.map_eq_some_iff.mp h'
      obtain rfl := List.append_cancel_right rest
      exact absurd hp' (applicantPath_ne_externalUserPath hp)
  | fetchApplicantByExternalUserId =>
    obtain ⟨path, hp, rfl⟩ := Option.map_eq_some_iff.mp h
    cases call' with
    | createAccessToken | createShareToken =>
      obtain rfl := Option.some.inj h'
      cases methods
    | fetchApplicantStatus =>
      obtain ⟨path', hp', rfl⟩ := Option.map_eq_some_iff.mp h'
      obtain rfl := List.append_cancel_right rest
      exact absurd hp (applicantPath_ne_externalUserPath hp')
    | fetchApplicantByExternalUserId =>
      obtain ⟨path', hp', rfl⟩ := Option.map_eq_some_iff.mp h'
      obtain rfl := List.append_cancel_right rest
      rw [lookupPath_injective hp hp']

theorem paired_signed (reads : call.Reads N) {line : Line} (h : call.line N = some line)
    (ts : ℕ) : Paired (decimal.print ts ++ line.text) := by
  have front := ascii_append (ascii_method line.method) (ascii_path h)
  rw [Line.text]
  exact (Paired.of_ascii (ascii_print ts)).append
    ((Paired.of_ascii front).append (paired_body reads h))

/-- The signed bytes are those of one call at one second. -/
theorem signed_injective (reads : call.Reads N) (reads' : call'.Reads N) {bytes : List UInt8}
    (h : call.signed N ts = some bytes) (h' : call'.signed N ts' = some bytes) :
    ts = ts' ∧ call = call' := by
  obtain ⟨line, hl, signed⟩ := Option.map_eq_some_iff.mp h
  obtain ⟨line', hl', signed'⟩ := Option.map_eq_some_iff.mp h'
  rw [signedBytes_eq hl] at signed
  rw [signedBytes_eq hl'] at signed'
  have text := utf8_injective (paired_signed reads hl ts) (paired_signed reads' hl' ts')
    (signed.trans signed'.symm)
  obtain ⟨second, same⟩ :=
    print_append_injective (not_isDigit_text line) (not_isDigit_text line') text
  exact ⟨second, call_of_text reads reads' hl hl' same⟩

end Lines

section Arrivals

structure Arrival where
  method : Text
  path : Text
  ts : Text
  signature : Text
  body : List UInt8

def SumsubRequest.header (request : SumsubRequest) (name : String) : Text :=
  (request.headers.lookup name).getD []

/-- The path arrives as the parser of URLs leaves it. -/
def SumsubRequest.arrival (request : SumsubRequest) : Arrival where
  method := request.method
  path := requestedPath (afterAuthority request.url)
  ts := request.header "X-App-Access-Ts"
  signature := request.header "X-App-Access-Sig"
  body := utf8 (request.body.getD [])

def Arrival.bytes (arrival : Arrival) : List UInt8 :=
  utf8 (arrival.ts ++ arrival.method ++ arrival.path) ++ arrival.body

/-- A lookup of an applicant whose id changes the path. -/
inductive SumsubCall.Dotted {ν : Type} : SumsubCall ν → Prop
  | one : Dotted (.fetchApplicantStatus (lit "."))
  | two : Dotted (.fetchApplicantStatus (lit ".."))

/-- The ids of the call can be written into a path. -/
def SumsubCall.Writable {ν : Type} : SumsubCall ν → Prop
  | createAccessToken .. => True
  | createShareToken .. => True
  | fetchApplicantStatus applicantId => Paired applicantId
  | fetchApplicantByExternalUserId externalUserId => Paired externalUserId

variable {ν : Type} {H : Hmac} {N : Numerals ν} {config : ClientConfig} {ts : ℕ}
  {call : SumsubCall ν}

theorem exists_line_iff : (∃ line, call.line N = some line) ↔ call.Writable := by
  have lookups {front id back : Text} {body : Option Text} :
      (∃ line, (lookupPath front id back).map (Line.mk .get · body) = some line) ↔
        Paired id := by
    constructor
    · rintro ⟨line, h⟩
      obtain ⟨path, hp, -⟩ := Option.map_eq_some_iff.mp h
      obtain ⟨e, he, -⟩ := Option.map_eq_some_iff.mp hp
      exact (percentDecode_encodeURIComponent he).1
    · intro h
      obtain ⟨e, he⟩ := exists_encodeURIComponent h
      rw [lookupPath, he]
      exact ⟨_, rfl⟩
  cases call with
  | createAccessToken | createShareToken => exact ⟨fun _ => trivial, fun _ => ⟨_, rfl⟩⟩
  | fetchApplicantStatus | fetchApplicantByExternalUserId => exact lookups

theorem slash_not_mem_component {s e : Text} (h : encodeURIComponent s = some e) :
    unit '/' ∉ e := by
  intro hm
  exact absurd (isComponentUnit_of_encoded h _ hm) (by decide)

/-- The segments of an applicant's path. -/
theorem requestedPath_applicantPath {applicantId path : Text}
    (h : applicantPath applicantId = some path) :
    requestedPath path = path ↔ ¬ (applicantId = lit "." ∨ applicantId = lit "..") := by
  obtain ⟨e, he, rfl⟩ := Option.map_eq_some_iff.mp h
  have written : lit "/resources/applicants/" ++ e ++ lit "/status" =
      unit '/' :: (lit "resources" ++ unit '/' :: (lit "applicants" ++ unit '/' ::
        (e ++ unit '/' :: lit "status"))) := by
    rw [List.append_assoc]
    rfl
  rw [written, requestedPath_eq_iff, List.splitOn_append_cons_self_of_not_mem (by decide),
    List.splitOn_append_cons_self_of_not_mem (by decide),
    List.splitOn_append_cons_self_of_not_mem (slash_not_mem_component he),
    List.splitOn_eq_singleton (by decide)]
  rw [← dots_of_encoded he, Bool.not_eq_true]
  constructor
  · intro all
    exact all e (by simp)
  · intro plain segment hm
    simp only [List.mem_cons, List.not_mem_nil, or_false] at hm
    rcases hm with rfl | rfl | rfl | rfl
    · decide
    · decide
    · exact plain
    · decide

theorem requestedPath_externalUserPath {userId path : Text}
    (h : externalUserPath userId = some path) : requestedPath path = path := by
  obtain ⟨e, he, rfl⟩ := Option.map_eq_some_iff.mp h
  have written : lit "/resources/applicants/-;externalUserId=" ++ e ++ lit "/one" =
      unit '/' :: (lit "resources" ++ unit '/' :: (lit "applicants" ++ unit '/' ::
        ((lit "-;externalUserId=" ++ e) ++ unit '/' :: lit "one"))) := by
    rw [List.append_assoc, List.append_assoc]
    rfl
  have free : unit '/' ∉ lit "-;externalUserId=" ++ e := by
    rw [List.mem_append, not_or]
    exact ⟨by decide, slash_not_mem_component he⟩
  rw [written, requestedPath_eq_iff, List.splitOn_append_cons_self_of_not_mem (by decide),
    List.splitOn_append_cons_self_of_not_mem (by decide),
    List.splitOn_append_cons_self_of_not_mem free, List.splitOn_eq_singleton (by decide)]
  intro segment hm
  simp only [List.mem_cons, List.not_mem_nil, or_false] at hm
  rcases hm with rfl | rfl | rfl | rfl
  · decide
  · decide
  · have others : ∀ t ∈ dots ++ dots.flatMap fun dot => dots.map (dot ++ ·),
        t.head? ≠ some (unit '-') := by decide
    rw [Bool.eq_false_iff]
    intro segment
    refine others (lit "-;externalUserId=" ++ e) (List.mem_append.mpr ?_) rfl
    simpa [isDotSegment, isSingleDot, isDoubleDot] using segment
  · decide

/-- A call's path is requested as it is signed, unless the applicant's id is made of dots. -/
theorem requestedPath_line {line : Line} (h : call.line N = some line) :
    requestedPath line.path = line.path ↔ ¬ call.Dotted := by
  cases call with
  | createAccessToken =>
    obtain rfl := Option.some.inj h
    have plain : requestedPath (lit "/resources/accessTokens/sdk") =
        lit "/resources/accessTokens/sdk" := by decide
    exact iff_of_true plain nofun
  | createShareToken =>
    obtain rfl := Option.some.inj h
    have plain : requestedPath (lit "/resources/accessTokens/shareToken") =
        lit "/resources/accessTokens/shareToken" := by decide
    exact iff_of_true plain nofun
  | fetchApplicantStatus =>
    obtain ⟨path, hp, rfl⟩ := Option.map_eq_some_iff.mp h
    refine (requestedPath_applicantPath hp).trans (not_congr ?_)
    constructor
    · rintro (rfl | rfl)
      · exact .one
      · exact .two
    · rintro (- | -)
      · exact Or.inl rfl
      · exact Or.inr rfl
  | fetchApplicantByExternalUserId =>
    obtain ⟨path, hp, rfl⟩ := Option.map_eq_some_iff.mp h
    exact iff_of_true (requestedPath_externalUserPath hp) nofun

theorem isPathUnit_lookupPath {front id back path : Text} (hfront : ∀ c ∈ front, isPathUnit c)
    (hback : ∀ c ∈ back, isPathUnit c) (h : lookupPath front id back = some path) :
    ∀ c ∈ path, isPathUnit c := by
  obtain ⟨e, he, rfl⟩ := Option.map_eq_some_iff.mp h
  refine List.forall_mem_append.mpr ⟨List.forall_mem_append.mpr ⟨hfront, ?_⟩, hback⟩
  exact fun c hc => isPathUnit_of_component (isComponentUnit_of_encoded he c hc)

theorem isPathUnit_path {line : Line} (h : call.line N = some line) :
    ∀ c ∈ line.path, isPathUnit c := by
  cases call with
  | createAccessToken =>
    obtain rfl := Option.some.inj h
    exact (by decide : ∀ c ∈ lit "/resources/accessTokens/sdk", isPathUnit c)
  | createShareToken =>
    obtain rfl := Option.some.inj h
    exact (by decide : ∀ c ∈ lit "/resources/accessTokens/shareToken", isPathUnit c)
  | fetchApplicantStatus =>
    obtain ⟨path, hp, rfl⟩ := Option.map_eq_some_iff.mp h
    exact isPathUnit_lookupPath (by decide) (by decide) hp
  | fetchApplicantByExternalUserId =>
    obtain ⟨path, hp, rfl⟩ := Option.map_eq_some_iff.mp h
    exact isPathUnit_lookupPath (by decide) (by decide) hp

/-- The base URL is the origin of a web page, like the default one. -/
def ClientConfig.AtOrigin (config : ClientConfig) : Prop :=
  ∃ (P : HostParser) (origin : Origin P), config.baseUrl = origin.serialize

theorem visible_of_isPathUnit {c : UInt16} (h : isPathUnit c) : 0x20 < c := by
  simp only [isPathUnit, Bool.and_eq_true, decide_eq_true_eq] at h
  exact h.1.1

theorem head?_path {line : Line} (h : call.line N = some line) :
    line.path.head? = some (unit '/') := by
  have lookups {front id back path : Text} (hf : front.head? = some (unit '/'))
      (hp : lookupPath front id back = some path) : path.head? = some (unit '/') := by
    obtain ⟨e, -, rfl⟩ := Option.map_eq_some_iff.mp hp
    simp [hf]
  cases call with
  | createAccessToken | createShareToken =>
    obtain rfl := Option.some.inj h
    rfl
  | fetchApplicantStatus | fetchApplicantByExternalUserId =>
    obtain ⟨path, hp, rfl⟩ := Option.map_eq_some_iff.mp h
    exact lookups rfl hp

/-- The request of a call, as Sumsub may check it. -/
structure Attested (H : Hmac) (N : Numerals ν) (config : ClientConfig) (ts : ℕ)
    (call : SumsubCall ν) (request : SumsubRequest) : Prop where
  path : ∀ c ∈ request.url.drop config.baseUrl.length, isPathUnit c
  signature : ∃ secret bytes, config.secretKey = some secret ∧ call.signed N ts = some bytes ∧
    request.arrival.signature = hex (H.digest .sha256 (utf8 secret) bytes) ∧
    (config.AtOrigin → (request.arrival.bytes = bytes ↔ ¬ call.Dotted))
  unique : ∀ bytes, call.signed N ts = some bytes → ∀ (call' : SumsubCall ν) (ts' : ℕ),
    call'.Reads N → call'.signed N ts' = some bytes → ts' = ts ∧ call' = call

/-- The client has its credentials. -/
structure ClientConfig.Configured (config : ClientConfig) (appToken secretKey : Text) : Prop where
  token : config.appToken = some appToken
  key : config.secretKey = some secretKey
  token_ne_nil : appToken ≠ []
  key_ne_nil : secretKey ≠ []

variable {appToken secretKey : Text}

theorem request_of_configured (H : Hmac) (ts : ℕ)
    (configured : config.Configured appToken secretKey) (method : Method)
    (path : Text) (body : Option Text) :
    ∃ r, request H config ts method path body = .ok r ∧ r.url = config.baseUrl ++ path ∧
      r.method = method.text ∧ r.body = body ∧ r.header "X-App-Access-Ts" = decimal.print ts ∧
      r.header "X-App-Access-Sig" =
        signPayload H ts method path (.inl (body.getD [])) secretKey := by
  have token : config.appToken.filter (· ≠ []) = some appToken := by
    simp [configured.token, configured.token_ne_nil]
  have key : config.secretKey.filter (· ≠ []) = some secretKey := by
    simp [configured.key, configured.key_ne_nil]
  unfold request
  rw [token, key]
  exact ⟨_, rfl, rfl, rfl, rfl, rfl, rfl⟩

theorem exists_attested (H : Hmac) (ts : ℕ) (configured : config.Configured appToken secretKey)
    (reads : call.Reads N) (writable : call.Writable) :
    ∃ r, call.request H N config ts = .ok r ∧ Attested H N config ts call r := by
  obtain ⟨line, hl⟩ := exists_line_iff.mpr writable
  obtain ⟨r, hr, url, method, body, second, signature⟩ :=
    request_of_configured H ts configured line.method line.path line.body
  have signed : call.signed N ts =
      some (signedBytes ts line.method line.path (.inl (line.body.getD []))) := by
    rw [SumsubCall.signed, hl, Option.map_some]
  refine ⟨r, by rw [request_eq_line, hl]; exact hr, ?_, ?_, ?_⟩
  · rw [url, List.drop_left]
    exact isPathUnit_path hl
  · refine ⟨secretKey, _, configured.key, signed, signature, ?_⟩
    rintro ⟨P, origin, base⟩
    have start : ∀ c ∈ line.path.head?, c ∈ lit "/\\?#" := by
      intro c hc
      rw [head?_path hl, Option.mem_some_iff] at hc
      rw [← hc]
      decide
    have path : afterAuthority r.url = line.path := by
      rw [url, base]
      exact afterAuthority_serialize origin
        (fun c hc => visible_of_isPathUnit (isPathUnit_path hl c hc)) start
    rw [← requestedPath_line hl]
    have arrived : r.arrival.bytes =
        utf8 (decimal.print ts ++ line.method.text ++ requestedPath line.path) ++
          utf8 (line.body.getD []) := by
      rw [Arrival.bytes, SumsubRequest.arrival]
      dsimp only
      rw [path, method, body, second]
    have front : Ascii (decimal.print ts ++ line.method.text ++ line.path) :=
      ascii_append (ascii_append (ascii_print ts) (ascii_method _)) (ascii_path hl)
    rw [arrived, signedBytes, Sum.elim_inl]
    constructor
    · intro h
      exact List.append_cancel_left (eq_of_utf8_eq front (List.append_cancel_right h))
    · intro h
      rw [h]
  · rintro bytes hb call' ts' reads' hb'
    exact signed_injective reads' reads hb' hb

theorem request_of_not_writable (h : ¬ call.Writable) :
    call.request H N config ts = .error .uri := by
  rw [request_eq_line]
  cases hl : call.line N with
  | none => rfl
  | some line => exact absurd (exists_line_iff.mp ⟨line, hl⟩) h

end Arrivals

section Deployed

open Boot (selectProvider)

variable {env : Env} {onUnknown : Text → Except Text Unit}

/-- A deployment that selects Sumsub has the credentials of the client. -/
theorem configured_of_selected (h : selectProvider env onUnknown = .ok .sumsub) :
    ∃ appToken secretKey, (clientConfigFromEnv env).Configured appToken secretKey := by
  have settings : Boot.assertSumsubSettings env = .ok () := by
    unfold selectProvider at h
    cases hp : Boot.providerNameFromEnv env onUnknown with
    | error e => rw [hp] at h; cases h
    | ok provider =>
      rw [hp] at h
      cases provider with
      | mock =>
        cases ha : Boot.assertMockProviderAllowed env with
        | error e => simp [ha, bind, Except.bind] at h
        | ok u =>
          cases hd : Boot.assertProductionConfig env "mock" true [] with
          | error e => simp [ha, hd, bind, Except.bind] at h
          | ok u => simp [ha, hd, bind, Except.bind, pure, Except.pure] at h
      | sumsub =>
        cases ha : Boot.assertSumsubSettings env with
        | error e => simp [ha, bind, Except.bind] at h
        | ok u => rfl
  have complete : Boot.missingTokenSettings (Boot.sumsubConfigFromEnv env) = [] := by
    unfold Boot.assertSumsubSettings at settings
    split at settings
    · assumption
    · cases settings
  obtain ⟨token, key⟩ := List.append_eq_nil_iff.mp complete
  have tokenSet : (setting env "SUMSUB_APP_TOKEN").isSome := by
    by_contra h
    exact absurd token (by simp [Boot.sumsubConfigFromEnv, h])
  have keySet : (setting env "SUMSUB_SECRET_KEY").isSome := by
    by_contra h
    exact absurd key (by simp [Boot.sumsubConfigFromEnv, h])
  obtain ⟨appToken, htoken⟩ := Option.isSome_iff_exists.mp tokenSet
  obtain ⟨secretKey, hkey⟩ := Option.isSome_iff_exists.mp keySet
  exact ⟨appToken, secretKey, htoken, hkey, (Boot.ne_nil_of_setting htoken).2,
    (Boot.ne_nil_of_setting hkey).2⟩

variable {ν : Type} {H : Hmac} {N : Numerals ν} {config : ClientConfig} {ts : ℕ}

/-- A call that is made with an attested request, and what it comes to over a transport. -/
def AttestedBy {α : Type} (H : Hmac) (N : Numerals ν) (config : ClientConfig) (ts : ℕ)
    (call : SumsubCall ν) (fetch : SumsubRequest → Except UpstreamError SumsubResponse)
    (use : Value ν → Except UpstreamError α) (outcome : Except UpstreamError α) : Prop :=
  ∃ request, Attested H N config ts call request ∧
    outcome = (answered N fetch (.ok request)).bind use

/-- The attempts of the adapter's calls, over any transport and clock. -/
structure AttemptsAttested (H : Hmac) (N : Numerals ν) (number : ℤ → ν) (config : ClientConfig)
    (now : ℕ → ℕ) (fetch : ℕ → SumsubRequest → Except UpstreamError SumsubResponse) (n : ℕ) :
    Prop where
  createAccessToken : ∀ externalUserId levelName ttlInSecs, N.Reads (number ttlInSecs) →
    AttestedBy H N config (now n)
      (.createAccessToken (utf16 externalUserId) (utf16 levelName) (number ttlInSecs)) (fetch n)
      .ok ((createSumsubClient H N number config now fetch).createAccessToken n externalUserId
        levelName ttlInSecs)
  fetchApplicantStatus : ∀ applicantId,
    AttestedBy H N config (now n) (.fetchApplicantStatus (utf16 applicantId)) (fetch n) .ok
      ((createSumsubClient H N number config now fetch).fetchApplicantStatus n applicantId)
  fetchApplicantByExternalUserId : ∀ externalUserId,
    AttestedBy H N config (now n) (.fetchApplicantByExternalUserId (utf16 externalUserId))
      (fetch n) applicantOf
      ((createSumsubClient H N number config now fetch).fetchApplicantByExternalUserId n
        externalUserId)

theorem bind_ok {α : Type} (outcome : Except UpstreamError α) : outcome.bind .ok = outcome := by
  cases outcome <;> rfl

theorem attestedBy_of_configured {α : Type} {appToken secretKey : Text} (H : Hmac)
    (call : SumsubCall ν) (ts : ℕ) (configured : config.Configured appToken secretKey)
    (reads : call.Reads N) (writable : call.Writable)
    (fetch : SumsubRequest → Except UpstreamError SumsubResponse)
    (use : Value ν → Except UpstreamError α) :
    AttestedBy H N config ts call fetch use
      ((answered N fetch (call.request H N config ts)).bind use) := by
  obtain ⟨request, sent, attested⟩ := exists_attested H ts configured reads writable
  exact ⟨request, attested, by rw [sent]⟩

theorem attemptsAttested {appToken secretKey : Text}
    (configured : config.Configured appToken secretKey) (number : ℤ → ν) (now : ℕ → ℕ)
    (fetch : ℕ → SumsubRequest → Except UpstreamError SumsubResponse) (n : ℕ) :
    AttemptsAttested H N number config now fetch n where
  createAccessToken externalUserId levelName ttlInSecs reads := by
    have := attestedBy_of_configured H
      (.createAccessToken (utf16 externalUserId) (utf16 levelName) (number ttlInSecs)) (now n)
      configured reads trivial (fetch n) .ok
    rwa [bind_ok] at this
  fetchApplicantStatus applicantId := by
    have := attestedBy_of_configured (N := N) H (.fetchApplicantStatus (utf16 applicantId))
      (now n) configured trivial (paired_utf16 _) (fetch n) .ok
    rwa [bind_ok] at this
  fetchApplicantByExternalUserId externalUserId :=
    attestedBy_of_configured H (.fetchApplicantByExternalUserId (utf16 externalUserId)) (now n)
      configured trivial (paired_utf16 _) (fetch n) applicantOf

def sumsubEnv : Env
  | "KYC_PROVIDER" => some (lit "sumsub")
  | "SUMSUB_APP_TOKEN" => some (lit "token")
  | "SUMSUB_SECRET_KEY" => some (lit "secret")
  | _ => none

end Deployed

end Kyc.Sumsub
