import Kyc.Domain.Types
import Kyc.Client.Machine
import Kyc.Json.RoundTrip

/-! # The bridge between a hosted page and its host

The versioned envelopes that a verification page posts, how a host reads them, and the two
ways a page delivers them: as an object to the parent window, as a JSON text to the native
shell. Whatever a host makes of a message, encoding the event again and reading that gives
the same event.
-/

namespace Kyc.Hosted

open Json Client

inductive BridgeEventType
  | applicantLoaded
  | submitted
  | statusChanged
  | complete
  | cancel
  | tokenExpired
  | sessionExpired
  | error
  deriving DecidableEq, Repr

def BridgeEventType.name : BridgeEventType → String
  | applicantLoaded => "applicantLoaded"
  | submitted => "submitted"
  | statusChanged => "statusChanged"
  | complete => "complete"
  | cancel => "cancel"
  | tokenExpired => "tokenExpired"
  | sessionExpired => "sessionExpired"
  | error => "error"

def bridgeEventTypes : List BridgeEventType :=
  [.applicantLoaded, .submitted, .statusChanged, .complete, .cancel, .tokenExpired,
    .sessionExpired, .error]

def bridgeEventType? (s : Text) : Option BridgeEventType :=
  bridgeEventTypes.find? fun type => lit type.name = s

/-- `IDENTITY_VERIFICATION_STATUSES`. -/
def identityVerificationStatuses : List VerificationStatus :=
  [.initial, .incomplete, .pending, .approved, .declined, .finallyRejected]

def statusName : VerificationStatus → String
  | .initial => "initial"
  | .incomplete => "incomplete"
  | .pending => "pending"
  | .approved => "approved"
  | .declined => "declined"
  | .finallyRejected => "finallyRejected"

/-- `isIdentityVerificationStatus`, with the status. -/
def identityVerificationStatus? (s : Text) : Option VerificationStatus :=
  identityVerificationStatuses.find? fun status => lit (statusName status) = s

/-- Normalized events, with the texts that pages write. -/
inductive BridgeEvent
  | applicantLoaded (applicantId : Text)
  | submitted
  | statusChanged (status : VerificationStatus)
  | complete (status : VerificationStatus) (applicantId : Option Text)
  | cancel
  | tokenExpired
  | sessionExpired
  | error (code : Text) (message : Option Text)
  deriving DecidableEq

def BridgeEvent.type : BridgeEvent → BridgeEventType
  | applicantLoaded _ => .applicantLoaded
  | submitted => .submitted
  | statusChanged _ => .statusChanged
  | complete _ _ => .complete
  | cancel => .cancel
  | tokenExpired => .tokenExpired
  | sessionExpired => .sessionExpired
  | error _ _ => .error

def bridgeSource : Text := lit "kyc-bridge"

/-- `BRIDGE_ERROR_CODE`. -/
def bridgeErrorCode : Text := lit ClientErrorCode.bridgeProtocol.name

variable {ν : Type}

def bridgeProtocolVersion [One ν] : ν := 1

section Interpret

variable (N : Numerals ν)

def asRecord : Value ν → Option (Value ν)
  | .string s => (parse N s).filter Value.isRecord
  | message => if message.isRecord then some message else none

def str (value : Option (Value ν)) : Option Text := value.bind Value.string?

theorem str_eq_some_iff {v : Option (Value ν)} {s : Text} :
    str v = some s ↔ v = some (.string s) := by
  constructor
  · rintro h
    obtain ⟨w, rfl, hw⟩ := Option.bind_eq_some_iff.mp h
    cases w with
    | string t => rw [Option.some.inj hw]
    | _ => cases hw
  · rintro rfl
    rfl

/-- What a message of the given type says, by its payload. -/
def interpretPayload (payload : Value ν) : BridgeEventType → Option BridgeEvent
  | .applicantLoaded =>
    match str (payload.get? "applicantId") with
    | some applicantId => if applicantId = [] then none else some (.applicantLoaded applicantId)
    | none => none
  | .submitted => some .submitted
  | .statusChanged =>
    ((str (payload.get? "status")).bind identityVerificationStatus?).map .statusChanged
  | .complete =>
    ((str (payload.get? "status")).bind identityVerificationStatus?).map fun status =>
      .complete status ((str (payload.get? "applicantId")).filter (· ≠ []))
  | .cancel => some .cancel
  | .tokenExpired => some .tokenExpired
  | .sessionExpired => some .sessionExpired
  | .error =>
    some (.error ((str (payload.get? "code")).getD bridgeErrorCode) (str (payload.get? "message")))

variable [One ν] [DecidableEq ν]

/-- `data.source` and `data.v` are those of the protocol. -/
def isEnvelope (data : Value ν) : Bool :=
  str (data.get? "source") = some bridgeSource ∧
    (data.get? "v").bind Value.number? = some bridgeProtocolVersion

/-- A payload that is not sent reads as an empty one. -/
def payloadOf (data : Value ν) : Option (Value ν) :=
  match data.get? "payload" with
  | none => some (.object [])
  | some payload => asRecord N payload

def eventTypeOf (data : Value ν) : Option BridgeEventType :=
  (str (data.get? "type")).bind bridgeEventType?

def interpretBridgeMessage (raw : Value ν) : Option BridgeEvent :=
  (asRecord N raw).bind fun data =>
    if isEnvelope data then
      (payloadOf N data).bind fun payload => (eventTypeOf data).bind (interpretPayload payload)
    else none

end Interpret

section Post

variable [One ν]

def createBridgeMessage (type : BridgeEventType) (payload : Option (Value ν)) : Value ν :=
  .object ([(lit "source", .string bridgeSource), (lit "v", .number bridgeProtocolVersion),
    (lit "type", .string (lit type.name))] ++ payload.toList.map ((lit "payload", ·)))

/-- Where a page runs: in a native shell, or framed by another window. -/
structure PageWindow where
  reactNative : Bool
  framed : Bool

/-- What the host of a page is handed when the bridge script posts. -/
def post (N : Numerals ν) (window : PageWindow) (type : BridgeEventType)
    (payload : Option (Value ν)) : Option (Value ν) :=
  if window.reactNative then some (.string (stringify N (createBridgeMessage type payload)))
  else if window.framed then some (createBridgeMessage type payload)
  else none

end Post

section RoundTrip

/-- An applicant id, where there is one, is not empty. -/
def BridgeEvent.WellFormed : BridgeEvent → Prop
  | applicantLoaded applicantId => applicantId ≠ []
  | complete _ applicantId => applicantId ≠ some []
  | _ => True

/-- The fields of an event besides its type. -/
def BridgeEvent.fields : BridgeEvent → List (Text × Value ν)
  | applicantLoaded applicantId => [(lit "applicantId", .string applicantId)]
  | statusChanged status => [(lit "status", .string (lit (statusName status)))]
  | complete status applicantId => (lit "status", .string (lit (statusName status))) ::
      applicantId.toList.map fun s => (lit "applicantId", .string s)
  | error code message => (lit "code", .string code) ::
      message.toList.map fun s => (lit "message", .string s)
  | _ => []

/-- A payload for an event: its fields, or nothing if it has none. -/
def BridgeEvent.IsPayload (e : BridgeEvent) (payload : Option (Value ν)) : Prop :=
  payload = some (.object e.fields) ∨ (e.fields = ([] : List (Text × Value ν)) ∧ payload = none)

theorem bridgeEventType?_name (type : BridgeEventType) :
    bridgeEventType? (lit type.name) = some type := by
  cases type <;> decide

theorem identityVerificationStatus?_statusName (status : VerificationStatus) :
    identityVerificationStatus? (lit (statusName status)) = some status := by
  cases status <;> decide

theorem interpretPayload_fields {e : BridgeEvent} (he : e.WellFormed) :
    interpretPayload (.object (e.fields : List (Text × Value ν))) e.type = some e := by
  have status (s : VerificationStatus) :
      (str (some (Value.string (ν := ν) (lit (statusName s))))).bind identityVerificationStatus?
        = some s := identityVerificationStatus?_statusName s
  cases e with
  | applicantLoaded applicantId => exact if_neg he
  | statusChanged s => exact congrArg (Option.map BridgeEvent.statusChanged) (status s)
  | complete s applicantId =>
    have read : interpretPayload (.object ((BridgeEvent.complete s applicantId).fields :
        List (Text × Value ν))) .complete
        = some (.complete s (applicantId.filter (· ≠ []))) := by
      refine (congrArg (Option.map _) (status s)).trans ?_
      cases applicantId <;> rfl
    refine read.trans ?_
    cases applicantId with
    | none => rfl
    | some t =>
      have ht : t ≠ [] := fun h => he (congrArg some h)
      simp [ht]
  | error code message => cases message <;> rfl
  | _ => rfl

theorem interpretPayload_sound {payload : Value ν} {type : BridgeEventType} {e : BridgeEvent}
    (h : interpretPayload payload type = some e) : e.WellFormed ∧ e.type = type := by
  cases type with
  | applicantLoaded =>
    rw [interpretPayload] at h
    split at h
    · split_ifs at h with empty
      obtain rfl := Option.some.inj h
      exact ⟨empty, rfl⟩
    · simp at h
  | statusChanged =>
    obtain ⟨status, -, rfl⟩ := Option.map_eq_some_iff.mp h
    exact ⟨trivial, rfl⟩
  | complete =>
    obtain ⟨status, -, rfl⟩ := Option.map_eq_some_iff.mp h
    refine ⟨?_, rfl⟩
    rintro empty
    simpa using (Option.filter_eq_some_iff.mp empty).2
  | _ =>
    obtain rfl := Option.some.inj h
    exact ⟨trivial, rfl⟩

variable (N : Numerals ν)

theorem asRecord_stringify {data : Value ν} (hdata : data.Proper N) (record : data.isRecord) :
    asRecord N (.string (stringify N data)) = some data := by
  simp [asRecord, parse_stringify hdata, record]

theorem proper_fields (e : BridgeEvent) : (Value.object e.fields).Proper N := by
  have single (name : String) (s : Text) : (Value.object [(lit name, .string s)]).Proper N :=
    .object (by simp) (by rintro _ h; obtain rfl := List.mem_singleton.mp h; exact .string s)
  have pair {name name' : String} (hne : lit name ≠ lit name') (s s' : Text) :
      (Value.object [(lit name, .string s), (lit name', .string s')]).Proper N := by
    refine .object (by simpa using hne) ?_
    rintro _ h
    rcases List.mem_pair.mp h with rfl | rfl
    · exact .string s
    · exact .string s'
  cases e with
  | applicantLoaded applicantId => exact single _ _
  | statusChanged status => exact single _ _
  | complete status applicantId =>
    cases applicantId with
    | none => exact single _ _
    | some applicantId => exact pair (by decide) _ _
  | error code message =>
    cases message with
    | none => exact single _ _
    | some message => exact pair (by decide) _ _
  | _ => exact .object (by simp [BridgeEvent.fields]) (by simp [BridgeEvent.fields])

section Envelope

variable [One ν] (type : BridgeEventType) (payload : Option (Value ν))

theorem get?_source_createBridgeMessage :
    (createBridgeMessage type payload).get? "source" = some (.string bridgeSource) := rfl

theorem get?_v_createBridgeMessage :
    (createBridgeMessage type payload).get? "v" = some (.number bridgeProtocolVersion) := rfl

theorem get?_type_createBridgeMessage :
    (createBridgeMessage type payload).get? "type" = some (.string (lit type.name)) := rfl

theorem get?_payload_createBridgeMessage :
    (createBridgeMessage type payload).get? "payload" = payload := by
  cases payload <;> rfl

theorem eventTypeOf_createBridgeMessage :
    eventTypeOf (createBridgeMessage type payload) = some type := by
  rw [eventTypeOf, get?_type_createBridgeMessage]
  exact bridgeEventType?_name type

theorem isEnvelope_createBridgeMessage [DecidableEq ν] :
    isEnvelope (createBridgeMessage type payload) := by
  simp [isEnvelope, get?_source_createBridgeMessage, get?_v_createBridgeMessage, str,
    Value.string?, Value.number?]

end Envelope

variable {N} [One ν]

theorem proper_createBridgeMessage (one : N.Reads 1) (type : BridgeEventType)
    {payload : Option (Value ν)} (hp : ∀ v ∈ payload, v.Proper N) :
    (createBridgeMessage type payload).Proper N := by
  have envelope : ∀ field ∈ [(lit "source", Value.string bridgeSource),
      (lit "v", .number bridgeProtocolVersion), (lit "type", .string (lit type.name))],
      field.2.Proper N := by
    simp only [List.mem_cons, List.not_mem_nil, or_false]
    rintro field (rfl | rfl | rfl)
    · exact .string _
    · exact .number one
    · exact .string _
  cases payload with
  | some v =>
    refine .object (by simp; decide) fun field hf => ?_
    rcases List.mem_append.mp hf with hf | hf
    · exact envelope field hf
    · obtain rfl : field = (lit "payload", v) := by simpa using hf
      exact hp v rfl
  | none =>
    refine .object (by simp; decide) fun field hf => ?_
    exact envelope field (by simpa using hf)

omit [One ν] in
theorem BridgeEvent.IsPayload.proper {e : BridgeEvent} {payload : Option (Value ν)}
    (hp : e.IsPayload payload) : ∀ v ∈ payload, v.Proper N := by
  rintro v hv
  rcases hp with rfl | ⟨-, rfl⟩
  · obtain rfl := Option.some.inj hv
    exact proper_fields N e
  · cases hv

variable [DecidableEq ν]

variable (N) in
theorem interpret_createBridgeMessage (type : BridgeEventType) {payload : Option (Value ν)}
    (hp : ∀ v ∈ payload, v.isRecord) :
    interpretBridgeMessage N (createBridgeMessage type payload)
      = interpretPayload (payload.getD (.object [])) type := by
  have read : payloadOf N (createBridgeMessage type payload)
      = some (payload.getD (.object [])) := by
    rw [payloadOf, get?_payload_createBridgeMessage]
    cases payload with
    | none => rfl
    | some v =>
      have record := hp v rfl
      cases v <;> simp_all [asRecord, Value.isRecord]
  have record : asRecord N (createBridgeMessage type payload)
      = some (createBridgeMessage type payload) := rfl
  rw [interpretBridgeMessage, record, Option.bind_some,
    if_pos (isEnvelope_createBridgeMessage type payload), read, Option.bind_some,
    eventTypeOf_createBridgeMessage, Option.bind_some]

variable (N) in
theorem interpret_event {e : BridgeEvent} (he : e.WellFormed) {payload : Option (Value ν)}
    (hp : e.IsPayload payload) :
    interpretBridgeMessage N (createBridgeMessage e.type payload) = some e := by
  have fields : payload.getD (.object []) = .object e.fields := by
    rcases hp with rfl | ⟨none_left, rfl⟩
    · rfl
    · rw [none_left]
      rfl
  rw [interpret_createBridgeMessage, fields, interpretPayload_fields he]
  rintro v hv
  rcases hp with rfl | ⟨-, rfl⟩
  · exact Option.some.inj hv ▸ rfl
  · cases hv

theorem interpret_stringify {data : Value ν} (hdata : data.Proper N) (record : data.isRecord) :
    interpretBridgeMessage N (.string (stringify N data)) = interpretBridgeMessage N data := by
  have object : asRecord N data = some data := by
    cases data <;> simp_all [asRecord, Value.isRecord]
  rw [interpretBridgeMessage, interpretBridgeMessage, asRecord_stringify N hdata record, object]

theorem interpret_post (one : N.Reads 1) {window : PageWindow}
    (heard : window.reactNative ∨ window.framed) (type : BridgeEventType)
    {payload : Option (Value ν)} (hp : ∀ v ∈ payload, v.isRecord ∧ v.Proper N) :
    (post N window type payload).bind (interpretBridgeMessage N)
      = interpretPayload (payload.getD (.object [])) type := by
  have object := interpret_createBridgeMessage N type fun v hv => (hp v hv).1
  rw [post]
  split_ifs with native framed
  · rw [Option.bind_some, interpret_stringify _ rfl, object]
    exact proper_createBridgeMessage one type fun v hv => (hp v hv).2
  · exact object
  · exact absurd heard (by simp [native, framed])

theorem interpretBridgeMessage_sound {raw : Value ν} {e : BridgeEvent}
    (h : interpretBridgeMessage N raw = some e) :
    e.WellFormed ∧ ∃ data, asRecord N raw = some data ∧ isEnvelope data ∧
      eventTypeOf data = some e.type := by
  obtain ⟨data, hdata, h⟩ := Option.bind_eq_some_iff.mp h
  split_ifs at h with envelope
  obtain ⟨payload, -, h⟩ := Option.bind_eq_some_iff.mp h
  obtain ⟨type, htype, h⟩ := Option.bind_eq_some_iff.mp h
  obtain ⟨sound, rfl⟩ := interpretPayload_sound h
  exact ⟨sound, data, hdata, envelope, htype⟩

/-- Bridge messages round-trip: what is read from any raw message is read again from every
encoding of it, by either encoder and over either transport. -/
theorem bridge_messages_round_trip (one : N.Reads 1) {raw : Value ν} {e : BridgeEvent}
    (h : interpretBridgeMessage N raw = some e) :
    (e.WellFormed ∧ ∃ data, asRecord N raw = some data ∧ isEnvelope data ∧
      eventTypeOf data = some e.type) ∧
    ∀ payload : Option (Value ν), e.IsPayload payload →
      interpretBridgeMessage N (createBridgeMessage e.type payload) = some e ∧
      interpretBridgeMessage N (.string (stringify N (createBridgeMessage e.type payload)))
        = some e ∧
      ∀ window message, post N window e.type payload = some message →
        interpretBridgeMessage N message = some e := by
  have sound := interpretBridgeMessage_sound h
  refine ⟨sound, fun payload hp => ?_⟩
  have object := interpret_event N sound.1 hp
  have text : interpretBridgeMessage N
      (.string (stringify N (createBridgeMessage e.type payload))) = some e := by
    rw [interpret_stringify (proper_createBridgeMessage one e.type hp.proper) rfl, object]
  refine ⟨object, text, fun window message posted => ?_⟩
  rw [post] at posted
  split_ifs at posted
  · exact Option.some.inj posted ▸ text
  · exact Option.some.inj posted ▸ object

/-- A finished verification, as a native shell gets it from a page. -/
theorem bridge_messages_round_trip_complete :
    let raw : Value ℕ := .string (lit
      ("\x7b\"v\":1,\"source\":\"kyc-bridge\",\"type\":\"complete\"," ++
        "\"payload\":\x7b\"status\":\"approved\",\"applicantId\":\"a-1\"\x7d\x7d"))
    let e : BridgeEvent := .complete .approved (some (lit "a-1"))
    interpretBridgeMessage decimal raw = some e ∧
      interpretBridgeMessage decimal (createBridgeMessage e.type (some (.object e.fields)))
        = some e := by
  intro raw e
  have h : interpretBridgeMessage decimal raw = some e := by decide +kernel
  exact ⟨h, ((bridge_messages_round_trip ⟨by decide, by decide⟩ h).2 _ (Or.inl rfl)).1⟩

end RoundTrip

end Kyc.Hosted
