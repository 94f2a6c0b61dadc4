import Kyc.Hosted.Bridge
import Kyc.Json.Coercion

/-! # The Sumsub vocabulary

Reviews, webhook types and web SDK messages of Sumsub, in the normalized vocabulary.
-/

namespace Kyc.Sumsub

open Json Hosted

variable {ν : Type}

/-- `v === s`. -/
def isText (v : Option (Value ν)) (s : String) : Bool := str v = some (lit s)

/-- `v?.name`. -/
def field (v : Option (Value ν)) (name : String) : Option (Value ν) := v.bind (·.get? name)

theorem isText_iff {v : Option (Value ν)} {s : String} :
    isText v s ↔ v = some (.string (lit s)) := by
  rw [isText, decide_eq_true_iff, str_eq_some_iff]

theorem isText_of_str_eq_none {v : Option (Value ν)} (h : str v = none) (s : String) :
    isText v s = false := by simp [isText, h]

theorem isText_map_str (v : Option (Value ν)) (s : String) :
    isText ((str v).map .string : Option (Value ν)) s = isText v s := by
  rw [isText, isText]
  cases str v <;> rfl

/-- Normalize a review by its stage and, once completed, its verdict. -/
def mapSumsubStatus (reviewStatus reviewResult : Option (Value ν)) : VerificationStatus :=
  if isText reviewStatus "completed" then
    if isText (field reviewResult "reviewAnswer") "GREEN" then .approved
    else if isText (field reviewResult "reviewAnswer") "RED" then
      if isText (field reviewResult "reviewRejectType") "FINAL" then .finallyRejected else .declined
    else .pending
  else if isText reviewStatus "pending" ∨ isText reviewStatus "queued" ∨
      isText reviewStatus "prechecked" ∨ isText reviewStatus "onHold" then .pending
  else if isText reviewStatus "init" then .incomplete
  else .initial

/-- `SUMSUB_WEBHOOK_TYPES`. -/
def sumsubWebhookTypes : List (String × VerificationStatus) :=
  [("applicantCreated", .incomplete), ("applicantPending", .pending),
    ("applicantOnHold", .pending), ("applicantReset", .initial)]

/-- What is passed on as the status of an event: a status or nothing, or what the table of
webhook types inherits under a name. -/
inductive EventStatus
  | null
  | status (s : VerificationStatus)
  | inherited (name : Text)
  deriving DecidableEq

def EventStatus.isInherited : EventStatus → Bool
  | inherited _ => true
  | _ => false

/-- `SUMSUB_WEBHOOK_TYPES[type] ?? null`. -/
def lookupWebhookType (type : Text) : EventStatus :=
  match sumsubWebhookTypes.find? fun row => lit row.1 = type with
  | some row => .status row.2
  | none => if inherits type then .inherited type else .null

def conversionError : Thrown := plainError "Cannot convert object to primitive value"

variable (T : NumberTexts ν)

/-- `String(v)` for a value that may be undefined. -/
def textOf (v : Option (Value ν)) : Except Thrown Text :=
  match v with
  | none => .ok (lit "undefined")
  | some v => match toText T v with
    | some s => .ok s
    | none => .error conversionError

@[simp] theorem textOf_null : textOf T (some .null) = .ok (lit "null") := by
  rw [textOf, toText]

@[simp] theorem textOf_string (s : Text) : textOf T (some (.string s)) = .ok s := by
  rw [textOf, toText]

/-- Normalize a webhook by its type, which is whatever the payload has for it. -/
def mapSumsubWebhookType (type reviewStatus reviewResult : Option (Value ν)) :
    Except Thrown EventStatus :=
  if isText type "applicantReviewed" then
    .ok (.status (mapSumsubStatus reviewStatus reviewResult))
  else do
    let key ← textOf T type
    return lookupWebhookType key

/-! ## Messages of the web SDK -/

inductive SumsubEventName
  | onApplicantLoaded
  | onApplicantSubmitted
  | onApplicantResubmitted
  | onApplicantStatusChanged
  | onError
  deriving DecidableEq, Repr

def SumsubEventName.name : SumsubEventName → String
  | onApplicantLoaded => "idCheck.onApplicantLoaded"
  | onApplicantSubmitted => "idCheck.onApplicantSubmitted"
  | onApplicantResubmitted => "idCheck.onApplicantResubmitted"
  | onApplicantStatusChanged => "idCheck.onApplicantStatusChanged"
  | onError => "idCheck.onError"

/-- `SUMSUB_EVENT_NAMES`. -/
def sumsubEventNames : List SumsubEventName :=
  [.onApplicantLoaded, .onApplicantSubmitted, .onApplicantResubmitted, .onApplicantStatusChanged,
    .onError]

def sumsubEventName? (type : Text) : Option SumsubEventName :=
  sumsubEventNames.find? fun name => lit name.name = type

/-- `SUMSUB_ERROR_CODE`. -/
def sumsubErrorCode : Text := lit "SUMSUB_ERROR"

/-- The payload, or an empty one in place of what is no record. -/
def asRecord (payload : Option (Value ν)) : Value ν :=
  match payload with
  | some v => if v.isRecord then v else .object []
  | none => .object []

/-- A message of the web SDK as a normalized event; every field is read defensively. -/
def interpretSumsubWebMessage (type : Text) (payload : Option (Value ν)) : Option BridgeEvent :=
  let data := asRecord payload
  match sumsubEventName? type with
  | some .onApplicantLoaded =>
    match str (data.get? "applicantId") with
    | some applicantId => if applicantId = [] then none else some (.applicantLoaded applicantId)
    | none => none
  | some .onApplicantSubmitted => some .submitted
  | some .onApplicantResubmitted => some .submitted
  | some .onApplicantStatusChanged =>
    some (.statusChanged (mapSumsubStatus ((str (data.get? "reviewStatus")).map .string)
      (data.get? "reviewResult")))
  | some .onError =>
    some (.error ((str (data.get? "code")).getD sumsubErrorCode)
      ((str (data.get? "reason")).filter (· ≠ [])))
  | none => none

theorem get?_asRecord (payload : Option (Value ν)) (name : String) :
    (asRecord payload).get? name = field payload name := by
  cases payload with
  | none => rfl
  | some v => cases v <;> rfl

end Kyc.Sumsub
