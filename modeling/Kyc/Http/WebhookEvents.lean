import Kyc.Sumsub.Mapping

/-! # Webhook bodies

How the Sumsub provider and the mock one read the raw body of a webhook. The mock checks the
type of everything it passes on, Sumsub's provider only that two fields count as true.
-/

namespace Kyc.Http

open Json Hosted Sumsub

variable {ν : Type}

structure RawWebhookEvent (ν : Type) where
  providerApplicantId : Value ν
  externalUserId : Option (Value ν)
  status : EventStatus
  rawStatus : Text
  levelName : Option (Value ν)
  rejectLabels : Option (Value ν)

/-- The event is what its type declares it to be. -/
structure RawWebhookEvent.WellTyped (e : RawWebhookEvent ν) : Prop where
  providerApplicantId : ∃ s, s ≠ [] ∧ e.providerApplicantId = .string s
  externalUserId : e.externalUserId = none ∨ ∃ s, e.externalUserId = some (.string s)
  status : ∀ name, e.status ≠ .inherited name
  levelName : e.levelName = none ∨ ∃ s, s ≠ [] ∧ e.levelName = some (.string s)
  rejectLabels : e.rejectLabels = none ∨
    ∃ labels, labels ≠ [] ∧ e.rejectLabels = some (.array (labels.map .string))

/-- The parser does not throw, and ignores the body or finds a well typed event in it. -/
def AcceptsWellTyped (parsed : Except Thrown (Option (RawWebhookEvent ν))) : Prop :=
  ∃ event, parsed = .ok event ∧ ∀ e ∈ event, e.WellTyped

/-- `typeof v === 'string'`. -/
def isString (v : Value ν) : Bool := v.string?.isSome

def stringList (value : Option (Value ν)) : Option (Value ν) :=
  match value with
  | some (.array items) =>
    if items.length > 0 ∧ items.all isString then some (.array items) else none
  | _ => none

def levelNameOf (value : Option (Value ν)) : Option (Value ν) :=
  value.filter fun v => v.string?.any (· ≠ [])

def payloadOfBody (N : Numerals ν) (rawBody : Text) : Option (Value ν) :=
  (parse N rawBody).filter Value.isRecord

variable (N : Numerals ν) (T : NumberTexts ν)

namespace SumsubProvider

variable [Zero ν] [DecidableEq ν]

/-- `v && …`, for a property that may be missing. -/
def isSet (v : Option (Value ν)) : Bool := v.any Value.isTruthy

/-- `payload.reviewStatus ?? ''` in a template. -/
def reviewStatusText (reviewStatus : Option (Value ν)) : Except Thrown Text :=
  match reviewStatus with
  | none => .ok []
  | some .null => .ok []
  | some v => textOf T (some v)

/-- The event in the payload of a webhook of the Sumsub provider. -/
def eventOfPayload (payload : Value ν) : Except Thrown (Option (RawWebhookEvent ν)) :=
  match payload.get? "applicantId" with
  | none => .ok none
  | some applicantId =>
    if ¬ isSet (payload.get? "type") ∨ ¬ applicantId.isTruthy then .ok none
    else do
      let status ← mapSumsubWebhookType T (payload.get? "type") (payload.get? "reviewStatus")
        (payload.get? "reviewResult")
      let type ← textOf T (payload.get? "type")
      let reviewStatus ← reviewStatusText T (payload.get? "reviewStatus")
      return some
        { providerApplicantId := applicantId
          externalUserId := payload.get? "externalUserId"
          status
          rawStatus := type ++ unit ':' :: reviewStatus
          levelName := levelNameOf (payload.get? "levelName")
          rejectLabels := stringList (field (payload.get? "reviewResult") "rejectLabels") }

def parseWebhookEvent (rawBody : Text) : Except Thrown (Option (RawWebhookEvent ν)) :=
  match payloadOfBody N rawBody with
  | none => .ok none
  | some payload => eventOfPayload T payload

end SumsubProvider

namespace MockProvider

structure MockApplicant where
  status : VerificationStatus
  userId : String
  levelName : Option String

abbrev MockApplicants := Text → Option MockApplicant

/-- `isVerificationStatus`, with the status. -/
def verificationStatus? (v : Option (Value ν)) : Option VerificationStatus :=
  (str v).bind identityVerificationStatus?

/-- A known applicant takes over the status of an event, if there is one. -/
def MockApplicants.updated (applicants : MockApplicants) (applicantId : Text)
    (status : Option VerificationStatus) : MockApplicants :=
  match status, applicants applicantId with
  | some status, some applicant =>
    Function.update applicants applicantId (some { applicant with status })
  | _, _ => applicants

/-- The event in the payload of a webhook of the mock provider, and its applicants after it. -/
def eventOfPayload (payload : Value ν) (applicants : MockApplicants) :
    Except Thrown (Option (RawWebhookEvent ν)) × MockApplicants :=
  match str (payload.get? "applicantId") with
  | none => (.ok none, applicants)
  | some applicantId =>
    if applicantId = [] then (.ok none, applicants)
    else
      let status := verificationStatus? (payload.get? "status")
      let event := do
        let rawStatus ← textOf T (payload.get? "status")
        return some
          { providerApplicantId := .string applicantId
            externalUserId := (payload.get? "externalUserId").filter isString
            status := status.elim .null .status
            rawStatus
            levelName := levelNameOf (payload.get? "levelName")
            rejectLabels := stringList (payload.get? "rejectLabels") }
      (event, applicants.updated applicantId status)

def parseWebhookEvent (rawBody : Text) (applicants : MockApplicants) :
    Except Thrown (Option (RawWebhookEvent ν)) × MockApplicants :=
  match payloadOfBody N rawBody with
  | none => (.ok none, applicants)
  | some payload => eventOfPayload T payload applicants

end MockProvider

section WellTyped

variable {N T}

theorem accepts_none : AcceptsWellTyped (.ok none : Except Thrown (Option (RawWebhookEvent ν))) :=
  ⟨none, rfl, by simp⟩

theorem not_accepts_error (e : Thrown) :
    ¬ AcceptsWellTyped (.error e : Except Thrown (Option (RawWebhookEvent ν))) := by
  rintro ⟨event, h, -⟩
  cases h

theorem accepts_some_iff {e : RawWebhookEvent ν} :
    AcceptsWellTyped (.ok (some e)) ↔ e.WellTyped := by
  constructor
  · rintro ⟨event, h, typed⟩
    obtain rfl := Except.ok.inj h
    exact typed e rfl
  · rintro typed
    refine ⟨some e, rfl, ?_⟩
    rintro e' he
    obtain rfl := Option.some.inj he
    exact typed

theorem filter_isString_cases (value : Option (Value ν)) :
    value.filter isString = none ∨ ∃ s, value.filter isString = some (.string s) := by
  cases h : value.filter isString with
  | none => exact Or.inl rfl
  | some v =>
    have typed := (Option.filter_eq_some_iff.mp h).2
    cases v with
    | string s => exact Or.inr ⟨s, rfl⟩
    | _ => cases typed

theorem levelNameOf_cases (value : Option (Value ν)) :
    levelNameOf value = none ∨ ∃ s, s ≠ [] ∧ levelNameOf value = some (.string s) := by
  rcases value with _ | v
  · exact Or.inl rfl
  · cases v with
    | string s =>
      by_cases hs : s = []
      · exact Or.inl (by simp [levelNameOf, Value.string?, hs])
      · exact Or.inr ⟨s, hs, by simp [levelNameOf, Value.string?, hs]⟩
    | _ => exact Or.inl rfl

theorem exists_map_of_all_isString {items : List (Value ν)} (h : items.all isString) :
    ∃ labels : List Text, items = labels.map .string := by
  induction items with
  | nil => exact ⟨[], rfl⟩
  | cons v items ih =>
    rw [List.all_cons, Bool.and_eq_true] at h
    obtain ⟨labels, rfl⟩ := ih h.2
    cases v with
    | string s => exact ⟨s :: labels, rfl⟩
    | _ => cases h.1

theorem stringList_cases (value : Option (Value ν)) :
    stringList value = none ∨
      ∃ labels, labels ≠ [] ∧ stringList value = some (.array (labels.map .string)) := by
  unfold stringList
  split
  · rename_i items
    split_ifs with h
    · obtain ⟨labels, rfl⟩ := exists_map_of_all_isString h.2
      refine Or.inr ⟨labels, ?_, rfl⟩
      rintro rfl
      exact absurd h.1 (by simp)
    · exact Or.inl rfl
  · exact Or.inl rfl

theorem lookupWebhookType_ne_inherited_iff {type : Text} :
    (∀ name, lookupWebhookType type ≠ .inherited name) ↔ inherits type = false := by
  have own : ∀ row ∈ sumsubWebhookTypes, inherits (lit row.1) = false := by decide
  unfold lookupWebhookType
  cases h : sumsubWebhookTypes.find? fun row => lit row.1 = type with
  | some row =>
    have named : lit row.1 = type := by simpa using List.find?_some h
    refine iff_of_true (by simp) ?_
    rw [← named]
    exact own row (List.mem_of_find?_eq_some h)
  | none =>
    dsimp only
    cases hi : inherits type with
    | true => exact iff_of_false (fun h => h type (if_pos rfl)) (by simp)
    | false => exact iff_of_true (by simp) rfl

end WellTyped

section Sumsub

variable [Zero ν] [DecidableEq ν]

/-- The Sumsub provider finds an event in the payload. -/
def SumsubProvider.Acts (payload : Value ν) : Prop :=
  SumsubProvider.isSet (payload.get? "type") ∧ SumsubProvider.isSet (payload.get? "applicantId")

/-- The fields of a payload that the Sumsub provider passes on unchecked are what the event's
type needs: strings, and texts of which the type's is no inherited name. -/
structure SumsubProvider.PassesOn (payload : Value ν) : Prop where
  applicantId : ∃ s, payload.get? "applicantId" = some (.string s)
  externalUserId : payload.get? "externalUserId" = none ∨
    ∃ s, payload.get? "externalUserId" = some (.string s)
  type : ∃ t, textOf T (payload.get? "type") = .ok t ∧ inherits t = false
  reviewStatus : ∃ t, textOf T (payload.get? "reviewStatus") = .ok t

namespace SumsubProvider

omit [Zero ν] [DecidableEq ν]

variable {T}

theorem reviewStatusText_ok_iff {v : Option (Value ν)} :
    (∃ t, reviewStatusText T v = .ok t) ↔ ∃ t, textOf T v = .ok t := by
  unfold reviewStatusText
  split
  · exact iff_of_true ⟨_, rfl⟩ ⟨_, rfl⟩
  · exact iff_of_true ⟨_, rfl⟩ ⟨_, textOf_null T⟩
  · rfl

theorem exists_status (reviewStatus reviewResult : Option (Value ν))
    {type : Option (Value ν)} {t : Text} (ht : textOf T type = .ok t) :
    ∃ status, mapSumsubWebhookType T type reviewStatus reviewResult = .ok status ∧
      ((∀ name, status ≠ .inherited name) ↔ inherits t = false) := by
  unfold mapSumsubWebhookType
  by_cases reviewed : isText type "applicantReviewed"
  · obtain rfl := isText_iff.mp reviewed
    rw [textOf_string] at ht
    obtain rfl : lit "applicantReviewed" = t := Except.ok.inj ht
    rw [if_pos reviewed]
    exact ⟨_, rfl, iff_of_true (by simp) (by decide)⟩
  · rw [if_neg reviewed, ht]
    exact ⟨_, rfl, lookupWebhookType_ne_inherited_iff⟩

theorem mapSumsubWebhookType_of_error {type reviewStatus reviewResult : Option (Value ν)}
    {e : Thrown} (ht : textOf T type = .error e) :
    mapSumsubWebhookType T type reviewStatus reviewResult = .error e := by
  have reviewed : ¬ isText type "applicantReviewed" := fun h => by
    rw [isText_iff.mp h, textOf_string] at ht
    cases ht
  rw [mapSumsubWebhookType, if_neg reviewed, ht]
  rfl

end SumsubProvider

theorem SumsubProvider.accepts_eventOfPayload_iff {payload : Value ν} :
    AcceptsWellTyped (eventOfPayload T payload) ↔ (Acts payload → PassesOn T payload) := by
  unfold eventOfPayload Acts
  cases ha : payload.get? "applicantId" with
  | none => exact iff_of_true accepts_none fun h => by cases h.2
  | some applicantId =>
    dsimp only
    by_cases acts : isSet (payload.get? "type") ∧ isSet (some applicantId)
    · rw [if_neg (by simpa [isSet] using acts)]
      refine Iff.trans ?_ (imp_iff_right acts).symm
      have truthy : applicantId.isTruthy := acts.2
      cases ht : textOf T (payload.get? "type") with
      | error e =>
        rw [mapSumsubWebhookType_of_error ht]
        refine iff_of_false (not_accepts_error e) fun h => ?_
        obtain ⟨t, h, -⟩ := h.type
        rw [ht] at h
        cases h
      | ok type =>
        obtain ⟨status, hstatus, known⟩ := exists_status (payload.get? "reviewStatus")
          (payload.get? "reviewResult") ht
        rw [hstatus]
        cases hr : reviewStatusText T (payload.get? "reviewStatus") with
        | error e =>
          refine iff_of_false (not_accepts_error e) fun h => ?_
          obtain ⟨t, h⟩ := reviewStatusText_ok_iff.mpr h.reviewStatus
          rw [hr] at h
          cases h
        | ok reviewStatus =>
          refine accepts_some_iff.trans ⟨fun typed => ?_, fun h => ?_⟩
          · obtain ⟨s, -, hs⟩ := typed.providerApplicantId
            exact
              { applicantId := ⟨s, ha.trans (congrArg some hs)⟩
                externalUserId := typed.externalUserId
                type := ⟨type, ht, known.mp typed.status⟩
                reviewStatus := reviewStatusText_ok_iff.mp ⟨_, hr⟩ }
          · obtain ⟨s, hs⟩ := h.applicantId
            obtain rfl : applicantId = .string s := Option.some.inj (ha.symm.trans hs)
            obtain ⟨t, htype, inherited⟩ := h.type
            obtain rfl : type = t := Except.ok.inj (ht.symm.trans htype)
            exact
              { providerApplicantId := ⟨s, by simpa [Value.isTruthy] using truthy, rfl⟩
                externalUserId := h.externalUserId
                status := known.mpr inherited
                levelName := levelNameOf_cases _
                rejectLabels := stringList_cases _ }
    · have ignored : ¬ isSet (payload.get? "type") ∨ ¬ applicantId.isTruthy := not_and_or.mp acts
      rw [if_pos ignored]
      exact iff_of_true accepts_none fun h => absurd h acts

end Sumsub

section Mock

/-- The mock provider finds an event in the payload. -/
def MockProvider.Acts (payload : Value ν) : Prop :=
  ∃ s, s ≠ [] ∧ payload.get? "applicantId" = some (.string s)

theorem MockProvider.accepts_eventOfPayload_iff {payload : Value ν} {applicants : MockApplicants} :
    AcceptsWellTyped (eventOfPayload T payload applicants).1 ↔
      (Acts payload → ∃ t, textOf T (payload.get? "status") = .ok t) := by
  unfold eventOfPayload
  cases ha : str (payload.get? "applicantId") with
  | none =>
    refine iff_of_true accepts_none ?_
    rintro ⟨s, -, hs⟩
    rw [hs] at ha
    cases ha
  | some applicantId =>
    dsimp only
    have read := str_eq_some_iff.mp ha
    by_cases hne : applicantId = []
    · rw [if_pos hne]
      refine iff_of_true accepts_none ?_
      rintro ⟨s, hs, h⟩
      obtain rfl := Value.string.inj (Option.some.inj (read.symm.trans h))
      exact absurd hne hs
    · rw [if_neg hne]
      refine Iff.trans ?_ (imp_iff_right ⟨applicantId, hne, read⟩).symm
      cases ht : textOf T (payload.get? "status") with
      | error e => exact iff_of_false (not_accepts_error e) (by simp)
      | ok rawStatus =>
        refine iff_of_true (accepts_some_iff.mpr ?_) ⟨_, rfl⟩
        exact
          { providerApplicantId := ⟨applicantId, hne, rfl⟩
            externalUserId := filter_isString_cases _
            status := by cases verificationStatus? (payload.get? "status") <;> simp
            levelName := levelNameOf_cases _
            rejectLabels := stringList_cases _ }

/-- Exactly when a parser accepts a body without throwing and passes on only well typed events:
for the Sumsub provider, when the fields are that it passes on as they are, for the mock one,
when the status can be written out. -/
theorem parsers_accept_well_typed_iff [Zero ν] [DecidableEq ν] (N : Numerals ν)
    (T : NumberTexts ν) (rawBody : Text) :
    (AcceptsWellTyped (SumsubProvider.parseWebhookEvent N T rawBody) ↔
      ∀ payload, payloadOfBody N rawBody = some payload → SumsubProvider.Acts payload →
        SumsubProvider.PassesOn T payload) ∧
    ∀ applicants, AcceptsWellTyped (MockProvider.parseWebhookEvent N T rawBody applicants).1 ↔
      ∀ payload, payloadOfBody N rawBody = some payload → MockProvider.Acts payload →
        ∃ t, textOf T (payload.get? "status") = .ok t := by
  unfold SumsubProvider.parseWebhookEvent MockProvider.parseWebhookEvent
  cases hp : payloadOfBody N rawBody with
  | none =>
    exact ⟨iff_of_true accepts_none (by simp), fun _ => iff_of_true accepts_none (by simp)⟩
  | some payload =>
    have only {p : Value ν → Prop} : (∀ v, some payload = some v → p v) ↔ p payload := by
      simp
    refine ⟨?_, fun applicants => ?_⟩
    · rw [only]
      exact SumsubProvider.accepts_eventOfPayload_iff T
    · rw [only]
      exact MockProvider.accepts_eventOfPayload_iff T

/-- A parser threw, or passed on an event with a status or an applicant id of another type. -/
def isIllTyped (parsed : Except Thrown (Option (RawWebhookEvent ν))) : Bool :=
  match parsed with
  | .error _ => true
  | .ok none => false
  | .ok (some e) =>
    ! isString e.providerApplicantId || e.status.isInherited

theorem not_accepts_of_isIllTyped {parsed : Except Thrown (Option (RawWebhookEvent ν))}
    (h : isIllTyped parsed) : ¬ AcceptsWellTyped parsed := by
  rcases parsed with error | _ | e
  · exact not_accepts_error error
  · cases h
  · rw [accepts_some_iff]
    rintro typed
    obtain ⟨s, -, hs⟩ := typed.providerApplicantId
    rcases (Bool.or_eq_true_iff ..).mp h with h | h
    · rw [hs] at h
      cases h
    · cases hstatus : e.status with
      | inherited name => exact typed.status name hstatus
      | _ => rw [hstatus] at h; cases h

/-- A payload of the Sumsub provider whose type every object inherits, one of it whose applicant
id is a number, and one of the mock's with a status that has a `toString` of its own. -/
theorem parsers_pass_on_ill_typed_fields :
    let inherited := lit "\x7b\"type\":\"constructor\",\"applicantId\":\"a\"\x7d"
    let numbered := lit "\x7b\"type\":\"applicantReviewed\",\"applicantId\":7\x7d"
    let unprintable := lit
      "\x7b\"applicantId\":\"a\",\"status\":\x7b\"toString\":null\x7d\x7d"
    ¬ AcceptsWellTyped (SumsubProvider.parseWebhookEvent decimal decimalTexts inherited) ∧
      ¬ AcceptsWellTyped (SumsubProvider.parseWebhookEvent decimal decimalTexts numbered) ∧
      ¬ AcceptsWellTyped
        (MockProvider.parseWebhookEvent decimal decimalTexts unprintable fun _ => none).1 := by
  intro inherited numbered unprintable
  refine ⟨not_accepts_of_isIllTyped ?_, not_accepts_of_isIllTyped ?_,
    not_accepts_of_isIllTyped ?_⟩
  · decide +kernel
  · decide +kernel
  · decide +kernel

end Mock

end Kyc.Http
