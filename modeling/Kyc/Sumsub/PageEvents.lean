import Kyc.Sumsub.PageReviews

/-! # What a host hears of the SDK

The page and the shared translator are two readings of the same messages. They agree on the
messages whose fields have the types they should have, and that do not make the page repeat
the applicant it remembers.
-/

namespace Kyc.Sumsub

open Json Hosted

variable {ν : Type} [Zero ν] [DecidableEq ν]

section Posts

variable (N : Numerals ν)

/-- Every payload is a record that its text stands for. -/
def Sendable (posts : List (Posted ν)) : Prop :=
  ∀ p ∈ posts, ∀ v ∈ p.2, v.isRecord ∧ v.Proper N

def eventOf (p : Posted ν) : Option BridgeEvent := interpretPayload (p.2.getD (.object [])) p.1

def withoutComplete (events : List BridgeEvent) : List BridgeEvent :=
  events.filter (·.type ≠ .complete)

omit [Zero ν] [DecidableEq ν] in
theorem withoutComplete_cons (p : Posted ν) (posts : List (Posted ν)) :
    withoutComplete ((p :: posts).filterMap eventOf) =
      (if p.1 = .complete then [] else (eventOf p).toList) ++
        withoutComplete (posts.filterMap eventOf) := by
  rw [List.filterMap_cons]
  cases he : eventOf p with
  | none => split_ifs <;> rfl
  | some e =>
    rw [withoutComplete, List.filter_cons, (interpretPayload_sound he).2]
    split_ifs with complete <;> simp_all [withoutComplete]

variable {N}

omit [Zero ν] in
theorem hostEvents_eq [One ν] (one : N.Reads 1) {window : PageWindow}
    (heard : window.reactNative ∨ window.framed) {posts : List (Posted ν)}
    (h : Sendable N posts) : hostEvents N window posts = posts.filterMap eventOf :=
  List.filterMap_congr fun p hp => interpret_post one heard p.1 (h p hp)

omit [Zero ν] [DecidableEq ν] in
theorem proper_field {v : Option (Value ν)} (h : ∀ w ∈ v, w.Proper N) (name : String) :
    ∀ w ∈ field v name, w.Proper N := by
  rintro w hw
  obtain ⟨u, rfl, hu⟩ := Option.bind_eq_some_iff.mp hw
  cases h u rfl with
  | object names proper =>
    obtain ⟨before, after, rfl, -⟩ := List.lookup_eq_some_iff.mp hu
    exact proper (lit name, w) (by simp)
  | _ => cases hu

theorem proper_orElse {a b : Option (Value ν)} (ha : ∀ v ∈ a, v.Proper N)
    (hb : ∀ v ∈ b, v.Proper N) : ∀ v ∈ orElse a b, v.Proper N := by
  rintro v hv
  rcases orElse_eq_some hv with ⟨h, -⟩ | ⟨-, h⟩
  · exact ha v h
  · exact hb v h

theorem proper_andField {v : Option (Value ν)} (h : ∀ w ∈ v, w.Proper N) (name : String) :
    ∀ w ∈ andField v name, w.Proper N := by
  cases v with
  | none => simp [andField]
  | some u =>
    rw [andField]
    split_ifs
    · exact proper_field h name
    · exact h

theorem truthy_remember {applicantId : Option (Value ν)} (h : ∀ v ∈ applicantId, v.isTruthy)
    (m : WebMessage ν) : ∀ v ∈ remember applicantId m.type m.payload, v.isTruthy := by
  rintro v hv
  rw [remember] at hv
  split_ifs at hv
  · rcases orElse_eq_some hv with ⟨-, truthy⟩ | ⟨-, same⟩
    · exact truthy
    · exact h v same
  · exact h v hv

theorem proper_remember {applicantId : Option (Value ν)} (h : ∀ v ∈ applicantId, v.Proper N)
    {m : WebMessage ν} (hm : ∀ v ∈ m.payload, v.Proper N) :
    ∀ v ∈ remember applicantId m.type m.payload, v.Proper N := by
  rw [remember]
  split_ifs
  · rw [field_orElse_empty]
    exact proper_orElse (proper_field hm _) h
  · exact h

omit [Zero ν] [DecidableEq ν] in
theorem proper_statusFields (status : VerificationStatus) {applicantId : Option (Value ν)}
    (h : ∀ v ∈ applicantId, v.Proper N) :
    (Value.object (statusFields status ++
      applicantId.toList.map ((lit "applicantId", ·)))).Proper N := by
  refine .object ?_ fun field hf => ?_
  · cases applicantId with
    | none => simp [statusFields]
    | some v => simp [statusFields]; decide
  · rcases List.mem_append.mp hf with hf | hf
    · obtain rfl := List.mem_singleton.mp hf
      exact .string _
    · obtain ⟨v, hv, rfl⟩ := List.mem_map.mp hf
      exact h v (by simpa using hv)

variable (T : NumberTexts ν)

theorem sendable_onMessage {applicantId : Option (Value ν)} (h : ∀ v ∈ applicantId, v.Proper N)
    (type : Text) (payload : Option (Value ν)) :
    Sendable N (onMessage T applicantId type payload) := by
  have filtered : ∀ v ∈ applicantId.filter Value.isTruthy, v.Proper N := fun v hv =>
    h v (Option.mem_filter_iff.mp hv).1
  unfold onMessage
  dsimp only
  split
  · cases hid : applicantId.filter Value.isTruthy with
    | none => simp [Sendable]
    | some v =>
      have proper : (Value.object [(lit "applicantId", v)]).Proper N :=
        .object (by simp) (by simpa using filtered v hid)
      simpa [Sendable] using ⟨rfl, proper⟩
  · simp [Sendable]
  · simp [Sendable]
  · split
    · simp [Sendable]
    · rename_i status _
      have bare : (Value.object (statusFields status)).Proper N := by
        simpa using proper_statusFields status (show ∀ v ∈ none, Value.Proper N v by simp)
      have whole := proper_statusFields status filtered
      refine List.forall_mem_cons.mpr ⟨?_, ?_⟩
      · rintro v hv
        obtain rfl := Option.some.inj hv
        exact ⟨rfl, bare⟩
      · split_ifs
        · refine List.forall_mem_singleton.mpr fun v hv => ?_
          obtain rfl := Option.some.inj hv
          exact ⟨rfl, whole⟩
        · simp
  · simp [Sendable]
  · simp [Sendable]

theorem sendable_onError {error : Option (Value ν)} (h : ∀ v ∈ error, v.Proper N) :
    Sendable N [onError error] := by
  refine List.forall_mem_singleton.mpr fun v hv => ?_
  obtain ⟨code, hcode, rfl⟩ := Option.map_eq_some_iff.mp hv
  have proper_code : code.Proper N := by
    refine proper_orElse (proper_andField h "code") ?_ code hcode
    rintro v hv
    exact Option.some.inj hv ▸ .string _
  refine ⟨rfl, .object ?_ fun field hf => ?_⟩
  · cases andField error "reason" with
    | none => simp
    | some v => simp; decide
  · rcases List.mem_cons.mp hf with rfl | hf
    · exact proper_code
    · obtain ⟨v, hv, rfl⟩ := List.mem_map.mp hf
      exact proper_andField h "reason" v (by simpa using hv)

theorem sendable_handle {applicantId : Option (Value ν)} (h : ∀ v ∈ applicantId, v.Proper N)
    {m : WebMessage ν} (hm : ∀ v ∈ m.payload, v.Proper N) :
    Sendable N (handle T applicantId m) := by
  rintro p hp
  rcases List.mem_append.mp hp with hp | hp
  · exact sendable_onMessage T (proper_remember h hm) m.type m.payload p hp
  · split_ifs at hp
    · exact sendable_onError hm p hp
    · cases hp

theorem sendable_handleAll {applicantId : Option (Value ν)} (h : ∀ v ∈ applicantId, v.Proper N)
    {messages : List (WebMessage ν)} (hm : ∀ m ∈ messages, ∀ v ∈ m.payload, v.Proper N) :
    Sendable N (handleAll T applicantId messages) := by
  induction messages generalizing applicantId with
  | nil => simp [Sendable, handleAll]
  | cons m messages ih =>
    have first := hm m List.mem_cons_self
    rintro p hp
    rcases List.mem_append.mp hp with hp | hp
    · exact sendable_handle T h first p hp
    · exact ih (proper_remember h first) (fun m hm' => hm m (List.mem_cons_of_mem _ hm')) p hp

theorem sendable_pagePosts {messages : List (WebMessage ν)}
    (hm : ∀ m ∈ messages, ∀ v ∈ m.payload, v.Proper N) : Sendable N (pagePosts T messages) := by
  refine List.forall_mem_cons.mpr ⟨?_, sendable_handleAll T (by simp) hm⟩
  rintro v hv
  obtain rfl := Option.some.inj hv
  refine ⟨rfl, ?_⟩
  simpa using proper_statusFields .incomplete (show ∀ v ∈ none, Value.Proper N v by simp)

end Posts

section Agreement

variable (T : NumberTexts ν)

structure Plain (error : Option (Value ν)) : Prop where
  nonempty : error ≠ some (.string [])
  code : ∀ v, field error "code" = some v → v.isTruthy → ∃ s, v = .string s
  code_nonempty : field error "code" ≠ some (.string [])
  reason_nonempty : field error "reason" ≠ some (.string [])

/-- A message that the page reads as the translator does. -/
def Alike (applicantId : Option (Value ν)) (m : WebMessage ν) : Prop :=
  match sumsubEventName? m.type with
  | some .onApplicantLoaded =>
    (∃ v, field m.payload "applicantId" = some v ∧ v.isTruthy) ∨ str applicantId = none
  | some .onApplicantStatusChanged =>
    Legible T (field m.payload "reviewStatus") (field m.payload "reviewResult")
  | some .onError => Plain m.payload
  | _ => True

/-- Messages each of which is read alike, by a page that remembers the applicant. -/
def AllAlike (applicantId : Option (Value ν)) : List (WebMessage ν) → Prop
  | [] => True
  | m :: messages =>
    Alike T applicantId m ∧ AllAlike (remember applicantId m.type m.payload) messages

/-- The events of the posts for a message, but for `complete`. -/
def heard (applicantId : Option (Value ν)) (m : WebMessage ν) : List BridgeEvent :=
  withoutComplete ((handle T applicantId m).filterMap eventOf)

def translated (m : WebMessage ν) : List BridgeEvent :=
  (interpretSumsubWebMessage m.type m.payload).toList

variable {T}

omit [Zero ν] [DecidableEq ν] in
theorem get?_head (name : String) (v : Value ν) (fields : List (Text × Value ν)) :
    (Value.object ((lit name, v) :: fields)).get? name = some v := List.lookup_cons_self

theorem heard_loaded {applicantId : Option (Value ν)} {m : WebMessage ν}
    (truthy : ∀ v ∈ applicantId, v.isTruthy)
    (h : sumsubEventName? m.type = some .onApplicantLoaded) :
    heard T applicantId m =
      ((str (remember applicantId m.type m.payload)).map BridgeEvent.applicantLoaded).toList := by
  have kept := truthy_remember truthy m
  cases hid : remember applicantId m.type m.payload with
  | none =>
    have posts : handle T applicantId m = [] := by simp [handle, onMessage, h, hid]
    rw [heard, posts]
    rfl
  | some v =>
    have truthy_v := kept v hid
    have posts : handle T applicantId m
        = [(.applicantLoaded, some (.object [(lit "applicantId", v)]))] := by
      simp [handle, onMessage, h, hid, truthy_v]
    have event : eventOf (.applicantLoaded, some (.object [(lit "applicantId", v)]))
        = (str (some v)).map .applicantLoaded := by
      rw [eventOf, Option.getD_some, interpretPayload, get?_head]
      cases v with
      | string s => exact if_neg (by simpa [Value.isTruthy] using truthy_v)
      | _ => rfl
    rw [heard, posts, withoutComplete_cons, event, if_neg (by simp)]
    exact List.append_nil _

theorem heard_statusChanged {applicantId : Option (Value ν)} {m : WebMessage ν}
    (h : sumsubEventName? m.type = some .onApplicantStatusChanged) :
    heard T applicantId m =
      match mapStatus T (field m.payload "reviewStatus") (field m.payload "reviewResult") with
      | .error _ => []
      | .ok status => [.statusChanged status] := by
  cases hs : mapStatus T (field m.payload "reviewStatus") (field m.payload "reviewResult") with
  | error e =>
    have posts : handle T applicantId m = [] := by
      simp [handle, onMessage, h, field_orElse_empty, hs]
    rw [heard, posts]
    rfl
  | ok status =>
    have event : eventOf (.statusChanged, some (.object (statusFields (ν := ν) status)))
        = some (.statusChanged status) :=
      congrArg (Option.map BridgeEvent.statusChanged)
        (identityVerificationStatus?_statusName status)
    obtain ⟨rest, posts, complete⟩ : ∃ rest, handle T applicantId m
        = (.statusChanged, some (.object (statusFields status))) :: rest ∧
          withoutComplete (rest.filterMap eventOf) = [] := by
      by_cases terminal : isTerminal status
      · refine ⟨_, by simp [handle, onMessage, h, field_orElse_empty, hs, terminal]; rfl, ?_⟩
        rw [withoutComplete_cons]
        rfl
      · exact ⟨[], by simp [handle, onMessage, h, field_orElse_empty, hs, terminal], rfl⟩
    rw [heard, posts, withoutComplete_cons, event, complete]
    rfl

theorem heard_error {applicantId : Option (Value ν)} {m : WebMessage ν}
    (h : sumsubEventName? m.type = some .onError) :
    heard T applicantId m = [.error
      ((str (orElse (andField m.payload "code") (some (.string sumsubErrorCode)))).getD
        bridgeErrorCode)
      (str (andField m.payload "reason"))] := by
  have posts : handle T applicantId m = [onError m.payload] := by simp [handle, onMessage, h]
  obtain ⟨code, hcode⟩ := exists_orElse (andField m.payload "code") (.string sumsubErrorCode)
  have event : eventOf (onError m.payload)
      = some (.error ((str (some code)).getD bridgeErrorCode)
        (str (andField m.payload "reason"))) := by
    rw [eventOf, onError, hcode]
    cases andField m.payload "reason" with
    | none => rfl
    | some reason => rfl
  rw [heard, posts, withoutComplete_cons, event, hcode]
  rfl

theorem heard_other {applicantId : Option (Value ν)} {m : WebMessage ν}
    (loaded : sumsubEventName? m.type ≠ some .onApplicantLoaded)
    (changed : sumsubEventName? m.type ≠ some .onApplicantStatusChanged)
    (error : sumsubEventName? m.type ≠ some .onError) :
    heard T applicantId m = translated m := by
  rw [heard, translated, handle, onMessage, interpretSumsubWebMessage]
  cases hm : sumsubEventName? m.type with
  | none => rfl
  | some name =>
    cases name with
    | onApplicantLoaded => exact absurd hm loaded
    | onApplicantStatusChanged => exact absurd hm changed
    | onError => exact absurd hm error
    | _ => rfl

omit [Zero ν] [DecidableEq ν] in
theorem translated_loaded {m : WebMessage ν}
    (h : sumsubEventName? m.type = some .onApplicantLoaded) :
    translated m =
      (((str (field m.payload "applicantId")).filter (· ≠ [])).map
        BridgeEvent.applicantLoaded).toList := by
  rw [translated, interpretSumsubWebMessage]
  simp only [h, get?_asRecord]
  cases str (field m.payload "applicantId") with
  | none => rfl
  | some s => by_cases hs : s = [] <;> simp [hs, Option.filter]

omit [Zero ν] [DecidableEq ν] in
theorem translated_statusChanged {m : WebMessage ν}
    (h : sumsubEventName? m.type = some .onApplicantStatusChanged) :
    translated m = [.statusChanged (mapSumsubStatus
      ((str (field m.payload "reviewStatus")).map .string) (field m.payload "reviewResult"))] := by
  rw [translated, interpretSumsubWebMessage]
  simp only [h, get?_asRecord]
  rfl

omit [Zero ν] [DecidableEq ν] in
theorem translated_error {m : WebMessage ν} (h : sumsubEventName? m.type = some .onError) :
    translated m = [.error ((str (field m.payload "code")).getD sumsubErrorCode)
      ((str (field m.payload "reason")).filter (· ≠ []))] := by
  rw [translated, interpretSumsubWebMessage]
  simp only [h, get?_asRecord]
  rfl

theorem filter_str_of_missing {v : Option (Value ν)} (h : ¬ ∃ w, v = some w ∧ w.isTruthy) :
    (str v).filter (· ≠ []) = none := by
  refine Option.filter_eq_none_iff.mpr fun s hs => ?_
  by_contra nonempty
  exact h ⟨_, str_eq_some_iff.mp hs, by simpa [Value.isTruthy] using nonempty⟩

theorem loaded_iff {applicantId : Option (Value ν)} {m : WebMessage ν}
    (truthy : ∀ v ∈ applicantId, v.isTruthy)
    (h : sumsubEventName? m.type = some .onApplicantLoaded) :
    heard T applicantId m = translated m ↔
      (∃ v, field m.payload "applicantId" = some v ∧ v.isTruthy) ∨ str applicantId = none := by
  rw [heard_loaded truthy h, translated_loaded h, remember, if_pos h, field_orElse_empty]
  by_cases given : ∃ v, field m.payload "applicantId" = some v ∧ v.isTruthy
  · obtain ⟨v, hv, truthy_v⟩ := given
    refine iff_of_true ?_ (Or.inl ⟨v, hv, truthy_v⟩)
    rw [hv, orElse_of_truthy truthy_v]
    cases v with
    | string s =>
      have hs : s ≠ [] := by simpa [Value.isTruthy] using truthy_v
      simp [str, Value.string?, hs, Option.filter]
    | _ => rfl
  · rw [orElse_of_not_truthy fun v hv truthy_v => given ⟨v, hv, truthy_v⟩,
      filter_str_of_missing given,
      or_iff_right given]
    cases str applicantId <;> simp

theorem statusChanged_iff {applicantId : Option (Value ν)} {m : WebMessage ν}
    (h : sumsubEventName? m.type = some .onApplicantStatusChanged) :
    heard T applicantId m = translated m ↔
      Legible T (field m.payload "reviewStatus") (field m.payload "reviewResult") := by
  rw [heard_statusChanged h, translated_statusChanged h, ← mapStatus_eq_iff]
  cases mapStatus T (field m.payload "reviewStatus") (field m.payload "reviewResult") with
  | error e => simp
  | ok status => simp

theorem orElse_andField (v : Option (Value ν)) (name : String) (b : Option (Value ν)) :
    orElse (andField v name) b = orElse (field v name) b := by
  cases v with
  | none => rfl
  | some w =>
    rw [andField]
    split_ifs with truthy
    · rfl
    · have missing : field (some w) name = none := get?_of_not_truthy truthy name
      rw [missing, orElse_of_not_truthy (by simpa using truthy)]
      rfl

theorem code_iff {v : Option (Value ν)} :
    (str (orElse v (some (.string sumsubErrorCode)))).getD bridgeErrorCode
        = (str v).getD sumsubErrorCode ↔
      (∀ w, v = some w → w.isTruthy → ∃ s, w = .string s) ∧ v ≠ some (.string []) := by
  have other : bridgeErrorCode ≠ sumsubErrorCode := by decide
  have code : sumsubErrorCode ≠ [] := by decide
  cases v with
  | none => simp [orElse, str, Value.string?]
  | some w =>
    by_cases truthy : w.isTruthy
    · rw [orElse_of_truthy truthy]
      cases w with
      | string s => simp_all [str, Value.string?, Value.isTruthy]
      | _ => simp_all [str, Value.string?]
    · rw [orElse_of_not_truthy (by simpa using truthy)]
      cases w with
      | string s => simp_all [str, Value.string?, Value.isTruthy]
      | _ => simp_all [str, Value.string?]

omit [Zero ν] [DecidableEq ν] in
theorem str_eq_filter_iff {v : Option (Value ν)} :
    str v = (str v).filter (· ≠ []) ↔ v ≠ some (.string []) := by
  constructor
  · rintro h rfl
    cases h
  · rintro h
    cases hs : str v with
    | none => rfl
    | some s =>
      have nonempty : s ≠ [] := by
        rintro rfl
        exact h (str_eq_some_iff.mp hs)
      simp [Option.filter, nonempty]

theorem message_iff {v : Option (Value ν)} :
    str (andField v "reason") = (str (field v "reason")).filter (· ≠ []) ↔
      v ≠ some (.string []) ∧ field v "reason" ≠ some (.string []) := by
  cases v with
  | none => simp [andField, field, str]
  | some w =>
    rw [andField]
    split_ifs with truthy
    · have nonempty : some w ≠ some (.string []) := by
        rintro h
        obtain rfl := Option.some.inj h
        simp [Value.isTruthy] at truthy
      rw [and_iff_right nonempty]
      exact str_eq_filter_iff
    · have missing : field (some w) "reason" = none := get?_of_not_truthy truthy "reason"
      rw [missing, and_iff_left (by simp)]
      cases w with
      | string s =>
        obtain rfl : s = [] := by simpa [Value.isTruthy] using truthy
        simp [str, Value.string?]
      | _ => simp [str, Value.string?]

theorem error_iff {applicantId : Option (Value ν)} {m : WebMessage ν}
    (h : sumsubEventName? m.type = some .onError) :
    heard T applicantId m = translated m ↔ Plain m.payload := by
  rw [heard_error h, translated_error h, List.singleton_inj, BridgeEvent.error.injEq,
    orElse_andField, code_iff, message_iff]
  constructor
  · rintro ⟨⟨code, code_nonempty⟩, nonempty, reason_nonempty⟩
    exact ⟨nonempty, code, code_nonempty, reason_nonempty⟩
  · rintro ⟨nonempty, code, code_nonempty, reason_nonempty⟩
    exact ⟨⟨code, code_nonempty⟩, nonempty, reason_nonempty⟩

theorem heard_eq_iff {applicantId : Option (Value ν)} (truthy : ∀ v ∈ applicantId, v.isTruthy)
    (m : WebMessage ν) : heard T applicantId m = translated m ↔ Alike T applicantId m := by
  rw [Alike]
  cases hm : sumsubEventName? m.type with
  | none => exact iff_of_true (heard_other (by simp [hm]) (by simp [hm]) (by simp [hm])) trivial
  | some name =>
    cases name with
    | onApplicantLoaded => exact loaded_iff truthy hm
    | onApplicantStatusChanged => exact statusChanged_iff hm
    | onError => exact error_iff hm
    | _ => exact iff_of_true (heard_other (by simp [hm]) (by simp [hm]) (by simp [hm])) trivial

/-- How the readings of a message can differ: the page repeats an applicant, or throws instead
of a status, or says something else of the same type. -/
theorem heard_types {applicantId : Option (Value ν)} (truthy : ∀ v ∈ applicantId, v.isTruthy)
    (m : WebMessage ν) :
    (heard T applicantId m).map BridgeEvent.type = (translated m).map BridgeEvent.type ∨
      (translated m = [] ∧ (heard T applicantId m).map BridgeEvent.type = [.applicantLoaded]) ∨
      (heard T applicantId m = [] ∧ (translated m).map BridgeEvent.type = [.statusChanged]) := by
  by_cases loaded : sumsubEventName? m.type = some .onApplicantLoaded
  · by_cases alike : heard T applicantId m = translated m
    · exact Or.inl (congrArg _ alike)
    · refine Or.inr (Or.inl ?_)
      rw [loaded_iff truthy loaded, not_or] at alike
      obtain ⟨missing, known⟩ := alike
      obtain ⟨s, hs⟩ := Option.ne_none_iff_exists'.mp known
      constructor
      · rw [translated_loaded loaded, filter_str_of_missing missing]
        rfl
      · rw [heard_loaded truthy loaded, remember, if_pos loaded, field_orElse_empty,
          orElse_of_not_truthy fun v hv truthy_v => missing ⟨v, hv, truthy_v⟩, hs]
        rfl
  · by_cases changed : sumsubEventName? m.type = some .onApplicantStatusChanged
    · rw [heard_statusChanged changed, translated_statusChanged changed]
      cases mapStatus T (field m.payload "reviewStatus") (field m.payload "reviewResult") with
      | error e => exact Or.inr (Or.inr ⟨rfl, rfl⟩)
      | ok status => exact Or.inl rfl
    · by_cases error : sumsubEventName? m.type = some .onError
      · rw [heard_error error, translated_error error]
        exact Or.inl rfl
      · rw [heard_other loaded changed error]
        exact Or.inl rfl

end Agreement

section Runs

variable (T : NumberTexts ν)

/-- The events of the posts for some messages, but for `complete`. -/
def heardAll (applicantId : Option (Value ν)) (messages : List (WebMessage ν)) :
    List BridgeEvent :=
  withoutComplete ((handleAll T applicantId messages).filterMap eventOf)

def translatedAll (messages : List (WebMessage ν)) : List BridgeEvent :=
  messages.filterMap fun m => interpretSumsubWebMessage m.type m.payload

theorem heardAll_cons (applicantId : Option (Value ν)) (m : WebMessage ν)
    (messages : List (WebMessage ν)) :
    heardAll T applicantId (m :: messages) =
      heard T applicantId m ++ heardAll T (remember applicantId m.type m.payload) messages := by
  rw [heardAll, handleAll, List.filterMap_append, withoutComplete, List.filter_append]
  rfl

omit [Zero ν] [DecidableEq ν] in
theorem translatedAll_cons (m : WebMessage ν) (messages : List (WebMessage ν)) :
    translatedAll (m :: messages) = translated m ++ translatedAll messages := by
  rw [translatedAll, List.filterMap_cons, translated]
  cases interpretSumsubWebMessage m.type m.payload <;> rfl

def count (type : BridgeEventType) (events : List BridgeEvent) : ℕ :=
  (events.map BridgeEvent.type).count type

theorem count_append (type : BridgeEventType) (events events' : List BridgeEvent) :
    count type (events ++ events') = count type events + count type events' := by
  rw [count, List.map_append, List.count_append]
  rfl

variable {T}

theorem counts_le_step {applicantId : Option (Value ν)} (truthy : ∀ v ∈ applicantId, v.isTruthy)
    (m : WebMessage ν) :
    count .applicantLoaded (translated m) ≤ count .applicantLoaded (heard T applicantId m) ∧
      count .statusChanged (heard T applicantId m) ≤ count .statusChanged (translated m) := by
  unfold count
  rcases heard_types (T := T) truthy m with same | ⟨mute, said⟩ | ⟨mute, said⟩
  · rw [same]
    exact ⟨le_rfl, le_rfl⟩
  · rw [mute, said]
    decide
  · rw [mute, said]
    decide

theorem length_of_counts {applicantId : Option (Value ν)} (truthy : ∀ v ∈ applicantId, v.isTruthy)
    {m : WebMessage ν}
    (loaded : count .applicantLoaded (heard T applicantId m) =
      count .applicantLoaded (translated m))
    (changed : count .statusChanged (heard T applicantId m) = count .statusChanged (translated m)) :
    (heard T applicantId m).length = (translated m).length := by
  unfold count at loaded changed
  rcases heard_types (T := T) truthy m with same | ⟨mute, said⟩ | ⟨mute, said⟩
  · simpa using congrArg List.length same
  · rw [mute, said] at loaded
    exact absurd loaded (by decide)
  · rw [mute, said] at changed
    exact absurd changed (by decide)

theorem counts_le {applicantId : Option (Value ν)} (truthy : ∀ v ∈ applicantId, v.isTruthy)
    (messages : List (WebMessage ν)) :
    count .applicantLoaded (translatedAll messages)
        ≤ count .applicantLoaded (heardAll T applicantId messages) ∧
      count .statusChanged (heardAll T applicantId messages)
        ≤ count .statusChanged (translatedAll messages) := by
  induction messages generalizing applicantId with
  | nil => exact ⟨le_rfl, le_rfl⟩
  | cons m messages ih =>
    obtain ⟨loaded, changed⟩ := ih (truthy_remember truthy m)
    obtain ⟨loaded_m, changed_m⟩ := counts_le_step (T := T) truthy m
    rw [heardAll_cons, translatedAll_cons]
    simp only [count_append]
    omega

/-- A run is heard as it is translated exactly when every message is: repeated applicants and
missing statuses do not make up for each other. -/
theorem heardAll_eq_iff {applicantId : Option (Value ν)} (truthy : ∀ v ∈ applicantId, v.isTruthy)
    (messages : List (WebMessage ν)) :
    heardAll T applicantId messages = translatedAll messages ↔ AllAlike T applicantId messages := by
  induction messages generalizing applicantId with
  | nil => exact iff_of_true rfl trivial
  | cons m messages ih =>
    have kept := truthy_remember truthy m
    rw [heardAll_cons, translatedAll_cons, AllAlike, ← heard_eq_iff truthy, ← ih kept]
    constructor
    · rintro h
      have loaded := congrArg (count .applicantLoaded) h
      have changed := congrArg (count .statusChanged) h
      simp only [count_append] at loaded changed
      obtain ⟨loaded_m, changed_m⟩ := counts_le_step (T := T) truthy m
      obtain ⟨loaded_all, changed_all⟩ := counts_le (T := T) kept messages
      exact List.append_inj h (length_of_counts truthy (by omega) (by omega))
    · rintro ⟨first, rest⟩
      rw [first, rest]

/-- What a host makes of the posts of a page, other than the first status and `complete`, is
what the translator makes of the messages exactly when the page reads them all alike. -/
theorem page_and_translator_agree_iff [One ν] {N : Numerals ν} (one : N.Reads 1)
    {window : PageWindow} (listens : window.reactNative ∨ window.framed)
    {messages : List (WebMessage ν)} (proper : ∀ m ∈ messages, ∀ v ∈ m.payload, v.Proper N) :
    ((hostEvents N window (pagePosts T messages)).tail.filter (·.type ≠ .complete)
        = messages.filterMap fun m => interpretSumsubWebMessage m.type m.payload) ↔
      AllAlike T none messages := by
  have initial : eventOf (.statusChanged, some (.object (statusFields (ν := ν) .incomplete)))
      = some (.statusChanged .incomplete) := rfl
  rw [hostEvents_eq one listens (sendable_pagePosts T proper), pagePosts, List.filterMap_cons,
    initial]
  exact heardAll_eq_iff (by simp) messages

/-- An applicant that loads and submits, heard by a native shell. -/
theorem page_and_translator_agree_submitted :
    let messages : List (WebMessage ℕ) :=
      [⟨lit "idCheck.onApplicantLoaded", some (.object [(lit "applicantId", .string (lit "a-1"))])⟩,
        ⟨lit "idCheck.onApplicantSubmitted", none⟩]
    (hostEvents decimal ⟨true, false⟩ (pagePosts decimalTexts messages)).tail.filter
        (·.type ≠ .complete)
      = messages.filterMap fun m => interpretSumsubWebMessage m.type m.payload := by
  intro messages
  refine (page_and_translator_agree_iff ⟨by decide, by decide⟩ (Or.inl rfl) ?_).mpr
    ⟨Or.inl ⟨_, rfl, rfl⟩, trivial, trivial⟩
  rintro m hm v hv
  rcases List.mem_pair.mp hm with rfl | rfl
  · obtain rfl := Option.some.inj hv
    exact .object (by simp) (by simpa using .string _)
  · cases hv

/-- A code that is no string reaches the host as a fault of the bridge. -/
theorem page_forwards_numeric_code :
    let messages : List (WebMessage ℕ) :=
      [⟨lit "idCheck.onError", some (.object [(lit "code", .number 500)])⟩]
    (hostEvents decimal ⟨false, true⟩ (pagePosts decimalTexts messages)).tail.filter
        (·.type ≠ .complete)
      ≠ messages.filterMap fun m => interpretSumsubWebMessage m.type m.payload := by
  decide +kernel

end Runs

end Kyc.Sumsub
