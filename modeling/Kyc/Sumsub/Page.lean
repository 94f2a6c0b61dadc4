import Kyc.Encoding.Scan
import Kyc.Sumsub.Mapping

/-! # The hosted page of Sumsub

The script of the page that wraps the web SDK: it looks statuses up in a table generated from
the mapping, remembers the applicant, and posts over the bridge. The table says what the
mapping says, of whatever texts.
-/

namespace Kyc.Sumsub

open Json Hosted Encoding

/-- `SUMSUB_REVIEW_STATUSES`. -/
def sumsubReviewStatuses : List String :=
  ["init", "pending", "prechecked", "queued", "completed", "onHold"]

/-- `SUMSUB_REVIEW_ANSWERS`. -/
def sumsubReviewAnswers : List String := ["GREEN", "RED"]

/-- `SUMSUB_REJECT_TYPES`. -/
def sumsubRejectTypes : List String := ["FINAL", "RETRY"]

def sumsubStatusKey (reviewStatus reviewAnswer reviewRejectType : Text) : Text :=
  reviewStatus ++ unit '|' :: (reviewAnswer ++ unit '|' :: reviewRejectType)

variable {ν : Type}

def rowResult (reviewAnswer reviewRejectType : Text) : Option (Value ν) :=
  if reviewAnswer = [] then none
  else some (.object ((lit "reviewAnswer", .string reviewAnswer) ::
    if reviewRejectType = [] then [] else [(lit "reviewRejectType", .string reviewRejectType)]))

/-- Every documented combination, an empty text for a field that is absent. -/
def sumsubVocabulary : List (Text × Text × Text) :=
  (sumsubReviewStatuses.map lit).product
    (([] :: sumsubReviewAnswers.map lit).product ([] :: sumsubRejectTypes.map lit))

def buildSumsubStatusTable : List (Text × VerificationStatus) :=
  sumsubVocabulary.map fun (reviewStatus, reviewAnswer, reviewRejectType) =>
    (sumsubStatusKey reviewStatus reviewAnswer reviewRejectType,
      mapSumsubStatus (some (.string reviewStatus))
        (rowResult reviewAnswer reviewRejectType : Option (Value ℕ)))

/-- `SUMSUB_STATUS_FALLBACK`. -/
def sumsubStatusFallback : VerificationStatus := .initial

/-- `STATUS_TABLE[key]`: no name that an object inherits is a key. -/
def statusAt (key : Text) : Option VerificationStatus :=
  (buildSumsubStatusTable.find? (·.1 = key)).map (·.2)

/-- The fallback chain: without the reject type, then without the answer. -/
def lookupStatus (status answer rejectType : Text) : VerificationStatus :=
  (statusAt (sumsubStatusKey status answer rejectType) <|>
    statusAt (sumsubStatusKey status answer []) <|>
    statusAt (sumsubStatusKey status [] [])).getD sumsubStatusFallback

section Page

variable [Zero ν] [DecidableEq ν] (T : NumberTexts ν)

/-- `v || ''`, where a text is needed. -/
def fieldText (v : Option (Value ν)) : Except Thrown Text :=
  textOf T (orElse v (some (.string [])))

/-- `mapStatus` of the page. -/
def mapStatus (reviewStatus reviewResult : Option (Value ν)) :
    Except Thrown VerificationStatus := do
  let r := orElse reviewResult (some (.object []))
  let s ← fieldText T reviewStatus
  let a ← fieldText T (field r "reviewAnswer")
  let t ← fieldText T (field r "reviewRejectType")
  return lookupStatus s a t

/-- `TERMINAL`. -/
def isTerminal : VerificationStatus → Bool
  | .approved => true
  | .finallyRejected => true
  | _ => false

/-- A call of `post`. -/
abbrev Posted (ν : Type) := BridgeEventType × Option (Value ν)

def statusFields (status : VerificationStatus) : List (Text × Value ν) :=
  [(lit "status", .string (lit (statusName status)))]

/-- The applicant that the page remembers after a message; `none` is `null`. -/
def remember (applicantId : Option (Value ν)) (type : Text) (payload : Option (Value ν)) :
    Option (Value ν) :=
  if sumsubEventName? type = some .onApplicantLoaded then
    orElse (field (orElse payload (some (.object []))) "applicantId") applicantId
  else applicantId

/-- The posts of `onMessage`, with the applicant as remembered after the message; a status
that throws posts nothing. -/
def onMessage (applicantId : Option (Value ν)) (type : Text) (payload : Option (Value ν)) :
    List (Posted ν) :=
  let payload := orElse payload (some (.object []))
  let applicant := (applicantId.filter Value.isTruthy).toList.map ((lit "applicantId", ·))
  match sumsubEventName? type with
  | some .onApplicantLoaded =>
    if applicant = [] then [] else [(.applicantLoaded, some (.object applicant))]
  | some .onApplicantSubmitted => [(.submitted, none)]
  | some .onApplicantResubmitted => [(.submitted, none)]
  | some .onApplicantStatusChanged =>
    match mapStatus T (field payload "reviewStatus") (field payload "reviewResult") with
    | .error _ => []
    | .ok status =>
      (.statusChanged, some (.object (statusFields status))) ::
        if isTerminal status then [(.complete, some (.object (statusFields status ++ applicant)))]
        else []
  | some .onError => []
  | none => []

/-- The post of the handler of `idCheck.onError`. -/
def onError (error : Option (Value ν)) : Posted ν :=
  (.error, (orElse (andField error "code") (some (.string sumsubErrorCode))).map fun code =>
    .object ((lit "code", code) ::
      (andField error "reason").toList.map ((lit "message", ·))))

structure WebMessage (ν : Type) where
  type : Text
  payload : Option (Value ν)

/-- What the page posts for a message, which the SDK hands to every handler of its type. -/
def handle (applicantId : Option (Value ν)) (m : WebMessage ν) : List (Posted ν) :=
  onMessage T (remember applicantId m.type m.payload) m.type m.payload ++
    if sumsubEventName? m.type = some .onError then [onError m.payload] else []

def handleAll (applicantId : Option (Value ν)) : List (WebMessage ν) → List (Posted ν)
  | [] => []
  | m :: messages =>
    handle T applicantId m ++ handleAll (remember applicantId m.type m.payload) messages

def pagePosts (messages : List (WebMessage ν)) : List (Posted ν) :=
  (.statusChanged, some (.object (statusFields .incomplete))) :: handleAll T none messages

def hostEvents [One ν] (N : Numerals ν) (window : PageWindow) (posts : List (Posted ν)) :
    List BridgeEvent :=
  posts.filterMap fun p => (post N window p.1 p.2).bind (interpretBridgeMessage N)

end Page

/-! ## The table and the mapping -/

theorem mem_sumsubVocabulary {s a t : Text} :
    (s, a, t) ∈ sumsubVocabulary ↔ s ∈ sumsubReviewStatuses.map lit ∧
      a ∈ [] :: sumsubReviewAnswers.map lit ∧ t ∈ [] :: sumsubRejectTypes.map lit := by
  rw [sumsubVocabulary, List.pair_mem_product, List.pair_mem_product]

theorem count_sumsubStatusKey (s a t : Text) :
    (sumsubStatusKey s a t).count (unit '|')
      = s.count (unit '|') + a.count (unit '|') + t.count (unit '|') + 2 := by
  simp only [sumsubStatusKey, List.count_append, List.count_cons_self]
  omega

theorem split_at_bar {s s' t t' : Text} (hs : unit '|' ∉ s) (hs' : unit '|' ∉ s')
    (h : s ++ unit '|' :: t = s' ++ unit '|' :: t') : s = s' ∧ t = t' := by
  have free {a : Text} (ha : unit '|' ∉ a) : ∀ c ∈ a, c ∉ [unit '|'] := by
    rintro c hc bar
    exact ha (List.mem_singleton.mp bar ▸ hc)
  have first := congrArg (upTo [unit '|']) h
  rw [upTo_append (free hs) (by simp), upTo_append (free hs') (by simp)] at first
  obtain rfl := first
  exact ⟨rfl, List.tail_eq_of_cons_eq (List.append_cancel_left h)⟩

theorem sumsubStatusKey_inj {s a t s' a' t' : Text} (h' : (s', a', t') ∈ sumsubVocabulary)
    (h : sumsubStatusKey s' a' t' = sumsubStatusKey s a t) : (s', a', t') = (s, a, t) := by
  have plain : ∀ w ∈ sumsubReviewStatuses.map lit ++ ([] :: sumsubReviewAnswers.map lit) ++
      ([] :: sumsubRejectTypes.map lit), w.count (unit '|') = 0 := by decide
  obtain ⟨hs, ha, ht⟩ := mem_sumsubVocabulary.mp h'
  have hs := plain s' (List.mem_append_left _ (List.mem_append_left _ hs))
  have ha := plain a' (List.mem_append_left _ (List.mem_append_right _ ha))
  have ht := plain t' (List.mem_append_right _ ht)
  have bars := congrArg (List.count (unit '|')) h
  rw [count_sumsubStatusKey, count_sumsubStatusKey] at bars
  have none_in {w : Text} (hw : w.count (unit '|') = 0) : unit '|' ∉ w := List.count_eq_zero.mp hw
  obtain ⟨rfl, rest⟩ := split_at_bar (none_in hs) (none_in (by omega)) h
  obtain ⟨rfl, rfl⟩ := split_at_bar (none_in ha) (none_in (by omega)) rest
  rfl

/-- A row of the table is found under its own key alone. -/
theorem statusAt_sumsubStatusKey (s a t : Text) :
    statusAt (sumsubStatusKey s a t) =
      if (s, a, t) ∈ sumsubVocabulary then
        some (mapSumsubStatus (some (.string s)) (rowResult a t : Option (Value ℕ)))
      else none := by
  rw [statusAt, buildSumsubStatusTable, List.find?_map, Option.map_map]
  cases found : sumsubVocabulary.find? ((fun row : Text × VerificationStatus =>
      decide (row.1 = sumsubStatusKey s a t)) ∘
        fun (reviewStatus, reviewAnswer, reviewRejectType) =>
        (sumsubStatusKey reviewStatus reviewAnswer reviewRejectType,
          mapSumsubStatus (some (.string reviewStatus))
            (rowResult reviewAnswer reviewRejectType : Option (Value ℕ)))) with
  | none =>
    rw [if_neg]
    · rfl
    · rintro mem
      have := List.find?_eq_none.mp found _ mem
      simp at this
  | some row =>
    obtain ⟨s', a', t'⟩ := row
    have key := List.find?_some found
    have mem := List.mem_of_find?_eq_some found
    simp only [Function.comp_apply, decide_eq_true_eq] at key
    obtain ⟨rfl, rfl, rfl⟩ : s' = s ∧ a' = a ∧ t' = t := by
      simpa using sumsubStatusKey_inj mem key
    rw [if_pos mem]
    rfl

theorem mapSumsubStatus_congr {μ : Type} {s r : Option (Value ν)} {s' r' : Option (Value μ)}
    (status : ∀ w ∈ sumsubReviewStatuses, isText s w = isText s' w)
    (answer : isText s "completed" → ∀ w ∈ sumsubReviewAnswers,
      isText (field r "reviewAnswer") w = isText (field r' "reviewAnswer") w)
    (rejectType : isText s "completed" → isText (field r "reviewAnswer") "RED" →
      isText (field r "reviewRejectType") "FINAL" = isText (field r' "reviewRejectType") "FINAL") :
    mapSumsubStatus s r = mapSumsubStatus s' r' := by
  have word {w : String} (hw : w ∈ sumsubReviewStatuses) : isText s w = isText s' w := status w hw
  unfold mapSumsubStatus
  rw [← word (by decide), ← word (by decide), ← word (by decide), ← word (by decide),
    ← word (by decide), ← word (by decide)]
  by_cases completed : isText s "completed"
  · have green := answer completed "GREEN" (by decide)
    have red := answer completed "RED" (by decide)
    rw [if_pos completed, if_pos completed, ← green, ← red]
    by_cases isRed : isText (field r "reviewAnswer") "RED"
    · rw [rejectType completed isRed]
    · rw [if_neg isRed, if_neg isRed]
  · rw [if_neg completed, if_neg completed]

theorem isText_string {s : Text} {w : String} :
    isText (some (.string s) : Option (Value ν)) w = decide (s = lit w) := by
  simp [isText, str, Value.string?]

theorem mapSumsubStatus_of_unknown {s r : Option (Value ν)}
    (h : ∀ w ∈ sumsubReviewStatuses, isText s w = false) : mapSumsubStatus s r = .initial := by
  have unknown {w : String} (hw : w ∈ sumsubReviewStatuses) : ¬ isText s w := by simp [h w hw]
  rw [mapSumsubStatus, if_neg (unknown (by decide)), if_neg, if_neg (unknown (by decide))]
  rintro (h | h | h | h)
  all_goals exact absurd h (unknown (by decide))

theorem mapSumsubStatus_of_completed {s r : Option (Value ν)}
    (h : isText s "completed") :
    mapSumsubStatus s r =
      if isText (field r "reviewAnswer") "GREEN" then .approved
      else if isText (field r "reviewAnswer") "RED" then
        if isText (field r "reviewRejectType") "FINAL" then .finallyRejected else .declined
      else .pending := if_pos h

theorem mapSumsubStatus_string_ne_initial {s : Text} {r : Option (Value ν)}
    (h : s ∈ sumsubReviewStatuses.map lit) :
    mapSumsubStatus (some (.string s)) r ≠ .initial := by
  obtain ⟨w, hw, rfl⟩ := List.mem_map.mp h
  simp only [sumsubReviewStatuses, List.mem_cons, List.not_mem_nil, or_false] at hw
  unfold mapSumsubStatus
  simp only [isText_string]
  rcases hw with rfl | rfl | rfl | rfl | rfl | rfl <;> split_ifs <;> simp_all

theorem mapSumsubStatus_str {reviewStatus : Option (Value ν)} (reviewResult : Option (Value ν))
    (hc : isText reviewStatus "completed") :
    mapSumsubStatus ((str reviewStatus).map .string) reviewResult =
      if isText (field reviewResult "reviewAnswer") "GREEN" then .approved
      else if isText (field reviewResult "reviewAnswer") "RED" then
        if isText (field reviewResult "reviewRejectType") "FINAL" then .finallyRejected
        else .declined
      else .pending :=
  mapSumsubStatus_of_completed (by rwa [isText_map_str])

def textReview (answer rejectType : Text) : Option (Value ℕ) :=
  some (.object
    [(lit "reviewAnswer", .string answer), (lit "reviewRejectType", .string rejectType)])

theorem isText_answer_textReview (a t : Text) (w : String) :
    isText (field (textReview a t) "reviewAnswer") w = decide (a = lit w) := isText_string

theorem isText_rejectType_textReview (a t : Text) (w : String) :
    isText (field (textReview a t) "reviewRejectType") w = decide (t = lit w) := isText_string

theorem mapSumsubStatus_textReview {s : Text} (hs : s = lit "completed") (a t : Text) :
    mapSumsubStatus (some (.string s)) (textReview a t) =
      if a = lit "GREEN" then .approved
      else if a = lit "RED" then if t = lit "FINAL" then .finallyRejected else .declined
      else .pending := by
  rw [mapSumsubStatus_of_completed (by rw [isText_string, decide_eq_true hs]),
    isText_answer_textReview, isText_answer_textReview, isText_rejectType_textReview]
  simp only [decide_eq_true_eq]

theorem isText_answer_rowResult {a t : Text} {w : String} (hw : w ∈ sumsubReviewAnswers) :
    isText (field (rowResult a t : Option (Value ℕ)) "reviewAnswer") w = decide (a = lit w) := by
  have nonempty : ∀ w ∈ sumsubReviewAnswers, [] ≠ lit w := by decide
  by_cases ha : a = []
  · rw [rowResult, if_pos ha, ha, decide_eq_false (nonempty w hw)]
    rfl
  · rw [rowResult, if_neg ha]
    exact isText_string

theorem isText_rejectType_rowResult {a t : Text} (ha : a ≠ []) :
    isText (field (rowResult a t : Option (Value ℕ)) "reviewRejectType") "FINAL"
      = decide (t = lit "FINAL") := by
  rw [rowResult, if_neg ha]
  by_cases ht : t = []
  · subst ht
    rfl
  · rw [if_neg ht]
    exact isText_string

/-- The table with its fallbacks is the mapping, on all texts. -/
theorem lookupStatus_eq (s a t : Text) :
    lookupStatus s a t = mapSumsubStatus (some (.string s)) (textReview a t) := by
  have nonempty : ∀ w ∈ sumsubReviewAnswers, [] ≠ lit w := by decide
  have row {a' t' : Text} (ha : ∀ w ∈ sumsubReviewAnswers, a' = lit w ↔ a = lit w)
      (ht : t' = lit "FINAL" ↔ t = lit "FINAL") :
      mapSumsubStatus (some (.string s)) (rowResult a' t' : Option (Value ℕ))
        = mapSumsubStatus (some (.string s)) (textReview a t) := by
    refine mapSumsubStatus_congr (fun _ _ => rfl) (fun _ w hw => ?_) fun _ red => ?_
    · rw [isText_answer_rowResult hw, isText_answer_textReview, decide_eq_decide.mpr (ha w hw)]
    · rw [isText_answer_rowResult (by decide), decide_eq_true_iff] at red
      rw [isText_rejectType_rowResult (by rw [red]; decide), isText_rejectType_textReview,
        decide_eq_decide.mpr ht]
  by_cases hs : s ∈ sumsubReviewStatuses.map lit
  · rw [lookupStatus, statusAt_sumsubStatusKey, statusAt_sumsubStatusKey, statusAt_sumsubStatusKey]
    have bare : (s, [], []) ∈ sumsubVocabulary := mem_sumsubVocabulary.mpr ⟨hs, by simp, by simp⟩
    rw [if_pos bare]
    by_cases ha : a ∈ [] :: sumsubReviewAnswers.map lit
    · have answered : (s, a, []) ∈ sumsubVocabulary := mem_sumsubVocabulary.mpr ⟨hs, ha, by simp⟩
      rw [if_pos answered]
      by_cases ht : t ∈ [] :: sumsubRejectTypes.map lit
      · rw [if_pos (mem_sumsubVocabulary.mpr ⟨hs, ha, ht⟩)]
        exact row (fun _ _ => Iff.rfl) Iff.rfl
      · rw [if_neg fun mem => ht (mem_sumsubVocabulary.mp mem).2.2]
        refine row (fun _ _ => Iff.rfl) (iff_of_false (by decide) ?_)
        rintro rfl
        exact ht (by decide)
    · rw [if_neg fun mem => ha (mem_sumsubVocabulary.mp mem).2.1,
        if_neg fun mem => ha (mem_sumsubVocabulary.mp mem).2.1]
      change mapSumsubStatus (some (.string s)) (rowResult [] t : Option (Value ℕ)) = _
      refine row (fun w hw => iff_of_false (nonempty w hw) ?_) Iff.rfl
      rintro rfl
      exact ha (List.mem_cons_of_mem _ (List.mem_map_of_mem hw))
  · have missing (a t : Text) : statusAt (sumsubStatusKey s a t) = none := by
      rw [statusAt_sumsubStatusKey, if_neg fun mem => hs (mem_sumsubVocabulary.mp mem).1]
    rw [lookupStatus, missing, missing, missing, mapSumsubStatus_of_unknown]
    · rfl
    · rintro w hw
      rw [isText_string, decide_eq_false]
      rintro rfl
      exact hs (List.mem_map_of_mem hw)

end Kyc.Sumsub
