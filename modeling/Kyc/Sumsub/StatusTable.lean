import Kyc.Sumsub.PageReviews

/-! # The status table and its two readers

`lookupSumsubStatus` and the page's script read one table by the same fallbacks. On the
fields of a typed review, each a string or absent, both say what the mapping says.
-/

namespace Kyc.Sumsub

open Json Hosted

variable {ν : Type}

structure SumsubReviewResult where
  reviewAnswer : Option Text
  reviewRejectType : Option Text
  deriving DecidableEq

def optionalField (name : String) (s : Option Text) : List (Text × Value ν) :=
  (s.map fun s => (lit name, .string s)).toList

def SumsubReviewResult.toValue (r : SumsubReviewResult) : Value ν :=
  .object (optionalField "reviewAnswer" r.reviewAnswer ++
    optionalField "reviewRejectType" r.reviewRejectType)

/-- `table[key]`: an entry, what an object inherits under the name, or nothing. -/
def entryAt (table : List (Text × VerificationStatus)) (key : Text) : EventStatus :=
  match table.find? fun row => row.1 = key with
  | some row => .status row.2
  | none => if inherits key then .inherited key else .null

/-- `a ?? b`. -/
def EventStatus.orElse : EventStatus → EventStatus → EventStatus
  | .null, b => b
  | a, _ => a

/-- The fallback chain of the server, over a table and the fields of a review. -/
def lookupSumsubStatus (table : List (Text × VerificationStatus)) (reviewStatus : Option Text)
    (reviewResult : Option SumsubReviewResult) : EventStatus :=
  let status := reviewStatus.getD []
  let answer := (reviewResult.bind (·.reviewAnswer)).getD []
  let rejectType := (reviewResult.bind (·.reviewRejectType)).getD []
  (entryAt table (sumsubStatusKey status answer rejectType)).orElse
    ((entryAt table (sumsubStatusKey status answer [])).orElse
      ((entryAt table (sumsubStatusKey status [] [])).orElse (.status sumsubStatusFallback)))

theorem not_inherits_sumsubStatusKey (s a t : Text) :
    inherits (sumsubStatusKey s a t) = false := by
  have plain : ∀ name ∈ objectPrototype.map lit, unit '|' ∉ name := by decide
  apply decide_eq_false
  intro h
  exact plain _ h (by simp [sumsubStatusKey])

theorem entryAt_sumsubStatusKey (s a t : Text) :
    entryAt buildSumsubStatusTable (sumsubStatusKey s a t) =
      ((statusAt (sumsubStatusKey s a t)).map .status).getD .null := by
  rw [entryAt, statusAt, not_inherits_sumsubStatusKey]
  cases buildSumsubStatusTable.find? fun row => row.1 = sumsubStatusKey s a t <;> rfl

theorem lookupSumsubStatus_eq_lookupStatus (reviewStatus : Option Text)
    (reviewResult : Option SumsubReviewResult) :
    lookupSumsubStatus buildSumsubStatusTable reviewStatus reviewResult =
      .status (lookupStatus (reviewStatus.getD []) ((reviewResult.bind (·.reviewAnswer)).getD [])
        ((reviewResult.bind (·.reviewRejectType)).getD [])) := by
  unfold lookupSumsubStatus lookupStatus
  simp only [entryAt_sumsubStatusKey]
  generalize statusAt (sumsubStatusKey _ ((reviewResult.bind _).getD [])
    ((reviewResult.bind _).getD [])) = first
  generalize statusAt (sumsubStatusKey _ ((reviewResult.bind _).getD []) []) = second
  generalize statusAt (sumsubStatusKey _ [] []) = third
  cases first <;> cases second <;> cases third <;> rfl

theorem field_toValue (reviewResult : Option SumsubReviewResult) :
    field (reviewResult.map SumsubReviewResult.toValue : Option (Value ν)) "reviewAnswer" =
        (reviewResult.bind (·.reviewAnswer)).map .string ∧
      field (reviewResult.map SumsubReviewResult.toValue : Option (Value ν)) "reviewRejectType" =
        (reviewResult.bind (·.reviewRejectType)).map .string := by
  obtain _ | ⟨_ | answer, _ | rejectType⟩ := reviewResult <;> exact ⟨rfl, rfl⟩

variable [Zero ν] [DecidableEq ν] (T : NumberTexts ν)

theorem fieldText_map_string (s : Option Text) : fieldText T (s.map .string) = .ok (s.getD []) := by
  cases s with
  | none => exact textOf_string T []
  | some s => exact fieldText_string s

theorem not_poses_map_string (s : Option Text) {w : String} (hw : lit w ≠ []) :
    ¬ Poses T (s.map .string) w := by
  rintro ⟨untyped, posed⟩
  rw [fieldText_map_string] at posed
  cases s with
  | none => exact hw (Except.ok.inj posed).symm
  | some s => cases untyped

theorem legible_typed (reviewStatus : Option Text) (reviewResult : Option SumsubReviewResult) :
    Legible T (reviewStatus.map .string) (reviewResult.map SumsubReviewResult.toValue) := by
  obtain ⟨answer, rejectType⟩ := field_toValue (ν := ν) reviewResult
  have nonempty : ∀ w ∈ sumsubReviewStatuses ++ sumsubReviewAnswers ++ ["FINAL"], lit w ≠ [] := by
    decide
  constructor
  case texts =>
    rw [answer, rejectType]
    simp only [List.mem_cons, List.not_mem_nil, or_false]
    rintro v (rfl | rfl | rfl) <;> exact ⟨_, fieldText_map_string T _⟩
  case status =>
    intro w hw
    exact not_poses_map_string T _ (nonempty w (by simp [hw]))
  case answer =>
    rintro - w hw
    rw [answer]
    exact not_poses_map_string T _ (nonempty w (by simp [hw]))
  case rejectType =>
    rintro - -
    rw [rejectType]
    exact not_poses_map_string T _ (nonempty "FINAL" (by simp))

/-- The server's lookup and the page's script both say what the mapping says, of every typed
review. -/
theorem status_table_is_the_mapping (reviewStatus : Option Text)
    (reviewResult : Option SumsubReviewResult) :
    lookupSumsubStatus buildSumsubStatusTable reviewStatus reviewResult =
        .status (mapSumsubStatus (reviewStatus.map .string)
          (reviewResult.map SumsubReviewResult.toValue : Option (Value ν))) ∧
      mapStatus T (reviewStatus.map .string) (reviewResult.map SumsubReviewResult.toValue) =
        .ok (mapSumsubStatus (reviewStatus.map .string)
          (reviewResult.map SumsubReviewResult.toValue : Option (Value ν))) := by
  have page := mapStatus_eq_iff.mpr (legible_typed T reviewStatus reviewResult)
  have typed : (str (reviewStatus.map .string : Option (Value ν))).map .string =
      (reviewStatus.map .string : Option (Value ν)) := by cases reviewStatus <;> rfl
  rw [typed] at page
  obtain ⟨answer, rejectType⟩ := field_toValue (ν := ν) reviewResult
  have chain := mapStatus_of_texts (fieldText_map_string T reviewStatus)
    (answer ▸ fieldText_map_string T (reviewResult.bind (·.reviewAnswer)))
    (rejectType ▸ fieldText_map_string T (reviewResult.bind (·.reviewRejectType)))
  rw [← lookupStatus_eq] at chain
  have same := Except.ok.inj (chain.symm.trans page)
  exact ⟨by rw [lookupSumsubStatus_eq_lookupStatus, same], page⟩

end Kyc.Sumsub
