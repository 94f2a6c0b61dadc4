import Kyc.Sumsub.Page

/-! # How the page reads reviews

The page makes texts of the fields of a review before it looks them up, and the mapping
compares them as they are. Both say the same of a review unless a field has no text, or is an
array that poses as a word.
-/

namespace Kyc.Sumsub

open Json Hosted

variable {ν : Type} [Zero ν] [DecidableEq ν]

theorem field_orElse_empty (v : Option (Value ν)) (name : String) :
    field (orElse v (some (.object []))) name = field v name := by
  cases v with
  | none => rfl
  | some w =>
    rw [orElse]
    split_ifs with truthy
    · rfl
    · exact (get?_of_not_truthy truthy name).symm

variable (T : NumberTexts ν)

/-- The field is no string, but the page reads it as the word. -/
def Poses (v : Option (Value ν)) (word : String) : Prop :=
  str v = none ∧ fieldText T v = .ok (lit word)

/-- Every field of a review has a text, and no field that matters poses as a word. -/
structure Legible (reviewStatus reviewResult : Option (Value ν)) : Prop where
  texts : ∀ v ∈ [reviewStatus, field reviewResult "reviewAnswer",
    field reviewResult "reviewRejectType"], ∃ s, fieldText T v = .ok s
  status : ∀ w ∈ sumsubReviewStatuses, ¬ Poses T reviewStatus w
  answer : isText reviewStatus "completed" → ∀ w ∈ sumsubReviewAnswers,
    ¬ Poses T (field reviewResult "reviewAnswer") w
  rejectType : isText reviewStatus "completed" → isText (field reviewResult "reviewAnswer") "RED" →
    ¬ Poses T (field reviewResult "reviewRejectType") "FINAL"

variable {T}

theorem fieldText_string (s : Text) : fieldText T (some (.string s)) = .ok s := by
  rw [fieldText, orElse]
  split_ifs
  · exact textOf_string T s
  · rename_i h
    obtain rfl : s = [] := by simpa [Value.isTruthy] using h
    exact textOf_string T []

theorem eq_lit_iff {v : Option (Value ν)} {w : String} {s : Text} (hs : fieldText T v = .ok s)
    (h : ¬ Poses T v w) : s = lit w ↔ isText v w := by
  constructor
  · rintro rfl
    cases hv : str v with
    | none => exact absurd ⟨hv, hs⟩ h
    | some t =>
      obtain rfl := str_eq_some_iff.mp hv
      rw [fieldText_string] at hs
      rw [isText_iff, Except.ok.inj hs]
  · rintro word
    obtain rfl := isText_iff.mp word
    rw [fieldText_string] at hs
    exact (Except.ok.inj hs).symm

theorem mapStatus_of_texts {reviewStatus reviewResult : Option (Value ν)} {s a t : Text}
    (hs : fieldText T reviewStatus = .ok s)
    (ha : fieldText T (field reviewResult "reviewAnswer") = .ok a)
    (ht : fieldText T (field reviewResult "reviewRejectType") = .ok t) :
    mapStatus T reviewStatus reviewResult
      = .ok (mapSumsubStatus (some (.string s)) (textReview a t)) := by
  rw [mapStatus, field_orElse_empty, field_orElse_empty, hs, ha, ht]
  exact congrArg Except.ok (lookupStatus_eq s a t)

theorem texts_of_mapStatus {reviewStatus reviewResult : Option (Value ν)}
    {status : VerificationStatus} (h : mapStatus T reviewStatus reviewResult = .ok status) :
    ∃ s a t, fieldText T reviewStatus = .ok s ∧
      fieldText T (field reviewResult "reviewAnswer") = .ok a ∧
      fieldText T (field reviewResult "reviewRejectType") = .ok t := by
  rw [mapStatus, field_orElse_empty, field_orElse_empty] at h
  cases hs : fieldText T reviewStatus with
  | error e => rw [hs] at h; cases h
  | ok s =>
    cases ha : fieldText T (field reviewResult "reviewAnswer") with
    | error e => rw [hs, ha] at h; cases h
    | ok a =>
      cases ht : fieldText T (field reviewResult "reviewRejectType") with
      | error e => rw [hs, ha, ht] at h; cases h
      | ok t => exact ⟨s, a, t, rfl, rfl, rfl⟩

section Texts

variable {reviewStatus reviewResult : Option (Value ν)} {s a t : Text}

theorem completed_of_isText (hs : fieldText T reviewStatus = .ok s)
    (hc : isText reviewStatus "completed") : s = lit "completed" := by
  obtain rfl := isText_iff.mp hc
  rw [fieldText_string] at hs
  exact (Except.ok.inj hs).symm

theorem legible_of_same (hs : fieldText T reviewStatus = .ok s)
    (ha : fieldText T (field reviewResult "reviewAnswer") = .ok a)
    (ht : fieldText T (field reviewResult "reviewRejectType") = .ok t)
    (same : mapSumsubStatus (some (.string s)) (textReview a t)
      = mapSumsubStatus ((str reviewStatus).map .string) reviewResult) :
    Legible T reviewStatus reviewResult where
  texts := by
    simp only [List.mem_cons, List.not_mem_nil, or_false]
    rintro v (rfl | rfl | rfl)
    · exact ⟨s, hs⟩
    · exact ⟨a, ha⟩
    · exact ⟨t, ht⟩
  status := by
    rintro w hw ⟨untyped, posed⟩
    obtain rfl : s = lit w := Except.ok.inj (hs.symm.trans posed)
    have unknown : mapSumsubStatus ((str reviewStatus).map .string) reviewResult = .initial :=
      mapSumsubStatus_of_unknown fun w _ => by rw [isText_map_str, isText_of_str_eq_none untyped]
    exact mapSumsubStatus_string_ne_initial (List.mem_map_of_mem hw) (same.trans unknown)
  answer := by
    rintro hc w hw ⟨untyped, posed⟩
    obtain rfl : a = lit w := Except.ok.inj (ha.symm.trans posed)
    rw [mapSumsubStatus_textReview (completed_of_isText hs hc), mapSumsubStatus_str _ hc,
      isText_of_str_eq_none untyped, isText_of_str_eq_none untyped] at same
    simp only [sumsubReviewAnswers, List.mem_cons, List.not_mem_nil, or_false] at hw
    rcases hw with rfl | rfl
    · simp at same
    · rw [if_neg (by decide), if_pos rfl] at same
      split_ifs at same
  rejectType := by
    rintro hc red ⟨untyped, posed⟩
    obtain rfl : t = lit "FINAL" := Except.ok.inj (ht.symm.trans posed)
    have hred := isText_iff.mp red
    rw [hred, fieldText_string] at ha
    obtain rfl : lit "RED" = a := Except.ok.inj ha
    rw [mapSumsubStatus_textReview (completed_of_isText hs hc), mapSumsubStatus_str _ hc, hred,
      isText_of_str_eq_none untyped, if_neg (by decide), if_pos rfl, if_pos rfl, isText_string,
      isText_string] at same
    revert same
    decide

theorem same_of_legible (h : Legible T reviewStatus reviewResult)
    (hs : fieldText T reviewStatus = .ok s)
    (ha : fieldText T (field reviewResult "reviewAnswer") = .ok a)
    (ht : fieldText T (field reviewResult "reviewRejectType") = .ok t) :
    mapSumsubStatus (some (.string s)) (textReview a t)
      = mapSumsubStatus ((str reviewStatus).map .string) reviewResult := by
  have status {w : String} (hw : w ∈ sumsubReviewStatuses) : s = lit w ↔ isText reviewStatus w :=
    eq_lit_iff hs (h.status w hw)
  refine mapSumsubStatus_congr (fun w hw => ?_) (fun completed w hw => ?_) fun completed red => ?_
  · rw [isText_string, isText_map_str, Bool.eq_iff_iff, decide_eq_true_iff]
    exact status hw
  · rw [isText_string, decide_eq_true_iff, status (by decide)] at completed
    rw [isText_answer_textReview, Bool.eq_iff_iff, decide_eq_true_iff]
    exact eq_lit_iff ha (h.answer completed w hw)
  · rw [isText_string, decide_eq_true_iff, status (by decide)] at completed
    rw [isText_answer_textReview, decide_eq_true_iff,
      eq_lit_iff ha (h.answer completed "RED" (by decide))] at red
    rw [isText_rejectType_textReview, Bool.eq_iff_iff, decide_eq_true_iff]
    exact eq_lit_iff ht (h.rejectType completed red)

end Texts

theorem mapStatus_eq_iff {reviewStatus reviewResult : Option (Value ν)} :
    mapStatus T reviewStatus reviewResult
        = .ok (mapSumsubStatus ((str reviewStatus).map .string) reviewResult) ↔
      Legible T reviewStatus reviewResult := by
  constructor
  · rintro h
    obtain ⟨s, a, t, hs, ha, ht⟩ := texts_of_mapStatus h
    rw [mapStatus_of_texts hs ha ht] at h
    exact legible_of_same hs ha ht (Except.ok.inj h)
  · rintro h
    obtain ⟨s, hs⟩ := h.texts reviewStatus (by simp)
    obtain ⟨a, ha⟩ := h.texts (field reviewResult "reviewAnswer") (by simp)
    obtain ⟨t, ht⟩ := h.texts (field reviewResult "reviewRejectType") (by simp)
    rw [mapStatus_of_texts hs ha ht, same_of_legible h hs ha ht]

end Kyc.Sumsub
