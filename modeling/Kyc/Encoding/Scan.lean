import Kyc.Json.Value
import Mathlib.Data.List.DropRight

/-! # Scanning texts for delimiters

The part of a text up to the first of some delimiters, and the part after the last one.
-/

namespace Kyc.Encoding

open Json

/-- The text up to the first character of `D`. -/
def upTo (D : List UInt16) (s : Text) : Text := s.takeWhile (· ∉ D)

/-- The text after the last `c`, all of it without one. -/
def afterLast (c : UInt16) (s : Text) : Text := s.rtakeWhile (· ≠ c)

section Scan

variable {D : List UInt16}

theorem exists_split (s : Text) :
    (∀ c ∈ s, c ∉ D) ∨ ∃ a c t, s = a ++ c :: t ∧ (∀ c ∈ a, c ∉ D) ∧ c ∈ D := by
  induction s with
  | nil => exact Or.inl (by simp)
  | cons c s ih =>
    by_cases hc : c ∈ D
    · exact Or.inr ⟨[], c, s, rfl, by simp, hc⟩
    · rcases ih with free | ⟨a, d, t, rfl, free, hd⟩
      · exact Or.inl (List.forall_mem_cons.mpr ⟨hc, free⟩)
      · exact Or.inr ⟨c :: a, d, t, rfl, List.forall_mem_cons.mpr ⟨hc, free⟩, hd⟩

theorem upTo_of_free {s : Text} (h : ∀ c ∈ s, c ∉ D) : upTo D s = s :=
  List.takeWhile_eq_self_iff.mpr fun c hc => decide_eq_true (h c hc)

theorem upTo_append {a t : Text} {c : UInt16} (ha : ∀ d ∈ a, d ∉ D) (hc : c ∈ D) :
    upTo D (a ++ c :: t) = a := by
  have free : ∀ d ∈ a, decide (d ∉ D) = true := fun d hd => decide_eq_true (ha d hd)
  rw [upTo, List.takeWhile_append_of_pos free, List.takeWhile_cons_of_neg (by simpa using hc),
    List.append_nil]

theorem upTo_append_of_ends {a t : Text} (ha : ∀ d ∈ a, d ∉ D) (ht : ∀ c ∈ t.head?, c ∈ D) :
    upTo D (a ++ t) = a := by
  cases t with
  | nil => rw [List.append_nil, upTo_of_free ha]
  | cons c t => exact upTo_append ha (ht c rfl)

theorem exists_append_upTo (D : List UInt16) (s : Text) :
    ∃ t, s = upTo D s ++ t ∧ ∀ c ∈ t.head?, c ∈ D := by
  rcases exists_split s with free | ⟨a, c, t, rfl, free, hc⟩
  · exact ⟨[], by rw [upTo_of_free free, List.append_nil], by simp⟩
  · exact ⟨c :: t, by rw [upTo_append free hc], by simpa using hc⟩

theorem rdropWhile_append {p : UInt16 → Bool} {a : Text} (ha : ∀ c ∈ a, ¬ p c) (t : Text) :
    (a ++ t).rdropWhile p = a ++ t.rdropWhile p := by
  induction t using List.reverseRecOn with
  | nil =>
    rw [List.append_nil, List.rdropWhile_nil, List.append_nil]
    exact List.rdropWhile_eq_self_iff.mpr fun ne => ha _ (List.getLast_mem ne)
  | append_singleton t c ih =>
    rw [← List.append_assoc, List.rdropWhile_concat, List.rdropWhile_concat, ih]
    split_ifs
    · rfl
    · rw [List.append_assoc]

theorem not_mem_of_mem_upTo {s : Text} {c : UInt16} (h : c ∈ upTo D s) : c ∉ D :=
  by simpa using List.mem_takeWhile_imp (p := fun c => decide (c ∉ D)) h

theorem upTo_upTo {D' : List UInt16} (h : D' ⊆ D) (s : Text) : upTo D (upTo D' s) = upTo D s := by
  rw [upTo, upTo, upTo, List.takeWhile_takeWhile]
  congr 1
  ext c
  simp only [decide_eq_true_eq, decide_eq_decide]
  exact ⟨And.left, fun hc => ⟨hc, fun hc' => hc (h hc')⟩⟩

theorem afterLast_of_not_mem {c : UInt16} {s : Text} (h : c ∉ s) : afterLast c s = s :=
  List.rtakeWhile_eq_self_iff.mpr fun _ hd => decide_eq_true (ne_of_mem_of_not_mem hd h)

theorem afterLast_append {c : UInt16} {s t : Text} (h : c ∉ t) :
    afterLast c (s ++ c :: t) = t := by
  have free : ∀ d ∈ t, decide (d ≠ c) = true := fun d hd =>
    decide_eq_true (ne_of_mem_of_not_mem hd h)
  rw [afterLast, List.rtakeWhile, List.reverse_append, List.reverse_cons, List.append_assoc,
    List.singleton_append, List.takeWhile_append_of_pos (by simpa using free),
    List.takeWhile_cons_of_neg (by simp), List.append_nil, List.reverse_reverse]

theorem exists_split_last (c : UInt16) (s : Text) :
    c ∉ s ∨ ∃ a t, s = a ++ c :: t ∧ c ∉ t := by
  by_cases h : c ∈ s
  · obtain ⟨a, t, hs, free⟩ := List.eq_append_cons_of_mem (List.mem_reverse.mpr h)
    refine Or.inr ⟨t.reverse, a.reverse, ?_, by simpa using free⟩
    rw [← List.reverse_reverse s, hs]
    simp
  · exact Or.inl h

end Scan

end Kyc.Encoding
