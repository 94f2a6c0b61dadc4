import Mathlib.Data.List.Nodup
import Mathlib.Data.List.ReduceOption

/-! # Deleting rows while iterating over them

The entries of a map in the order in which they came. A deleted entry leaves a hole, and a
loop goes over the positions, so that a loop which deletes rows still comes to all others.
-/

namespace Kyc.Iteration

variable {κ ρ : Type}

abbrev rows (entries : List (Option ρ)) : List ρ := entries.reduceOption

theorem rows_some (r : ρ) (entries : List (Option ρ)) :
    rows (some r :: entries) = r :: rows entries :=
  List.reduceOption_cons_of_some r entries

/-- A body of a loop, which stops it with `none`. -/
abbrev Body (ρ : Type) := ρ → List (Option ρ) → Option (List (Option ρ))

def visit (body : Body ρ) : List ℕ → List (Option ρ) → List (Option ρ)
  | [], entries => entries
  | i :: positions, entries =>
    match entries[i]? with
    | some (some r) =>
      match body r entries with
      | some entries' => visit body positions entries'
      | none => entries
    | _ => visit body positions entries

/-- A loop over a map, for a body that adds no entry. -/
def forOf (body : Body ρ) (entries : List (Option ρ)) : List (Option ρ) :=
  visit body (List.range entries.length) entries

variable (key : ρ → κ) [DecidableEq κ]

def delete (k : κ) (entries : List (Option ρ)) : List (Option ρ) :=
  entries.map fun entry => entry.filter fun r => key r ≠ k

def deleteIf (p : ρ → Bool) : Body ρ := fun r entries =>
  some (if p r then delete key (key r) entries else entries)

/-- Delete rows until there are fewer than `max`. -/
def deleteDownTo (max : ℕ) : Body ρ := fun r entries =>
  if (rows entries).length < max then none else some (delete key (key r) entries)

section Loops

variable {key} {visited rest : List (Option ρ)} {r : ρ}

theorem delete_eq_self {k : κ} {entries : List (Option ρ)} (h : ∀ s ∈ rows entries, key s ≠ k) :
    delete key k entries = entries := by
  apply (List.map_congr_left fun entry hmem => ?_).trans entries.map_id
  cases entry with
  | none => rfl
  | some s =>
    have other : key s ≠ k := h s (List.reduceOption_mem_iff.mpr hmem)
    exact Option.filter_some_pos (decide_eq_true other)

theorem delete_at (h : ((rows (visited ++ some r :: rest)).map key).Nodup) :
    delete key (key r) (visited ++ some r :: rest) = visited ++ none :: rest := by
  rw [rows, List.reduceOption_append, List.reduceOption_cons_of_some, List.map_append,
    List.map_cons, List.nodup_middle] at h
  obtain ⟨other, -⟩ := List.nodup_cons.mp h
  have before : ∀ s ∈ rows visited, key s ≠ key r := fun s hs heq =>
    other (List.mem_append_left _ (heq ▸ List.mem_map_of_mem hs))
  have behind : ∀ s ∈ rows rest, key s ≠ key r := fun s hs heq =>
    other (List.mem_append_right _ (heq ▸ List.mem_map_of_mem hs))
  have self : (some r).filter (fun s => key s ≠ key r) = none := by simp
  rw [delete, List.map_append, List.map_cons, ← delete, ← delete, delete_eq_self before,
    delete_eq_self behind, self]

omit [DecidableEq κ] in
theorem nodup_hole (h : ((rows (visited ++ some r :: rest)).map key).Nodup) :
    ((rows (visited ++ none :: rest)).map key).Nodup := by
  rw [rows, List.reduceOption_append, List.reduceOption_cons_of_some] at h
  rw [rows, List.reduceOption_append, List.reduceOption_cons_of_none]
  exact h.sublist ((List.Sublist.append_left (List.sublist_cons_self r _) _).map key)

omit [DecidableEq κ] in
theorem rows_hole (visited rest : List (Option ρ)) :
    rows (visited ++ none :: rest) = rows visited ++ rows rest := by
  rw [rows, List.reduceOption_append, List.reduceOption_cons_of_none]

omit [DecidableEq κ] in
theorem rows_middle (visited rest : List (Option ρ)) (r : ρ) :
    rows (visited ++ some r :: rest) = rows visited ++ r :: rows rest := by
  rw [rows, List.reduceOption_append, List.reduceOption_cons_of_some]

omit [DecidableEq κ] in
theorem visit_none (body : Body ρ) (visited rest : List (Option ρ)) :
    visit body (List.range' visited.length (rest.length + 1)) (visited ++ none :: rest) =
      visit body (List.range' (visited.length + 1) rest.length) (visited ++ none :: rest) := by
  have here : (visited ++ none :: rest)[visited.length]? = some none := by simp
  rw [List.range'_succ, visit, here]

omit [DecidableEq κ] in
theorem visit_some (body : Body ρ) (visited rest : List (Option ρ)) (r : ρ) :
    visit body (List.range' visited.length (rest.length + 1)) (visited ++ some r :: rest) =
      match body r (visited ++ some r :: rest) with
      | some entries => visit body (List.range' (visited.length + 1) rest.length) entries
      | none => visited ++ some r :: rest := by
  have here : (visited ++ some r :: rest)[visited.length]? = some (some r) := by simp
  rw [List.range'_succ, visit, here]

/-- The rows that have been visited are kept, and the others are filtered. -/
theorem rows_visit_deleteIf (p : ρ → Bool) (h : ((rows (visited ++ rest)).map key).Nodup) :
    rows (visit (deleteIf key p) (List.range' visited.length rest.length) (visited ++ rest)) =
      rows visited ++ (rows rest).filter (! p ·) := by
  induction rest generalizing visited with
  | nil => simp [visit]
  | cons entry rest ih =>
    have next : ∀ entry : Option ρ, ((rows (visited ++ entry :: rest)).map key).Nodup →
        rows (visit (deleteIf key p) (List.range' (visited.length + 1) rest.length)
          (visited ++ entry :: rest)) =
        rows (visited ++ [entry]) ++ (rows rest).filter (! p ·) := by
      intro entry h
      rw [List.append_cons] at h ⊢
      rw [← ih h, List.length_append, List.length_singleton]
    cases entry with
    | none =>
      rw [List.length_cons, visit_none, next none h, rows_hole]
      simp [rows]
    | some r =>
      rw [List.length_cons, visit_some, deleteIf]
      cases hp : p r with
      | true =>
        have h' := nodup_hole h
        rw [if_pos rfl, delete_at h]
        dsimp only
        rw [next none h', rows_hole]
        simp [rows, hp]
      | false =>
        rw [if_neg Bool.false_ne_true]
        dsimp only
        rw [next (some r) h, rows_middle]
        simp [rows, hp]

/-- A loop that has deleted all rows it visited goes on until there are few enough. -/
theorem rows_visit_deleteDownTo (max : ℕ) (hv : rows visited = [])
    (h : ((rows (visited ++ rest)).map key).Nodup) :
    rows (visit (deleteDownTo key max) (List.range' visited.length rest.length) (visited ++ rest)) =
      (rows rest).drop ((rows rest).length + 1 - max) := by
  induction rest generalizing visited with
  | nil => simpa [visit] using hv
  | cons entry rest ih =>
    have next : ((rows (visited ++ none :: rest)).map key).Nodup →
        rows (visit (deleteDownTo key max) (List.range' (visited.length + 1) rest.length)
          (visited ++ none :: rest)) =
        (rows rest).drop ((rows rest).length + 1 - max) := by
      intro h
      rw [List.append_cons] at h ⊢
      have hv' : rows (visited ++ [none]) = [] := by rw [rows_hole, hv]; rfl
      rw [← ih hv' h, List.length_append, List.length_singleton]
    cases entry with
    | none =>
      rw [List.length_cons, visit_none, next h]
      rfl
    | some r =>
      have size : (rows (visited ++ some r :: rest)).length = (rows rest).length + 1 := by
        rw [rows_middle, hv]
        rfl
      rw [List.length_cons, visit_some, deleteDownTo, size]
      by_cases few : (rows rest).length + 1 < max
      · rw [if_pos few]
        dsimp only
        have none_too_many : (rows (some r :: rest)).length + 1 - max = 0 := by
          rw [rows_some, List.length_cons]
          omega
        rw [none_too_many, List.drop_zero, rows_middle, hv]
        rfl
      · have one_too_many : (rows (some r :: rest)).length + 1 - max =
            (rows rest).length + 1 - max + 1 := by
          rw [rows_some, List.length_cons]
          omega
        rw [if_neg few, delete_at h]
        dsimp only
        rw [next (nodup_hole h), one_too_many, rows_some, List.drop_succ_cons]

theorem rows_forOf_deleteIf (p : ρ → Bool) {entries : List (Option ρ)}
    (h : ((rows entries).map key).Nodup) :
    rows (forOf (deleteIf key p) entries) = (rows entries).filter (! p ·) := by
  rw [forOf, List.range_eq_range']
  exact @rows_visit_deleteIf _ _ key _ [] entries p h

theorem rows_forOf_deleteDownTo (max : ℕ) {entries : List (Option ρ)}
    (h : ((rows entries).map key).Nodup) :
    rows (forOf (deleteDownTo key max) entries) =
      (rows entries).drop ((rows entries).length + 1 - max) := by
  rw [forOf, List.range_eq_range']
  exact @rows_visit_deleteDownTo _ _ key _ [] entries max rfl h

end Loops

end Kyc.Iteration
