import Mathlib.Data.List.Find
import Mathlib.Data.List.Sort

/-! # The newest row with a property

Rows are ordered by a time stamp, latest first; rows of one time keep their order
in the list. Restricting the rows to a property and taking the first of them is
the same as searching the whole ordered list, so different selections can be
compared on one list.
-/

namespace Kyc

variable {ρ τ : Type} [LinearOrder τ] (time : ρ → τ)

/-- The rows, latest first; the sort is stable. -/
def newestFirst (rows : List ρ) : List ρ := rows.insertionSort fun a b => time b ≤ time a

/-- The newest row with the given property. -/
def newest (p : ρ → Bool) (rows : List ρ) : Option ρ := (newestFirst time rows).find? p

variable {time}

@[simp] theorem mem_newestFirst {rows : List ρ} {r : ρ} :
    r ∈ newestFirst time rows ↔ r ∈ rows :=
  List.mem_insertionSort _

variable (time) in
theorem pairwise_newestFirst (rows : List ρ) :
    (newestFirst time rows).Pairwise fun a b => time b ≤ time a :=
  haveI : Std.Total (fun a b : ρ => time b ≤ time a) := ⟨fun a b => le_total (time b) (time a)⟩
  haveI : IsTrans ρ fun a b => time b ≤ time a := ⟨fun _ _ _ h h' => le_trans h' h⟩
  List.pairwise_insertionSort _ rows

@[simp] theorem newestFirst_newestFirst (rows : List ρ) :
    newestFirst time (newestFirst time rows) = newestFirst time rows :=
  List.Pairwise.insertionSort_eq (pairwise_newestFirst time rows)

theorem eq_newestFirst {rows rows' : List ρ} (hp : rows'.Perm rows)
    (hs : rows'.Pairwise fun a b => time b ≤ time a)
    (hinj : ∀ a ∈ rows, ∀ b ∈ rows, time a = time b → a = b) :
    rows' = newestFirst time rows := by
  apply List.Perm.eq_of_pairwise _ hs (pairwise_newestFirst time rows)
    (hp.trans (List.perm_insertionSort _ rows).symm)
  intro a b ha hb hle hle'
  exact hinj a (hp.mem_iff.mp ha) b (mem_newestFirst.mp hb) (le_antisymm hle' hle)

theorem newestFirst_perm {rows rows' : List ρ} (hp : rows'.Perm rows)
    (hinj : ∀ a ∈ rows, ∀ b ∈ rows, time a = time b → a = b) :
    newestFirst time rows' = newestFirst time rows :=
  eq_newestFirst ((List.perm_insertionSort _ rows').trans hp) (pairwise_newestFirst time rows') hinj

theorem filter_orderedInsert {p : ρ → Bool} {r : ρ} {rows : List ρ}
    (h : rows.Pairwise fun a b => time b ≤ time a) :
    (rows.orderedInsert (fun a b => time b ≤ time a) r).filter p =
      if p r then (rows.filter p).orderedInsert (fun a b => time b ≤ time a) r
      else rows.filter p := by
  induction rows with
  | nil => cases hr : p r <;> simp [hr]
  | cons s rows ih =>
    obtain ⟨hs, h⟩ := List.pairwise_cons.mp h
    rw [List.orderedInsert_cons]
    by_cases hle : time s ≤ time r
    · rw [if_pos hle, List.filter_cons]
      split
      case isFalse => rfl
      case isTrue =>
        cases hf : (s :: rows).filter p with
        | nil => rfl
        | cons x xs =>
          have hx : x ∈ s :: rows := List.mem_of_mem_filter (hf ▸ List.mem_cons_self)
          have hle' : time x ≤ time r := by
            rcases List.mem_cons.mp hx with rfl | hx
            · exact hle
            · exact (hs x hx).trans hle
          rw [List.orderedInsert_cons, if_pos hle']
    · rw [if_neg hle, List.filter_cons, ih h]
      cases hr : p r <;> cases hps : p s <;> simp [hps, hle]

theorem newestFirst_filter (p : ρ → Bool) (rows : List ρ) :
    newestFirst time (rows.filter p) = (newestFirst time rows).filter p := by
  induction rows with
  | nil => rfl
  | cons r rows ih =>
    have hs := filter_orderedInsert (p := p) (r := r) (pairwise_newestFirst time rows)
    change _ = (List.orderedInsert _ r (newestFirst time rows)).filter p
    rw [hs, ← ih]
    cases hr : p r
    · simp [hr]
    · rw [List.filter_cons_of_pos hr, if_pos rfl]; rfl

theorem newestFirst_map {f : ρ → ρ} {rows : List ρ} (hf : ∀ r ∈ rows, time (f r) = time r) :
    newestFirst time (rows.map f) = (newestFirst time rows).map f :=
  (List.map_insertionSort _ _ f rows fun a ha b hb => by rw [hf a ha, hf b hb]).symm

theorem head?_newestFirst_filter (p : ρ → Bool) (rows : List ρ) :
    (newestFirst time (rows.filter p)).head? = newest time p rows := by
  rw [newestFirst_filter, List.head?_filter, newest]

theorem find?_newestFirst_filter (p q : ρ → Bool) (rows : List ρ) :
    (newestFirst time (rows.filter p)).find? q = newest time (fun r => p r && q r) rows := by
  simp only [newestFirst_filter, List.find?_filter, newest, Bool.decide_and, Bool.decide_eq_true]

theorem newest_mem {p : ρ → Bool} {rows : List ρ} {r : ρ} (h : newest time p rows = some r) :
    r ∈ rows :=
  mem_newestFirst.mp (List.mem_of_find?_eq_some h)

theorem newest_prop {p : ρ → Bool} {rows : List ρ} {r : ρ} (h : newest time p rows = some r) :
    p r = true :=
  List.find?_some h

theorem newest_eq_none {p : ρ → Bool} {rows : List ρ} :
    newest time p rows = none ↔ ∀ r ∈ rows, p r = false := by
  simp [newest, List.find?_eq_none]

variable (time) in
theorem newest_isSome {p : ρ → Bool} {rows : List ρ} {r : ρ} (hr : r ∈ rows) (hp : p r = true) :
    ∃ s, newest time p rows = some s := by
  cases h : newest time p rows with
  | none => rw [newest_eq_none.mp h r hr] at hp; cases hp
  | some s => exact ⟨s, rfl⟩

theorem newest_congr {p q : ρ → Bool} {rows : List ρ} (h : ∀ r ∈ rows, p r = q r) :
    newest time p rows = newest time q rows :=
  List.find?_congr fun r hr => h r (mem_newestFirst.mp hr)

theorem newest_of_unique {p : ρ → Bool} {rows : List ρ} {r : ρ} (hr : r ∈ rows) (hp : p r = true)
    (h : ∀ s ∈ rows, p s = true → s = r) : newest time p rows = some r := by
  obtain ⟨s, hs⟩ := newest_isSome time hr hp
  rw [hs, h s (newest_mem hs) (newest_prop hs)]

theorem newest_map {f : ρ → ρ} {rows : List ρ} (hf : ∀ r ∈ rows, time (f r) = time r)
    (p : ρ → Bool) :
    newest time p (rows.map f) = (newest time (fun r => p (f r)) rows).map f := by
  rw [newest, newestFirst_map hf, List.find?_map]; rfl

theorem newest_latest {p : ρ → Bool} {rows : List ρ} {r s : ρ} (h : newest time p rows = some r)
    (hs : s ∈ rows) (hp : p s = true) : time s ≤ time r := by
  obtain ⟨-, before, after, hsplit, hbefore⟩ := List.find?_eq_some_iff_append.mp h
  have hsort := pairwise_newestFirst time rows
  have hmem : s ∈ before ++ r :: after := hsplit ▸ mem_newestFirst.mpr hs
  rw [hsplit] at hsort
  rcases List.mem_append.mp hmem with hmem | hmem
  · have hnp := hbefore s hmem
    simp [hp] at hnp
  · rcases List.mem_cons.mp hmem with rfl | hmem
    · exact le_rfl
    · exact (List.pairwise_cons.mp (List.pairwise_append.mp hsort).2.1).1 s hmem

/-- When the rows with the property get later and later, the newest of them is the last. -/
theorem newest_eq_last {p : ρ → Bool} {rows : List ρ}
    (h : rows.Pairwise fun r s => p r = true → p s = true → time r < time s) :
    newest time p rows = rows.reverse.find? p := by
  cases hlast : rows.reverse.find? p with
  | none =>
    apply newest_eq_none.mpr
    intro r hr
    simpa using List.find?_eq_none.mp hlast r (List.mem_reverse.mpr hr)
  | some r =>
    obtain ⟨hp, behind, before, hsplit, hbehind⟩ := List.find?_eq_some_iff_append.mp hlast
    have hrows : rows = before.reverse ++ r :: behind.reverse := by
      rw [← List.reverse_reverse rows, hsplit]
      simp
    have hmem : r ∈ rows := by rw [hrows]; simp
    obtain ⟨s, hs⟩ := newest_isSome time hmem hp
    have hle : time r ≤ time s := newest_latest hs hmem hp
    have hps := newest_prop hs
    have hs' := newest_mem hs
    rw [hrows] at h hs'
    rcases List.mem_append.mp hs' with hs' | hs'
    · exact absurd ((List.pairwise_append.mp h).2.2 s hs' r List.mem_cons_self hps hp) hle.not_gt
    · rcases List.mem_cons.mp hs' with rfl | hs'
      · exact hs
      · simpa [hps] using hbehind s (List.mem_reverse.mp hs')

/-- A row with the property that comes before another of its time, or of an earlier one, is taken
instead of it: the sort is stable. -/
theorem newest_ne_of_sublist {p : ρ → Bool} {rows : List ρ} {r s : ρ} (hn : rows.Nodup)
    (hsub : [s, r].Sublist rows) (hle : time r ≤ time s) (hp : p s = true) :
    newest time p rows ≠ some r := by
  intro h
  obtain ⟨-, before, behind, hsplit, hbefore⟩ := List.find?_eq_some_iff_append.mp h
  have hsort : [s, r].Sublist (newestFirst time rows) := List.pair_sublist_insertionSort hle hsub
  have hn' : (newestFirst time rows).Nodup := (List.perm_insertionSort _ rows).nodup_iff.mpr hn
  rw [hsplit] at hsort hn'
  have hs : s ∉ before := fun hs => by simpa [hp] using hbefore s hs
  obtain ⟨front, back, hcut, hfront, hback⟩ := List.sublist_append_iff.mp hsort
  cases front with
  | nil =>
    subst hcut
    have hr : r ∈ behind := List.singleton_sublist.mp hback.tail
    exact (List.nodup_cons.mp (List.nodup_append.mp hn').2.1).1 hr
  | cons x front =>
    obtain ⟨rfl, -⟩ := List.cons.inj hcut
    exact hs (hfront.subset List.mem_cons_self)

end Kyc
