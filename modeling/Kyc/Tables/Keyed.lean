import Mathlib.Data.List.Nodup

/-! # Keyed tables

A table is a list of rows with pairwise different keys, in the order in which the
keys were first written: a map from keys to rows that remembers insertion order.
Writing a row replaces the row with its key in place, or appends it.
-/

namespace Kyc

variable {κ ρ : Type} {key : ρ → κ}

/-- Rows in insertion order, no two of them with the same key. -/
structure Table (key : ρ → κ) where
  rows : List ρ
  nodup : (rows.map key).Nodup

namespace Table

def empty : Table key := ⟨[], List.nodup_nil⟩

@[simp] theorem rows_empty : (empty : Table key).rows = [] := rfl

theorem ext_rows {t t' : Table key} (h : t.rows = t'.rows) : t = t' := by
  cases t; cases t'; cases h; rfl

theorem key_injOn (t : Table key) {r s : ρ} (hr : r ∈ t.rows) (hs : s ∈ t.rows)
    (h : key r = key s) : r = s :=
  List.inj_on_of_nodup_map t.nodup hr hs h

def filter (p : ρ → Bool) (t : Table key) : Table key :=
  ⟨t.rows.filter p, t.nodup.sublist (List.filter_sublist.map key)⟩

@[simp] theorem rows_filter (p : ρ → Bool) (t : Table key) :
    (t.filter p).rows = t.rows.filter p := rfl

variable [DecidableEq κ]

def get (t : Table key) (k : κ) : Option ρ := t.rows.find? fun r => key r = k

def replace (key : ρ → κ) (r : ρ) (rows : List ρ) : List ρ :=
  rows.map fun s => if key s = key r then r else s

theorem map_key_replace (r : ρ) (rows : List ρ) :
    (replace key r rows).map key = rows.map key := by
  rw [replace, List.map_map]
  apply List.map_congr_left
  intro s _
  by_cases h : key s = key r <;> simp [h]

/-- Write a row: in place of the row with its key, or behind all rows. -/
def set (t : Table key) (r : ρ) : Table key :=
  if h : key r ∈ t.rows.map key then
    ⟨replace key r t.rows, by rw [map_key_replace]; exact t.nodup⟩
  else
    ⟨t.rows ++ [r], by
      rw [List.map_append]
      apply t.nodup.append (List.nodup_singleton _)
      simpa [List.disjoint_singleton] using h⟩

theorem get_eq_some {t : Table key} {k : κ} {r : ρ} :
    t.get k = some r ↔ r ∈ t.rows ∧ key r = k := by
  constructor
  · intro h
    exact ⟨List.mem_of_find?_eq_some h, by simpa using List.find?_some h⟩
  · rintro ⟨hr, rfl⟩
    cases h : t.get (key r) with
    | none =>
      have := List.find?_eq_none.mp h r hr
      simp at this
    | some s =>
      have hs : key s = key r := by simpa using List.find?_some h
      rw [t.key_injOn (List.mem_of_find?_eq_some h) hr hs]

theorem get_key {t : Table key} {k : κ} {r : ρ} (h : t.get k = some r) : key r = k :=
  (get_eq_some.mp h).2

theorem get_mem {t : Table key} {k : κ} {r : ρ} (h : t.get k = some r) : r ∈ t.rows :=
  (get_eq_some.mp h).1

theorem get_of_mem {t : Table key} {r : ρ} (h : r ∈ t.rows) : t.get (key r) = some r :=
  get_eq_some.mpr ⟨h, rfl⟩

theorem get_eq_none {t : Table key} {k : κ} : t.get k = none ↔ ∀ r ∈ t.rows, key r ≠ k := by
  simp [get, List.find?_eq_none]

theorem rows_set_old {t : Table key} {r old : ρ} (h : t.get (key r) = some old) :
    (t.set r).rows = replace key r t.rows := by
  obtain ⟨hm, hk⟩ := get_eq_some.mp h
  rw [set, dif_pos (List.mem_map.mpr ⟨old, hm, hk⟩)]

theorem rows_set_new {t : Table key} {r : ρ} (h : t.get (key r) = none) :
    (t.set r).rows = t.rows ++ [r] := by
  rw [set, dif_neg]
  rintro hm
  obtain ⟨s, hs, hk⟩ := List.mem_map.mp hm
  exact get_eq_none.mp h s hs hk

@[simp] theorem get_set_self (t : Table key) (r : ρ) : (t.set r).get (key r) = some r := by
  refine get_eq_some.mpr ⟨?_, rfl⟩
  cases h : t.get (key r) with
  | none => simp [rows_set_new h]
  | some old =>
    obtain ⟨hm, hk⟩ := get_eq_some.mp h
    rw [rows_set_old h]
    exact List.mem_map.mpr ⟨old, hm, if_pos hk⟩

theorem get_set_of_ne {t : Table key} {r : ρ} {k : κ} (hk : k ≠ key r) :
    (t.set r).get k = t.get k := by
  cases h : t.get (key r) with
  | none =>
    rw [get, rows_set_new h, List.find?_append]
    simp [get, Ne.symm hk]
  | some old =>
    rw [get, rows_set_old h, replace, List.find?_map]
    have hp : ((fun s => decide (key s = k)) ∘ fun s => if key s = key r then r else s) =
        fun s => decide (key s = k) := by
      funext s
      by_cases hs : key s = key r
      · simp [hs]
      · simp [hs]
    rw [hp]
    cases hg : t.rows.find? fun s => key s = k with
    | none => simp [get, hg]
    | some s =>
      have hs : key s = k := by simpa using List.find?_some hg
      simp [get, hg, hs, hk]

theorem get_set {t : Table key} {r : ρ} {k : κ} :
    (t.set r).get k = if k = key r then some r else t.get k := by
  split
  next h => rw [h, get_set_self]
  next h => exact get_set_of_ne h

theorem rows_set_middle {t : Table key} {r old : ρ} {front behind : List ρ}
    (h : t.rows = front ++ old :: behind) (hk : key old = key r) :
    (t.set r).rows = front ++ r :: behind := by
  have nodup := t.nodup
  rw [h, List.map_append, List.map_cons, List.nodup_middle] at nodup
  obtain ⟨other, -⟩ := List.nodup_cons.mp nodup
  have kept : ∀ rows : List ρ, rows.map key ⊆ front.map key ++ behind.map key →
      replace key r rows = rows := by
    intro rows hrows
    apply (List.map_congr_left fun x hx => ?_).trans rows.map_id
    rw [if_neg, id]
    intro hx'
    exact other (hk ▸ hx' ▸ hrows (List.mem_map_of_mem hx))
  have hold : t.get (key r) = some old := get_eq_some.mpr ⟨by simp [h], hk⟩
  rw [rows_set_old hold, h, replace, List.map_append, List.map_cons, if_pos hk, ← replace,
    ← replace, kept front (List.subset_append_left _ _), kept behind (List.subset_append_right _ _)]

theorem length_set_le (t : Table key) (r : ρ) : (t.set r).rows.length ≤ t.rows.length + 1 := by
  cases h : t.get (key r) with
  | none =>
    exact Nat.le_of_eq (by rw [rows_set_new h, List.length_append, List.length_singleton])
  | some old =>
    rw [rows_set_old h, replace, List.length_map]
    exact Nat.le_succ _

theorem mem_set {t : Table key} {r s : ρ} (h : s ∈ (t.set r).rows) : s = r ∨ s ∈ t.rows := by
  have hs := get_of_mem h
  rw [get_set] at hs
  split at hs
  · exact Or.inl (Option.some.inj hs).symm
  · exact Or.inr (get_mem hs)

theorem set_of_get {t : Table key} {r : ρ} (h : t.get (key r) = some r) : t.set r = t := by
  apply ext_rows
  rw [rows_set_old h, replace]
  conv_rhs => rw [← List.map_id t.rows]
  apply List.map_congr_left
  intro x hx
  split
  next hk => exact (t.key_injOn hx (get_mem h) hk).symm
  next => rfl

theorem set_set {t : Table key} {r s : ρ} (hk : key s = key r) : (t.set r).set s = t.set s := by
  apply ext_rows
  have hs : (t.set r).get (key s) = some r := by rw [hk, get_set_self]
  cases hr : t.get (key r) with
  | some old =>
    have hs' : t.get (key s) = some old := hk ▸ hr
    rw [rows_set_old hs, rows_set_old hs', rows_set_old hr, replace, replace, replace,
      List.map_map]
    apply List.map_congr_left
    intro x _
    by_cases hx : key x = key r <;> simp [hx, hk]
  | none =>
    have hs' : t.get (key s) = none := hk ▸ hr
    have kept : replace key s t.rows = t.rows := by
      apply (List.map_congr_left fun x hx => ?_).trans t.rows.map_id
      rw [if_neg (hk ▸ get_eq_none.mp hr x hx), id]
    rw [rows_set_old hs, rows_set_new hr, rows_set_new hs', replace, List.map_append,
      List.map_singleton, if_pos hk.symm]
    exact congrArg (· ++ [s]) kept

theorem filter_replace_of_not {p : ρ → Bool} {r : ρ} {rows : List ρ} (hr : p r = false)
    (hp : ∀ s ∈ rows, key s = key r → p s = false) :
    (replace key r rows).filter p = rows.filter p := by
  induction rows with
  | nil => rfl
  | cons s rows ih =>
    have ih := ih fun x hx => hp x (List.mem_cons_of_mem s hx)
    by_cases hs : key s = key r
    · have hps := hp s List.mem_cons_self hs
      simpa [replace, hs, hr, hps] using ih
    · by_cases hps : p s = true
      · simpa [replace, hs, hps] using ih
      · simpa [replace, hs, hps] using ih

theorem findSome?_of_sublist {α : Type} {f : κ → Option α} {ks ks' : List κ} (h : ks.Sublist ks')
    (hn : ks'.Nodup) (hf : ∀ k, k ∉ ks → f k = none) : ks'.findSome? f = ks.findSome? f := by
  induction h with
  | slnil => rfl
  | cons k h ih =>
    obtain ⟨hk, hn⟩ := List.nodup_cons.mp hn
    rw [List.findSome?_cons, hf k fun hmem => hk (h.subset hmem), ih hn hf]
  | @cons_cons ks ks' k h ih =>
    obtain ⟨hk, hn⟩ := List.nodup_cons.mp hn
    rw [List.findSome?_cons, List.findSome?_cons]
    cases hfk : f k with
    | some a => rfl
    | none =>
      apply ih hn
      intro k' hk'
      by_cases hkk : k' = k
      · rw [hkk, hfk]
      · exact hf k' (by simp [hkk, hk'])

theorem findSome?_reverse_get {t : Table key} {ks : List κ} (h : (t.rows.map key).Sublist ks)
    (hn : ks.Nodup) (p : ρ → Bool) :
    (ks.reverse.findSome? fun k => (t.get k).filter p) = t.rows.reverse.find? p := by
  rw [findSome?_of_sublist h.reverse (List.nodup_reverse.mpr hn), ← List.map_reverse,
    List.findSome?_map]
  · have hrow : ∀ r ∈ t.rows.reverse,
        ((fun k => (t.get k).filter p) ∘ key) r = (some r).filter p := by
      intro r hr
      rw [Function.comp_apply, get_of_mem (List.mem_reverse.mp hr)]
    generalize t.rows.reverse = rows at hrow ⊢
    induction rows with
    | nil => rfl
    | cons r rows ih =>
      rw [List.findSome?_cons, List.find?_cons, hrow r List.mem_cons_self,
        ih fun s hs => hrow s (List.mem_cons_of_mem r hs)]
      cases hp : p r <;> simp [Option.filter, hp]
  · intro k hk
    rw [get_eq_none.mpr]
    · rfl
    · rintro r hr rfl
      exact hk (List.mem_reverse.mpr (List.mem_map_of_mem hr))

section Filter

variable {p : ρ → Bool}

theorem get_filter (t : Table key) (k : κ) : (t.filter p).get k = (t.get k).filter p := by
  cases h : t.get k with
  | none =>
    rw [get_eq_none] at h
    exact get_eq_none.mpr fun r hr => h r (List.mem_of_mem_filter hr)
  | some r =>
    obtain ⟨hr, hk⟩ := get_eq_some.mp h
    rw [Option.filter_some]
    split
    next hp => exact get_eq_some.mpr ⟨List.mem_filter.mpr ⟨hr, hp⟩, hk⟩
    next hp =>
      refine get_eq_none.mpr fun s hs hsk => hp ?_
      obtain ⟨hs, hps⟩ := List.mem_filter.mp hs
      rwa [← t.key_injOn hs hr (hsk.trans hk.symm)]

/-- Filtering commutes with writing a row that the filter keeps, over one that it keeps. -/
theorem filter_set {t : Table key} {r : ρ} (hr : p r = true)
    (ho : ∀ old, t.get (key r) = some old → p old = true) :
    (t.set r).filter p = (t.filter p).set r := by
  apply ext_rows
  cases h : t.get (key r) with
  | none =>
    have h' : (t.filter p).get (key r) = none := by rw [get_filter, h]; rfl
    rw [rows_filter, rows_set_new h, rows_set_new h', List.filter_append, rows_filter,
      List.filter_cons_of_pos hr, List.filter_nil]
  | some old =>
    have hold := ho old h
    have h' : (t.filter p).get (key r) = some old := by
      rw [get_filter, h, Option.filter_some, if_pos hold]
    rw [rows_filter, rows_set_old h, rows_set_old h', rows_filter]
    have hp : ∀ s ∈ t.rows, p (if key s = key r then r else s) = p s := by
      intro s hs
      split
      next hk =>
        obtain ⟨hm, hmk⟩ := get_eq_some.mp h
        rw [hr, t.key_injOn hs hm (hk.trans hmk.symm), hold]
      next => rfl
    rw [replace, List.filter_map, replace]
    exact congrArg _ (List.filter_congr hp)

theorem rows_filter_set_of_not {t : Table key} {r : ρ} (hr : p r = false)
    (ho : ∀ old, t.get (key r) = some old → p old = false) :
    (t.set r).rows.filter p = t.rows.filter p := by
  cases h : t.get (key r) with
  | none => simp [rows_set_new h, hr]
  | some old =>
    rw [rows_set_old h]
    apply filter_replace_of_not hr
    intro s hs hk
    obtain ⟨hm, hmk⟩ := get_eq_some.mp h
    rw [t.key_injOn hs hm (hk.trans hmk.symm)]
    exact ho old h

end Filter

end Table

end Kyc
