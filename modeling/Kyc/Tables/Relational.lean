import Kyc.Tables.Keyed
import Kyc.Tables.Newest

/-! # Relational tables

Statements against a table with a primary key. The rows have no order of their own:
each statement visits them in an order that the server picks. A `where` filters the
rows, an `update` changes exactly those that match and returns them, and an insert
under a key that is taken throws.
-/

namespace Kyc

/-- What a statement relies on a database server for. -/
structure Server (ε : Type) where
  order : {ρ : Type} → ℕ → List ρ → List ρ
  order_perm : ∀ {ρ : Type} (n : ℕ) (rows : List ρ), (order n rows).Perm rows
  uniqueViolation : ε
  foreignKeyViolation : ε

namespace Table

variable {κ ρ : Type} {key : ρ → κ} {ε : Type} (server : Server ε)

/-- The table as the `n`-th statement finds it. -/
def visit (n : ℕ) (t : Table key) : Table key :=
  ⟨server.order n t.rows, ((server.order_perm n t.rows).map key).nodup_iff.mpr t.nodup⟩

theorem visit_perm (n : ℕ) (t : Table key) : (t.visit server n).rows.Perm t.rows :=
  server.order_perm n t.rows

/-- `where(..).update(.., ['*'])`: the changed rows, and the table with them. -/
def update (p : ρ → Bool) (f : ρ → ρ) (hf : ∀ r, key (f r) = key r) (t : Table key) :
    List ρ × Table key :=
  ((t.rows.filter p).map f,
    ⟨t.rows.map fun r => if p r then f r else r, by
      rw [List.map_map]
      have hk : (key ∘ fun r => if p r then f r else r) = key := by
        funext r
        by_cases hp : p r <;> simp [hp, hf]
      rw [hk]
      exact t.nodup⟩)

variable [DecidableEq κ]

/-- `insert(..)`: the primary key is unique. -/
def insert (r : ρ) (t : Table key) : Except ε (Table key) :=
  match t.get (key r) with
  | some _ => .error server.uniqueViolation
  | none => .ok (t.set r)

variable {t t' : Table key} {p : ρ → Bool} {f : ρ → ρ} {hf : ∀ r, key (f r) = key r} {r : ρ} {k : κ}

theorem get_of_perm (hp : t'.rows.Perm t.rows) (k : κ) : t'.get k = t.get k := by
  cases h : t.get k with
  | none => exact get_eq_none.mpr fun r hr => get_eq_none.mp h r (hp.mem_iff.mp hr)
  | some r => exact get_eq_some.mpr ⟨hp.mem_iff.mpr (get_mem h), get_key h⟩

theorem set_perm (hp : t'.rows.Perm t.rows) (r : ρ) : (t'.set r).rows.Perm (t.set r).rows := by
  cases h : t.get (key r) with
  | none =>
    rw [rows_set_new h, rows_set_new ((get_of_perm hp _).trans h)]
    exact hp.append_right [r]
  | some old =>
    rw [rows_set_old h, rows_set_old ((get_of_perm hp _).trans h)]
    exact hp.map _

theorem insert_of_get_none (h : t.get (key r) = none) : t.insert server r = .ok (t.set r) := by
  rw [insert, h]

theorem head?_filter_key (t : Table key) (k : κ) :
    (t.rows.filter fun r => key r = k).head? = t.get k := by
  rw [List.head?_filter, get]

theorem filter_of_match (h : t.get k = some r) (hp : ∀ s, p s = true → key s = k)
    (hr : p r = true) : t.rows.filter p = [r] := by
  have hn : t.rows.Nodup := t.nodup.of_map _
  apply List.perm_singleton.mp
  apply (List.perm_ext_iff_of_nodup (hn.filter _) (List.nodup_singleton r)).mpr
  intro s
  rw [List.mem_filter, List.mem_singleton]
  constructor
  · rintro ⟨hs, hps⟩
    exact t.key_injOn hs (get_mem h) ((hp s hps).trans (get_key h).symm)
  · rintro rfl
    exact ⟨get_mem h, hr⟩

theorem update_of_match (h : t.get k = some r) (hp : ∀ s, p s = true → key s = k)
    (hr : p r = true) : t.update p f hf = ([f r], t.set (f r)) := by
  have hk : key (f r) = k := (hf r).trans (get_key h)
  refine Prod.ext (by rw [update, filter_of_match h hp hr]; rfl) (ext_rows ?_)
  rw [rows_set_old (hk ▸ h), replace, update]
  apply List.map_congr_left
  intro s hs
  by_cases hps : p s = true
  · obtain rfl := t.key_injOn hs (get_mem h) ((hp s hps).trans (get_key h).symm)
    rw [if_pos hps, if_pos (hf s).symm]
  · rw [if_neg hps, if_neg]
    intro hks
    obtain rfl := t.key_injOn hs (get_mem h) (hks.trans (hf r))
    exact hps hr

omit [DecidableEq κ] in
theorem update_of_no_match (h : ∀ r ∈ t.rows, p r = false) : t.update p f hf = ([], t) := by
  refine Prod.ext ?_ (ext_rows ?_)
  · have hfilter : t.rows.filter p = [] := List.filter_eq_nil_iff.mpr fun r hr => by simp [h r hr]
    rw [update, hfilter]
    rfl
  · rw [update]
    conv_rhs => rw [← List.map_id t.rows]
    apply List.map_congr_left
    intro r hr
    rw [h r hr]
    rfl

end Table

end Kyc
