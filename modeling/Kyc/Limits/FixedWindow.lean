import Mathlib.Data.Nat.Notation
import Mathlib.Logic.Function.Basic
import Mathlib.Order.Lattice

/-! # Fixed windows

Events on a line of time are counted in windows. A window opens at the first event that the
window before it does not cover, and when it opens it is settled when it ends. Events of
several kinds are counted for each kind by itself.
-/

namespace Kyc.FixedWindow

variable {τ : Type}

/-- Where an event stands: when its window opened, the how manieth of the window it is, and its own
time. -/
structure Place (τ : Type) where
  opened : τ
  number : ℕ
  time : τ
  deriving DecidableEq, Repr

/-- Events of one window, numbered from `n` on. -/
def numberedFrom (opened : τ) : ℕ → List τ → List (Place τ)
  | _, [] => []
  | n, t :: ts => ⟨opened, n, t⟩ :: numberedFrom opened (n + 1) ts

def numbered : List τ → List (Place τ)
  | [] => []
  | opened :: rest => numberedFrom opened 1 (opened :: rest)

-- a window that opens at a time ends at `ends` of it
variable [LinearOrder τ] (ends : τ → τ)

def next : Option (Place τ) → τ → Place τ
  | some p, t => if ends p.opened ≤ t then ⟨t, 1, t⟩ else ⟨p.opened, p.number + 1, t⟩
  | none, t => ⟨t, 1, t⟩

theorem one_le_number_next (last : Option (Place τ)) (t : τ) : 1 ≤ (next ends last t).number := by
  unfold next
  split
  · split
    · exact le_rfl
    · exact Nat.le_add_left 1 _
  · exact le_rfl

def places : Option (Place τ) → List τ → List (Place τ)
  | _, [] => []
  | last, t :: ts => next ends last t :: places (some (next ends last t)) ts

/-- Events split into windows: the first one of a window opens it, the others come before it is
over, and the next window opens when it is. -/
inductive Splits : List (List τ) → List τ → Prop
  | nil : Splits [] []
  | cons {opened : τ} {rest ts : List τ} {windows : List (List τ)}
      (inside : ∀ t ∈ rest, t < ends opened) (outside : ∀ t ∈ ts.head?, ends opened ≤ t)
      (h : Splits windows ts) : Splits ((opened :: rest) :: windows) (opened :: (rest ++ ts))

theorem exists_rest (p : Place τ) (ts : List τ) :
    ∃ rest later, ts = rest ++ later ∧ (∀ t ∈ rest, t < ends p.opened) ∧
      (∀ t ∈ later.head?, ends p.opened ≤ t) ∧
      places ends (some p) ts =
        numberedFrom p.opened (p.number + 1) rest ++ places ends none later := by
  induction ts generalizing p with
  | nil => exact ⟨[], [], rfl, by simp, by simp, rfl⟩
  | cons t ts ih =>
    by_cases ht : ends p.opened ≤ t
    · refine ⟨[], t :: ts, rfl, by simp, by simpa using ht, ?_⟩
      rw [places, next, if_pos ht]
      rfl
    · obtain ⟨rest, later, rfl, inside, outside, heq⟩ := ih ⟨p.opened, p.number + 1, t⟩
      refine ⟨t :: rest, later, rfl, ?_, outside, ?_⟩
      · intro u hu
        rcases List.mem_cons.mp hu with rfl | hu
        · exact lt_of_not_ge ht
        · exact inside u hu
      · rw [places, next, if_neg ht, heq]
        rfl

theorem exists_splits (ts : List τ) :
    ∃ windows, Splits ends windows ts ∧ places ends none ts = windows.flatMap numbered := by
  induction hn : ts.length using Nat.strongRecOn generalizing ts with
  | ind n ih =>
    cases ts with
    | nil => exact ⟨[], .nil, rfl⟩
    | cons opened ts =>
      obtain ⟨rest, later, rfl, inside, outside, heq⟩ := exists_rest ends ⟨opened, 1, opened⟩ ts
      have shorter : later.length < n := by
        rw [← hn, List.length_cons, List.length_append]
        omega
      obtain ⟨windows, hs, hplaces⟩ := ih _ shorter later rfl
      refine ⟨(opened :: rest) :: windows, .cons inside outside hs, ?_⟩
      rw [places, next, heq, hplaces]
      rfl

variable {ends} in
theorem Splits.congr {ends' : τ → τ} {windows : List (List τ)} {ts : List τ}
    (hs : Splits ends windows ts) (h : ∀ t ∈ ts, ends t = ends' t) : Splits ends' windows ts := by
  induction hs with
  | nil => exact .nil
  | @cons opened rest ts windows inside outside _ ih =>
    have same : ends opened = ends' opened := h opened List.mem_cons_self
    rw [same] at inside outside
    exact .cons inside outside
      (ih fun t ht => h t (List.mem_cons_of_mem opened (List.mem_append_right rest ht)))

variable {ends} in
/-- An event stands in a window that has opened and is not over. -/
theorem within_of_mem {last : Option (Place τ)} {ts : List τ} (hw : ∀ t ∈ ts, t < ends t)
    (hts : ts.Pairwise (· ≤ ·)) (hlast : ∀ p ∈ last, ∀ t ∈ ts, p.opened ≤ t) {p : Place τ}
    (hp : p ∈ places ends last ts) : p.opened ≤ p.time ∧ p.time < ends p.opened := by
  induction ts generalizing last with
  | nil => cases hp
  | cons t ts ih =>
    obtain ⟨hfirst, hrest⟩ := List.pairwise_cons.mp hts
    have place : (next ends last t).time = t ∧ (next ends last t).opened ≤ t ∧
        t < ends (next ends last t).opened := by
      have first := hw t List.mem_cons_self
      cases last with
      | none => exact ⟨rfl, le_rfl, first⟩
      | some q =>
        by_cases hq : ends q.opened ≤ t
        · rw [next, if_pos hq]
          exact ⟨rfl, le_rfl, first⟩
        · rw [next, if_neg hq]
          exact ⟨rfl, hlast q rfl t List.mem_cons_self, lt_of_not_ge hq⟩
    rcases List.mem_cons.mp hp with rfl | hp
    · rw [place.1]
      exact place.2
    · refine ih (fun u hu => hw u (List.mem_cons_of_mem t hu)) hrest ?_ hp
      rintro q ⟨⟩ u hu
      exact le_trans place.2.1 (hfirst u hu)

/-- What is known of a place among events: its window was opened by one of them, which is the event
itself if it is the first. -/
structure Place.Among (events : List τ) (p : Place τ) : Prop where
  opened : p.opened ∈ events
  time : p.time ∈ events
  positive : 1 ≤ p.number
  first : p.number = 1 → p.opened = p.time

theorem among_of_mem (events : List τ) {last : Option (Place τ)} {ts : List τ}
    (hlast : ∀ p ∈ last, p.Among events) (hts : ts ⊆ events) {p : Place τ}
    (hp : p ∈ places ends last ts) : p.Among events := by
  induction ts generalizing last with
  | nil => cases hp
  | cons t ts ih =>
    obtain ⟨ht, hts⟩ := List.cons_subset.mp hts
    have opens : (⟨t, 1, t⟩ : Place τ).Among events := ⟨ht, ht, le_rfl, fun _ => rfl⟩
    have place : (next ends last t).Among events := by
      cases last with
      | none => exact opens
      | some q =>
        by_cases hq : ends q.opened ≤ t
        · rw [next, if_pos hq]
          exact opens
        · have before := hlast q rfl
          rw [next, if_neg hq]
          exact ⟨before.opened, ht, Nat.le_add_left 1 _, fun h =>
            absurd (Nat.succ.inj h) (Nat.ne_of_gt before.positive)⟩
    rcases List.mem_cons.mp hp with rfl | hp
    · exact place
    · refine ih ?_ hts hp
      rintro q ⟨⟩
      exact place

section Kinds

variable {α β κ : Type} [DecidableEq κ]

omit [LinearOrder τ] in
theorem map_snd_filter_kind (kind : α → Option κ) (f : α → β) (items : List α) (k : κ) :
    ((items.filterMap fun x => (kind x).map (·, f x)).filter (·.1 = k)).map Prod.snd =
      (items.filter (kind · = some k)).map f := by
  induction items with
  | nil => rfl
  | cons x items ih =>
    cases hx : kind x with
    | none => simp [hx, ih]
    | some k' => by_cases hk : k' = k <;> simp [hx, hk, ih]

/-- The places of events of several kinds, each counted after the last one of its kind. -/
def placesOfKinds : (κ → Option (Place τ)) → List (κ × τ) → List (κ × Place τ)
  | _, [] => []
  | last, (k, t) :: events =>
    (k, next ends (last k) t) ::
      placesOfKinds (Function.update last k (some (next ends (last k) t))) events

theorem placesOfKinds_of_kind (last : κ → Option (Place τ)) (events : List (κ × τ)) (k : κ) :
    ((placesOfKinds ends last events).filter (·.1 = k)).map Prod.snd =
      places ends (last k) ((events.filter (·.1 = k)).map Prod.snd) := by
  induction events generalizing last with
  | nil => rfl
  | cons event events ih =>
    obtain ⟨k', t⟩ := event
    rw [placesOfKinds]
    by_cases hk : k' = k
    · subst hk
      simp [places, ih]
    · simp [hk, ih, Function.update_of_ne (Ne.symm hk)]

end Kinds

end Kyc.FixedWindow
