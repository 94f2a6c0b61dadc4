import Kyc.Limits.FixedWindow

/-! # A sliding span over fixed windows

Fixed windows say nothing about a span of time that begins somewhere within one. A span that
is over before any window that opens in it meets two windows at most, so that at most `2 * n`
of its events have a number up to `n`. And no event has a greater number unless `n` such
events came before it that a window opened by them would have it in.
-/

namespace Kyc.FixedWindow

variable {τ : Type}

theorem time_mem_of_numberedFrom {opened : τ} {n : ℕ} {ts : List τ} {p : Place τ}
    (hp : p ∈ numberedFrom opened n ts) : p.time ∈ ts := by
  induction ts generalizing n with
  | nil => cases hp
  | cons t ts ih =>
    rcases List.mem_cons.mp hp with rfl | hp
    · exact List.mem_cons_self
    · exact List.mem_cons_of_mem t (ih hp)

theorem opened_of_numberedFrom {opened : τ} {n : ℕ} {ts : List τ} {p : Place τ}
    (hp : p ∈ numberedFrom opened n ts) : p.opened = opened := by
  induction ts generalizing n with
  | nil => cases hp
  | cons t ts ih =>
    rcases List.mem_cons.mp hp with rfl | hp
    · rfl
    · exact ih hp

theorem time_mem_of_numbered {window : List τ} {p : Place τ} (hp : p ∈ numbered window) :
    p.time ∈ window := by
  cases window with
  | nil => cases hp
  | cons opened rest => exact time_mem_of_numberedFrom hp

theorem countP_numberedFrom_le (opened : τ) (n k : ℕ) (ts : List τ) :
    (numberedFrom opened k ts).countP (·.number ≤ n) ≤ n + 1 - k := by
  induction ts generalizing k with
  | nil => exact Nat.zero_le _
  | cons t ts ih =>
    rw [numberedFrom, List.countP_cons]
    have rest := ih (k + 1)
    by_cases hk : k ≤ n
    · simp only [hk, decide_true, if_true]
      omega
    · simp only [hk, decide_false, Bool.false_eq_true, if_false]
      omega

theorem countP_numbered_le (n : ℕ) (window : List τ) :
    (numbered window).countP (·.number ≤ n) ≤ n := by
  cases window with
  | nil => exact Nat.zero_le _
  | cons opened rest => exact countP_numberedFrom_le opened n 1 (opened :: rest)

theorem map_time_places [LinearOrder τ] (ends : τ → τ) (last : Option (Place τ)) (ts : List τ) :
    (places ends last ts).map Place.time = ts := by
  induction ts generalizing last with
  | nil => rfl
  | cons t ts ih =>
    have time : (next ends last t).time = t := by
      cases last with
      | none => rfl
      | some p => rw [next, apply_ite Place.time, ite_self]
    rw [places, List.map_cons, time, ih]

theorem le_countP_numberedFrom [LinearOrder τ] {opened : τ} {n k : ℕ} {ts : List τ}
    (sorted : ts.Pairwise (· ≤ ·)) {p : Place τ} (hp : p ∈ numberedFrom opened k ts)
    (hn : n < p.number) :
    n + 1 - k ≤ (numberedFrom opened k ts).countP fun q => q.number ≤ n ∧ q.time ≤ p.time := by
  induction ts generalizing k with
  | nil => cases hp
  | cons t ts ih =>
    obtain ⟨first, sorted⟩ := List.pairwise_cons.mp sorted
    rcases List.mem_cons.mp hp with rfl | hp
    · have none_left : n + 1 - k = 0 := Nat.sub_eq_zero_of_le hn
      rw [none_left]
      exact Nat.zero_le _
    · have rest := ih sorted hp
      rw [numberedFrom, List.countP_cons]
      by_cases hk : k ≤ n
      · have earlier : t ≤ p.time := first _ (time_mem_of_numberedFrom hp)
        simp only [hk, earlier, and_self, decide_true, if_true]
        omega
      · omega

variable [LinearOrder τ]

/-- The event is among the first `n` of its window, and falls into the span. -/
def fallsInto (since til : τ) (n : ℕ) (p : Place τ) : Bool :=
  p.number ≤ n ∧ since ≤ p.time ∧ p.time < til

variable {ends : τ → τ} {since til : τ} {n : ℕ}

theorem countP_fallsInto_le (window : List τ) :
    (numbered window).countP (fallsInto since til n) ≤ n := by
  refine le_trans (List.countP_mono_left fun p _ h => ?_) (countP_numbered_le n window)
  simp only [fallsInto, decide_eq_true_eq] at h ⊢
  exact h.1

theorem countP_windows_eq_zero {windows : List (List τ)} {ts : List τ}
    (hs : Splits ends windows ts) (late : ∀ t ∈ ts, til ≤ t) :
    (windows.flatMap numbered).countP (fallsInto since til n) = 0 := by
  induction hs with
  | nil => rfl
  | @cons opened rest ts windows _ _ _ ih =>
    have first : (numbered (opened :: rest)).countP (fallsInto since til n) = 0 := by
      rw [List.countP_eq_zero]
      rintro p hp h
      simp only [fallsInto, decide_eq_true_eq] at h
      have time := time_mem_of_numbered hp
      rw [← List.cons_append] at late
      exact not_le.mpr h.2.2 (late _ (List.mem_append_left ts time))
    rw [List.flatMap_cons, List.countP_append, first,
      ih fun t ht => late t (List.mem_cons_of_mem _ (List.mem_append_right rest ht))]

theorem forall_le_of_head? {ts : List τ} (sorted : ts.Pairwise (· ≤ ·)) {bound : τ}
    (h : ∀ t ∈ ts.head?, bound ≤ t) : ∀ t ∈ ts, bound ≤ t := by
  cases ts with
  | nil => simp
  | cons t ts =>
    have first : bound ≤ t := h t rfl
    rintro u hu
    rcases List.mem_cons.mp hu with rfl | hu
    · exact first
    · exact first.trans ((List.pairwise_cons.mp sorted).1 u hu)

theorem countP_windows_le_of_opened {windows : List (List τ)} {ts : List τ}
    (hs : Splits ends windows ts) (sorted : ts.Pairwise (· ≤ ·))
    (covers : ∀ t ∈ ts, since ≤ t → til ≤ ends t) (early : ∀ t ∈ ts, since ≤ t) :
    (windows.flatMap numbered).countP (fallsInto since til n) ≤ n := by
  cases hs with
  | nil => exact Nat.zero_le n
  | @cons opened rest ts windows _ outside hs =>
    obtain ⟨-, sorted⟩ := List.pairwise_cons.mp sorted
    have ending := covers opened List.mem_cons_self (early opened List.mem_cons_self)
    have late : ∀ t ∈ ts, til ≤ t :=
      forall_le_of_head? (List.pairwise_append.mp sorted).2.1 fun t ht =>
        ending.trans (outside t ht)
    rw [List.flatMap_cons, List.countP_append, countP_windows_eq_zero hs late]
    exact countP_fallsInto_le (opened :: rest)

/-- Of sorted events at most twice `n` in the span are among the first `n` of their window, if a
window that opens in the span does not end before it. -/
theorem countP_windows_le {windows : List (List τ)} {ts : List τ} (hs : Splits ends windows ts)
    (sorted : ts.Pairwise (· ≤ ·)) (covers : ∀ t ∈ ts, since ≤ t → til ≤ ends t) :
    (windows.flatMap numbered).countP (fallsInto since til n) ≤ 2 * n := by
  induction hs with
  | nil => exact Nat.zero_le _
  | @cons opened rest ts windows _ _ hs ih =>
    rw [← List.cons_append] at sorted covers
    obtain ⟨-, sortedLater, before⟩ := List.pairwise_append.mp sorted
    have coversLater : ∀ t ∈ ts, since ≤ t → til ≤ ends t :=
      fun t ht => covers t (List.mem_append_right _ ht)
    rw [List.flatMap_cons, List.countP_append]
    by_cases h : ∃ t ∈ opened :: rest, since ≤ t
    · obtain ⟨t, ht, hsince⟩ := h
      have first : (numbered (opened :: rest)).countP (fallsInto since til n) ≤ n :=
        countP_fallsInto_le _
      have later := countP_windows_le_of_opened (n := n) hs sortedLater coversLater fun u hu =>
        hsince.trans (before t ht u hu)
      omega
    · have first : (numbered (opened :: rest)).countP (fallsInto since til n) = 0 := by
        rw [List.countP_eq_zero]
        rintro p hp hf
        simp only [fallsInto, decide_eq_true_eq] at hf
        exact h ⟨p.time, time_mem_of_numbered hp, hf.2.1⟩
      rw [first, Nat.zero_add]
      exact ih sortedLater coversLater

/-- However the events are placed, such a span has at most twice `n` of them that are among the
first `n` of their window. -/
theorem countP_places_le (n : ℕ) {ts : List τ} (sorted : ts.Pairwise (· ≤ ·))
    (covers : ∀ t ∈ ts, since ≤ t → til ≤ ends t) :
    (places ends none ts).countP (fallsInto since til n) ≤ 2 * n := by
  obtain ⟨windows, hs, hplaces⟩ := exists_splits ends ts
  rw [hplaces]
  exact countP_windows_le hs sorted covers

theorem sorted_of_mem_windows {windows : List (List τ)} {ts : List τ}
    (hs : Splits ends windows ts) (sorted : ts.Pairwise (· ≤ ·)) {window : List τ}
    (hw : window ∈ windows) : window.Pairwise (· ≤ ·) := by
  induction hs with
  | nil => cases hw
  | cons _ _ _ ih =>
    rw [← List.cons_append] at sorted
    obtain ⟨own, later, -⟩ := List.pairwise_append.mp sorted
    rcases List.mem_cons.mp hw with rfl | hw
    · exact own
    · exact ih later hw

/-- An event whose number is above `n` comes after `n` others that are among the first `n` of their
window, before a window that any of them opened would end. -/
theorem le_countP_places (hends : Monotone ends) {n : ℕ} {ts : List τ} (hw : ∀ t ∈ ts, t < ends t)
    (sorted : ts.Pairwise (· ≤ ·)) {p : Place τ} (hp : p ∈ places ends none ts)
    (hn : n < p.number) :
    n ≤ (places ends none ts).countP fun q =>
      q.number ≤ n ∧ q.time ≤ p.time ∧ p.time < ends q.time := by
  have within {q : Place τ} (hq : q ∈ places ends none ts) :
      q.opened ≤ q.time ∧ q.time < ends q.opened := within_of_mem hw sorted (by simp) hq
  obtain ⟨windows, hs, hplaces⟩ := exists_splits ends ts
  rw [hplaces] at hp within ⊢
  obtain ⟨window, hmem, hp⟩ := List.mem_flatMap.mp hp
  have sortedWindow := sorted_of_mem_windows hs sorted hmem
  have counted : n ≤ (numbered window).countP fun q => q.number ≤ n ∧ q.time ≤ p.time := by
    cases window with
    | nil => cases hp
    | cons opened rest => exact le_countP_numberedFrom sortedWindow hp hn
  have sameWindow : ∀ q ∈ numbered window, q.opened = p.opened := by
    intro q hq
    cases window with
    | nil => cases hp
    | cons opened rest => rw [opened_of_numberedFrom hq, opened_of_numberedFrom hp]
  have part : (numbered window).Sublist (windows.flatMap numbered) :=
    List.sublist_flatten_of_mem (List.mem_map_of_mem hmem)
  refine counted.trans (le_trans ?_ part.countP_le)
  refine List.countP_mono_left fun q hq h => ?_
  simp only [decide_eq_true_eq] at h ⊢
  refine ⟨h.1, h.2, (within (List.mem_flatMap.mpr ⟨window, hmem, hp⟩)).2.trans_le ?_⟩
  rw [← sameWindow q hq]
  exact hends (within (List.mem_flatMap.mpr ⟨window, hmem, hq⟩)).1

end Kyc.FixedWindow
