import Kyc.Programs.Interleaving
import Mathlib.Data.List.Nodup

/-! # Linearization points

Programs interleave on one state, and each is to act on an abstract state once, at
one of its steps. When every step of a schedule either leaves the abstract state
alone or is the one at which its program acts, the run ends where the calls end
that are made one after the other, in the order of these steps.
-/

namespace Kyc

universe u

namespace Pool

variable {S : Signature.{u}} {ε σ α κ τ : Type} (h : Handler S ε σ) (prog : κ → Program S ε α)

/-- Every step of a schedule is taken in a state that meets the condition. -/
def StepsMeet (cond : κ → σ → Program S ε α → Prop) : Pool S ε σ α κ → List ℕ → Prop
  | _, [] => True
  | pool, i :: steps =>
    (∀ t, pool.threads[i]? = some t → cond t.call pool.state t.rest) ∧
      StepsMeet cond (pool.next h prog (.step i)) steps

def inOrder (effect : κ → τ → τ) (calls : List κ) (a : τ) : τ :=
  calls.foldl (fun a c => effect c a) a

def callsAt (calls : List κ) (order : List ℕ) : List κ := order.filterMap (calls[·]?)

/-- A program is pending until its linearization point and done from there on. -/
structure Linearizes (R : σ → τ → Prop) (effect : κ → τ → τ)
    (cond : κ → σ → Program S ε α → Prop) (Pending : κ → Program S ε α → Prop)
    (Done : Program S ε α → Prop) : Prop where
  pending_step : ∀ {c p s a}, Pending c p → cond c s p → R s a →
    (Pending c (p.advance h s).1 ∧ R (p.advance h s).2 a) ∨
      (Done (p.advance h s).1 ∧ R (p.advance h s).2 (effect c a))
  done_step : ∀ {p s a}, Done p → R s a →
    Done (p.advance h s).1 ∧ R (p.advance h s).2 a

/-- The programs whose points lie behind are the ones in `order`, and the state is where their
calls lead in this order. -/
structure Linearized (R : σ → τ → Prop) (effect : κ → τ → τ) (Pending : κ → Program S ε α → Prop)
    (Done : Program S ε α → Prop) (calls : List κ) (a : τ) (pool : Pool S ε σ α κ)
    (order : List ℕ) : Prop where
  threads : pool.threads.map Thread.call = calls
  nodup : order.Nodup
  bound : ∀ i ∈ order, i < calls.length
  placed : ∀ i t, pool.threads[i]? = some t →
    (i ∈ order → Done t.rest) ∧ (i ∉ order → Pending t.call t.rest)
  state : R pool.state (inOrder effect (callsAt calls order) a)

variable {h prog} {R : σ → τ → Prop} {effect : κ → τ → τ} {cond : κ → σ → Program S ε α → Prop}
  {Pending : κ → Program S ε α → Prop} {Done : Program S ε α → Prop} {calls : List κ} {a : τ}
  {pool : Pool S ε σ α κ}

theorem inOrder_append (calls calls' : List κ) (a : τ) :
    inOrder effect (calls ++ calls') a = inOrder effect calls' (inOrder effect calls a) :=
  List.foldl_append

theorem inOrder_of_idle (hi : ∀ c ∈ calls, ∀ a, effect c a = a) (a : τ) :
    inOrder effect calls a = a := by
  induction calls generalizing a with
  | nil => rfl
  | cons c calls ih =>
    rw [inOrder, List.foldl_cons, hi c List.mem_cons_self]
    exact ih (fun c' hc' => hi c' (List.mem_cons_of_mem _ hc')) a

theorem callsAt_append (order order' : List ℕ) :
    callsAt calls (order ++ order') = callsAt calls order ++ callsAt calls order' :=
  List.filterMap_append

theorem callsAt_range (calls : List κ) : callsAt calls (List.range calls.length) = calls := by
  induction calls with
  | nil => rfl
  | cons c calls ih =>
    rw [callsAt, List.length_cons, List.range_succ_eq_map, List.filterMap_cons, List.filterMap_map]
    exact congrArg (c :: ·) ih

theorem map_call_set {threads : List (Thread S ε α κ)} {i : ℕ} {t : Thread S ε α κ}
    (hi : threads[i]? = some t) (p : Program S ε α) :
    (threads.set i ⟨t.call, p⟩).map Thread.call = threads.map Thread.call := by
  apply List.ext_getElem?
  intro j
  rw [List.getElem?_map, List.getElem?_map, List.getElem?_set]
  by_cases hij : i = j
  · subst hij
    have hlt : i < threads.length := (List.getElem?_eq_some_iff.mp hi).1
    rw [if_pos rfl, if_pos hlt, hi]
    rfl
  · rw [if_neg hij]

theorem Linearized.placed_set {order order' : List ℕ}
    (hl : Linearized R effect Pending Done calls a pool order) {i : ℕ} {t : Thread S ε α κ}
    (hi : pool.threads[i]? = some t) {p : Program S ε α}
    (hsame : ∀ j, j ≠ i → (j ∈ order' ↔ j ∈ order)) (hd : i ∈ order' → Done p)
    (hp : i ∉ order' → Pending t.call p) :
    ∀ j t', (pool.threads.set i ⟨t.call, p⟩)[j]? = some t' →
      (j ∈ order' → Done t'.rest) ∧ (j ∉ order' → Pending t'.call t'.rest) := by
  intro j t' hj
  rw [List.getElem?_set] at hj
  by_cases hij : i = j
  · subst hij
    rw [if_pos rfl, if_pos (List.getElem?_eq_some_iff.mp hi).1] at hj
    obtain rfl := Option.some.inj hj
    exact ⟨hd, hp⟩
  · rw [if_neg hij] at hj
    rw [hsame j (Ne.symm hij)]
    exact hl.placed j t' hj

theorem Linearizes.next (L : Linearizes h R effect cond Pending Done) {order : List ℕ}
    (hl : Linearized R effect Pending Done calls a pool order) {i : ℕ}
    (hc : ∀ t, pool.threads[i]? = some t → cond t.call pool.state t.rest) :
    ∃ order', Linearized R effect Pending Done calls a (pool.next h prog (.step i)) order' := by
  cases hi : pool.threads[i]? with
  | none => exact ⟨order, by rw [next_step_none h prog hi]; exact hl⟩
  | some t =>
    rw [next_step_some h prog hi]
    have hcall : calls[i]? = some t.call := by
      rw [← hl.threads, List.getElem?_map, hi]; rfl
    by_cases hmem : i ∈ order
    · obtain ⟨hd, hR⟩ := L.done_step ((hl.placed i t hi).1 hmem) hl.state
      exact ⟨order, (map_call_set hi _).trans hl.threads, hl.nodup, hl.bound,
        hl.placed_set hi (fun _ _ => Iff.rfl) (fun _ => hd) (fun hn => absurd hmem hn), hR⟩
    · rcases L.pending_step ((hl.placed i t hi).2 hmem) (hc t hi) hl.state with
        ⟨hp, hR⟩ | ⟨hd, hR⟩
      · exact ⟨order, (map_call_set hi _).trans hl.threads, hl.nodup, hl.bound,
          hl.placed_set hi (fun _ _ => Iff.rfl) (fun hm => absurd hm hmem) (fun _ => hp), hR⟩
      · refine ⟨order ++ [i], (map_call_set hi _).trans hl.threads, ?_, ?_, ?_, ?_⟩
        · exact List.nodup_append.mpr ⟨hl.nodup, List.nodup_singleton i, by
            rintro j hj k hk rfl
            rw [List.mem_singleton] at hk
            exact hmem (hk ▸ hj)⟩
        · intro j hj
          rcases List.mem_append.mp hj with hj | hj
          · exact hl.bound j hj
          · obtain rfl := List.mem_singleton.mp hj
            exact (List.getElem?_eq_some_iff.mp hcall).1
        · refine hl.placed_set hi (fun j hj => ?_) (fun _ => hd) fun hn => ?_
          · simp [hj]
          · exact absurd (List.mem_append_right _ (List.mem_singleton.mpr rfl)) hn
        · rw [callsAt_append, inOrder_append]
          simpa only [callsAt, List.filterMap_cons, List.filterMap_nil, hcall, inOrder,
            List.foldl_cons, List.foldl_nil] using hR

theorem Linearizes.run (L : Linearizes h R effect cond Pending Done) {order : List ℕ}
    (hl : Linearized R effect Pending Done calls a pool order) {steps : List ℕ}
    (hc : StepsMeet h prog cond pool steps) :
    ∃ order',
      Linearized R effect Pending Done calls a (pool.run h prog (steps.map .step)) order' := by
  induction steps generalizing pool order with
  | nil => exact ⟨order, hl⟩
  | cons i steps ih =>
    obtain ⟨order', hl'⟩ := L.next hl hc.1
    exact ih hl' hc.2

/-- A run in which what is still pending has no effect ends where all calls end in some order. -/
theorem Linearized.all {order : List ℕ} (hl : Linearized R effect Pending Done calls a pool order)
    (hp : ∀ c p, Pending c p → (⟨c, p⟩ : Thread S ε α κ) ∈ pool.threads → ∀ a, effect c a = a) :
    ∃ calls', calls'.Perm calls ∧ R pool.state (inOrder effect calls' a) := by
  set rest := (List.range calls.length).filter (· ∉ order) with hrest
  have hmem : ∀ i, i ∈ rest ↔ i < calls.length ∧ i ∉ order := by
    intro i
    simp only [hrest, List.mem_filter, List.mem_range, decide_eq_true_eq]
  have hperm : (order ++ rest).Perm (List.range calls.length) := by
    refine (List.perm_ext_iff_of_nodup (List.nodup_append.mpr
      ⟨hl.nodup, List.nodup_range.filter _, ?_⟩) List.nodup_range).mpr fun i => ?_
    · rintro i hi j hj rfl
      exact ((hmem i).mp hj).2 hi
    · rw [List.mem_append, hmem, List.mem_range]
      constructor
      · rintro (hi | hi)
        · exact hl.bound i hi
        · exact hi.1
      · intro hi
        by_cases hm : i ∈ order
        · exact Or.inl hm
        · exact Or.inr ⟨hi, hm⟩
  refine ⟨callsAt calls (order ++ rest), ?_, ?_⟩
  · have := hperm.filterMap (calls[·]?)
    rwa [← callsAt, ← callsAt, callsAt_range] at this
  · rw [callsAt_append, inOrder_append, inOrder_of_idle]
    · exact hl.state
    · intro c hc
      obtain ⟨i, hi, hci⟩ := List.mem_filterMap.mp hc
      rw [← hl.threads, List.getElem?_map, Option.map_eq_some_iff] at hci
      obtain ⟨t, ht, rfl⟩ := hci
      exact hp t.call t.rest ((hl.placed i t ht).2 ((hmem i).mp hi).2) (List.mem_of_getElem? ht)

theorem Linearizes.serial (L : Linearizes h R effect cond Pending Done) {s : σ}
    (hR : R s a) (hfresh : ∀ c ∈ calls, Pending c (prog c)) {steps : List ℕ}
    (hc : StepsMeet h prog cond ((idle s).run h prog (calls.map .start)) steps)
    (hp : ∀ c p, Pending c p → (⟨c, p⟩ : Thread S ε α κ) ∈
      ((idle s).run h prog (calls.map .start ++ steps.map .step)).threads →
        ∀ a, effect c a = a) :
    ∃ calls', calls'.Perm calls ∧
      R ((idle s).run h prog (calls.map .start ++ steps.map .step)).state
        (inOrder effect calls' a) := by
  rw [run_append] at hp ⊢
  have hl :
      Linearized R effect Pending Done calls a ((idle s).run h prog (calls.map .start)) [] := by
    rw [run_start]
    refine ⟨?_, List.nodup_nil, by simp, fun i t ht => ⟨by simp, fun _ => ?_⟩, hR⟩
    · rw [idle, List.nil_append, List.map_map]
      exact List.map_id calls
    · rw [idle, List.nil_append, List.getElem?_map, Option.map_eq_some_iff] at ht
      obtain ⟨c, hc, rfl⟩ := ht
      exact hfresh c (List.mem_of_getElem? hc)
  obtain ⟨order, hl'⟩ := L.run hl hc
  exact hl'.all hp

end Pool

end Kyc
