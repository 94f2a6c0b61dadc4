import Kyc.Programs.Stable

/-! # Programs that start later

Something comes to hold in the course of a run, and holds from then on. Programs that start
after that may count on it besides what all programs count on, and those that started
before are none the less safe.
-/

namespace Kyc

universe u

variable {σ : Type}

/-- The discipline where something more is known that is never lost. -/
def Discipline.restrict (D : Discipline σ) (P : σ → Prop) : Discipline σ where
  Inv s := D.Inv s ∧ P s
  Le := D.Le
  refl := D.refl
  trans := D.trans

variable {S : Signature.{u}} {ε α κ : Type} {D : Discipline σ} {h : Handler S ε σ} {P : σ → Prop}

theorem Program.Safe.restrict {G : σ → σ → Prop} {Q : Except ε α → σ → Prop}
    {p : Program S ε α} {s : σ} (hP : ∀ s s', D.Le s s' → P s → P s') (hp : p.Safe D h G Q s) :
    p.Safe (D.restrict P) h G Q s := by
  induction p generalizing s with
  | ret | err => exact fun s' hs hi => hp s' hs hi.1
  | await o k ih =>
    intro s' hs hi
    obtain ⟨hi', hle, hg, hk⟩ := hp s' hs hi.1
    exact ⟨⟨hi', hP _ _ hle hi.2⟩, hle, hg, ih _ hk⟩

theorem Program.Safe.of_result {G : σ → σ → Prop} {Q : Except ε α → σ → Prop}
    {p : Program S ε α} {s : σ} {r : Except ε α} (hp : p.Safe D h G Q s) (hi : D.Inv s)
    (hr : p.result = some r) : Q r s := by
  cases p with
  | ret | err =>
    cases hr
    exact hp s (D.refl s) hi
  | await => cases hr

namespace Pool

open Program

variable {prog : κ → Program S ε α} {G : κ → σ → σ → Prop} {Q : κ → Except ε α → σ → Prop}
  {pool : Pool S ε σ α κ}

theorem AllSafe.restrict (ha : AllSafe D h G Q pool) (hP : ∀ s s', D.Le s s' → P s → P s')
    (hs : P pool.state) : AllSafe (D.restrict P) h G Q pool :=
  ⟨⟨ha.inv, hs⟩, fun t ht => (ha.threads t ht).restrict hP⟩

/-- One program among others that are safe stays as safe as it is. -/
theorem AllSafe.follow (hg : ∀ c s, G c s s) (ha : AllSafe D h G Q pool) (evs : List (Event κ))
    (hstart : ∀ c, .start c ∈ evs → ∀ s, D.Inv s → (prog c).Safe D h (G c) (Q c) s) {i : ℕ}
    {t : Thread S ε α κ} (hi : pool.threads[i]? = some t) {R : Except ε α → σ → Prop}
    (ht : t.rest.Safe D h (G t.call) R pool.state) :
    ∃ t', (pool.run h prog evs).threads[i]? = some t' ∧ t'.call = t.call ∧
      t'.rest.Safe D h (G t'.call) R (pool.run h prog evs).state := by
  induction evs generalizing pool t with
  | nil => exact ⟨t, hi, rfl, ht⟩
  | cons ev evs ih =>
    have next : AllSafe D h G Q (pool.next h prog ev) :=
      ha.next hg ev fun c hc => hstart c (hc ▸ List.mem_cons_self)
    have later := fun c hc => hstart c (List.mem_cons_of_mem _ hc)
    cases ev with
    | start c =>
      exact ih next later
        ((List.getElem?_append_left (List.getElem?_eq_some_iff.mp hi).1).trans hi) ht
    | step j =>
      cases hj : pool.threads[j]? with
      | none =>
        rw [run_cons, next_step_none h prog hj]
        rw [next_step_none h prog hj] at next
        exact ih next later hi ht
      | some t' =>
        by_cases hij : j = i
        · subst hij
          obtain rfl := Option.some.inj (hj.symm.trans hi)
          obtain ⟨-, -, -, hrest⟩ := ht.advance ha.inv (hg t'.call)
          have moved := get_next_step h prog hi
          have state : (pool.next h prog (.step j)).state = (t'.rest.advance h pool.state).2 := by
            rw [next_step_some h prog hi]
          obtain ⟨t, hi', hcall, hsafe⟩ := ih next later moved (by rwa [state])
          exact ⟨t, hi', hcall, hsafe⟩
        · have hle : D.Le pool.state (pool.next h prog (.step j)).state := by
            rw [next_step_some h prog hj]
            have other := ha.threads t' (List.mem_of_getElem? hj)
            exact (other.advance ha.inv (hg t'.call)).2.1
          have kept : (pool.next h prog (.step j)).threads[i]? = some t := by
            rw [next_step_some h prog hj]
            exact (List.getElem?_set_ne hij).trans hi
          exact ih next later kept (ht.later hle)

/-- A program that was not in the pool before the run was started in it. -/
theorem exists_started {evs : List (Event κ)} {i : ℕ} {t : Thread S ε α κ}
    (hi : (pool.run h prog evs).threads[i]? = some t) (hn : pool.threads.length ≤ i) :
    ∃ past c later, evs = past ++ .start c :: later ∧
      (pool.run h prog past).threads.length = i := by
  induction evs generalizing pool with
  | nil => exact absurd (List.getElem?_eq_some_iff.mp hi).1 (Nat.not_lt.mpr hn)
  | cons ev evs ih =>
    have further (hn : (pool.next h prog ev).threads.length ≤ i) :
        ∃ past c later, ev :: evs = past ++ .start c :: later ∧
          (pool.run h prog past).threads.length = i := by
      obtain ⟨past, c, later, rfl, length⟩ := ih hi hn
      exact ⟨ev :: past, c, later, rfl, length⟩
    cases ev with
    | start c =>
      have length : (pool.next h prog (.start c)).threads.length = pool.threads.length + 1 :=
        List.length_append
      rcases Nat.eq_or_lt_of_le hn with heq | hlt
      · exact ⟨[], c, evs, rfl, heq⟩
      · exact further (length ▸ hlt)
    | step j =>
      refine further ?_
      cases hj : pool.threads[j]? with
      | none => rwa [next_step_none h prog hj]
      | some t' =>
        rw [next_step_some h prog hj, List.length_set]
        exact hn

/-- What programs that start later settle with, among others that are safe. -/
theorem AllSafe.later (hg : ∀ c s, G c s s) (ha : AllSafe D h G Q pool) (evs : List (Event κ))
    (hstart : ∀ c, .start c ∈ evs → ∀ s, D.Inv s → (prog c).Safe D h (G c) (Q c) s)
    {R : κ → Except ε α → σ → Prop}
    (hR : ∀ c, .start c ∈ evs → ∀ s, D.Inv s → (prog c).Safe D h (G c) (R c) s) {i : ℕ}
    {t : Thread S ε α κ} (hi : (pool.run h prog evs).threads[i]? = some t)
    (hn : pool.threads.length ≤ i) :
    t.rest.Safe D h (G t.call) (R t.call) (pool.run h prog evs).state := by
  obtain ⟨past, c, later, rfl, length⟩ := exists_started hi hn
  have before : AllSafe D h G Q (pool.run h prog past) :=
    ha.run hg past fun c hc => hstart c (List.mem_append_left _ hc)
  have start : .start c ∈ past ++ .start c :: later :=
    List.mem_append_right past List.mem_cons_self
  have started : ((pool.run h prog past).next h prog (.start c)).threads[i]? =
      some ⟨c, prog c⟩ := by
    rw [← length]
    exact List.getElem?_concat_length
  have next : AllSafe D h G Q ((pool.run h prog past).next h prog (.start c)) :=
    before.next hg _ fun c' hc => by
      obtain rfl := Event.start.inj hc
      exact hstart c start
  obtain ⟨t', hi', hcall, hsafe⟩ := next.follow hg later
    (fun c hc => hstart c (List.mem_append_right past (List.mem_cons_of_mem _ hc))) started
    (hR c start _ before.inv)
  rw [run_append] at hi
  rw [run_append]
  obtain rfl := Option.some.inj (hi'.symm.trans hi)
  obtain rfl : t'.call = c := hcall
  exact hsafe

end Pool

end Kyc
