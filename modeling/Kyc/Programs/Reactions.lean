import Mathlib.Data.List.Induction

/-! # Reacting to inputs

A machine that reacts to one input after the other. What holds in every state that a
run passes through is told apart from what every single reaction has to meet for it.
-/

namespace Kyc.Reactions

variable {σ ι : Type} (react : σ → ι → σ)

def run (s : σ) (inputs : List ι) : σ := inputs.foldl react s

theorem run_append (s : σ) (inputs inputs' : List ι) :
    run react s (inputs ++ inputs') = run react (run react s inputs) inputs' :=
  List.foldl_append

theorem run_concat (s : σ) (inputs : List ι) (i : ι) :
    run react s (inputs ++ [i]) = react (run react s inputs) i :=
  run_append react s inputs [i]

def Always (P : σ → Prop) : σ → List ι → Prop
  | s, [] => P s
  | s, i :: inputs => P s ∧ Always P (react s i) inputs

def Meets (C : σ → ι → Prop) : σ → List ι → Prop
  | _, [] => True
  | s, i :: inputs => C s i ∧ Meets C (react s i) inputs

instance decidableAlways (P : σ → Prop) [∀ s, Decidable (P s)] :
    (s : σ) → (inputs : List ι) → Decidable (Always react P s inputs)
  | s, [] => inferInstanceAs (Decidable (P s))
  | s, i :: inputs =>
    haveI := decidableAlways P (react s i) inputs
    inferInstanceAs (Decidable (P s ∧ Always react P (react s i) inputs))

instance decidableMeets (C : σ → ι → Prop) [∀ s i, Decidable (C s i)] :
    (s : σ) → (inputs : List ι) → Decidable (Meets react C s inputs)
  | _, [] => .isTrue trivial
  | s, i :: inputs =>
    haveI := decidableMeets C (react s i) inputs
    inferInstanceAs (Decidable (C s i ∧ Meets react C (react s i) inputs))

variable {react} {P I : σ → Prop} {C : σ → ι → Prop} {s : σ} {inputs : List ι}

theorem Always.first (h : Always react P s inputs) : P s := by
  cases inputs with
  | nil => exact h
  | cons => exact h.1

theorem run_related {G : σ → σ → Prop} (hr : ∀ s, G s s) (ht : ∀ {a b c}, G a b → G b c → G a c)
    (hG : ∀ s i, G s (react s i)) (s : σ) (inputs : List ι) : G s (run react s inputs) := by
  induction inputs generalizing s with
  | nil => exact hr s
  | cons i inputs ih => exact ht (hG s i) (ih (react s i))

theorem run_traced {P : σ → List ι → Prop}
    (hstep : ∀ s past i, P s past → P (react s i) (past ++ [i])) {past : List ι} (hs : P s past)
    (inputs : List ι) : P (run react s inputs) (past ++ inputs) := by
  induction inputs generalizing s past with
  | nil =>
    rw [List.append_nil]
    exact hs
  | cons i inputs ih =>
    have reacted := ih (hstep s past i hs)
    rwa [List.append_assoc] at reacted

theorem Meets.run (hstep : ∀ s i, P s → C s i → P (react s i)) (hs : P s)
    (hm : Meets react C s inputs) : P (run react s inputs) := by
  induction inputs generalizing s with
  | nil => exact hs
  | cons i inputs ih => exact ih (hstep s i hs hm.1) hm.2

theorem meets_append_iff {inputs' : List ι} :
    Meets react C s (inputs ++ inputs') ↔
      Meets react C s inputs ∧ Meets react C (Reactions.run react s inputs) inputs' := by
  induction inputs generalizing s with
  | nil => exact (and_iff_right trivial).symm
  | cons i inputs ih =>
    constructor
    · rintro ⟨hc, h⟩
      obtain ⟨first, second⟩ := ih.mp h
      exact ⟨⟨hc, first⟩, second⟩
    · rintro ⟨⟨hc, first⟩, second⟩
      exact ⟨hc, ih.mpr ⟨first, second⟩⟩

theorem meets_iff : Meets react C s inputs ↔
    ∀ pre i, pre ++ [i] <+: inputs → C (Reactions.run react s pre) i := by
  induction inputs generalizing s with
  | nil => exact iff_of_true trivial fun pre i hp => by simp at hp
  | cons j inputs ih =>
    constructor
    · rintro ⟨hc, hm⟩ pre i hp
      cases pre with
      | nil =>
        obtain ⟨rfl, -⟩ := List.cons_prefix_cons.mp hp
        exact hc
      | cons k pre =>
        obtain ⟨rfl, hpre⟩ := List.cons_prefix_cons.mp hp
        exact ih.mp hm pre i hpre
    · intro h
      refine ⟨h [] j (List.prefix_append [j] inputs), ih.mpr fun pre i hp => ?_⟩
      exact h (j :: pre) i (List.cons_prefix_cons.mpr ⟨rfl, hp⟩)

theorem kept_iff_meets {U : ι → Prop} :
    (∀ pre mid, pre ++ mid <+: inputs → P (Reactions.run react s pre) → (∀ i ∈ mid, ¬ U i) →
      P (Reactions.run react s (pre ++ mid))) ↔
      Meets react (fun s i => P s → ¬ U i → P (react s i)) s inputs := by
  rw [meets_iff]
  constructor
  · intro h pre i hp hP hU
    have hkept := h pre [i] hp hP fun j hj => by rwa [List.mem_singleton.mp hj]
    rwa [run_concat] at hkept
  · intro h pre mid hp hP hU
    induction mid using List.reverseRecOn with
    | nil => rwa [List.append_nil]
    | append_singleton mid i ih =>
      rw [← List.append_assoc] at hp ⊢
      rw [run_concat]
      apply h _ _ hp
      · exact ih ((List.prefix_append _ _).trans hp)
          fun j hj => hU j (List.mem_append_left _ hj)
      · exact hU i (List.mem_append_right _ List.mem_cons_self)

theorem Meets.of_prefix {inputs' : List ι} (h : inputs' <+: inputs) (hm : Meets react C s inputs) :
    Meets react C s inputs' := by
  obtain ⟨rest, rfl⟩ := h
  exact (meets_append_iff.mp hm).1

theorem Meets.always (hstep : ∀ s i, I s → C s i → I (react s i)) (hP : ∀ s, I s → P s)
    (hs : I s) (hm : Meets react C s inputs) : Always react P s inputs := by
  induction inputs generalizing s with
  | nil => exact hP s hs
  | cons i inputs ih => exact ⟨hP s hs, ih (hstep s i hs hm.1) hm.2⟩

/-- When a reaction keeps the property exactly under the condition, a run keeps it exactly when all
of its reactions meet the condition. -/
theorem always_iff_meets (hI : ∀ s i, I s → I (react s i))
    (hstep : ∀ s, ∀ i ∈ inputs, I s → P s → (P (react s i) ↔ C s i)) (hi : I s) (hs : P s) :
    Always react P s inputs ↔ Meets react C s inputs := by
  induction inputs generalizing s with
  | nil => exact iff_of_true hs trivial
  | cons i inputs ih =>
    have hiff := hstep s i List.mem_cons_self hi hs
    have hrest := fun h => ih (fun s j hj => hstep s j (List.mem_cons_of_mem i hj)) (hI s i hi) h
    constructor
    · rintro ⟨-, h⟩
      exact ⟨hiff.mp h.first, (hrest h.first).mp h⟩
    · rintro ⟨hc, h⟩
      exact ⟨hs, (hrest (hiff.mpr hc)).mpr h⟩

end Kyc.Reactions
