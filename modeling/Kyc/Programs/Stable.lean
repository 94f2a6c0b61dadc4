import Kyc.Programs.Interleaving

/-! # Programs among others

`p.Safe D h G Q s` says how a program fares from `s` on while others act in between. As
long as they keep an invariant and only move the state forward, each of its own steps
does so too and is one it may take, and `Q` holds when it has settled. Programs that
are safe each by itself are safe together, in every interleaving.
-/

namespace Kyc

universe u

/-- What programs on one state may count on from each other: an invariant, and a preorder along
which the state moves. -/
structure Discipline (σ : Type) where
  Inv : σ → Prop
  Le : σ → σ → Prop
  refl : ∀ s, Le s s
  trans : ∀ {s s' s'' : σ}, Le s s' → Le s' s'' → Le s s''

namespace Program

variable {S : Signature.{u}} {ε σ α β : Type}

/-- Among others that keep the discipline, the program keeps it too, takes only steps in `G`, and
settles with `Q`. -/
def Safe (D : Discipline σ) (h : Handler S ε σ) (G : σ → σ → Prop) (Q : Except ε α → σ → Prop) :
    Program S ε α → σ → Prop
  | .ret a, s => ∀ s', D.Le s s' → D.Inv s' → Q (.ok a) s'
  | .err e, s => ∀ s', D.Le s s' → D.Inv s' → Q (.error e) s'
  | .await o k, s => ∀ s', D.Le s s' → D.Inv s' →
    D.Inv (h o s').2 ∧ D.Le s' (h o s').2 ∧ G s' (h o s').2 ∧
      (k (h o s').1).Safe D h G Q (h o s').2

variable {D : Discipline σ} {h : Handler S ε σ} {G : σ → σ → Prop} {Q Q' : Except ε α → σ → Prop}
  {R : Except ε β → σ → Prop} {p : Program S ε α} {s s' : σ}

theorem Safe.later (hp : p.Safe D h G Q s) (hs : D.Le s s') : p.Safe D h G Q s' := by
  cases p with
  | ret | err | await => exact fun s'' hs' hi => hp s'' (D.trans hs hs') hi

theorem safe_pure {a : α} (hQ : ∀ s', D.Le s s' → D.Inv s' → Q (.ok a) s') :
    (pure a : Program S ε α).Safe D h G Q s := hQ

theorem safe_throw {e : ε} (hQ : ∀ s', D.Le s s' → D.Inv s' → Q (.error e) s') :
    (throw e : Program S ε α).Safe D h G Q s := hQ

theorem safe_perform {o : S.Op} {Q : Except ε (S.Ans o) → σ → Prop}
    (ho : ∀ s', D.Le s s' → D.Inv s' →
      D.Inv (h o s').2 ∧ D.Le s' (h o s').2 ∧ G s' (h o s').2 ∧
        ∀ s'', D.Le (h o s').2 s'' → D.Inv s'' → Q (h o s').1 s'') :
    (perform o : Program S ε (S.Ans o)).Safe D h G Q s := by
  intro s' hs hi
  obtain ⟨hi', hle, hg, hQ⟩ := ho s' hs hi
  refine ⟨hi', hle, hg, ?_⟩
  cases hr : (h o s').1 with
  | ok | error => rw [hr] at hQ; exact hQ

theorem Safe.bind {f : α → Program S ε β} (hp : p.Safe D h G Q s) (hi : D.Inv s)
    (hf : ∀ a s', D.Le s s' → D.Inv s' → Q (.ok a) s' → (f a).Safe D h G R s')
    (he : ∀ e s', D.Le s s' → D.Inv s' → Q (.error e) s' → R (.error e) s') :
    (p >>= f).Safe D h G R s := by
  change (p.bind f).Safe D h G R s
  induction p generalizing s with
  | ret a => exact hf a s (D.refl s) hi (hp s (D.refl s) hi)
  | err e => exact fun s' hs hi' => he e s' hs hi' (hp s' hs hi')
  | await o k ih =>
    intro s' hs hi'
    obtain ⟨hi'', hle, hg, hk⟩ := hp s' hs hi'
    refine ⟨hi'', hle, hg, ih _ hk hi'' ?_ ?_⟩
    · exact fun a t ht => hf a t (D.trans hs (D.trans hle ht))
    · exact fun e t ht => he e t (D.trans hs (D.trans hle ht))

theorem Safe.tryCatch {f : ε → Program S ε α} (hp : p.Safe D h G Q s) (hi : D.Inv s)
    (hf : ∀ e s', D.Le s s' → D.Inv s' → Q (.error e) s' → (f e).Safe D h G Q' s')
    (ha : ∀ a s', D.Le s s' → D.Inv s' → Q (.ok a) s' → Q' (.ok a) s') :
    (tryCatch p f).Safe D h G Q' s := by
  change (p.tryCatch f).Safe D h G Q' s
  induction p generalizing s with
  | ret a => exact fun s' hs hi' => ha a s' hs hi' (hp s' hs hi')
  | err e => exact hf e s (D.refl s) hi (hp s (D.refl s) hi)
  | await o k ih =>
    intro s' hs hi'
    obtain ⟨hi'', hle, hg, hk⟩ := hp s' hs hi'
    refine ⟨hi'', hle, hg, ih _ hk hi'' ?_ ?_⟩
    · exact fun e t ht => hf e t (D.trans hs (D.trans hle ht))
    · exact fun a t ht => ha a t (D.trans hs (D.trans hle ht))

abbrev Anyhow : Except ε α → σ → Prop := fun _ _ => True

theorem safe_pure_anyhow {a : α} : (pure a : Program S ε α).Safe D h G Anyhow s :=
  fun _ _ _ => trivial

theorem safe_throw_anyhow {e : ε} : (throw e : Program S ε α).Safe D h G Anyhow s :=
  fun _ _ _ => trivial

theorem Safe.bind_anyhow {f : α → Program S ε β} (hp : p.Safe D h G Q s) (hi : D.Inv s)
    (hf : ∀ a s', D.Le s s' → D.Inv s' → Q (.ok a) s' → (f a).Safe D h G Anyhow s') :
    (p >>= f).Safe D h G Anyhow s :=
  hp.bind hi hf fun _ _ _ _ _ => trivial

theorem Safe.tryCatch_anyhow {f : ε → Program S ε α} (hp : p.Safe D h G Q s) (hi : D.Inv s)
    (hf : ∀ e s', D.Le s s' → D.Inv s' → Q (.error e) s' → (f e).Safe D h G Anyhow s') :
    (MonadExcept.tryCatch p f).Safe D h G Anyhow s :=
  hp.tryCatch hi hf fun _ _ _ _ _ => trivial

theorem Safe.advance (hp : p.Safe D h G Q s) (hi : D.Inv s) (hg : ∀ s, G s s) :
    D.Inv (p.advance h s).2 ∧ D.Le s (p.advance h s).2 ∧ G s (p.advance h s).2 ∧
      (p.advance h s).1.Safe D h G Q (p.advance h s).2 := by
  cases p with
  | ret | err => exact ⟨hi, D.refl s, hg s, hp⟩
  | await o k => exact hp s (D.refl s) hi

end Program

namespace Pool

variable {S : Signature.{u}} {ε σ α κ : Type} {h : Handler S ε σ} {prog : κ → Program S ε α}
  {D : Discipline σ} {G : κ → σ → σ → Prop} {Q : κ → Except ε α → σ → Prop}
  {pool : Pool S ε σ α κ}

/-- The state satisfies the invariant, and every program in the pool is safe there. -/
structure AllSafe (D : Discipline σ) (h : Handler S ε σ) (G : κ → σ → σ → Prop)
    (Q : κ → Except ε α → σ → Prop) (pool : Pool S ε σ α κ) : Prop where
  inv : D.Inv pool.state
  threads : ∀ t : Thread S ε α κ, t ∈ pool.threads →
    t.rest.Safe D h (G t.call) (Q t.call) pool.state

theorem allSafe_idle {s : σ} (hi : D.Inv s) :
    AllSafe D h G Q (idle s : Pool S ε σ α κ) :=
  ⟨hi, by simp [idle]⟩

variable (hg : ∀ c s, G c s s)

include hg

theorem AllSafe.step (ha : AllSafe D h G Q pool) {i : ℕ} {t : Thread S ε α κ}
    (hi : pool.threads[i]? = some t) :
    G t.call pool.state (pool.next h prog (.step i)).state := by
  rw [next_step_some h prog hi]
  exact ((ha.threads t (List.mem_of_getElem? hi)).advance ha.inv (hg t.call)).2.2.1

theorem AllSafe.next (ha : AllSafe D h G Q pool) (ev : Event κ)
    (hstart : ∀ c, ev = .start c → ∀ s, D.Inv s → (prog c).Safe D h (G c) (Q c) s) :
    AllSafe D h G Q (pool.next h prog ev) := by
  cases ev with
  | start c =>
    refine ⟨ha.inv, fun t ht => ?_⟩
    rcases List.mem_append.mp ht with ht | ht
    · exact ha.threads t ht
    · obtain rfl := List.mem_singleton.mp ht
      exact hstart c rfl _ ha.inv
  | step i =>
    cases hi : pool.threads[i]? with
    | none => rwa [next_step_none h prog hi]
    | some t =>
      rw [next_step_some h prog hi]
      obtain ⟨hinv, hle, -, hrest⟩ :=
        (ha.threads t (List.mem_of_getElem? hi)).advance ha.inv (hg t.call)
      refine ⟨hinv, fun t' ht' => ?_⟩
      rcases List.mem_or_eq_of_mem_set ht' with ht' | rfl
      · exact (ha.threads t' ht').later hle
      · exact hrest

/-- Calls that are safe in every state of the invariant are safe together. -/
theorem AllSafe.run (ha : AllSafe D h G Q pool) (evs : List (Event κ))
    (hstart : ∀ c, .start c ∈ evs → ∀ s, D.Inv s → (prog c).Safe D h (G c) (Q c) s) :
    AllSafe D h G Q (pool.run h prog evs) := by
  induction evs generalizing pool with
  | nil => exact ha
  | cons ev evs ih =>
    refine ih (ha.next hg ev ?_) fun c hc => hstart c (List.mem_cons_of_mem _ hc)
    rintro c rfl
    exact hstart c List.mem_cons_self

end Pool

end Kyc
