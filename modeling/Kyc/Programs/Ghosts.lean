import Kyc.Programs.Interleaving
import Mathlib.Data.List.Forall2
import Mathlib.Data.List.Induction

/-! # Programs with a ghost

A ghost goes with a program and keeps what the program itself no longer shows: what it
has read, or what it still owes. `p.WithGhost h I N Q g` says that from the ghost `g` on
every operation of `p`, in whatever state of the invariant it is performed, moves the
ghost by `N`, and that `Q` holds when `p` has settled. In a pool every program has a
ghost of its own.
-/

namespace Kyc

universe u

theorem forall₂_set {ξ η : Type*} {R : ξ → η → Prop} {xs : List ξ} {ys : List η}
    (h : List.Forall₂ R xs ys) {x : ξ} {y : η} (hxy : R x y) (i : ℕ) :
    List.Forall₂ R (xs.set i x) (ys.set i y) := by
  induction h generalizing i with
  | nil => exact .nil
  | cons hr hrs ih =>
    cases i with
    | zero => exact .cons hxy hrs
    | succ i => exact .cons hr (ih i)

namespace Program

variable {S : Signature.{u}} {ε σ α β γ : Type}

/-- The operations of the program move the ghost by `N`, and it settles with `Q`. -/
def WithGhost (h : Handler S ε σ) (I : σ → Prop) (N : σ → γ → S.Op → γ → Prop)
    (Q : Except ε α → γ → Prop) : Program S ε α → γ → Prop
  | .ret a, g => Q (.ok a) g
  | .err e, g => Q (.error e) g
  | .await o k, g => ∀ s, I s → ∃ g', N s g o g' ∧ (k (h o s).1).WithGhost h I N Q g'

variable {h : Handler S ε σ} {I : σ → Prop} {N : σ → γ → S.Op → γ → Prop}
  {Q Q' : Except ε α → γ → Prop} {R : Except ε β → γ → Prop} {p : Program S ε α} {g : γ}

theorem withGhost_pure {a : α} (hQ : Q (.ok a) g) :
    (pure a : Program S ε α).WithGhost h I N Q g := hQ

theorem withGhost_throw {e : ε} (hQ : Q (.error e) g) :
    (throw e : Program S ε α).WithGhost h I N Q g := hQ

theorem withGhost_perform {o : S.Op} {Q : Except ε (S.Ans o) → γ → Prop}
    (ho : ∀ s, I s → ∃ g', N s g o g' ∧ Q (h o s).1 g') :
    (perform o : Program S ε (S.Ans o)).WithGhost h I N Q g := by
  intro s hs
  obtain ⟨g', hn, hQ⟩ := ho s hs
  refine ⟨g', hn, ?_⟩
  cases hr : (h o s).1 with
  | ok | error => rw [hr] at hQ; exact hQ

theorem WithGhost.mono (hp : p.WithGhost h I N Q g) (hQ : ∀ r g, Q r g → Q' r g) :
    p.WithGhost h I N Q' g := by
  induction p generalizing g with
  | ret | err => exact hQ _ _ hp
  | await o k ih =>
    intro s hs
    obtain ⟨g', hn, hk⟩ := hp s hs
    exact ⟨g', hn, ih _ hk⟩

theorem WithGhost.bind {f : α → Program S ε β} (hp : p.WithGhost h I N Q g)
    (hf : ∀ a g', Q (.ok a) g' → (f a).WithGhost h I N R g')
    (he : ∀ e g', Q (.error e) g' → R (.error e) g') : (p >>= f).WithGhost h I N R g := by
  change (p.bind f).WithGhost h I N R g
  induction p generalizing g with
  | ret a => exact hf a g hp
  | err e => exact he e g hp
  | await o k ih =>
    intro s hs
    obtain ⟨g', hn, hk⟩ := hp s hs
    exact ⟨g', hn, ih _ hk⟩

theorem WithGhost.tryCatch {f : ε → Program S ε α} (hp : p.WithGhost h I N Q g)
    (hf : ∀ e g', Q (.error e) g' → (f e).WithGhost h I N Q' g')
    (ha : ∀ a g', Q (.ok a) g' → Q' (.ok a) g') : (tryCatch p f).WithGhost h I N Q' g := by
  change (p.tryCatch f).WithGhost h I N Q' g
  induction p generalizing g with
  | ret a => exact ha a g hp
  | err e => exact hf e g hp
  | await o k ih =>
    intro s hs
    obtain ⟨g', hn, hk⟩ := hp s hs
    exact ⟨g', hn, ih _ hk⟩

theorem Uses.withGhost {P : S.Op → Prop} (hp : p.Uses P)
    (hN : ∀ o s, P o → I s → N s g o g) (hQ : ∀ r, Q r g) : p.WithGhost h I N Q g := by
  induction p with
  | ret | err => exact hQ _
  | await o k ih => exact fun s hs => ⟨g, hN o s hp.1 hs, ih _ (hp.2 _)⟩

theorem withGhost_idle (p : Program S ε α) (hN : ∀ o s, I s → N s g o g) (hQ : ∀ r, Q r g) :
    p.WithGhost h I N Q g := by
  induction p with
  | ret | err => exact hQ _
  | await o k ih => exact fun s hs => ⟨g, hN o s hs, ih _⟩

end Program

namespace Pool

open Program

variable {S : Signature.{u}} {ε σ α κ γ : Type} {h : Handler S ε σ} {prog : κ → Program S ε α}
  {I : σ → Prop} {pool : Pool S ε σ α κ}

theorem next_step_cases (pool : Pool S ε σ α κ) (i : ℕ) :
    pool.next h prog (.step i) = pool ∨
      ∃ t o k, pool.threads[i]? = some t ∧ t.rest = .await o k ∧
        pool.next h prog (.step i) =
          { state := (h o pool.state).2
            threads := pool.threads.set i ⟨t.call, k (h o pool.state).1⟩ } := by
  cases hi : pool.threads[i]? with
  | none => exact Or.inl (next_step_none h prog hi)
  | some t =>
    rw [next_step_some h prog hi]
    have hset : pool.threads.set i t = pool.threads := by
      obtain ⟨hlt, rfl⟩ := List.getElem?_eq_some_iff.mp hi
      exact List.set_getElem_self hlt
    obtain ⟨c, p⟩ := t
    cases p with
    | ret | err => exact Or.inl (congrArg (Pool.mk pool.state) hset)
    | await o k => exact Or.inr ⟨_, o, k, rfl, rfl, rfl⟩

/-- A step that is noted at all is noted as the operation that a program awaits. -/
theorem noted_cases {β : Type} {note : σ → Program S ε α → Option β}
    (hnote : ∀ s p, p.result ≠ none → note s p = none) (pool : Pool S ε σ α κ) (i : ℕ) :
    pool.next h prog (.step i) = pool ∧ pool.noted note i = [] ∨
      ∃ t o k, pool.threads[i]? = some t ∧ t.rest = .await o k ∧
        pool.next h prog (.step i) =
          { state := (h o pool.state).2
            threads := pool.threads.set i ⟨t.call, k (h o pool.state).1⟩ } ∧
        pool.noted note i = (note pool.state t.rest).toList.map (i, ·) := by
  obtain he | ⟨t, o, k, hi, hr, he⟩ : pool.next h prog (.step i) = pool ∨ _ :=
    next_step_cases pool i
  · cases hi : pool.threads[i]? with
    | none => exact Or.inl ⟨he, by simp only [noted, hi]⟩
    | some t =>
      cases hr : t.rest with
      | ret | err =>
        have silent : note pool.state t.rest = none := hnote _ _ (by simp [hr, result])
        exact Or.inl ⟨he, by simp only [noted, hi, silent, Option.toList, List.map_nil]⟩
      | await o k =>
        refine Or.inr ⟨t, o, k, rfl, hr, ?_, by simp only [noted, hi]⟩
        rw [next_step_some h prog hi, hr]
        rfl
  · exact Or.inr ⟨t, o, k, hi, hr, he, by simp only [noted, hi]⟩

/-- The operation that the `i`-th program awaits. -/
def awaited (pool : Pool S ε σ α κ) (i : ℕ) : Option S.Op :=
  match pool.threads[i]? with
  | some ⟨_, .await o _⟩ => some o
  | _ => none

theorem awaited_eq_some {i : ℕ} {t : Thread S ε α κ} {o : S.Op}
    {k : Except ε (S.Ans o) → Program S ε α} (hi : pool.threads[i]? = some t)
    (hr : t.rest = .await o k) : pool.awaited i = some o := by
  obtain ⟨c, p⟩ := t
  obtain rfl : p = .await o k := hr
  rw [awaited, hi]

theorem exists_of_awaited {i : ℕ} {o : S.Op} (h : pool.awaited i = some o) :
    ∃ t k, pool.threads[i]? = some t ∧ t.rest = .await o k := by
  unfold awaited at h
  split at h
  next c o' k hi =>
    cases h
    exact ⟨_, k, hi, rfl⟩
  next => cases h

/-- What the `i`-th program has settled with. -/
def outcome (pool : Pool S ε σ α κ) (i : ℕ) : Option (Except ε α) :=
  match pool.threads[i]? with
  | some t => t.rest.result
  | none => none

theorem exists_of_outcome {i : ℕ} {a : α} (h : pool.outcome i = some (.ok a)) :
    ∃ t, pool.threads[i]? = some t ∧ t.rest = .ret a := by
  unfold outcome at h
  split at h
  next t ht =>
    refine ⟨t, ht, ?_⟩
    cases hr : t.rest with
    | ret b =>
      rw [hr] at h
      cases h
      rfl
    | err e =>
      rw [hr] at h
      cases h
    | await o k =>
      rw [hr] at h
      cases h
  next => cases h

/-- Every operation of a run is performed in a state that meets the condition. -/
def Meets (h : Handler S ε σ) (prog : κ → Program S ε α) (C : σ → S.Op → Prop) :
    Pool S ε σ α κ → List (Event κ) → Prop
  | _, [] => True
  | pool, .start c :: evs => Meets h prog C (pool.next h prog (.start c)) evs
  | pool, .step i :: evs =>
    (∀ o ∈ pool.awaited i, C pool.state o) ∧ Meets h prog C (pool.next h prog (.step i)) evs

instance decidableMeets (C : σ → S.Op → Prop) [∀ s o, Decidable (C s o)] :
    (pool : Pool S ε σ α κ) → (evs : List (Event κ)) → Decidable (Meets h prog C pool evs)
  | _, [] => isTrue trivial
  | pool, .start c :: evs => decidableMeets C (pool.next h prog (.start c)) evs
  | pool, .step i :: evs =>
    haveI := decidableMeets C (pool.next h prog (.step i)) evs
    inferInstanceAs (Decidable ((∀ o ∈ pool.awaited i, C pool.state o) ∧
      Meets h prog C (pool.next h prog (.step i)) evs))

theorem Meets.of_step {C : σ → S.Op → Prop} {evs₁ evs₂ : List (Event κ)} {i : ℕ}
    (hm : Meets h prog C pool (evs₁ ++ .step i :: evs₂)) {o : S.Op}
    (ho : (pool.run h prog evs₁).awaited i = some o) : C (pool.run h prog evs₁).state o := by
  induction evs₁ generalizing pool with
  | nil => exact hm.1 o ho
  | cons ev evs₁ ih =>
    cases ev with
    | start c => exact ih hm ho
    | step j => exact ih hm.2 ho

section All

variable {N : κ → σ → γ → S.Op → γ → Prop} {Q : κ → Except ε α → γ → Prop} {ghosts : List γ}

/-- Every program in the pool goes with its ghost. -/
def WithGhosts (h : Handler S ε σ) (I : σ → Prop) (N : κ → σ → γ → S.Op → γ → Prop)
    (Q : κ → Except ε α → γ → Prop) (pool : Pool S ε σ α κ) (ghosts : List γ) : Prop :=
  List.Forall₂ (fun t g => t.rest.WithGhost h I (N t.call) (Q t.call) g) pool.threads ghosts

theorem WithGhosts.start (hw : WithGhosts h I N Q pool ghosts) {c : κ} {g : γ}
    (hc : (prog c).WithGhost h I (N c) (Q c) g) :
    WithGhosts h I N Q (pool.next h prog (.start c)) (ghosts ++ [g]) :=
  List.rel_append hw (.cons hc .nil)

theorem WithGhosts.get (hw : WithGhosts h I N Q pool ghosts) {i : ℕ} {t : Thread S ε α κ}
    (hi : pool.threads[i]? = some t) :
    ∃ g, ghosts[i]? = some g ∧ t.rest.WithGhost h I (N t.call) (Q t.call) g := by
  obtain ⟨hlt, rfl⟩ := List.getElem?_eq_some_iff.mp hi
  have hlt' : i < ghosts.length := hw.length_eq ▸ hlt
  exact ⟨ghosts[i], List.getElem?_eq_getElem hlt', List.Forall₂.get hw hlt hlt'⟩

theorem WithGhosts.settled (hw : WithGhosts h I N Q pool ghosts)
    (hall : ∀ t ∈ pool.threads, t.rest.result.isSome) : ∀ g ∈ ghosts, ∃ c r, Q c r g := by
  intro g hg
  obtain ⟨i, hi, rfl⟩ := List.getElem_of_mem hg
  have hi' : i < pool.threads.length := hw.length_eq ▸ hi
  have ht := List.Forall₂.get hw hi' hi
  have hres := hall _ (List.getElem_mem hi')
  simp only [List.get_eq_getElem] at ht
  cases hr : pool.threads[i].rest with
  | ret a => rw [hr] at ht; exact ⟨_, _, ht⟩
  | err e => rw [hr] at ht; exact ⟨_, _, ht⟩
  | await o k => rw [hr] at hres; cases hres

variable (prog) in
theorem WithGhosts.step (hw : WithGhosts h I N Q pool ghosts) (hs : I pool.state) (i : ℕ) :
    pool.next h prog (.step i) = pool ∨
      ∃ c o g g', ghosts[i]? = some g ∧ N c pool.state g o g' ∧
        (pool.next h prog (.step i)).state = (h o pool.state).2 ∧
        WithGhosts h I N Q (pool.next h prog (.step i)) (ghosts.set i g') := by
  rcases next_step_cases pool i with he | ⟨t, o, k, hi, hr, he⟩
  · exact Or.inl he
  · obtain ⟨g, hg, ht⟩ := hw.get hi
    rw [hr] at ht
    obtain ⟨g', hn, hk⟩ := ht pool.state hs
    rw [he]
    exact Or.inr ⟨t.call, o, g, g', hg, hn, rfl, forall₂_set hw hk i⟩

/-- What starts and steps keep, of the state and of all ghosts together, holds at the end. -/
theorem WithGhosts.run {J : σ → List γ → Prop} (init : κ → γ)
    (hI : ∀ s ghosts, J s ghosts → I s)
    (hprog : ∀ c, (prog c).WithGhost h I (N c) (Q c) (init c))
    (hstart : ∀ c s ghosts, J s ghosts → J s (ghosts ++ [init c]))
    (hstep : ∀ c s ghosts i o g g', J s ghosts → ghosts[i]? = some g → N c s g o g' →
      J (h o s).2 (ghosts.set i g'))
    (hw : WithGhosts h I N Q pool ghosts) (hJ : J pool.state ghosts) (evs : List (Event κ)) :
    ∃ ghosts', WithGhosts h I N Q (pool.run h prog evs) ghosts' ∧
      J (pool.run h prog evs).state ghosts' := by
  induction evs generalizing pool ghosts with
  | nil => exact ⟨ghosts, hw, hJ⟩
  | cons ev evs ih =>
    cases ev with
    | start c => exact ih (hw.start (hprog c)) (hstart c _ _ hJ)
    | step i =>
      rw [run_cons]
      rcases hw.step prog (hI _ _ hJ) i with he | ⟨c, o, g, g', hg, hn, he, hw'⟩
      · rw [he]
        exact ih hw hJ
      · apply ih hw'
        rw [he]
        exact hstep c _ _ i o g g' hJ hg hn

end All

section One

variable {N : σ → γ → S.Op → γ → Prop} {Q : Except ε α → γ → Prop} {i : ℕ} {t : Thread S ε α κ}
  {g : γ}

variable (prog) in
/-- One program and its ghost, among whatever others: what is known of the ghost stays known, and
is known of what its own steps make of it. -/
theorem follow {K : List (Event κ) → γ → Prop} (hi : pool.threads[i]? = some t)
    (ht : t.rest.WithGhost h I N Q g) (hK : K [] g) (evs : List (Event κ))
    (hI : ∀ evs₁ evs₂, evs = evs₁ ++ evs₂ → I (pool.run h prog evs₁).state)
    (hmono : ∀ evs₁ ev evs₂ g, evs = evs₁ ++ ev :: evs₂ → K evs₁ g → K (evs₁ ++ [ev]) g)
    (hstep : ∀ evs₁ evs₂ t' o k g g', evs = evs₁ ++ .step i :: evs₂ →
      (pool.run h prog evs₁).threads[i]? = some t' → t'.rest = .await o k →
      (pool.run h prog (evs₁ ++ [.step i])).state = (h o (pool.run h prog evs₁).state).2 →
      N (pool.run h prog evs₁).state g o g' → K evs₁ g → K (evs₁ ++ [.step i]) g') :
    ∃ t' g', (pool.run h prog evs).threads[i]? = some t' ∧ t'.call = t.call ∧
      t'.rest.WithGhost h I N Q g' ∧ K evs g' := by
  induction evs using List.reverseRecOn with
  | nil => exact ⟨t, g, hi, rfl, ht, hK⟩
  | append_singleton evs ev ih =>
    have hsnoc : ∀ {evs₁ evs₂ : List (Event κ)}, evs = evs₁ ++ evs₂ →
        evs ++ [ev] = evs₁ ++ (evs₂ ++ [ev]) := by
      rintro evs₁ evs₂ rfl
      exact List.append_assoc ..
    obtain ⟨t', g', hi', hc, ht', hK'⟩ := ih (fun evs₁ evs₂ he => hI evs₁ _ (hsnoc he))
      (fun evs₁ ev' evs₂ g he => hmono evs₁ ev' _ g (hsnoc he))
      (fun evs₁ evs₂ t' o k g g' he => hstep evs₁ _ t' o k g g' (hsnoc he))
    have hrun := run_concat h prog pool evs ev
    cases ev with
    | start c =>
      refine ⟨t', g', ?_, hc, ht', hmono evs _ [] g' rfl hK'⟩
      rw [hrun]
      exact (List.getElem?_append_left (List.getElem?_eq_some_iff.mp hi').1).trans hi'
    | step j =>
      rcases next_step_cases (pool.run h prog evs) j with he | ⟨t'', o, k, hj, hr, he⟩
      · rw [hrun, he]
        exact ⟨t', g', hi', hc, ht', hmono evs _ [] g' rfl hK'⟩
      · by_cases hij : j = i
        · subst hij
          obtain rfl := Option.some.inj (hj.symm.trans hi')
          rw [hr] at ht'
          obtain ⟨g'', hn, hk⟩ := ht' _ (hI evs [.step j] rfl)
          have hstate : (pool.run h prog (evs ++ [.step j])).state =
              (h o (pool.run h prog evs).state).2 := by rw [hrun, he]
          refine ⟨⟨t''.call, k (h o (pool.run h prog evs).state).1⟩, g'', ?_, hc, hk,
            hstep evs [] t'' o k g' g'' rfl hj hr hstate hn hK'⟩
          rw [hrun, he]
          exact List.getElem?_set_self (List.getElem?_eq_some_iff.mp hj).1
        · refine ⟨t', g', ?_, hc, ht', hmono evs _ [] g' rfl hK'⟩
          rw [hrun, he]
          exact (List.getElem?_set_ne hij).trans hi'

end One

/-- Every program in a pool was started by an event. -/
theorem exists_start {s : σ} {evs : List (Event κ)} {i : ℕ} {t : Thread S ε α κ}
    (hi : ((idle s).run h prog evs).threads[i]? = some t) :
    ∃ evs₁ evs₂, evs = evs₁ ++ .start t.call :: evs₂ ∧
      ((idle s).run h prog (evs₁ ++ [.start t.call])).threads[i]? = some ⟨t.call, prog t.call⟩ := by
  induction evs using List.reverseRecOn generalizing t with
  | nil => cases hi
  | append_singleton evs ev ih =>
    have hlater : ∀ {c : κ}, (∃ evs₁ evs₂, evs = evs₁ ++ .start c :: evs₂ ∧
        ((idle s).run h prog (evs₁ ++ [.start c])).threads[i]? = some ⟨c, prog c⟩) →
        ∃ evs₁ evs₂, evs ++ [ev] = evs₁ ++ .start c :: evs₂ ∧
          ((idle s).run h prog (evs₁ ++ [.start c])).threads[i]? = some ⟨c, prog c⟩ := by
      rintro c ⟨evs₁, evs₂, rfl, hs⟩
      exact ⟨evs₁, evs₂ ++ [ev], by simp, hs⟩
    have hrun := run_concat h prog (idle s : Pool S ε σ α κ) evs ev
    have hi₀ := hi
    rw [hrun] at hi
    cases ev with
    | start c =>
      by_cases hlt : i < ((idle s).run h prog evs).threads.length
      · exact hlater (ih ((List.getElem?_append_left hlt).symm.trans hi))
      · have hc : t = ⟨c, prog c⟩ := by
          have hmem : (((idle s).run h prog evs).threads ++ [⟨c, prog c⟩])[i]? = some t := hi
          rw [List.getElem?_append_right (Nat.le_of_not_lt hlt)] at hmem
          exact (List.mem_singleton.mp (List.mem_of_getElem? hmem))
        subst hc
        exact ⟨evs, [], rfl, hi₀⟩
    | step j =>
      rcases next_step_cases ((idle s).run h prog evs) j with he | ⟨t', o, k, hj, hr, he⟩
      · rw [he] at hi
        exact hlater (ih hi)
      · rw [he] at hi
        by_cases hij : j = i
        · subst hij
          have ht : t = ⟨t'.call, k (h o ((idle s).run h prog evs).state).1⟩ := by
            rw [List.getElem?_set_self (List.getElem?_eq_some_iff.mp hj).1] at hi
            exact (Option.some.inj hi).symm
          subst ht
          exact hlater (c := t'.call) (ih (t := t') hj)
        · exact hlater (ih ((List.getElem?_set_ne hij).symm.trans hi))

variable (prog) in
/-- The ghost of a program in the course of a run: what is known of it when the program starts, is
not lost by any event and is kept up by its own steps, is known of it in the end. -/
theorem exists_ghost {N : σ → γ → S.Op → γ → Prop} {Q : Except ε α → γ → Prop} {s : σ}
    {evs : List (Event κ)} {i : ℕ} {t : Thread S ε α κ} {g₀ : γ}
    {K : List (Event κ) → γ → Prop} (hi : ((idle s).run h prog evs).threads[i]? = some t)
    (hprog : (prog t.call).WithGhost h I N Q g₀)
    (hI : ∀ evs₁ evs₂, evs = evs₁ ++ evs₂ → I ((idle s).run h prog evs₁).state)
    (hstart : ∀ evs₁ evs₂, evs = evs₁ ++ .start t.call :: evs₂ → K (evs₁ ++ [.start t.call]) g₀)
    (hmono : ∀ evs₁ ev evs₂ g, evs = evs₁ ++ ev :: evs₂ → K evs₁ g → K (evs₁ ++ [ev]) g)
    (hstep : ∀ evs₁ evs₂ t' o k g g', evs = evs₁ ++ .step i :: evs₂ →
      ((idle s).run h prog evs₁).threads[i]? = some t' → t'.rest = .await o k →
      ((idle s).run h prog (evs₁ ++ [.step i])).state =
        (h o ((idle s).run h prog evs₁).state).2 →
      N ((idle s).run h prog evs₁).state g o g' → K evs₁ g → K (evs₁ ++ [.step i]) g') :
    ∃ g, t.rest.WithGhost h I N Q g ∧ K evs g := by
  obtain ⟨before, after, rfl, hi₀⟩ := exists_start hi
  have hrun : ∀ evs, ((idle s).run h prog (before ++ [.start t.call])).run h prog evs =
      (idle s).run h prog (before ++ .start t.call :: evs) := by
    intro evs
    rw [← run_append, List.append_assoc, List.singleton_append]
  have hsplit : ∀ {evs₁ evs₂ : List (Event κ)}, after = evs₁ ++ evs₂ →
      before ++ .start t.call :: after = (before ++ .start t.call :: evs₁) ++ evs₂ := by
    rintro evs₁ evs₂ rfl
    rw [List.append_assoc, List.cons_append]
  have hsnoc : ∀ (evs : List (Event κ)) ev, before ++ .start t.call :: (evs ++ [ev]) =
      (before ++ .start t.call :: evs) ++ [ev] := by
    intro evs ev
    rw [List.append_assoc, List.cons_append]
  have hend := follow prog (K := fun evs => K (before ++ .start t.call :: evs)) hi₀ hprog
    (hstart before after rfl) after
    (fun evs₁ evs₂ he => by
      rw [hrun]
      exact hI _ evs₂ (hsplit he))
    (fun evs₁ ev evs₂ g he hK => by
      rw [hsnoc]
      exact hmono _ ev evs₂ g (hsplit he) hK)
    (fun evs₁ evs₂ t' o k g g' he ht' hr hs hn hK => by
      rw [hrun] at ht' hn
      rw [hrun, hrun, hsnoc] at hs
      rw [hsnoc]
      exact hstep _ evs₂ t' o k g g' (hsplit he) ht' hr hs hn hK)
  obtain ⟨t', g, hi', -, hg, hK⟩ := hend
  rw [hrun] at hi'
  obtain rfl := Option.some.inj (hi'.symm.trans hi)
  exact ⟨g, hg, hK⟩

end Pool

end Kyc
