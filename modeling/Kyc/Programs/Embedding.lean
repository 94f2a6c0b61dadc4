import Kyc.Programs.Stable

/-! # Components within a larger program

A component keeps its operations when it becomes part of a larger system: each of them is
one operation there, answered by the part of the state that is the component's. So a
program of the component keeps the same discipline inside the system as it did alone.
-/

namespace Kyc

universe u v

/-- The discipline of a component, on the states that it is a part of. -/
def Discipline.comap {σ τ : Type} (D : Discipline σ) (view : τ → σ) : Discipline τ where
  Inv t := D.Inv (view t)
  Le t t' := D.Le (view t) (view t')
  refl t := D.refl (view t)
  trans := D.trans

namespace Program

variable {S : Signature.{u}} {T : Signature.{v}} {ε σ τ α : Type} {h : Handler S ε σ}
  {h' : Handler T ε τ} {f : (o : S.Op) → Program T ε (S.Ans o)} {view : τ → σ}

/-- Every operation is one of the larger system, answered as by the component. -/
def Embeds (view : τ → σ) (h : Handler S ε σ) (h' : Handler T ε τ)
    (f : (o : S.Op) → Program T ε (S.Ans o)) : Prop :=
  ∀ o, ∃ o' k, f o = .await o' k ∧ ∀ t,
    k (h' o' t).1 = ofExcept (h o (view t)).1 ∧ view (h' o' t).2 = (h o (view t)).2

theorem perform_eq (o : S.Op) : (perform o : Program S ε (S.Ans o)) = .await o ofExcept := by
  unfold perform
  congr
  funext r
  cases r <;> rfl

section Expand

variable {β γ : Type}

theorem bind_assoc (p : Program S ε α) (f : α → Program S ε β) (g : β → Program S ε γ) :
    p >>= f >>= g = p >>= fun a => f a >>= g := by
  change (p.bind f).bind g = p.bind fun a => (f a).bind g
  induction p with
  | ret | err => rfl
  | await o k ih => exact congrArg (Program.await o) (funext fun r => ih r)

theorem attempt_bind_ofExcept (p : Program S ε α) : (p.attempt >>= ofExcept) = p := by
  change p.attempt.bind ofExcept = p
  induction p with
  | ret | err => rfl
  | await o k ih => exact congrArg (Program.await o) (funext fun r => ih r)

theorem tryCatch_attempt_bind (p : Program S ε α) (f : Except ε α → Program S ε β)
    (g : ε → Program S ε β) :
    tryCatch (p.attempt >>= f) g = p.attempt >>= fun r => tryCatch (f r) g := by
  change (p.attempt.bind f).tryCatch g = p.attempt.bind fun r => (f r).tryCatch g
  induction p with
  | ret | err => rfl
  | await o k ih => exact congrArg (Program.await o) (funext fun r => ih r)

theorem expand_perform (f : (o : S.Op) → Program T ε (S.Ans o)) (o : S.Op) :
    (perform o).expand f = f o := by
  have hreturn : (fun r : Except ε (S.Ans o) => (ofExcept r : Program S ε _).expand f) =
      ofExcept := by
    funext r
    cases r <;> rfl
  have hexpand : (perform o).expand f =
      (f o).attempt >>= fun r => (ofExcept r : Program S ε _).expand f := by
    rw [perform_eq]
    rfl
  rw [hexpand, hreturn, attempt_bind_ofExcept]

theorem expand_bind (f : (o : S.Op) → Program T ε (S.Ans o)) (p : Program S ε α)
    (g : α → Program S ε β) : (p >>= g).expand f = p.expand f >>= fun a => (g a).expand f := by
  change (p.bind g).expand f = _
  induction p with
  | ret | err => rfl
  | await o k ih =>
    change (f o).attempt >>= (fun r => ((k r).bind g).expand f) = _
    rw [funext ih]
    exact (bind_assoc _ _ _).symm

theorem expand_tryCatch (f : (o : S.Op) → Program T ε (S.Ans o)) (p : Program S ε α)
    (g : ε → Program S ε α) :
    (tryCatch p g).expand f = tryCatch (p.expand f) fun e => (g e).expand f := by
  change (p.tryCatch g).expand f = _
  induction p with
  | ret | err => rfl
  | await o k ih =>
    change (f o).attempt >>= (fun r => ((k r).tryCatch g).expand f) = _
    rw [funext ih]
    exact (tryCatch_attempt_bind _ _ _).symm

end Expand

section Safe

variable {D : Discipline σ} {G : σ → σ → Prop} {Q : Except ε α → σ → Prop} {p : Program S ε α}
  {s : σ} {t : τ}

theorem Safe.mono {Q' : Except ε α → σ → Prop} (hp : p.Safe D h G Q s)
    (hQ : ∀ r s', Q r s' → Q' r s') : p.Safe D h G Q' s := by
  induction p generalizing s with
  | ret | err => exact fun s' hs hi => hQ _ s' (hp s' hs hi)
  | await o k ih =>
    intro s' hs hi
    obtain ⟨hi', hle, hg, hk⟩ := hp s' hs hi
    exact ⟨hi', hle, hg, ih _ hk⟩

theorem safe_given {β : Type} {r : Except ε α} {g : α → Program S ε β}
    {R : Except ε β → σ → Prop} (he : ∀ e s', R (.error e) s')
    (hg : ∀ a, r = .ok a → (g a).Safe D h G R s) : (ofExcept r >>= g).Safe D h G R s := by
  cases r with
  | ok a => exact hg a rfl
  | error e => exact safe_throw fun s' _ _ => he e s'

theorem safe_known {β : Type} {r : Except ε α} {a : α} {g : α → Program S ε β}
    {R : Except ε β → σ → Prop} (hr : r = .ok a) (hg : (g a).Safe D h G R s) :
    (ofExcept r >>= g).Safe D h G R s := by
  subst hr
  exact hg

theorem safe_decided {β : Type} {r : Except ε α} {g : α → Program S ε β}
    (hg : ∀ a, r = .ok a → (g a).Safe D h G Anyhow s) :
    (ofExcept r >>= g).Safe D h G Anyhow s :=
  safe_given (fun _ _ => trivial) hg

theorem Uses.safe {P : S.Op → Prop} (hp : p.Uses P)
    (hP : ∀ o s, P o → D.Inv s → D.Inv (h o s).2 ∧ D.Le s (h o s).2 ∧ G s (h o s).2) :
    p.Safe D h G Anyhow s := by
  induction p generalizing s with
  | ret | err => exact fun _ _ _ => trivial
  | await o k ih =>
    intro s' _ hi
    obtain ⟨hi', hle, hg⟩ := hP o s' hp.1 hi
    exact ⟨hi', hle, hg, ih _ (hp.2 _)⟩

theorem Safe.attempt (hp : p.Safe D h G Q s) :
    p.attempt.Safe D h G (fun r s => ∃ r', r = .ok r' ∧ Q r' s) s := by
  induction p generalizing s with
  | ret | err => exact fun s' hs hi => ⟨_, rfl, hp s' hs hi⟩
  | await o k ih =>
    intro s' hs hi
    obtain ⟨hi', hle, hg, hk⟩ := hp s' hs hi
    exact ⟨hi', hle, hg, ih _ hk⟩

/-- A program of a component is as safe in the larger system as it is alone. -/
theorem Safe.expand (hf : Embeds view h h' f) (hp : p.Safe D h G Q (view t)) :
    (p.expand f).Safe (D.comap view) h' (fun t t' => G (view t) (view t'))
      (fun r t => Q r (view t)) t := by
  induction p generalizing t with
  | ret | err => exact fun t' ht hi => hp (view t') ht hi
  | await o k ih =>
    obtain ⟨o', k', he, hstep⟩ := hf o
    have hexpand : (Program.await o k).expand f =
        .await o' fun r => (k' r).attempt.bind fun r => (k r).expand f := by
      rw [Program.expand, he]
      rfl
    rw [hexpand]
    intro t' ht hi
    obtain ⟨hi', hle, hg, hk⟩ := hp (view t') ht hi
    obtain ⟨hanswer, hview⟩ := hstep t'
    have hnext : (k' (h' o' t').1).attempt.bind (fun r => (k r).expand f) =
        (k (h o (view t')).1).expand f := by
      rw [hanswer]
      cases (h o (view t')).1 <;> rfl
    rw [← hview] at hi' hle hg hk
    have hrest := ih _ hk
    rw [← hnext] at hrest
    exact ⟨hi', hle, hg, hrest⟩

end Safe

/-- From every state of the invariant on, the program keeps the discipline among others that do,
and what it settles with satisfies `Q`. -/
structure Keeps (D : Discipline σ) (h : Handler S ε σ) (Q : Except ε α → Prop)
    (p : Program S ε α) : Prop where
  safe : ∀ s, D.Inv s → p.Safe D h (fun _ _ => True) (fun r _ => Q r) s

section Keeps

variable {β : Type} {D : Discipline σ} {Q Q' : Except ε α → Prop} {R : Except ε β → Prop}
  {p : Program S ε α}

theorem keeps_pure {a : α} (hQ : Q (.ok a)) : (pure a : Program S ε α).Keeps D h Q :=
  ⟨fun _ _ => safe_pure fun _ _ _ => hQ⟩

theorem keeps_ofExcept {r : Except ε α} (hQ : Q r) : (ofExcept r : Program S ε α).Keeps D h Q := by
  cases r with
  | ok a => exact keeps_pure hQ
  | error e => exact ⟨fun _ _ => safe_throw fun _ _ _ => hQ⟩

theorem keeps_perform {o : S.Op} {Q : Except ε (S.Ans o) → Prop}
    (ho : ∀ s, D.Inv s → D.Inv (h o s).2 ∧ D.Le s (h o s).2) (hQ : ∀ s, Q (h o s).1) :
    (perform o : Program S ε (S.Ans o)).Keeps D h Q := by
  refine ⟨fun _ _ => safe_perform fun s _ hi => ?_⟩
  obtain ⟨hi', hle⟩ := ho s hi
  exact ⟨hi', hle, trivial, fun _ _ _ => hQ s⟩

theorem Keeps.bind {f : α → Program S ε β} (hp : p.Keeps D h Q)
    (hf : ∀ a, Q (.ok a) → (f a).Keeps D h R) (he : ∀ e, Q (.error e) → R (.error e)) :
    (p >>= f).Keeps D h R :=
  ⟨fun s hi => (hp.safe s hi).bind hi (fun a s' _ hi' ha => (hf a ha).safe s' hi')
    fun e _ _ _ => he e⟩

theorem Keeps.tryCatch {f : ε → Program S ε α} (hp : p.Keeps D h Q)
    (hf : ∀ e, Q (.error e) → (f e).Keeps D h Q') (ha : ∀ a, Q (.ok a) → Q' (.ok a)) :
    (tryCatch p f).Keeps D h Q' :=
  ⟨fun s hi => (hp.safe s hi).tryCatch hi (fun e s' _ hi' h => (hf e h).safe s' hi')
    fun a _ _ _ => ha a⟩

theorem Keeps.attempt (hp : p.Keeps D h Q) :
    p.attempt.Keeps D h fun r => ∃ r', r = .ok r' ∧ Q r' :=
  ⟨fun s hi => (hp.safe s hi).attempt⟩

theorem Keeps.expand (hp : p.Keeps D h Q) (hf : Embeds view h h' f) :
    (p.expand f).Keeps (D.comap view) h' Q :=
  ⟨fun t hi => (hp.safe (view t) hi).expand hf⟩

theorem keeps_expand {D : Discipline τ} (hf : ∀ o, (f o).Keeps D h' fun _ => True)
    (p : Program S ε α) : (p.expand f).Keeps D h' fun _ => True := by
  induction p with
  | ret a => exact keeps_pure trivial
  | err e => exact keeps_ofExcept (r := .error e) trivial
  | await o k ih => exact (hf o).attempt.bind (fun r _ => ih r) fun _ _ => trivial

end Keeps

/-- From every state of the invariant on, the program keeps the discipline among others that do,
and what it settles with satisfies `Q` in the state that it then finds. -/
structure Ensures (D : Discipline σ) (h : Handler S ε σ) (Q : Except ε α → σ → Prop)
    (p : Program S ε α) : Prop where
  safe : ∀ s, D.Inv s → p.Safe D h (fun _ _ => True) Q s

section Ensures

variable {β : Type} {D : Discipline σ} {p : Program S ε α}

theorem Ensures.bind {Q : Except ε α → σ → Prop} {R : Except ε β → σ → Prop}
    {f : α → Program S ε β} (hp : p.Ensures D h Q)
    (hf : ∀ a s, D.Inv s → Q (.ok a) s → (f a).Safe D h (fun _ _ => True) R s)
    (he : ∀ e s, Q (.error e) s → R (.error e) s) : (p >>= f).Ensures D h R :=
  ⟨fun s hi => (hp.safe s hi).bind hi (fun a s' _ hi' ha => hf a s' hi' ha)
    fun e s' _ _ => he e s'⟩

theorem Keeps.ensures {Q : Except ε α → Prop} {R : Except ε β → σ → Prop}
    {f : α → Program S ε β} (hp : p.Keeps D h Q)
    (hf : ∀ a, Q (.ok a) → (f a).Ensures D h R) (he : ∀ e s, Q (.error e) → R (.error e) s) :
    (p >>= f).Ensures D h R :=
  ⟨fun s hi => (hp.safe s hi).bind hi (fun a s' _ hi' ha => (hf a ha).safe s' hi')
    fun e s' _ _ => he e s'⟩

theorem Ensures.expand {Q : Except ε α → σ → Prop} (hp : p.Ensures D h Q)
    (hf : Embeds view h h' f) :
    (p.expand f).Ensures (D.comap view) h' fun r t => Q r (view t) :=
  ⟨fun t hi => (hp.safe (view t) hi).expand hf⟩

end Ensures

end Program

namespace Pool

open Program

variable {S : Signature.{u}} {ε σ α κ : Type} {h : Handler S ε σ} {prog : κ → Program S ε α}
  {D : Discipline σ} {Q : κ → Except ε α → Prop}

/-- The invariant of a discipline that all calls keep holds in every interleaving, and so does
what each of them settles with. -/
theorem keeps_run {s : σ} (hi : D.Inv s) {evs : List (Event κ)}
    (hprog : ∀ c, .start c ∈ evs → (prog c).Keeps D h (Q c)) :
    AllSafe D h (fun _ _ _ => True) (fun c r _ => Q c r) ((idle s).run h prog evs) :=
  (allSafe_idle hi).run (fun _ _ => trivial) evs fun c hc s hi' => (hprog c hc).safe s hi'

end Pool

end Kyc
