import Kyc.Programs.Basic

/-! # Programs that do not see a part of the state

A projection hides a part of the state. A program is blind to this part when it runs
on the projected state as on the state itself: with the same result, and to the same
end once that is projected. Then two runs from states that project alike agree on
everything but the hidden part.
-/

namespace Kyc

namespace Program

universe u

variable {S : Signature.{u}} {ε σ α β : Type} (h : Handler S ε σ) (π : σ → σ)

/-- In the states where `I` holds the program runs on the projected state as on the state itself,
and `Q` holds of its result and of the state it ends in. -/
def Blind (I : σ → Prop) (p : Program S ε α) (Q : Except ε α → σ → Prop) : Prop :=
  ∀ s, I s → p.run h (π s) = ((p.run h s).1, π (p.run h s).2) ∧ Q (p.run h s).1 (p.run h s).2

/-- The result is a value, and `Q` holds of it. -/
def Returns (Q : α → σ → Prop) : Except ε α → σ → Prop
  | .ok a, s => Q a s
  | .error _, _ => False

variable {h π} {I J : σ → Prop} {p : Program S ε α} {f : α → Program S ε β}
  {Q Q' : Except ε α → σ → Prop} {R : Except ε β → σ → Prop}

theorem blind_ofExcept {r : Except ε α} (hQ : ∀ s, I s → Q r s) :
    (ofExcept r : Program S ε α).Blind h π I Q := by
  intro s hs
  simp only [run_ofExcept]
  exact ⟨trivial, hQ s hs⟩

theorem blind_pure {a : α} (hQ : ∀ s, I s → Q (.ok a) s) :
    (pure a : Program S ε α).Blind h π I Q :=
  blind_ofExcept (r := .ok a) hQ

theorem blind_throw {e : ε} (hQ : ∀ s, I s → Q (.error e) s) :
    (throw e : Program S ε α).Blind h π I Q :=
  blind_ofExcept (r := .error e) hQ

theorem blind_perform {o : S.Op} {Q : Except ε (S.Ans o) → σ → Prop}
    (ho : ∀ s, I s → h o (π s) = ((h o s).1, π (h o s).2)) (hQ : ∀ s, I s → Q (h o s).1 (h o s).2) :
    (perform o).Blind h π I Q := by
  intro s hs
  simp only [run_perform]
  exact ⟨ho s hs, hQ s hs⟩

theorem blind_of_run (hp : ∀ s, I s → ∃ r s', p.run h s = (r, s') ∧ p.run h (π s) = (r, π s') ∧
    Q r s') : p.Blind h π I Q := by
  intro s hs
  obtain ⟨r, s', hr, hr', hQ⟩ := hp s hs
  rw [hr, hr']
  exact ⟨rfl, hQ⟩

theorem Blind.strengthen (hp : p.Blind h π I Q) (hI : ∀ s, J s → I s) : p.Blind h π J Q :=
  fun s hs => hp s (hI s hs)

theorem Blind.bind (hp : p.Blind h π I Q) (hf : ∀ a, (f a).Blind h π (Q (.ok a)) R)
    (he : ∀ e s, Q (.error e) s → R (.error e) s) : (p >>= f).Blind h π I R := by
  intro s hs
  obtain ⟨hrun, hQ⟩ := hp s hs
  simp only [run_bind, hrun]
  cases hr : p.run h s with
  | mk r s' =>
    rw [hr] at hQ
    cases r with
    | ok a => exact hf a s' hQ
    | error e => exact ⟨rfl, he e s' hQ⟩

theorem Blind.bind_returns {Q : α → σ → Prop} (hp : p.Blind h π I (Returns Q))
    (hf : ∀ a, (f a).Blind h π (Q a) R) : (p >>= f).Blind h π I R :=
  hp.bind hf fun _ _ hQ => hQ.elim

theorem blind_ofExcept_bind {r : Except ε α} (hf : ∀ a, r = .ok a → (f a).Blind h π I R)
    (he : ∀ e s, I s → R (.error e) s) : (ofExcept r >>= f).Blind h π I R := by
  cases r with
  | ok a => exact hf a rfl
  | error e => exact blind_throw (he e)

theorem Blind.tryCatch {f : ε → Program S ε α} (hp : p.Blind h π I Q)
    (hf : ∀ e, (f e).Blind h π (Q (.error e)) Q') (ha : ∀ a s, Q (.ok a) s → Q' (.ok a) s) :
    (tryCatch p f).Blind h π I Q' := by
  intro s hs
  obtain ⟨hrun, hQ⟩ := hp s hs
  simp only [run_tryCatch, hrun]
  cases hr : p.run h s with
  | mk r s' =>
    rw [hr] at hQ
    cases r with
    | ok a => exact ⟨rfl, ha a s' hQ⟩
    | error e => exact hf e s' hQ

/-- States that project alike cannot be told apart by a blind program. -/
theorem Blind.run_eq (hp : p.Blind h π I Q) (hp' : p.Blind h π J Q') {s s' : σ} (hs : I s)
    (hs' : J s') (he : π s = π s') :
    (p.run h s).1 = (p.run h s').1 ∧ π (p.run h s).2 = π (p.run h s').2 := by
  have hrun := (hp s hs).1
  rw [he, (hp' s' hs').1] at hrun
  obtain ⟨hr, hs⟩ := Prod.mk.inj hrun
  exact ⟨hr.symm, hs.symm⟩

end Program

end Kyc
