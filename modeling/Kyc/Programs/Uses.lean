import Kyc.Programs.Basic

/-! # The operations of a program

`p.Uses P` says that every operation `p` can ever await satisfies `P`, whatever
the answers are. What each permitted operation preserves, a run then preserves.
-/

namespace Kyc

namespace Program

universe u v

variable {S : Signature.{u}} {T : Signature.{v}} {ε σ α β : Type}
  {P Q : S.Op → Prop}

/-- Every operation the program may await satisfies `P`. -/
def Uses (P : S.Op → Prop) : Program S ε α → Prop
  | .ret _ => True
  | .err _ => True
  | .await o k => P o ∧ ∀ r, (k r).Uses P

@[simp] theorem uses_ret (a : α) : (.ret a : Program S ε α).Uses P := trivial

@[simp] theorem uses_err (e : ε) : (.err e : Program S ε α).Uses P := trivial

@[simp] theorem uses_pure (a : α) : (pure a : Program S ε α).Uses P := trivial

@[simp] theorem uses_throw (e : ε) : (throw e : Program S ε α).Uses P := trivial

@[simp] theorem uses_ofExcept (r : Except ε α) : (ofExcept r : Program S ε α).Uses P := by
  cases r <;> trivial

@[simp] theorem uses_perform {o : S.Op} : (perform o : Program S ε _).Uses P ↔ P o := by
  refine ⟨fun h => h.1, fun h => ⟨h, fun r => ?_⟩⟩
  cases r <;> trivial

theorem Uses.mono {p : Program S ε α} (hp : p.Uses P) (h : ∀ o, P o → Q o) : p.Uses Q := by
  induction p with
  | ret | err => trivial
  | await o k ih => exact ⟨h o hp.1, fun r => ih r (hp.2 r)⟩

theorem Uses.bind {p : Program S ε α} {f : α → Program S ε β} (hp : p.Uses P)
    (hf : ∀ a, (f a).Uses P) : (p >>= f).Uses P := by
  change (p.bind f).Uses P
  induction p with
  | ret a => exact hf a
  | err e => trivial
  | await o k ih => exact ⟨hp.1, fun r => ih r (hp.2 r)⟩

theorem Uses.tryCatch {p : Program S ε α} {f : ε → Program S ε α} (hp : p.Uses P)
    (hf : ∀ e, (f e).Uses P) : (tryCatch p f).Uses P := by
  change (p.tryCatch f).Uses P
  induction p with
  | ret a => trivial
  | err e => exact hf e
  | await o k ih => exact ⟨hp.1, fun r => ih r (hp.2 r)⟩

theorem Uses.attempt {p : Program S ε α} (hp : p.Uses P) : p.attempt.Uses P := by
  induction p with
  | ret | err => trivial
  | await o k ih => exact ⟨hp.1, fun r => ih r (hp.2 r)⟩

theorem Uses.expand {f : (o : S.Op) → Program T ε (S.Ans o)} {P : T.Op → Prop}
    {p : Program S ε α} (hp : p.Uses Q) (hf : ∀ o, Q o → (f o).Uses P) :
    (p.expand f).Uses P := by
  induction p with
  | ret | err => trivial
  | await o k ih => exact Uses.bind (hf o hp.1).attempt fun r => ih r (hp.2 r)

theorem uses_expand {f : (o : S.Op) → Program T ε (S.Ans o)} {P : T.Op → Prop}
    (hf : ∀ o, (f o).Uses P) (p : Program S ε α) : (p.expand f).Uses P := by
  induction p with
  | ret | err => trivial
  | await o k ih => exact Uses.bind (hf o).attempt ih

end Program

end Kyc
