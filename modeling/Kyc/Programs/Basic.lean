import Mathlib.Logic.Function.Basic

/-! # Programs that await operations

A program is a finite tree of awaited operations: each one suspends it until the
environment answers, with a value or with an error. Running a program against a
handler gives its sequential meaning; the operations themselves stay visible, so
that several programs can also be interleaved at their awaits.
-/

namespace Kyc

universe u v

structure Signature where
  Op : Type u
  Ans : Op → Type

/-- A program over the operations of `S` that returns an `α` or throws an `ε`. -/
inductive Program (S : Signature.{u}) (ε α : Type) : Type u
  | ret (a : α)
  | err (e : ε)
  | await (o : S.Op) (k : Except ε (S.Ans o) → Program S ε α)

/-- How a state answers an operation, and the state it leaves behind. -/
abbrev Handler (S : Signature.{u}) (ε σ : Type) :=
  (o : S.Op) → σ → Except ε (S.Ans o) × σ

namespace Program

variable {S : Signature.{u}} {T : Signature.{v}} {ε σ α β γ : Type}

def perform (o : S.Op) : Program S ε (S.Ans o) :=
  .await o fun
    | .ok a => .ret a
    | .error e => .err e

def ofExcept : Except ε α → Program S ε α
  | .ok a => .ret a
  | .error e => .err e

protected def bind : Program S ε α → (α → Program S ε β) → Program S ε β
  | .ret a, f => f a
  | .err e, _ => .err e
  | .await o k, f => .await o fun r => (k r).bind f

/-- Run a handler on the error a program throws. -/
protected def tryCatch : Program S ε α → (ε → Program S ε α) → Program S ε α
  | .ret a, _ => .ret a
  | .err e, f => f e
  | .await o k, f => .await o fun r => (k r).tryCatch f

/-- The result of a program as a value: an error is returned, not thrown. -/
def attempt : Program S ε α → Program S ε (Except ε α)
  | .ret a => .ret (.ok a)
  | .err e => .ret (.error e)
  | .await o k => .await o fun r => (k r).attempt

/-- Replace every operation by a program over another signature. -/
def expand (f : (o : S.Op) → Program T ε (S.Ans o)) : Program S ε α → Program T ε α
  | .ret a => .ret a
  | .err e => .err e
  | .await o k => (f o).attempt.bind fun r => (k r).expand f

instance : Monad (Program S ε) where
  pure := .ret
  bind := Program.bind

instance : MonadExcept ε (Program S ε) where
  throw := .err
  tryCatch := Program.tryCatch

def run (h : Handler S ε σ) : Program S ε α → σ → Except ε α × σ
  | .ret a, s => (.ok a, s)
  | .err e, s => (.error e, s)
  | .await o k, s => (k (h o s).1).run h (h o s).2

variable (h : Handler S ε σ)

@[simp] theorem run_ret (a : α) (s : σ) : (.ret a : Program S ε α).run h s = (.ok a, s) := rfl

@[simp] theorem run_pure (a : α) (s : σ) : (pure a : Program S ε α).run h s = (.ok a, s) := rfl

@[simp] theorem run_throw (e : ε) (s : σ) :
    (throw e : Program S ε α).run h s = (.error e, s) := rfl

@[simp] theorem run_perform (o : S.Op) (s : σ) : (perform o).run h s = h o s := by
  simp only [perform, run]
  split <;> rename_i hr <;> exact Prod.ext hr.symm rfl

@[simp] theorem run_ofExcept (r : Except ε α) (s : σ) :
    (ofExcept r : Program S ε α).run h s = (r, s) := by
  cases r <;> rfl

@[simp] theorem run_bind (p : Program S ε α) (f : α → Program S ε β) (s : σ) :
    (p >>= f).run h s = match p.run h s with
      | (.ok a, s') => (f a).run h s'
      | (.error e, s') => (.error e, s') := by
  change (p.bind f).run h s = _
  induction p generalizing s with
  | ret a => rfl
  | err e => rfl
  | await o k ih => exact ih _ _

@[simp] theorem run_tryCatch (p : Program S ε α) (f : ε → Program S ε α) (s : σ) :
    (tryCatch p f).run h s = match p.run h s with
      | (.ok a, s') => (.ok a, s')
      | (.error e, s') => (f e).run h s' := by
  change (p.tryCatch f).run h s = _
  induction p generalizing s with
  | ret a => rfl
  | err e => rfl
  | await o k ih => exact ih _ _

@[simp] theorem run_attempt (p : Program S ε α) (s : σ) :
    p.attempt.run h s = (.ok (p.run h s).1, (p.run h s).2) := by
  induction p generalizing s with
  | ret a => rfl
  | err e => rfl
  | await o k ih => exact ih _ _

@[simp] theorem run_expand (h : Handler T ε σ) (f : (o : S.Op) → Program T ε (S.Ans o))
    (p : Program S ε α) (s : σ) :
    (p.expand f).run h s = p.run (fun o s => (f o).run h s) s := by
  induction p generalizing s with
  | ret a => rfl
  | err e => rfl
  | await o k ih =>
    have hb := run_bind h (f o).attempt (fun r => (k r).expand f) s
    simp only [run_attempt, ih] at hb
    exact hb

end Program

end Kyc
