import Kyc.Programs.Basic

/-! # Scripts with nested transactions

A script performs operations and runs transactions, nested as deep as it likes, and may
go on by whatever it was answered. A transaction that throws is rolled back. Two
implementations of the operations that agree step by step agree on every script.
-/

namespace Kyc

/-- A script that returns an `α` or throws an `ε`. -/
inductive Script (S : Signature.{0}) (ε : Type) : Type → Type 1
  | ret {α : Type} (a : α) : Script S ε α
  | err {α : Type} (e : ε) : Script S ε α
  | await {α : Type} (o : S.Op) (k : Except ε (S.Ans o) → Script S ε α) : Script S ε α
  | transaction {α β : Type} (body : Script S ε β) (k : Except ε β → Script S ε α) : Script S ε α

abbrev Answer (S : Signature.{0}) (ε : Type) := (o : S.Op) × Except ε (S.Ans o)

/-- An implementation of operations: how they run, and what is left of a state in which a
transaction began and of the one in which it threw. -/
structure Implementation (S : Signature.{0}) (ε σ : Type) where
  exec : Handler S ε σ
  rollback : σ → σ → σ

namespace Script

variable {S : Signature.{0}} {ε σ τ : Type}

def run (m : Implementation S ε σ) : {α : Type} → Script S ε α → σ →
    Except ε α × List (Answer S ε) × σ
  | _, .ret a, s => (.ok a, [], s)
  | _, .err e, s => (.error e, [], s)
  | _, .await o k, s =>
    let (r, answers, s') := (k (m.exec o s).1).run m (m.exec o s).2
    (r, ⟨o, (m.exec o s).1⟩ :: answers, s')
  | _, .transaction body k, s => match body.run m s with
    | (.ok b, answers, s') =>
      let (r, answers', s'') := (k (.ok b)).run m s'
      (r, answers ++ answers', s'')
    | (.error e, answers, s') =>
      let (r, answers', s'') := (k (.error e)).run m (m.rollback s s')
      (r, answers ++ answers', s'')

/-- Every operation of the script is performed in a state that `D` allows it in. -/
def Within (m : Implementation S ε σ) (D : σ → S.Op → Prop) : {α : Type} → Script S ε α → σ → Prop
  | _, .ret _, _ => True
  | _, .err _, _ => True
  | _, .await o k, s => D s o ∧ (k (m.exec o s).1).Within m D (m.exec o s).2
  | _, .transaction body k, s => body.Within m D s ∧ match body.run m s with
    | (.ok b, _, s') => (k (.ok b)).Within m D s'
    | (.error e, _, s') => (k (.error e)).Within m D (m.rollback s s')

end Script

/-- Two implementations agree on the operations that `D` allows, in the states that `R` relates. A
rollback may count on it that the states of a run only move forward. -/
structure Simulates {S : Signature.{0}} {ε σ τ : Type} (m : Implementation S ε σ)
    (m' : Implementation S ε τ) (D : σ → S.Op → Prop) (Le : σ → σ → Prop) (R : σ → τ → Prop) :
    Prop where
  refl : ∀ s, Le s s
  trans : ∀ {s s' s''}, Le s s' → Le s' s'' → Le s s''
  exec_le : ∀ o s, Le s (m.exec o s).2
  rollback_le : ∀ {s s'}, Le s s' → Le s (m.rollback s s')
  exec : ∀ {o s t}, R s t → D s o → (m.exec o s).1 = (m'.exec o t).1 ∧
    R (m.exec o s).2 (m'.exec o t).2
  rollback : ∀ {s t s' t'}, R s t → R s' t' → Le s s' → R (m.rollback s s') (m'.rollback t t')

namespace Simulates

variable {S : Signature.{0}} {ε σ τ : Type} {m : Implementation S ε σ} {m' : Implementation S ε τ}
  {D : σ → S.Op → Prop} {Le : σ → σ → Prop} {R : σ → τ → Prop}

theorem run_le (h : Simulates m m' D Le R) {α : Type} (p : Script S ε α) (s : σ) :
    Le s (p.run m s).2.2 := by
  induction p generalizing s with
  | ret | err => exact h.refl s
  | await o k ih => exact h.trans (h.exec_le o s) (ih _ _)
  | transaction body k ihb ih =>
    have hb := ihb s
    rcases hrun : body.run m s with ⟨r, answers, s'⟩
    rw [hrun] at hb
    cases r with
    | ok b =>
      simp only [Script.run, hrun]
      exact h.trans hb (ih _ _)
    | error e =>
      simp only [Script.run, hrun]
      exact h.trans (h.rollback_le hb) (ih _ _)

/-- Implementations that agree on every operation agree on every script. -/
theorem run (h : Simulates m m' D Le R) {α : Type} {p : Script S ε α} {s : σ} {t : τ}
    (hR : R s t) (hp : p.Within m D s) :
    (p.run m s).1 = (p.run m' t).1 ∧ (p.run m s).2.1 = (p.run m' t).2.1 ∧
      R (p.run m s).2.2 (p.run m' t).2.2 := by
  induction p generalizing s t with
  | ret | err => exact ⟨rfl, rfl, hR⟩
  | await o k ih =>
    obtain ⟨hans, hR'⟩ := h.exec hR hp.1
    obtain ⟨hres, hlog, hend⟩ := ih (m.exec o s).1 hR' hp.2
    simp only [Script.run, ← hans]
    exact ⟨hres, congrArg _ hlog, hend⟩
  | transaction body k ihb ih =>
    rw [Script.Within] at hp
    obtain ⟨hb, hk⟩ := hp
    have hle := h.run_le body s
    obtain ⟨hres, hlog, hend⟩ := ihb hR hb
    rcases hrun : body.run m s with ⟨r, answers, s'⟩
    rcases hrun' : body.run m' t with ⟨r', answers', t'⟩
    rw [hrun] at hres hlog hend hle hk
    rw [hrun'] at hres hlog hend
    dsimp only at hres hlog hend hle
    subst hres hlog
    cases r with
    | ok b =>
      obtain ⟨hres, hlog, hend⟩ := ih (.ok b) hend hk
      simp only [Script.run, hrun, hrun']
      exact ⟨hres, congrArg _ hlog, hend⟩
    | error e =>
      obtain ⟨hres, hlog, hend⟩ := ih (.error e) (h.rollback hR hend hle) hk
      simp only [Script.run, hrun, hrun']
      exact ⟨hres, congrArg _ hlog, hend⟩

end Simulates

end Kyc
