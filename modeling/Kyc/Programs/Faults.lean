import Kyc.Programs.Uses
import Mathlib.Data.Nat.Notation

/-! # Programs with a failing operation

One operation of a program throws instead of answering. A program that catches no
error then throws it too, wherever in its run the operation stands. What a run has
done by the time it comes to an operation is read off the state it performs it in.
-/

namespace Kyc

namespace Program

universe u

variable {S : Signature.{u}} {ε σ α β : Type}

/-- The program whose `n`-th operation throws, after it has taken effect or before. -/
def failAt (e : ε) (late : Bool) : ℕ → Program S ε α → Program S ε α
  | _, .ret a => .ret a
  | _, .err e' => .err e'
  | 0, .await o k => if late then .await o fun _ => k (.error e) else k (.error e)
  | n + 1, .await o k => .await o fun r => (k r).failAt e late n

def performed (h : Handler S ε σ) : Program S ε α → σ → List S.Op
  | .await o k, s => o :: (k (h o s).1).performed h (h o s).2
  | _, _ => []

def visited (h : Handler S ε σ) : Program S ε α → σ → List (S.Op × σ)
  | .await o k, s => (o, s) :: (k (h o s).1).visited h (h o s).2
  | _, _ => []

/-- No error of an operation is caught. -/
def Propagates : Program S ε α → Prop
  | .ret _ => True
  | .err _ => True
  | .await _ k => (∀ e, k (.error e) = .err e) ∧ ∀ r, (k r).Propagates

theorem propagates_perform (o : S.Op) : (perform o : Program S ε (S.Ans o)).Propagates := by
  refine ⟨fun _ => rfl, fun r => ?_⟩
  cases r <;> trivial

theorem Propagates.bind {p : Program S ε α} {f : α → Program S ε β} (hp : p.Propagates)
    (hf : ∀ a, (f a).Propagates) : (p >>= f).Propagates := by
  change (p.bind f).Propagates
  induction p with
  | ret a => exact hf a
  | err e => trivial
  | await o k ih =>
    refine ⟨fun e => ?_, fun r => ih r (hp.2 r)⟩
    simp only [hp.1 e, Program.bind]

variable {h : Handler S ε σ} {p : Program S ε α} {s : σ} {e : ε} {late : Bool} {n : ℕ}

theorem Propagates.run_failAt (hp : p.Propagates) (hn : n < (p.performed h s).length) :
    ((p.failAt e late n).run h s).1 = .error e := by
  induction p generalizing n s with
  | ret | err => cases hn
  | await o k ih =>
    cases n with
    | zero =>
      unfold failAt
      split <;> simp only [run, hp.1 e]
    | succ n => exact ih _ (hp.2 _) (Nat.lt_of_succ_lt_succ hn)

variable (e late) in
/-- A failure that the run does not reach does not matter. -/
theorem run_failAt_of_le (hn : (p.performed h s).length ≤ n) :
    (p.failAt e late n).run h s = p.run h s := by
  induction p generalizing n s with
  | ret | err => cases n <;> rfl
  | await o k ih =>
    cases n with
    | zero => cases hn
    | succ n => exact ih _ (Nat.le_of_succ_le_succ hn)

section Visited

variable (h p s)

@[simp] theorem visited_pure (a : α) : (pure a : Program S ε α).visited h s = [] := rfl

@[simp] theorem visited_throw (e : ε) : (throw e : Program S ε α).visited h s = [] := rfl

@[simp] theorem visited_ofExcept (r : Except ε α) :
    (ofExcept r : Program S ε α).visited h s = [] := by
  cases r <;> rfl

@[simp] theorem visited_perform (o : S.Op) :
    (perform o : Program S ε (S.Ans o)).visited h s = [(o, s)] := by
  simp only [perform, visited]
  split <;> rfl

variable {h p s}

theorem mem_visited_bind {f : α → Program S ε β} {v : S.Op × σ}
    (hv : v ∈ (p >>= f).visited h s) :
    v ∈ p.visited h s ∨ ∃ a s', p.run h s = (.ok a, s') ∧ v ∈ (f a).visited h s' := by
  change v ∈ (p.bind f).visited h s at hv
  induction p generalizing s with
  | ret a => exact Or.inr ⟨a, s, rfl, hv⟩
  | err e => cases hv
  | await o k ih =>
    rcases List.mem_cons.mp hv with rfl | hv
    · exact Or.inl List.mem_cons_self
    · exact (ih _ hv).imp_left (List.mem_cons_of_mem _)

theorem mem_visited_tryCatch {f : ε → Program S ε α} {v : S.Op × σ}
    (hv : v ∈ (tryCatch p f).visited h s) :
    v ∈ p.visited h s ∨ ∃ e s', p.run h s = (.error e, s') ∧ v ∈ (f e).visited h s' := by
  change v ∈ (p.tryCatch f).visited h s at hv
  induction p generalizing s with
  | ret a => cases hv
  | err e => exact Or.inr ⟨e, s, rfl, hv⟩
  | await o k ih =>
    rcases List.mem_cons.mp hv with rfl | hv
    · exact Or.inl List.mem_cons_self
    · exact (ih _ hv).imp_left (List.mem_cons_of_mem _)

theorem Uses.visited {P : S.Op → Prop} (hp : p.Uses P) {v : S.Op × σ} (hv : v ∈ p.visited h s) :
    P v.1 := by
  induction p generalizing s with
  | ret | err => cases hv
  | await o k ih =>
    rcases List.mem_cons.mp hv with rfl | hv
    · exact hp.1
    · exact ih _ (hp.2 _) hv

end Visited

end Program

end Kyc
