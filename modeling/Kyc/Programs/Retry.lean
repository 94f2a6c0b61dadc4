import Mathlib.Algebra.Group.Nat.Defs
import Mathlib.Order.Lattice

/-! # Retrying

A call that is repeated while it fails in a way that is worth another try, up to a number of
attempts. The loop comes to the outcome of the last attempt that it makes, which is the first
to settle the matter, unless the attempts run out before.
-/

namespace Kyc.Retry

/-- What the loop does: it makes a call, or sleeps for some milliseconds. -/
inductive Effect
  | call
  | sleep (ms : ℕ)
  deriving DecidableEq, Repr

structure Config where
  maxAttempts : ℕ
  baseDelay : ℕ
  deriving DecidableEq, Repr

variable {ε α : Type} (retry : ε → Bool) (config : Config) (fn : ℕ → Except ε α)

/-- The loop for the given number of attempts, the first of which has the given index, after the
given error. -/
def loop : ℕ → ℕ → ε → List Effect × Except ε α
  | 0, _, lastError => ([], .error lastError)
  | remaining + 1, attempt, _ =>
    match fn attempt with
    | .ok a => ([.call], .ok a)
    | .error e =>
      if retry e then
        let rest := loop remaining (attempt + 1) e
        (.call :: (if attempt < config.maxAttempts - 1 then
            [.sleep (config.baseDelay * 2 ^ attempt)]
          else []) ++ rest.1, rest.2)
      else ([.call], .error e)

def calls (effects : List Effect) : ℕ := effects.count .call

def Settles : Except ε α → Prop
  | .ok _ => True
  | .error e => retry e = false

def IsFirst (k : ℕ) : Prop :=
  1 ≤ k ∧ Settles retry (fn (k - 1)) ∧ ∀ j, j + 1 < k → ¬ Settles retry (fn j)

variable {retry config fn}

theorem calls_next {p : Prop} [Decidable p] (ms : ℕ) (effects : List Effect) :
    calls (.call :: (if p then [.sleep ms] else []) ++ effects) = calls effects + 1 := by
  rw [calls, List.count_append]
  split <;> simp [calls, Nat.add_comm]

/-- The loop stops at the first outcome that settles the matter, or at the last attempt. -/
theorem loop_stops {remaining : ℕ} (hr : 0 < remaining) (attempt : ℕ) (lastError : ε) :
    ∃ n < remaining, (∀ j < n, ¬ Settles retry (fn (attempt + j))) ∧
      (Settles retry (fn (attempt + n)) ∨ n + 1 = remaining) ∧
      calls (loop retry config fn remaining attempt lastError).1 = n + 1 ∧
      (loop retry config fn remaining attempt lastError).2 = fn (attempt + n) := by
  induction remaining generalizing attempt lastError with
  | zero => exact absurd hr (Nat.lt_irrefl 0)
  | succ remaining ih =>
    rw [loop]
    cases hfn : fn attempt with
    | ok a =>
      refine ⟨0, hr, fun j hj => absurd hj (Nat.not_lt_zero j), Or.inl ?_, rfl, hfn.symm⟩
      rw [Nat.add_zero, hfn]
      trivial
    | error e =>
      dsimp only
      cases he : retry e with
      | false =>
        refine ⟨0, hr, fun j hj => absurd hj (Nat.not_lt_zero j), Or.inl ?_, rfl, hfn.symm⟩
        rw [Nat.add_zero, hfn]
        exact he
      | true =>
        have unsettled : ¬ Settles retry (fn attempt) := by
          rw [hfn]
          exact fun h => Bool.false_ne_true (h.symm.trans he)
        simp only [if_true, calls_next]
        rcases Nat.eq_zero_or_pos remaining with rfl | more
        · exact ⟨0, hr, fun j hj => absurd hj (Nat.not_lt_zero j), Or.inr rfl, rfl, hfn.symm⟩
        · obtain ⟨n, hn, before, stop, hcalls, hresult⟩ := ih more (attempt + 1) e
          have shift (j : ℕ) : attempt + (j + 1) = attempt + 1 + j := by omega
          refine ⟨n + 1, Nat.succ_lt_succ hn, fun j hj => ?_, ?_, by rw [hcalls],
            hresult.trans (congrArg fn (shift n).symm)⟩
          · cases j with
            | zero => exact unsettled
            | succ j =>
              rw [shift]
              exact before j (Nat.lt_of_succ_lt_succ hj)
          · rw [shift]
            exact stop.imp_right fun h => congrArg Nat.succ h

/-- The loop makes as many calls as it takes to settle the matter, but not more than the attempts,
and comes to the outcome of the last call. -/
theorem loop_result (hc : 0 < config.maxAttempts) (lastError : ε) :
    let run := loop retry config fn config.maxAttempts 0 lastError
    (∀ k, IsFirst retry fn k → calls run.1 = min k config.maxAttempts) ∧
      ((∀ k, ¬ IsFirst retry fn k) → calls run.1 = config.maxAttempts) ∧
      run.2 = fn (calls run.1 - 1) := by
  obtain ⟨n, hn, before, stop, hcalls, hresult⟩ :=
    @loop_stops _ _ retry config fn _ hc 0 lastError
  simp only [Nat.zero_add] at before stop hresult
  dsimp only
  rw [hcalls, hresult]
  have first (h : Settles retry (fn n)) : IsFirst retry fn (n + 1) :=
    ⟨Nat.succ_le_succ (Nat.zero_le n), h, fun j hj => before j (Nat.lt_of_succ_lt_succ hj)⟩
  refine ⟨fun k hk => ?_, fun none => ?_, rfl⟩
  · obtain ⟨hk1, hsettles, hbefore⟩ := hk
    have reach : n + 1 ≤ k := by
      by_contra h
      exact before (k - 1) (by omega) hsettles
    rcases stop with hs | hs
    · have same : ¬ n + 1 < k := fun h => hbefore n h hs
      omega
    · omega
  · rcases stop with hs | hs
    · exact absurd (first hs) (none _)
    · exact hs

theorem exists_isFirst {j : ℕ} (h : Settles retry (fn j)) : ∃ k ≤ j + 1, IsFirst retry fn k := by
  induction j using Nat.strongRecOn with
  | ind j ih =>
    by_cases earlier : ∃ i < j, Settles retry (fn i)
    · obtain ⟨i, hi, hs⟩ := earlier
      obtain ⟨k, hk, first⟩ := ih i hi hs
      exact ⟨k, by omega, first⟩
    · refine ⟨j + 1, le_rfl, Nat.succ_le_succ (Nat.zero_le j), h, fun i hi hs => ?_⟩
      exact earlier ⟨i, Nat.lt_of_succ_lt_succ hi, hs⟩

end Kyc.Retry
