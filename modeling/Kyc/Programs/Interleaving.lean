import Kyc.Programs.Uses
import Mathlib.Data.List.Induction

/-! # Interleaved programs

A pool holds a shared state and the programs started on it. An event starts
another program or lets one of them perform its next operation, so the lists of
events range over all interleavings at the awaits. A single program run by itself
is one of these schedules.
-/

namespace Kyc

universe u

structure Thread (S : Signature.{u}) (ε α κ : Type) where
  call : κ
  rest : Program S ε α

/-- A shared state and the programs running on it. -/
structure Pool (S : Signature.{u}) (ε σ α κ : Type) where
  state : σ
  threads : List (Thread S ε α κ)

/-- Start a program for a call, or let the `i`-th started program take a step. -/
inductive Event (κ : Type)
  | start (c : κ)
  | step (i : ℕ)

namespace Program

variable {S : Signature.{u}} {ε σ α β : Type}

/-- Perform the next operation of a program; a settled program does nothing. -/
def advance (h : Handler S ε σ) : Program S ε α → σ → Program S ε α × σ
  | .await o k, s => (k (h o s).1, (h o s).2)
  | p, s => (p, s)

def result : Program S ε α → Option (Except ε α)
  | .ret a => some (.ok a)
  | .err e => some (.error e)
  | .await _ _ => none

theorem advance_bind (h : Handler S ε σ) {p : Program S ε α} (hp : p.result = none)
    (f : α → Program S ε β) (s : σ) :
    (p >>= f).advance h s = ((p.advance h s).1 >>= f, (p.advance h s).2) := by
  cases p with
  | ret | err => cases hp
  | await o k => rfl

end Program

namespace Pool

open Program

variable {S : Signature.{u}} {ε σ α κ : Type} (h : Handler S ε σ) (prog : κ → Program S ε α)

/-- One event of a pool; a step of a program that was never started does nothing. -/
def next (pool : Pool S ε σ α κ) : Event κ → Pool S ε σ α κ
  | .start c => { pool with threads := pool.threads ++ [⟨c, prog c⟩] }
  | .step i => match pool.threads[i]? with
    | some t =>
      { state := (t.rest.advance h pool.state).2
        threads := pool.threads.set i ⟨t.call, (t.rest.advance h pool.state).1⟩ }
    | none => pool

theorem next_step_some {pool : Pool S ε σ α κ} {i : ℕ} {t : Thread S ε α κ}
    (hi : pool.threads[i]? = some t) :
    pool.next h prog (.step i) =
      { state := (t.rest.advance h pool.state).2
        threads := pool.threads.set i ⟨t.call, (t.rest.advance h pool.state).1⟩ } := by
  simp only [next, hi]

theorem next_step_none {pool : Pool S ε σ α κ} {i : ℕ} (hi : pool.threads[i]? = none) :
    pool.next h prog (.step i) = pool := by
  simp only [next, hi]

theorem get_next_step {pool : Pool S ε σ α κ} {i : ℕ} {t : Thread S ε α κ}
    (hi : pool.threads[i]? = some t) :
    (pool.next h prog (.step i)).threads[i]? = some ⟨t.call, (t.rest.advance h pool.state).1⟩ := by
  rw [next_step_some h prog hi]
  exact List.getElem?_set_self (List.getElem?_eq_some_iff.mp hi).1

def run (pool : Pool S ε σ α κ) (evs : List (Event κ)) : Pool S ε σ α κ :=
  evs.foldl (next h prog) pool

def idle (s : σ) : Pool S ε σ α κ := ⟨s, []⟩

@[simp] theorem run_nil (pool : Pool S ε σ α κ) : pool.run h prog [] = pool := rfl

@[simp] theorem run_cons (pool : Pool S ε σ α κ) (ev : Event κ) (evs : List (Event κ)) :
    pool.run h prog (ev :: evs) = (pool.next h prog ev).run h prog evs := rfl

theorem run_append (pool : Pool S ε σ α κ) (evs evs' : List (Event κ)) :
    pool.run h prog (evs ++ evs') = (pool.run h prog evs).run h prog evs' :=
  List.foldl_append

theorem run_concat (pool : Pool S ε σ α κ) (evs : List (Event κ)) (ev : Event κ) :
    pool.run h prog (evs ++ [ev]) = (pool.run h prog evs).next h prog ev :=
  run_append h prog pool evs [ev]

theorem get_run_of_not_mem {pool : Pool S ε σ α κ} {i : ℕ} {t : Thread S ε α κ}
    (hi : pool.threads[i]? = some t) {evs : List (Event κ)} (hn : .step i ∉ evs) :
    (pool.run h prog evs).threads[i]? = some t := by
  induction evs generalizing pool with
  | nil => exact hi
  | cons ev evs ih =>
    obtain ⟨hne, hn⟩ := not_or.mp (mt List.mem_cons.mpr hn)
    rw [run_cons]
    apply ih _ hn
    cases ev with
    | start c => exact (List.getElem?_append_left (List.getElem?_eq_some_iff.mp hi).1).trans hi
    | step j =>
      have hji : j ≠ i := by
        rintro rfl
        exact hne rfl
      cases hj : pool.threads[j]? with
      | none => rwa [next_step_none h prog hj]
      | some t' =>
        rw [next_step_some h prog hj]
        exact (List.getElem?_set_ne hji).trans hi

theorem run_start (pool : Pool S ε σ α κ) (calls : List κ) :
    pool.run h prog (calls.map .start) =
      { pool with threads := pool.threads ++ calls.map fun c => ⟨c, prog c⟩ } := by
  induction calls generalizing pool with
  | nil => simp
  | cons c calls ih =>
    rw [List.map_cons, run_cons, ih]
    simp [next]

variable {h prog}

/-- Every program in the pool only awaits operations that satisfy `P`. -/
def Uses (P : S.Op → Prop) (pool : Pool S ε σ α κ) : Prop :=
  ∀ t ∈ pool.threads, t.rest.Uses P

theorem uses_idle {P : S.Op → Prop} (s : σ) : (idle s : Pool S ε σ α κ).Uses P := by
  simp [Uses, idle]

section Uses

variable {P : S.Op → Prop}

theorem Uses.next_state {pool : Pool S ε σ α κ} (hu : pool.Uses P) (ev : Event κ) :
    (pool.next h prog ev).state = pool.state ∨
      ∃ o, P o ∧ (pool.next h prog ev).state = (h o pool.state).2 := by
  cases ev with
  | start c => exact Or.inl rfl
  | step i =>
    cases hi : pool.threads[i]? with
    | none => exact Or.inl (by rw [next_step_none h prog hi])
    | some t =>
      rw [next_step_some h prog hi]
      have ht := hu t (List.mem_of_getElem? hi)
      cases hr : t.rest with
      | ret | err => exact Or.inl rfl
      | await o k => rw [hr] at ht; exact Or.inr ⟨o, ht.1, rfl⟩

variable (hp : ∀ c, (prog c).Uses P)

include hp

theorem Uses.next {pool : Pool S ε σ α κ} (hu : pool.Uses P) (ev : Event κ) :
    (pool.next h prog ev).Uses P := by
  cases ev with
  | start c =>
    intro t ht
    rcases List.mem_append.mp ht with ht | ht
    · exact hu t ht
    · obtain rfl := List.mem_singleton.mp ht
      exact hp c
  | step i =>
    cases hi : pool.threads[i]? with
    | none => rwa [next_step_none h prog hi]
    | some t =>
      rw [next_step_some h prog hi]
      intro t' ht'
      rcases List.mem_or_eq_of_mem_set ht' with ht' | rfl
      · exact hu t' ht'
      · have ht := hu t (List.mem_of_getElem? hi)
        cases hr : t.rest with
        | ret | err => simp [advance]
        | await o k => rw [hr] at ht; exact ht.2 _

theorem Uses.run {pool : Pool S ε σ α κ} (hu : pool.Uses P) (evs : List (Event κ)) :
    (pool.run h prog evs).Uses P := by
  induction evs generalizing pool with
  | nil => exact hu
  | cons ev evs ih => exact ih (hu.next hp ev)

/-- An invariant of the permitted operations holds along every interleaving. -/
theorem Uses.run_invariant {I : σ → Prop} (hI : ∀ o s, P o → I s → I (h o s).2)
    {pool : Pool S ε σ α κ} (hu : pool.Uses P) (hs : I pool.state) (evs : List (Event κ)) :
    I (pool.run h prog evs).state := by
  induction evs generalizing pool with
  | nil => exact hs
  | cons ev evs ih =>
    apply ih (hu.next hp ev)
    rcases hu.next_state ev with he | ⟨o, ho, he⟩
    · rwa [he]
    · rw [he]; exact hI o _ ho hs

/-- Every interleaving relates its ends by a preorder that the permitted operations respect
in the states of an invariant. -/
theorem Uses.run_rel {I : σ → Prop} {G : σ → σ → Prop} (hI : ∀ o s, P o → I s → I (h o s).2)
    (hr : ∀ s, G s s) (ht : ∀ {a b c}, G a b → G b c → G a c)
    (hG : ∀ o s, P o → I s → G s (h o s).2) {pool : Pool S ε σ α κ} (hu : pool.Uses P)
    (hs : I pool.state) (evs : List (Event κ)) :
    G pool.state (pool.run h prog evs).state := by
  induction evs generalizing pool with
  | nil => exact hr _
  | cons ev evs ih =>
    rcases hu.next_state ev with he | ⟨o, ho, he⟩
    · have := ih (hu.next hp ev) (by rwa [he])
      rwa [he] at this
    · refine ht ?_ (ih (hu.next hp ev) (by rw [he]; exact hI o _ ho hs))
      rw [he]; exact hG o _ ho hs

end Uses

/-- Every program in the pool was started for some call, and awaits only what is permitted to that
call. -/
theorem uses_of_started {P : κ → S.Op → Prop} {evs : List (Event κ)}
    (hp : ∀ c, .start c ∈ evs → (prog c).Uses (P c)) (s : σ) :
    ∀ t ∈ ((idle s).run h prog evs).threads, .start t.call ∈ evs ∧ t.rest.Uses (P t.call) := by
  induction evs using List.reverseRecOn with
  | nil => simp [idle]
  | append_singleton evs ev ih =>
    have earlier : ∀ t ∈ ((idle s).run h prog evs).threads,
        .start t.call ∈ evs ++ [ev] ∧ t.rest.Uses (P t.call) := by
      intro t ht
      obtain ⟨started, uses⟩ := ih (fun c hc => hp c (List.mem_append_left _ hc)) t ht
      exact ⟨List.mem_append_left _ started, uses⟩
    rw [run_concat]
    cases ev with
    | start c =>
      intro t ht
      rcases List.mem_append.mp ht with ht | ht
      · exact earlier t ht
      · obtain rfl := List.mem_singleton.mp ht
        have started : .start c ∈ evs ++ [.start c] := by simp
        exact ⟨started, hp c started⟩
    | step i =>
      cases hi : ((idle s).run h prog evs).threads[i]? with
      | none => rwa [next_step_none h prog hi]
      | some t =>
        rw [next_step_some h prog hi]
        intro t' ht'
        rcases List.mem_or_eq_of_mem_set ht' with ht' | rfl
        · exact earlier t' ht'
        · obtain ⟨started, uses⟩ := earlier t (List.mem_of_getElem? hi)
          refine ⟨started, ?_⟩
          dsimp only
          cases hr : t.rest with
          | ret | err => simp [advance]
          | await o k => rw [hr] at uses; exact uses.2 _

section Congr

variable {h' : Handler S ε σ} {pool : Pool S ε σ α κ}

theorem next_congr {ev : Event κ}
    (same : ∀ i t o k, ev = .step i → pool.threads[i]? = some t → t.rest = .await o k →
      h' o pool.state = h o pool.state) : pool.next h' prog ev = pool.next h prog ev := by
  cases ev with
  | start c => rfl
  | step i =>
    cases hi : pool.threads[i]? with
    | none => rw [next_step_none h' prog hi, next_step_none h prog hi]
    | some t =>
      have hadvance : t.rest.advance h' pool.state = t.rest.advance h pool.state := by
        cases hr : t.rest with
        | ret | err => rfl
        | await o k => simp only [advance, same i t o k rfl hi hr]
      rw [next_step_some h' prog hi, next_step_some h prog hi, hadvance]

/-- Handlers that answer alike whatever a run asks lead through the same run. -/
theorem run_congr {evs : List (Event κ)}
    (same : ∀ pre i t o k, pre ++ [.step i] <+: evs →
      (pool.run h prog pre).threads[i]? = some t → t.rest = .await o k →
      h' o (pool.run h prog pre).state = h o (pool.run h prog pre).state) :
    pool.run h' prog evs = pool.run h prog evs := by
  induction evs using List.reverseRecOn with
  | nil => rfl
  | append_singleton evs ev ih =>
    rw [run_concat, run_concat,
      ih fun pre i t o k hpre => same pre i t o k (hpre.trans (List.prefix_append _ _))]
    apply next_congr
    rintro i t o k rfl
    exact same evs i t o k (List.prefix_refl _)

end Congr

section Trace

variable {β : Type} (h prog) (note : σ → Program S ε α → Option β)

/-- What the next step of the `i`-th program is noted as. -/
def noted (pool : Pool S ε σ α κ) (i : ℕ) : List (ℕ × β) :=
  match pool.threads[i]? with
  | some t => (note pool.state t.rest).toList.map (i, ·)
  | none => []

def trace : Pool S ε σ α κ → List ℕ → List (ℕ × β)
  | _, [] => []
  | pool, i :: steps => pool.noted note i ++ trace (pool.next h prog (.step i)) steps

variable {h prog note}

/-- What every step keeps, of the pool and of what was noted so far, holds at the end. -/
theorem trace_invariant {I : Pool S ε σ α κ → List (ℕ × β) → Prop}
    (hstep : ∀ pool acts i, I pool acts →
      I (pool.next h prog (.step i)) (acts ++ pool.noted note i))
    {pool : Pool S ε σ α κ} {acts : List (ℕ × β)} (hI : I pool acts) (steps : List ℕ) :
    I (pool.run h prog (steps.map .step)) (acts ++ pool.trace h prog note steps) := by
  induction steps generalizing pool acts with
  | nil => rwa [trace, List.append_nil]
  | cons i steps ih =>
    rw [trace, ← List.append_assoc]
    exact ih (hstep pool acts i hI)

end Trace

end Pool

end Kyc
