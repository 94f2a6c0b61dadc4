import Kyc.Programs.Interleaving

/-! # The values of a program

`p.Yields Q` says that every value `p` can ever return satisfies `Q`, whatever the
answers to its operations are. So does every value that it returns among others.
-/

namespace Kyc

universe u v

namespace Program

variable {S : Signature.{u}} {T : Signature.{v}} {ε σ α β : Type} {Q : α → Prop}
  {R : β → Prop}

/-- Every value the program may return satisfies `Q`. -/
inductive Yields (Q : α → Prop) : Program S ε α → Prop
  | ret {a : α} (h : Q a) : Yields Q (.ret a)
  | err {e : ε} : Yields Q (.err e)
  | await {o : S.Op} {k : Except ε (S.Ans o) → Program S ε α} (h : ∀ r, Yields Q (k r)) :
      Yields Q (.await o k)

theorem yields_pure {a : α} (h : Q a) : (pure a : Program S ε α).Yields Q := .ret h

theorem yields_ofExcept {r : Except ε α} (h : ∀ a, r = .ok a → Q a) :
    (ofExcept r : Program S ε α).Yields Q := by
  cases r with
  | ok a => exact .ret (h a rfl)
  | error e => exact .err

theorem Yields.bind {p : Program S ε α} {f : α → Program S ε β} (hp : p.Yields Q)
    (hf : ∀ a, Q a → (f a).Yields R) : (p >>= f).Yields R := by
  change (p.bind f).Yields R
  induction hp with
  | ret ha => exact hf _ ha
  | err => exact .err
  | await _ ih => exact .await ih

theorem yields_bind {p : Program S ε α} {f : α → Program S ε β} (hf : ∀ a, (f a).Yields R) :
    (p >>= f).Yields R := by
  change (p.bind f).Yields R
  induction p with
  | ret a => exact hf a
  | err e => exact .err
  | await o k ih => exact .await ih

theorem Yields.expand {p : Program S ε α} (hp : p.Yields Q)
    (f : (o : S.Op) → Program T ε (S.Ans o)) : (p.expand f).Yields Q := by
  induction hp with
  | ret ha => exact .ret ha
  | err => exact .err
  | await _ ih => exact yields_bind ih

theorem Yields.advance {p : Program S ε α} (hp : p.Yields Q) (h : Handler S ε σ) (s : σ) :
    (p.advance h s).1.Yields Q := by
  cases hp with
  | ret ha => exact .ret ha
  | err => exact .err
  | await hk => exact hk _

end Program

namespace Pool

open Program

variable {S : Signature.{u}} {ε σ α κ : Type} {h : Handler S ε σ} {prog : κ → Program S ε α}
  {Q : κ → α → Prop}

/-- Every program in the pool only returns what its call may. -/
def Yields (Q : κ → α → Prop) (pool : Pool S ε σ α κ) : Prop :=
  ∀ t ∈ pool.threads, t.rest.Yields (Q t.call)

theorem Yields.next {pool : Pool S ε σ α κ} (hp : pool.Yields Q) {ev : Event κ}
    (hprog : ∀ c, ev = .start c → (prog c).Yields (Q c)) : (pool.next h prog ev).Yields Q := by
  cases ev with
  | start c =>
    intro t ht
    rcases List.mem_append.mp ht with ht | ht
    · exact hp t ht
    · rw [List.mem_singleton.mp ht]
      exact hprog c rfl
  | step i =>
    cases hi : pool.threads[i]? with
    | none => rwa [next_step_none h prog hi]
    | some t =>
      rw [next_step_some h prog hi]
      intro t' ht'
      rcases List.mem_or_eq_of_mem_set ht' with ht' | rfl
      · exact hp t' ht'
      · exact (hp t (List.mem_of_getElem? hi)).advance h pool.state

/-- In every interleaving a call that returns has returned what it may. -/
theorem yields_run {pool : Pool S ε σ α κ} (hp : pool.Yields Q) {evs : List (Event κ)}
    (hprog : ∀ c, .start c ∈ evs → (prog c).Yields (Q c)) : (pool.run h prog evs).Yields Q := by
  induction evs generalizing pool with
  | nil => exact hp
  | cons ev evs ih =>
    refine ih (hp.next fun c hc => hprog c ?_) fun c hc => hprog c (List.mem_cons_of_mem _ hc)
    rw [hc]
    exact List.mem_cons_self

/-- Every call that has returned has returned what satisfies `Q`. -/
def Settles (Q : κ → α → Prop) (pool : Pool S ε σ α κ) : Prop :=
  ∀ t ∈ pool.threads, ∀ a, t.rest.result = some (.ok a) → Q t.call a

theorem Yields.settles {pool : Pool S ε σ α κ} (hp : pool.Yields Q) : pool.Settles Q := by
  rintro ⟨c, p⟩ ht a ha
  have yields : p.Yields (Q c) := hp _ ht
  cases yields with
  | ret h =>
    obtain rfl := Except.ok.inj (Option.some.inj ha)
    exact h
  | err => cases Option.some.inj ha
  | await h => cases ha

theorem settles_run (hprog : ∀ c, (prog c).Yields (Q c)) (s : σ) (evs : List (Event κ)) :
    ((idle s).run h prog evs).Settles Q :=
  (yields_run (fun _ ht => absurd ht List.not_mem_nil) fun c _ => hprog c).settles

end Pool

end Kyc
