import Mathlib.Data.List.Basic
import Mathlib.Data.List.Induction
import Mathlib.Logic.Function.Basic

/-! # Rolling back to a snapshot

Transactions that share one state: each remembers the state it began in, and one that
rolls back puts that state back, over whatever the others did in between. When nobody
else wrote or rolled back in between, only its own operations are undone, so the state
is the one that the operations of the other transactions alone lead to.
-/

namespace Kyc

/-- What a transaction can do to the shared state. -/
inductive TxStep (ο : Type)
  | began
  | performed (o : ο)
  | rolledBack
  deriving DecidableEq

namespace Snapshots

variable {σ ο : Type}

/-- The shared state, and the state in which each transaction began. -/
structure Shared (σ : Type) where
  current : σ
  before : ℕ → σ

variable (step : ο → σ → σ)

/-- One step of the transaction with the given number. -/
def act (u : Shared σ) : ℕ × TxStep ο → Shared σ
  | (i, .began) => { u with before := Function.update u.before i u.current }
  | (_, .performed o) => { u with current := step o u.current }
  | (i, .rolledBack) => { u with current := u.before i }

/-- The shared state after the steps, first to last. -/
def after (s : σ) (acts : List (ℕ × TxStep ο)) : Shared σ :=
  acts.foldl (act step) ⟨s, fun _ => s⟩

/-- What the operations among the steps do to a state. -/
def replay (s : σ) (acts : List (ℕ × TxStep ο)) : σ :=
  acts.foldl (fun s a => match a.2 with
    | .performed o => step o s
    | _ => s) s

/-- The steps of the transactions that did not roll back. -/
def kept [DecidableEq ο] (acts : List (ℕ × TxStep ο)) : List (ℕ × TxStep ο) :=
  acts.filter fun a => (a.1, .rolledBack) ∉ acts

/-- A transaction begins before it does anything else, and does nothing after its rollback. -/
inductive WellOrdered : List (ℕ × TxStep ο) → Prop
  | nil : WellOrdered []
  | began {acts : List (ℕ × TxStep ο)} {i : ℕ} : WellOrdered acts → (∀ x ∈ acts, x.1 ≠ i) →
      WellOrdered (acts ++ [(i, .began)])
  | performed {acts : List (ℕ × TxStep ο)} {i : ℕ} {o : ο} : WellOrdered acts →
      (i, .began) ∈ acts → (i, .rolledBack) ∉ acts → WellOrdered (acts ++ [(i, .performed o)])
  | rolledBack {acts : List (ℕ × TxStep ο)} {i : ℕ} : WellOrdered acts →
      (i, .began) ∈ acts → (i, .rolledBack) ∉ acts → WellOrdered (acts ++ [(i, .rolledBack)])

/-- The step writes nothing: it begins a transaction, or it is an operation that only reads. -/
def Spares (Writes : ο → Prop) : TxStep ο → Prop
  | .began => True
  | .performed o => ¬ Writes o
  | .rolledBack => False

/-- Between the beginning of a transaction and its rollback, no other one writes or rolls back. -/
def RollbacksAlone (Writes : ο → Prop) (acts : List (ℕ × TxStep ο)) : Prop :=
  ∀ i x, [(i, .began), x, (i, .rolledBack)].Sublist acts → x.1 = i ∨ Spares Writes x.2

instance {Writes : ο → Prop} [DecidablePred Writes] : DecidablePred (Spares Writes)
  | .began => isTrue trivial
  | .performed o => inferInstanceAs (Decidable (¬ Writes o))
  | .rolledBack => isFalse id

instance {Writes : ο → Prop} [DecidablePred Writes] [DecidableEq ο] :
    DecidablePred (RollbacksAlone Writes) := fun acts =>
  decidable_of_iff (∀ b ∈ acts, ∀ x ∈ acts,
      [(b.1, .began), x, (b.1, .rolledBack)].Sublist acts → x.1 = b.1 ∨ Spares Writes x.2)
    ⟨fun h i x hs => h (i, .began) (hs.subset (by simp)) x (hs.subset (by simp)) hs,
      fun h b _ x _ => h b.1 x⟩

variable {step} {s : σ} {acts acts' : List (ℕ × TxStep ο)} {i : ℕ} {Writes : ο → Prop}

theorem after_append : after step s (acts ++ acts') = acts'.foldl (act step) (after step s acts) :=
  List.foldl_append

theorem replay_append : replay step s (acts ++ acts') = replay step (replay step s acts) acts' :=
  List.foldl_append

theorem after_snoc (x : ℕ × TxStep ο) :
    after step s (acts ++ [x]) = act step (after step s acts) x := by
  rw [after_append, List.foldl_cons, List.foldl_nil]

theorem RollbacksAlone.restrict (h : RollbacksAlone Writes acts) (hp : acts' <+: acts) :
    RollbacksAlone Writes acts' :=
  fun i x hs => h i x (hs.trans hp.sublist)

theorem replay_of_spares (hw : ∀ o s, ¬ Writes o → step o s = s)
    (h : ∀ x ∈ acts, Spares Writes x.2) (s : σ) : replay step s acts = s := by
  induction acts with
  | nil => rfl
  | cons x acts ih =>
    have ih := ih fun y hy => h y (List.mem_cons_of_mem _ hy)
    have hx := h x List.mem_cons_self
    obtain ⟨i, _ | o | _⟩ := x
    · exact ih
    · change replay step (step o s) acts = s
      rw [hw o s hx]
      exact ih
    · exact hx.elim

theorem before_foldl (h : ∀ x ∈ acts, x ≠ (i, .began)) (u : Shared σ) :
    (acts.foldl (act step) u).before i = u.before i := by
  induction acts generalizing u with
  | nil => rfl
  | cons x acts ih =>
    rw [List.foldl_cons, ih fun y hy => h y (List.mem_cons_of_mem _ hy)]
    have hx := h x List.mem_cons_self
    obtain ⟨j, _ | o | _⟩ := x
    · have hij : i ≠ j := by rintro rfl; exact hx rfl
      exact Function.update_of_ne hij _ _
    · rfl
    · rfl

theorem before_of_split (h : ∀ x ∈ acts', x ≠ (i, .began)) :
    (after step s (acts ++ (i, .began) :: acts')).before i = (after step s acts).current := by
  rw [after_append, List.foldl_cons, before_foldl h]
  exact Function.update_self ..

variable (step s) in
theorem after_all {Q : List (ℕ × TxStep ο) → σ → Prop} (hfirst : Q [] s)
    (hmono : ∀ acts x t, Q acts t → Q (acts ++ [x]) t)
    (hop : ∀ acts i o, Q acts (after step s acts).current →
      Q (acts ++ [(i, .performed o)]) (step o (after step s acts).current))
    (acts : List (ℕ × TxStep ο)) :
    Q acts (after step s acts).current ∧ ∀ i, Q acts ((after step s acts).before i) := by
  induction acts using List.reverseRecOn with
  | nil => exact ⟨hfirst, fun _ => hfirst⟩
  | append_singleton acts x ih =>
    obtain ⟨hcur, hbefore⟩ := ih
    have hbefore' : ∀ i, Q (acts ++ [x]) ((after step s acts).before i) :=
      fun i => hmono acts x _ (hbefore i)
    rw [after_snoc]
    obtain ⟨j, _ | o | _⟩ := x
    · refine ⟨hmono _ _ _ hcur, fun i => ?_⟩
      by_cases hij : i = j
      · subst hij
        simpa [act] using hmono _ _ _ hcur
      · simpa [act, hij] using hbefore' i
    · exact ⟨hop acts j o hcur, hbefore'⟩
    · exact ⟨hbefore' j, hbefore'⟩

/-- A transaction began once, and did nothing before. -/
theorem WellOrdered.split (h : WellOrdered acts) (hb : (i, .began) ∈ acts) :
    ∃ acts₁ acts₂, acts = acts₁ ++ (i, .began) :: acts₂ ∧ (∀ x ∈ acts₁, x.1 ≠ i) ∧
      ∀ x ∈ acts₂, x ≠ (i, .began) := by
  have hlater : ∀ {acts : List (ℕ × TxStep ο)} {x : ℕ × TxStep ο}, x ≠ (i, .began) →
      (∃ acts₁ acts₂, acts = acts₁ ++ (i, .began) :: acts₂ ∧ (∀ x ∈ acts₁, x.1 ≠ i) ∧
        ∀ x ∈ acts₂, x ≠ (i, .began)) →
      ∃ acts₁ acts₂, acts ++ [x] = acts₁ ++ (i, .began) :: acts₂ ∧ (∀ x ∈ acts₁, x.1 ≠ i) ∧
        ∀ x ∈ acts₂, x ≠ (i, .began) := by
    rintro acts x hx ⟨acts₁, acts₂, rfl, h₁, h₂⟩
    refine ⟨acts₁, acts₂ ++ [x], by simp, h₁, ?_⟩
    intro y hy
    rcases List.mem_append.mp hy with hy | hy
    · exact h₂ y hy
    · rwa [List.mem_singleton.mp hy]
  induction h with
  | nil => cases hb
  | @began acts j _ hn ih =>
    rcases List.mem_append.mp hb with hmem | hmem
    · refine hlater ?_ (ih hmem)
      rintro hj
      cases hj
      exact hn (i, .began) hmem rfl
    · cases List.mem_singleton.mp hmem
      exact ⟨acts, [], rfl, hn, by simp⟩
  | performed _ _ _ ih | rolledBack _ _ _ ih =>
    refine hlater (by simp) (ih ?_)
    simpa using hb

section Kept

variable [DecidableEq ο]

theorem kept_snoc {x : ℕ × TxStep ο} (hx : x.2 ≠ .rolledBack) (hr : (x.1, .rolledBack) ∉ acts) :
    kept (acts ++ [x]) = kept acts ++ [x] := by
  have hmem : ∀ j, (j, .rolledBack) ∈ acts ++ [x] ↔ (j, .rolledBack) ∈ acts := by
    intro j
    rw [List.mem_append, List.mem_singleton]
    constructor
    · rintro (h | h)
      · exact h
      · exact absurd (congrArg Prod.snd h).symm hx
    · exact Or.inl
  rw [kept, List.filter_append]
  simp only [hmem]
  rw [← kept, List.filter_cons_of_pos (by simpa using hr), List.filter_nil]

theorem kept_rollback {acts₁ acts₂ : List (ℕ × TxStep ο)} (h₁ : ∀ x ∈ acts₁, x.1 ≠ i)
    (h₂ : ∀ j, (j, .rolledBack) ∉ acts₂) :
    kept (acts₁ ++ (i, .began) :: acts₂ ++ [(i, .rolledBack)]) =
      kept acts₁ ++ acts₂.filter fun x => x.1 ≠ i ∧ (x.1, .rolledBack) ∉ acts₁ := by
  have hmem : ∀ j, (j, .rolledBack) ∈ acts₁ ++ (i, .began) :: acts₂ ++ [(i, .rolledBack)] ↔
      j = i ∨ (j, .rolledBack) ∈ acts₁ := by
    intro j
    simp [h₂, or_comm]
  rw [kept, List.filter_append, List.filter_append, List.filter_cons, kept]
  simp only [hmem]
  have hkept : acts₁.filter (fun x => decide ¬(x.1 = i ∨ (x.1, .rolledBack) ∈ acts₁)) =
      acts₁.filter fun x => (x.1, .rolledBack) ∉ acts₁ :=
    List.filter_congr fun x hx => by simp [h₁ x hx]
  rw [hkept]
  simp [not_or]

/-- When every rollback is alone, the state is where the kept operations lead. -/
theorem after_eq_replay (hw : ∀ o s, ¬ Writes o → step o s = s) (h : WellOrdered acts)
    (hc : RollbacksAlone Writes acts) (s : σ) :
    (after step s acts).current = replay step s (kept acts) := by
  suffices hall : ∀ acts', acts' <+: acts →
      (after step s acts').current = replay step s (kept acts') from hall _ List.prefix_rfl
  have hsnoc : ∀ {acts : List (ℕ × TxStep ο)} {x : ℕ × TxStep ο},
      (∀ acts', acts' <+: acts → (after step s acts').current = replay step s (kept acts')) →
      (after step s (acts ++ [x])).current = replay step s (kept (acts ++ [x])) →
      ∀ acts', acts' <+: acts ++ [x] →
        (after step s acts').current = replay step s (kept acts') := by
    intro acts x ih hx acts' hp
    rcases List.prefix_concat_iff.mp hp with rfl | hp
    · exact hx
    · exact ih _ hp
  have hpre : ∀ {acts : List (ℕ × TxStep ο)} {x : ℕ × TxStep ο},
      RollbacksAlone Writes (acts ++ [x]) → RollbacksAlone Writes acts := fun hc =>
    hc.restrict (List.prefix_append _ _)
  induction h with
  | nil =>
    intro acts' hp
    rw [List.prefix_nil.mp hp]
    rfl
  | @began acts i h hn ih =>
    have ih := ih (hpre hc)
    apply hsnoc ih
    rw [after_snoc, kept_snoc (by simp) fun hr => hn _ hr rfl, replay_append]
    exact ih _ List.prefix_rfl
  | @performed acts i o h hb hr ih =>
    have ih := ih (hpre hc)
    apply hsnoc ih
    rw [after_snoc, kept_snoc (by simp) hr, replay_append, ← ih _ List.prefix_rfl]
    rfl
  | @rolledBack acts i h hb hr ih =>
    have ih := ih (hpre hc)
    apply hsnoc ih
    obtain ⟨acts₁, acts₂, rfl, h₁, h₂⟩ := h.split hb
    have halone : ∀ x ∈ acts₂, x.1 = i ∨ Spares Writes x.2 := by
      intro x hx
      have hsub : [(i, .began), x].Sublist (acts₁ ++ (i, .began) :: acts₂) :=
        ((List.singleton_sublist.mpr hx).cons_cons _).trans (List.sublist_append_right _ _)
      exact hc i x (hsub.append (.refl _))
    have hnone : ∀ j, (j, .rolledBack) ∉ acts₂ := by
      intro j hj
      rcases halone _ hj with rfl | hs
      · exact hr (List.mem_append_right _ (List.mem_cons_of_mem _ hj))
      · exact hs
    rw [after_snoc, kept_rollback h₁ hnone, replay_append, replay_of_spares hw,
      ← ih _ (List.prefix_append _ _)]
    · exact before_of_split h₂
    · intro x hx
      obtain ⟨hx, hne⟩ := List.mem_filter.mp hx
      exact (halone x hx).resolve_left (of_decide_eq_true hne).1

end Kept

end Snapshots

end Kyc
