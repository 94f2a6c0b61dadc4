import Kyc.Service.Sample
import Kyc.Tables.Snapshots

/-! # Interleaved transactions of the in-memory store

`createMemorySessionStore` runs a transaction on the tables themselves and keeps a copy of
both for the case that the callback throws. Its steps are open to other transactions
here, where the rest of the development takes a transaction as one step.
-/

namespace Kyc

/-- What a transaction awaits: the copy of the tables it takes, what its callback awaits, and
putting the copy back. -/
inductive SharedOp
  | snapshot
  | tx (o : TxOp)
  | restore (before : Tables)

@[reducible] def SharedOp.Ans : SharedOp → Type
  | snapshot => Tables
  | tx o => o.Ans
  | restore _ => Unit

@[reducible] def SharedSig : Signature := ⟨SharedOp, SharedOp.Ans⟩

variable (deps : VerificationServiceDeps)

def execShared : Handler SharedSig Thrown World
  | .snapshot, w => (.ok w.tables, w)
  | .tx o, w => execTx deps o w
  | .restore before, w => (.ok (), { w with tables := before })

variable {β : Type}

/-- The callback of a transaction that began on the given tables. -/
def inTransaction (before : Tables) (fn : Tx β) : Program SharedSig Thrown β :=
  tryCatch (fn.expand fun o => Program.perform (S := SharedSig) (.tx o)) fun error => do
    Program.perform (S := SharedSig) (.restore before)
    throw error

/-- `transaction` of the in-memory store. -/
def MemoryStore.transaction (fn : Tx β) : Program SharedSig Thrown β := do
  let before ← Program.perform (S := SharedSig) .snapshot
  inTransaction before fn

/-- A transaction that nothing interrupts runs as in one step. -/
theorem run_transaction (fn : Tx β) (w : World) :
    (MemoryStore.transaction fn).run (execShared deps) w = execTransaction deps fn w := by
  have hperform : ∀ (o : SharedOp) (w : World),
      (Program.perform (S := SharedSig) o).run (execShared deps) w = execShared deps o w :=
    Program.run_perform (execShared deps)
  have hcallback : (fn.expand fun o => Program.perform (S := SharedSig) (.tx o)).run
      (execShared deps) w = fn.run (execTx deps) w := by
    rw [Program.run_expand]
    congr 1
    funext o w
    exact hperform (.tx o) w
  simp only [MemoryStore.transaction, inTransaction, Program.run_bind, hperform, execShared,
    Program.run_tryCatch, hcallback, execTransaction]
  rcases fn.run (execTx deps) w with ⟨_ | _, w'⟩ <;> rfl

/-- Transactions on one store, their steps in the given order. -/
def runTransactions (w : World) (fns : List (Tx β)) (steps : List ℕ) :
    Pool SharedSig Thrown World β (Tx β) :=
  (Pool.idle w).run (execShared deps) MemoryStore.transaction
    (fns.map .start ++ steps.map .step)

/-- A store operation with the reading of the clock it gets, on the tables. -/
def performOn : StoreOp × ℤ → Tables → Tables
  | (o, now), t => (o.exec now t).2

/-- What the next step of a transaction does to the tables. -/
def txStep (w : World) : Program SharedSig Thrown β → Option (TxStep (StoreOp × ℤ))
  | .await .snapshot _ => some .began
  | .await (.tx (.store o)) _ => some (.performed (o, deps.storeClock w.ticks))
  | .await (.restore _) _ => some .rolledBack
  | _ => none

/-- What the transactions do to the tables, step by step. -/
def transactionSteps (w : World) (fns : List (Tx β)) (steps : List ℕ) :
    List (ℕ × TxStep (StoreOp × ℤ)) :=
  (runTransactions deps w fns []).trace (execShared deps) MemoryStore.transaction (txStep deps)
    steps

def StoreOp.writes : StoreOp → Bool
  | .createSession _ => true
  | .updateSessionStatus _ _ => true
  | .bindApplicantId _ _ => true
  | .appendAuditEntry _ => true
  | _ => false

/-- No other transaction writes or rolls back between the beginning of a transaction and its
rollback. -/
abbrev RollbacksAlone (acts : List (ℕ × TxStep (StoreOp × ℤ))) : Prop :=
  Snapshots.RollbacksAlone (fun a => a.1.writes) acts

def threw {κ : Type} (pool : Pool SharedSig Thrown World β κ) (i : ℕ) : Bool :=
  match pool.threads[i]? with
  | some ⟨_, .err _⟩ => true
  | _ => false

theorem performOn_of_reads (o : StoreOp × ℤ) (t : Tables) (h : ¬ o.1.writes) :
    performOn o t = t := by
  obtain ⟨o, now⟩ := o
  cases o <;> first | rfl | exact absurd rfl h

open Snapshots Program

/-- Where the `i`-th transaction has got to, after the given steps of all of them. -/
inductive Phase (acts : List (ℕ × TxStep (StoreOp × ℤ))) (i : ℕ) (before : Tables) (fn : Tx β) :
    Program SharedSig Thrown β → Prop
  | waiting (idle : ∀ x ∈ acts, x.1 ≠ i) : Phase acts i before fn (MemoryStore.transaction fn)
  | running {p : Tx β} (began : (i, .began) ∈ acts) (open' : (i, .rolledBack) ∉ acts) :
      Phase acts i before fn (inTransaction before p)
  | rolledBack {e : Thrown} (closed : (i, .rolledBack) ∈ acts) : Phase acts i before fn (.err e)

/-- The pool is where the steps lead that were taken in it. -/
structure Follows (t₀ : Tables) (pool : Pool SharedSig Thrown World β (Tx β))
    (acts : List (ℕ × TxStep (StoreOp × ℤ))) : Prop where
  ordered : WellOrdered acts
  tables : pool.state.tables = (after performOn t₀ acts).current
  owners : ∀ x ∈ acts, x.1 < pool.threads.length
  phases : ∀ i t, pool.threads[i]? = some t →
    Phase acts i ((after performOn t₀ acts).before i) t.call t.rest

section Steps

variable {w : World} {acts : List (ℕ × TxStep (StoreOp × ℤ))} {i : ℕ} {before t₀ : Tables}
  {fn p : Tx β}

theorem advance_transaction_begin :
    (MemoryStore.transaction fn).advance (execShared deps) w = (inTransaction w.tables fn, w) :=
  rfl

theorem advance_inTransaction (o : TxOp) (k : Except Thrown o.Ans → Tx β) :
    (inTransaction before (.await o k)).advance (execShared deps) w =
      (inTransaction before (k (execTx deps o w).1), (execTx deps o w).2) := by
  have hp : inTransaction before (.await o k) =
      .await (S := SharedSig) (.tx o) fun r => inTransaction before (k r) := by
    refine congrArg (Program.await (S := SharedSig) (.tx o)) (funext fun r => ?_)
    cases r <;> rfl
  rw [hp]
  rfl

theorem advance_rollback (e : Thrown) :
    (inTransaction before (.err e : Tx β)).advance (execShared deps) w =
      (.err e, { w with tables := before }) :=
  rfl

variable {acts' : List (ℕ × TxStep (StoreOp × ℤ))} {q : Program SharedSig Thrown β}

theorem Phase.append (h : Phase acts i before fn q) (hne : ∀ x ∈ acts', x.1 ≠ i) :
    Phase (acts ++ acts') i before fn q := by
  have hmem : ∀ a, (i, a) ∈ acts ++ acts' ↔ (i, a) ∈ acts := fun a =>
    ⟨fun h => (List.mem_append.mp h).resolve_right fun h => hne _ h rfl,
      List.mem_append_left _⟩
  cases h with
  | waiting hidle =>
    refine .waiting fun x hx => ?_
    rcases List.mem_append.mp hx with hx | hx
    · exact hidle x hx
    · exact hne x hx
  | running hb hr => exact .running ((hmem _).mpr hb) fun h => hr ((hmem _).mp h)
  | rolledBack hr => exact .rolledBack ((hmem _).mpr hr)

variable {pool : Pool SharedSig Thrown World β (Tx β)}

/-- One transaction took steps and got to a new place. -/
theorem Follows.update (hf : Follows t₀ pool acts) {t : Thread SharedSig Thrown β (Tx β)}
    (ht : pool.threads[i]? = some t) (hi : ∀ x ∈ acts', x.1 = i)
    (ho : WellOrdered (acts ++ acts'))
    (hw : w.tables = (after performOn t₀ (acts ++ acts')).current)
    (hq : Phase (acts ++ acts') i ((after performOn t₀ (acts ++ acts')).before i) t.call q) :
    Follows t₀ ⟨w, pool.threads.set i ⟨t.call, q⟩⟩ (acts ++ acts') where
  ordered := ho
  tables := hw
  owners := by
    intro x hx
    rw [List.length_set]
    rcases List.mem_append.mp hx with hx | hx
    · exact hf.owners x hx
    · rw [hi x hx]
      exact (List.getElem?_eq_some_iff.mp ht).1
  phases := by
    intro j t' hj
    rw [List.getElem?_set] at hj
    by_cases hij : i = j
    · subst hij
      rw [if_pos rfl, if_pos (List.getElem?_eq_some_iff.mp ht).1] at hj
      obtain rfl := Option.some.inj hj
      exact hq
    · rw [if_neg hij] at hj
      have hne : ∀ x ∈ acts', x.1 ≠ j := fun x hx => hi x hx ▸ hij
      have hb : (after performOn t₀ (acts ++ acts')).before j =
          (after performOn t₀ acts).before j := by
        rw [after_append]
        exact before_foldl (fun x hx hxj => hne x hx (congrArg Prod.fst hxj)) _
      rw [hb]
      exact (hf.phases j t' hj).append hne

theorem Follows.stay (hf : Follows t₀ pool acts) {t : Thread SharedSig Thrown β (Tx β)}
    (ht : pool.threads[i]? = some t) (hw : w.tables = pool.state.tables)
    (hq : Phase acts i ((after performOn t₀ acts).before i) t.call q) :
    Follows t₀ ⟨w, pool.threads.set i ⟨t.call, q⟩⟩ (acts ++ []) := by
  apply hf.update ht (by simp)
  · rw [List.append_nil]; exact hf.ordered
  · rw [List.append_nil, hw]; exact hf.tables
  · rw [List.append_nil]; exact hq

theorem Follows.next (hf : Follows t₀ pool acts) (i : ℕ) :
    Follows t₀ (pool.next (execShared deps) MemoryStore.transaction (.step i))
      (acts ++ pool.noted (txStep deps) i) := by
  cases ht : pool.threads[i]? with
  | none =>
    rw [Pool.next_step_none _ _ ht, Pool.noted, ht, List.append_nil]
    exact hf
  | some t =>
    rw [Pool.next_step_some _ _ ht, Pool.noted, ht]
    have hphase := hf.phases i t ht
    obtain ⟨fn, rest⟩ := t
    dsimp only at hphase ⊢
    cases hphase with
    | waiting hidle =>
      rw [advance_transaction_begin]
      change Follows t₀ _ (acts ++ [(i, .began)])
      apply hf.update ht (by simp) (hf.ordered.began hidle)
      · rw [after_snoc]; exact hf.tables
      · rw [after_snoc, hf.tables]
        have hb : (act performOn (after performOn t₀ acts) (i, .began)).before i =
            (after performOn t₀ acts).current := Function.update_self ..
        rw [hb]
        refine .running (by simp) fun hr => ?_
        rcases List.mem_append.mp hr with hr | hr
        · exact hidle _ hr rfl
        · simp at hr
    | @running p hb hr =>
      cases p with
      | ret b => exact hf.stay ht rfl (.running hb hr)
      | err e =>
        rw [advance_rollback]
        change Follows t₀ _ (acts ++ [(i, .rolledBack)])
        refine hf.update ht (by simp) (hf.ordered.rolledBack hb hr) ?_ (.rolledBack (by simp))
        rw [after_snoc]
        rfl
      | await o k =>
        rw [advance_inTransaction]
        cases o with
        | newId => exact hf.stay ht rfl (.running hb hr)
        | store o =>
          change Follows t₀ _ (acts ++ [(i, .performed (o, deps.storeClock pool.state.ticks))])
          apply hf.update ht (by simp) (hf.ordered.performed hb hr)
          · rw [after_snoc]
            change (o.exec _ pool.state.tables).2 = (o.exec _ (after performOn t₀ acts).current).2
            rw [hf.tables]
          · rw [after_snoc]
            exact .running (List.mem_append_left _ hb) (by simpa using hr)
    | rolledBack hr => exact hf.stay ht rfl (.rolledBack hr)

end Steps

section Runs

variable {deps} {w : World} {fns : List (Tx β)} {steps : List ℕ}

variable (deps) in
theorem follows_runTransactions (w : World) (fns : List (Tx β)) (steps : List ℕ) :
    Follows w.tables (runTransactions deps w fns steps) (transactionSteps deps w fns steps) := by
  have hstart : runTransactions deps w fns [] =
      ⟨w, fns.map fun fn => ⟨fn, MemoryStore.transaction fn⟩⟩ := by
    rw [runTransactions, List.map_nil, List.append_nil, Pool.run_start]
    rfl
  have h₀ : Follows w.tables (runTransactions deps w fns []) [] := by
    rw [hstart]
    refine ⟨.nil, rfl, by simp, fun i t ht => ?_⟩
    rw [List.getElem?_map, Option.map_eq_some_iff] at ht
    obtain ⟨fn, -, rfl⟩ := ht
    exact .waiting (by simp)
  have hrun : runTransactions deps w fns steps =
      (runTransactions deps w fns []).run (execShared deps) MemoryStore.transaction
        (steps.map .step) := by
    rw [runTransactions, runTransactions, List.map_nil, List.append_nil, Pool.run_append]
  rw [hrun]
  exact Pool.trace_invariant (fun _ _ i hf => hf.next deps i) h₀ steps

theorem Follows.threw_iff {t₀ : Tables} {pool : Pool SharedSig Thrown World β (Tx β)}
    {acts : List (ℕ × TxStep (StoreOp × ℤ))} (hf : Follows t₀ pool acts)
    {x : ℕ × TxStep (StoreOp × ℤ)} (hx : x ∈ acts) :
    threw pool x.1 ↔ (x.1, .rolledBack) ∈ acts := by
  have hlt := hf.owners x hx
  have ht := List.getElem?_eq_getElem hlt
  have hphase := hf.phases x.1 _ ht
  rw [threw, ht]
  generalize pool.threads[x.1] = t at hphase
  obtain ⟨fn, rest⟩ := t
  dsimp only at hphase
  cases hphase with
  | waiting hidle => exact absurd rfl (hidle x hx)
  | @running p hb hr => cases p <;> exact iff_of_false Bool.false_ne_true hr
  | rolledBack hr => exact iff_of_true rfl hr

/-- When every rollback is alone, the tables are in every state what the operations of the
transactions that have not thrown lead to, and nothing else. -/
theorem transactions_all_or_nothing
    (hc : RollbacksAlone (transactionSteps deps w fns steps)) :
    (runTransactions deps w fns steps).state.tables =
      replay performOn w.tables ((transactionSteps deps w fns steps).filter fun x =>
        ¬ threw (runTransactions deps w fns steps) x.1) := by
  have hf := follows_runTransactions deps w fns steps
  rw [hf.tables, after_eq_replay (fun o t h => performOn_of_reads o t h) hf.ordered hc, kept]
  refine congrArg _ (List.filter_congr fun x hx => ?_)
  rw [decide_eq_decide, hf.threw_iff hx]

end Runs

def writeUnknown : Tx (Option String) := do
  let _ ← writeStatusBody "unknown" .approved .webhook {}
  pure none

def createOne : Tx (Option String) := do
  let created ← persistBody bareDeps "u" ⟨.web, none, none⟩
  pure (some created.id)

/-- The two transactions overlap, but the one that throws is rolled back before the other one
writes. -/
theorem transactions_all_or_nothing_overlapping :
    (runTransactions bareDeps World.empty [writeUnknown, createOne]
      [0, 1, 0, 0, 1, 1, 1, 1]).state.tables =
      replay performOn World.empty.tables
        ((transactionSteps bareDeps World.empty [writeUnknown, createOne]
          [0, 1, 0, 0, 1, 1, 1, 1]).filter fun x =>
            ¬ threw (runTransactions bareDeps World.empty [writeUnknown, createOne]
              [0, 1, 0, 0, 1, 1, 1, 1]) x.1) :=
  transactions_all_or_nothing (by decide +kernel)

/-- The session is created between the beginning of the other transaction and its rollback: its
creation resolves, and the session is gone, with its audit entry left behind. -/
theorem created_session_lost :
    (runTransactions bareDeps World.empty [writeUnknown, createOne]
      [0, 0, 1, 1, 1, 0, 1, 1]).threads.map (·.rest.result) =
        [some (.error (plainError "Verification session not found: unknown")),
          some (.ok (some "x"))] ∧
    (runTransactions bareDeps World.empty [writeUnknown, createOne]
      [0, 0, 1, 1, 1, 0, 1, 1]).state.tables.sessions.rows = [] ∧
    (runTransactions bareDeps World.empty [writeUnknown, createOne]
      [0, 0, 1, 1, 1, 0, 1, 1]).state.tables.audit.map (·.sessionId) = ["x"] := by
  refine ⟨?_, ?_, ?_⟩ <;> decide +kernel

end Kyc
