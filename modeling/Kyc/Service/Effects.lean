import Kyc.Programs.Ghosts
import Kyc.Service.Sample
import Kyc.Service.Steps
import Mathlib.Algebra.Order.BigOperators.Group.List
import Mathlib.Data.Multiset.OrderedMonoid
import Mathlib.Tactic.Abel

/-! # The host hears of every change once

A call commits a status change in one step and tells the host in a later one. In
between it owes the host this change. Summed up over all calls in flight, what is
committed is what the host was told and what is still owed, in every interleaving.
-/

namespace Kyc

/-- A status change, as an effect call and a status entry both name it. -/
structure Move where
  sessionId : String
  previousStatus : Option VerificationStatus
  status : Option VerificationStatus
  source : Option StatusSource
  deriving DecidableEq

def StatusTransitionEvent.move (e : StatusTransitionEvent) : Move :=
  ⟨e.session.id, some e.previousStatus, some e.session.status, some e.source⟩

def AuditEntry.move (e : AuditEntry) : Move :=
  ⟨e.sessionId, e.metadata.previousStatus, e.metadata.status, e.metadata.source⟩

namespace World

def told (w : World) : Multiset Move := w.effects.map StatusTransitionEvent.move

/-- The changes that the audit trail holds a `status_updated` entry of. -/
def committed (w : World) : Multiset Move :=
  (w.tables.audit.filter (·.action = .status_updated)).map AuditEntry.move

end World

/-- What a call has to do about the host's effect. -/
inductive Duty
  | unwritten
  | owes (move : Move)
  | done

def Duty.debt : Duty → Multiset Move
  | owes move => {move}
  | _ => 0

variable (deps : VerificationServiceDeps)

/-- How a call minds its duty: an operation commits what the call then owes, the effect pays for
it, and after the commit no session row is changed. -/
structure Dutiful (w : World) (d : Duty) (o : ServiceOp) (d' : Duty) : Prop where
  balance : (exec deps o w).2.committed + w.told + d.debt =
    w.committed + (exec deps o w).2.told + d'.debt
  told : ∀ e, o = .onStatusTransition e → d = .owes e.move
  written : ∀ id status source options transition,
    o = .transaction (writeStatusBody id status source options) →
    (execTransaction deps (writeStatusBody id status source options) w).1 = .ok transition →
    transition.outcome ≠ .write .updated → d' = .done
  framed : d ≠ .unwritten → d' = .done ∧ (exec deps o w).2.tables.sessions = w.tables.sessions

section Steps

variable {deps} {w w' : World} {d d' : Duty} {o : ServiceOp}

theorem committed_of_audit {entries : List AuditEntry}
    (h : w'.tables.audit = w.tables.audit ++ entries) :
    w'.committed = w.committed +
      ((entries.filter (·.action = .status_updated)).map AuditEntry.move : Multiset Move) := by
  simp only [World.committed, h, List.filter_append, List.map_append, Multiset.coe_add]

theorem committed_addAudit {e : AuditEntry} (h : w'.tables.audit = w.tables.audit ++ [e])
    (he : e.action ≠ .status_updated) : w'.committed = w.committed := by
  simp [committed_of_audit h, he]

def ServiceOp.first : ServiceOp → Option TxOp
  | .transaction (.await o _) => some o
  | _ => none

theorem first_write (id : String) (status : VerificationStatus) (source : StatusSource)
    (options : ApplyStatusTransitionOptions) :
    ∃ o, (ServiceOp.transaction (writeStatusBody id status source options)).first =
      some (.store o) := by
  cases hb : truthy options.bindApplicantId with
  | none =>
    rw [writeStatusBody_of_plain hb]
    exact ⟨_, rfl⟩
  | some a =>
    rw [writeStatusBody, hb]
    exact ⟨_, rfl⟩

theorem Silent.ne_write (h : Silent deps o) (id : String) (status : VerificationStatus)
    (source : StatusSource) (options : ApplyStatusTransitionOptions) :
    o ≠ .transaction (writeStatusBody id status source options) := by
  rintro rfl
  obtain ⟨o', ho'⟩ := first_write id status source options
  generalize hp : ServiceOp.transaction (writeStatusBody id status source options) = p at h ho'
  cases h with
  | direct => cases hp
  | persist owner opts => cases ho'
  | provider => cases hp

theorem Silent.committed (h : Silent deps o) (w : World) :
    (exec deps o w).2.committed = w.committed ∧ (exec deps o w).2.told = w.told := by
  cases h with
  | provider c => exact ⟨rfl, rfl⟩
  | persist owner opts =>
    simp only [exec, execTransaction, run_persistBody]
    exact ⟨committed_addAudit (w := w) rfl (by simp), rfl⟩
  | @direct o ho =>
    cases o with
    | newId => exact ⟨rfl, rfl⟩
    | store o =>
      cases o with
      | createSession | updateSessionStatus => exact ho.elim
      | appendAuditEntry entry => exact ⟨committed_addAudit (w := w) rfl ho, rfl⟩
      | bindApplicantId id a =>
        have haudit : (exec deps (.direct (.store (.bindApplicantId id a))) w).2.tables.audit =
            w.tables.audit := by
          simp only [exec, execTx, StoreOp.exec, settle, MemoryStore.bindApplicantId,
            MemoryStore.require]
          cases w.tables.sessions.get id with
          | none => rfl
          | some r => by_cases hb : r.providerApplicantId ≠ none ∧
              r.providerApplicantId ≠ some a <;> simp [hb]
        exact ⟨by simp only [World.committed, haudit], rfl⟩
      | _ => exact ⟨rfl, rfl⟩

theorem dutiful_silent (h : Silent deps o) (w : World) :
    Dutiful deps w .unwritten o .unwritten where
  balance := by rw [(h.committed w).1, (h.committed w).2]
  told := by
    rintro e rfl
    cases h
  written id status source options _ ho := absurd ho (h.ne_write id status source options)
  framed hd := absurd rfl hd

theorem dutiful_notes (h : Notes o) (w : World) : Dutiful deps w .done o .done where
  balance := by rw [((h.silent deps).committed w).1, ((h.silent deps).committed w).2]
  told := by
    rintro e rfl
    cases h
  written id status source options _ ho :=
    absurd ho ((h.silent deps).ne_write id status source options)
  framed _ := by cases h <;> exact ⟨rfl, rfl⟩

theorem dutiful_tell (e : StatusTransitionEvent) (w : World) :
    Dutiful deps w (.owes e.move) (.onStatusTransition e) .done where
  balance := by
    have htold : (exec deps (.onStatusTransition e) w).2.told = w.told + {e.move} := by
      simp only [exec, World.told, List.map_append, ← Multiset.coe_add]
      rfl
    rw [htold]
    simp only [Duty.debt, add_zero]
    rw [add_assoc]
    rfl
  told _ ho := by cases ho; rfl
  written _ _ _ _ _ ho := by cases ho
  framed _ := ⟨rfl, rfl⟩

/-- The duty that a committed write leaves. -/
def StatusTransition.duty (source : StatusSource) (transition : StatusTransition) : Duty :=
  if transition.outcome = .write .updated then
    .owes ⟨transition.session.id, some transition.previousStatus, some transition.session.status,
      some source⟩
  else .done

/-- The entry of a committed write is what the write leaves to be told. -/
theorem debt_duty {r : SessionRecord} {new : VerificationStatus} {source : StatusSource}
    {options : ApplyStatusTransitionOptions} {transition : StatusTransition} (entryId : String)
    (now : ℤ)
    (hw : Written w r new (truthy options.bindApplicantId) [] transition w') :
    ((((writtenEntry r new source options).toList.map fun e =>
        (⟨entryId, r.id, e.1, now, e.2⟩ : AuditEntry)).filter
          (·.action = .status_updated)).map AuditEntry.move : Multiset Move) =
      (transition.duty source).debt := by
  unfold writtenEntry StatusTransition.duty
  rw [hw.outcome]
  by_cases hacc : r.AcceptsBinding (truthy options.bindApplicantId)
  · have hst := hw.status
    rw [if_pos hacc] at hst
    rw [if_pos hacc, if_pos hacc, hw.id, hw.previousStatus, hst]
    cases ho : StatusWriteOutcome.of r.status new with
    | updated =>
      have hne := StatusWriteOutcome.of_eq_updated_iff.mp ho
      have hwrite : r.status.write new = new := VerificationStatus.write_of_not_terminal
        (VerificationStatus.write_ne_self_iff.mp hne).1
      simp [updateEntry, ho, hwrite, Duty.debt, AuditEntry.move]
    | unchanged => simp [updateEntry, ho, Duty.debt]
    | rejected_terminal =>
      by_cases hs : source = .webhook <;> simp [updateEntry, ho, hs, Duty.debt]
  · rw [if_neg hacc, if_neg hacc]
    simp [mismatchEntry, Duty.debt]

variable (deps) in
theorem dutiful_write (id : String) (status : VerificationStatus) (source : StatusSource)
    (options : ApplyStatusTransitionOptions) (w : World) :
    ∃ d', Dutiful deps w .unwritten (.transaction (writeStatusBody id status source options)) d' ∧
      ((∃ e, (execTransaction deps (writeStatusBody id status source options) w).1 = .error e ∧
          d' = .done) ∨
        ∃ transition, (execTransaction deps (writeStatusBody id status source options) w).1 =
          .ok transition ∧ d' = transition.duty source) := by
  cases hg : w.tables.sessions.get id with
  | none =>
    have hrun : execTransaction deps (writeStatusBody id status source options) w =
        (.error (plainError ("Verification session not found: " ++ id)), w.ticked) := by
      rw [execTransaction, run_writeStatusBody_none status source options hg]
      rfl
    refine ⟨.done, ⟨?_, by simp, fun _ _ _ _ _ _ _ _ => rfl, by simp⟩,
      Or.inl ⟨_, by rw [hrun], rfl⟩⟩
    simp only [exec, hrun]
    rfl
  | some r =>
    obtain ⟨transition, w', hbody, hw⟩ := run_writeStatusBody deps status source options hg
    obtain ⟨entryId, now, haudit⟩ := run_writeStatusBody_audit deps status source options hg
    have hrun : execTransaction deps (writeStatusBody id status source options) w =
        (.ok transition, w') := by
      simp only [execTransaction, hbody]
    rw [hbody, ← Table.get_key hg] at haudit
    have htold : w'.told = w.told := by
      rw [World.told, hw.effects, List.append_nil]
      rfl
    refine ⟨transition.duty source, ⟨?_, by simp, ?_, by simp⟩,
      Or.inr ⟨transition, by rw [hrun], rfl⟩⟩
    · simp only [exec, hrun]
      rw [committed_of_audit haudit, debt_duty entryId now hw, htold]
      simp only [Duty.debt, add_zero]
      exact add_right_comm _ _ _
    · intro id' status' source' options' transition' ho hok hne
      rw [ServiceOp.transaction.injEq] at ho
      rw [← eq_of_heq ho.2, hrun] at hok
      cases hok
      exact if_neg hne

end Steps

section Programs

open Program

variable {deps} {α β : Type} {p : Service α}

variable (deps) in
/-- The program minds its duty, and `Q` holds of what is left of it in the end. -/
abbrev Minds (Q : Duty → Prop) (p : Service α) (d : Duty) : Prop :=
  p.WithGhost (exec deps) (fun _ => True) (Dutiful deps) (fun _ => Q) d

def Duty.Met (d : Duty) : Prop := d.debt = 0

theorem minds_silent (hp : p.Uses (Silent deps)) : Minds deps (· = .unwritten) p .unwritten :=
  hp.withGhost (fun _ w ho _ => dutiful_silent ho w) fun _ => rfl

theorem minds_notes (hp : p.Uses Notes) : Minds deps (· = .done) p .done :=
  hp.withGhost (fun _ w ho _ => dutiful_notes ho w) fun _ => rfl

theorem Minds.met {d : Duty} (hp : Minds deps (· = d) p d) (hd : d.Met) : Minds deps Duty.Met p d :=
  WithGhost.mono hp fun _ d' he => by rw [he]; exact hd

theorem Minds.bind {Q R : Duty → Prop} {f : α → Service β} {d : Duty} (hp : Minds deps Q p d)
    (hf : ∀ a d', Q d' → Minds deps R (f a) d') (hR : ∀ d', Q d' → R d') :
    Minds deps R (p >>= f) d :=
  WithGhost.bind hp hf fun _ => hR

theorem minds_reply {f : α → β} {d : Duty} (hp : Minds deps Duty.Met p d) :
    Minds deps Duty.Met (p >>= fun a => pure (f a)) d :=
  Minds.bind hp (fun _ _ hd => withGhost_pure hd) fun _ hd => hd

theorem minds_silent_bind {f : α → Service β} (hp : p.Uses (Silent deps))
    (hf : ∀ a, Minds deps Duty.Met (f a) .unwritten) :
    Minds deps Duty.Met (p >>= f) .unwritten := by
  apply (minds_silent hp).bind
  · rintro a _ rfl
    exact hf a
  · rintro _ rfl
    rfl

variable (heffect : deps.onStatusTransition.isSome)

include heffect

theorem minds_runEffects (id : String) (source : StatusSource) (transition : StatusTransition)
    (rejectLabels : Option (List String)) :
    Minds deps (· = .done) (runEffects deps id source transition rejectLabels)
      (transition.duty source) := by
  unfold runEffects StatusTransition.duty
  by_cases ho : transition.outcome = .write .updated
  · rw [if_pos ⟨ho, heffect⟩, if_pos ho]
    apply WithGhost.tryCatch (Q := fun _ d => d = .done)
    · refine withGhost_perform (S := ServiceSig) (o := .onStatusTransition _) fun w _ => ?_
      exact ⟨Duty.done, dutiful_tell ⟨_, transition.session, source, rejectLabels⟩ w, rfl⟩
    · rintro e _ rfl
      exact minds_notes (notes_audit (by simp) ..)
    · exact fun _ _ hd => hd
  · rw [if_neg fun h => ho h.1, if_neg ho]
    exact withGhost_pure rfl

theorem minds_applyStatusTransition (id : String) (status : VerificationStatus)
    (source : StatusSource) (options : ApplyStatusTransitionOptions) :
    Minds deps (· = .done) (applyStatusTransition deps id status source options) .unwritten := by
  unfold applyStatusTransition
  apply WithGhost.bind (Q := fun r d => (∀ transition, r = .ok transition →
    d = transition.duty source) ∧ ∀ e, r = .error e → d = .done)
  · apply withGhost_transaction
    intro w _
    obtain ⟨d', hd, ⟨e, he, rfl⟩ | ⟨transition, he, rfl⟩⟩ :=
      dutiful_write deps id status source options w
    · refine ⟨.done, hd, fun transition ht => ?_, fun _ _ => rfl⟩
      cases ht.symm.trans he
    · refine ⟨transition.duty source, hd, fun transition' ht => ?_, fun e' he' => ?_⟩
      · cases ht.symm.trans he
        rfl
      · cases he'.symm.trans he
  · rintro transition d' ⟨hd, -⟩
    obtain rfl := hd transition rfl
    exact (minds_runEffects heffect id source transition options.rejectLabels).bind
      (fun _ _ hd => withGhost_pure hd) fun _ hd => hd
  · exact fun e _ hd => hd.2 e rfl

theorem minds_applied {β : Type} (id : String) (status : VerificationStatus)
    (source : StatusSource) (options : ApplyStatusTransitionOptions) (f : StatusTransition → β) :
    Minds deps Duty.Met
      (applyStatusTransition deps id status source options >>= fun transition =>
        pure (f transition)) .unwritten := by
  apply (minds_applyStatusTransition heffect _ _ _ _).bind
  · rintro transition _ rfl
    exact withGhost_pure rfl
  · rintro _ rfl
    rfl

theorem minds_reconcile (session : SessionRecord) :
    Minds deps Duty.Met (reconcile deps session) .unwritten := by
  unfold reconcile
  split
  · exact withGhost_pure rfl
  · apply WithGhost.tryCatch (Q := fun _ => Duty.Met)
    · apply minds_silent_bind (uses_lookup Silent.admits session)
      intro found
      cases found with
      | none => exact withGhost_pure rfl
      | some found => exact minds_applied heffect _ _ _ _ _
    · exact fun _ _ hd => withGhost_pure hd
    · exact fun _ _ hd => hd

theorem minds_applyEvent (event : WebhookEvent) (newStatus : VerificationStatus)
    (session : SessionRecord) (needsBinding : Bool) :
    Minds deps Duty.Met (applyEvent deps event newStatus session needsBinding) .unwritten :=
  minds_applied heffect _ _ _ _ _

/-- Every call minds its duty: it owes nothing when it has settled. -/
theorem Call.minds (c : Call) : Minds deps Duty.Met (c.program deps) .unwritten := by
  cases c with
  | start => exact minds_reply ((minds_silent (uses_start Silent.admits ..)).met rfl)
  | refresh => exact minds_reply ((minds_silent (uses_refresh ..)).met rfl)
  | hostedPage => exact minds_reply ((minds_silent (uses_hostedPage ..)).met rfl)
  | status userId id =>
    apply minds_reply
    apply minds_silent_bind (uses_ofExcept _)
    intro owner
    apply minds_silent_bind (uses_ofExcept _)
    intro id
    apply minds_silent_bind (uses_requireOwned Silent.admits ..)
    intro session
    exact minds_reply (minds_reconcile heffect session)
  | latestForUser userId reconciling =>
    apply minds_reply
    apply minds_silent_bind (uses_ofExcept _)
    intro owner
    apply minds_silent_bind (uses_store Silent.admits (o := .getLatestSessionForUser _ _) trivial)
    intro found
    cases found with
    | none => exact withGhost_pure rfl
    | some session =>
      cases reconciling with
      | false => exact withGhost_pure rfl
      | true => exact minds_reply (minds_reconcile heffect session)
  | handleWebhookEvent event =>
    apply minds_reply
    unfold Kyc.handleWebhookEvent
    cases event.status with
    | none => exact withGhost_pure rfl
    | some newStatus =>
      apply minds_silent_bind
        (uses_store Silent.admits (o := .getSessionByProviderApplicantId _ _) trivial)
      intro session
      apply minds_silent_bind (uses_unboundFor Silent.admits event session)
      intro unbound
      cases unbound with
      | some unbound => exact minds_applyEvent heffect _ _ _ _
      | none => cases session with
        | some session => exact minds_applyEvent heffect _ _ _ _
        | none => exact withGhost_pure rfl
  | applyStatusTransition =>
    apply minds_reply
    apply WithGhost.mono (minds_applyStatusTransition heffect _ _ _ _)
    rintro _ _ rfl
    rfl

end Programs

theorem sum_map_set {ι : Type} {f : ι → Multiset Move} {xs : List ι} {i : ℕ} {x : ι}
    (hi : xs[i]? = some x) (y : ι) :
    ((xs.set i y).map f).sum + f x = (xs.map f).sum + f y := by
  induction xs generalizing i with
  | nil => cases hi
  | cons z xs ih =>
    cases i with
    | zero =>
      obtain rfl := Option.some.inj hi
      simp only [List.set_cons_zero, List.map_cons, List.sum_cons]
      abel
    | succ i =>
      have := ih (i := i) (by simpa using hi)
      simp only [List.set_cons_succ, List.map_cons, List.sum_cons, add_assoc, this]

section Runs

variable {deps} (heffect : deps.onStatusTransition.isSome) (w : World)

/-- Since the run began in `w`, what is committed is what the host was told and is still owed. -/
def Settles (w : World) (w' : World) (duties : List Duty) : Prop :=
  w'.committed + w.told = w.committed + w'.told + (duties.map Duty.debt).sum

variable {w} in
theorem Settles.step {w' : World} {duties : List Duty} {i : ℕ} {o : ServiceOp} {d d' : Duty}
    (h : Settles w w' duties) (hi : duties[i]? = some d) (hd : Dutiful deps w' d o d') :
    Settles w (exec deps o w').2 (duties.set i d') := by
  have hsum := sum_map_set (f := Duty.debt) hi d'
  have hbal := hd.balance
  unfold Settles at h ⊢
  ext m
  have h₁ := congrArg (Multiset.count m) h
  have h₂ := congrArg (Multiset.count m) hsum
  have h₃ := congrArg (Multiset.count m) hbal
  simp only [Multiset.count_add] at h₁ h₂ h₃ ⊢
  omega

theorem exists_later_duty {events : List (Event Call)} (later : List (Event Call)) {i : ℕ}
    {t : Thread ServiceSig Thrown Reply Call} {d : Duty} {K : Duty → Prop}
    (hi : (runService deps w events).threads[i]? = some t) (hp : Minds deps Duty.Met t.rest d)
    (hd : K d) (hK : ∀ w d o d', K d → Dutiful deps w d o d' → K d') :
    ∃ t' d', (runService deps w (events ++ later)).threads[i]? = some t' ∧
      Minds deps Duty.Met t'.rest d' ∧ K d' := by
  rw [runService, Pool.run_append]
  obtain ⟨t', d', hi', -, hp', hd'⟩ := Pool.follow (Call.program deps) (K := fun _ => K)
    hi hp hd later (fun _ _ _ => trivial) (fun _ _ _ _ _ hd => hd)
    fun _ _ _ o _ d d' _ _ _ _ hn hd => hK _ d o d' hd hn
  exact ⟨t', d', hi', hp', hd'⟩

theorem sessions_framed {events : List (Event Call)} {i : ℕ}
    {t : Thread ServiceSig Thrown Reply Call} {d : Duty}
    (hi : (runService deps w events).threads[i]? = some t) (hp : Minds deps Duty.Met t.rest d)
    (hd : d ≠ .unwritten) (later : List (Event Call)) :
    (runService deps w (events ++ later ++ [.step i])).state.tables.sessions =
      (runService deps w (events ++ later)).state.tables.sessions := by
  obtain ⟨t', d', hi', hp', hd'⟩ := exists_later_duty w later hi hp hd
    fun w d o d' hd hn => by rw [(hn.framed hd).1]; simp
  have hrun : runService deps w (events ++ later ++ [.step i]) =
      (runService deps w (events ++ later)).next (exec deps) (Call.program deps) (.step i) :=
    Pool.run_concat (exec deps) (Call.program deps) (Pool.idle w) (events ++ later) (.step i)
  rw [hrun]
  rcases Pool.next_step_cases (runService deps w (events ++ later)) i with he |
    ⟨t'', o, k, hi'', hr, he⟩
  · rw [he]
  · obtain rfl := Option.some.inj (hi''.symm.trans hi')
    rw [hr] at hp'
    obtain ⟨d'', hn, -⟩ := hp' (runService deps w (events ++ later)).state trivial
    rw [he]
    exact (hn.framed hd').2

include heffect

/-- In every reachable state the calls in flight owe the host what is committed and not told. -/
theorem exists_duties (events : List (Event Call)) :
    ∃ duties, Pool.WithGhosts (exec deps) (fun _ => True) (fun _ => Dutiful deps)
        (fun _ _ => Duty.Met) (runService deps w events) duties ∧
      Settles w (runService deps w events).state duties := by
  apply Pool.WithGhosts.run (fun _ => Duty.unwritten) (fun _ _ _ => trivial)
  · exact Call.minds heffect
  · intro c w' duties hs
    simpa [Settles, Duty.debt] using hs
  · exact fun c w' duties i o d d' hs hi hd => hs.step hi hd
  · exact .nil
  · simp [Settles, Pool.idle]

/-- A call that waits to tell the host of a change has committed it. -/
theorem committed_before_told {events : List (Event Call)} {i : ℕ}
    {t : Thread ServiceSig Thrown Reply Call} {e : StatusTransitionEvent}
    {k : Except Thrown Unit → Service Reply}
    (hi : (runService deps w events).threads[i]? = some t)
    (ht : t.rest = .await (.onStatusTransition e) k) :
    w.committed + (runService deps w events).state.told + {e.move} ≤
      (runService deps w events).state.committed + w.told := by
  obtain ⟨duties, hg, hs⟩ := exists_duties heffect w events
  obtain ⟨d, hd, hp⟩ := hg.get hi
  rw [ht] at hp
  obtain ⟨d', hn, -⟩ := hp (runService deps w events).state trivial
  obtain rfl := hn.told e rfl
  have hmem : Duty.debt (.owes e.move) ∈ duties.map Duty.debt :=
    List.mem_map_of_mem (List.mem_of_getElem? hd)
  rw [hs]
  exact add_le_add_right (List.le_sum_of_mem hmem) _

theorem exists_duty {events : List (Event Call)} {i : ℕ} {t : Thread ServiceSig Thrown Reply Call}
    (hi : (runService deps w events).threads[i]? = some t) :
    ∃ d, Minds deps Duty.Met t.rest d := by
  obtain ⟨duties, hg, -⟩ := exists_duties heffect w events
  obtain ⟨d, -, hp⟩ := hg.get hi
  exact ⟨d, hp⟩

/-- The host is told of every committed change once: when all calls have settled, what it was told
since `w` is what was committed since, and before that a call only tells of a change that is
committed and not yet told. A call whose write changed no status tells of nothing afterwards, and
from its effect on, however that ends, a call changes no session row. -/
theorem effects_match_commits (events : List (Event Call)) :
    ((∀ t ∈ (runService deps w events).threads, t.rest.result.isSome) →
      (runService deps w events).state.committed + w.told =
        w.committed + (runService deps w events).state.told) ∧
    ∀ i t, (runService deps w events).threads[i]? = some t →
      (∀ e k, t.rest = .await (.onStatusTransition e) k →
        w.committed + (runService deps w events).state.told + {e.move} ≤
            (runService deps w events).state.committed + w.told ∧
          ∀ later, (runService deps w (events ++ later ++ [.step i])).state.tables.sessions =
            (runService deps w (events ++ later)).state.tables.sessions) ∧
      ∀ id status source options k transition,
        t.rest = .await (.transaction (writeStatusBody id status source options)) k →
        (execTransaction deps (writeStatusBody id status source options)
          (runService deps w events).state).1 = .ok transition →
        transition.outcome ≠ .write .updated →
        ∀ later t' e k', (runService deps w (events ++ .step i :: later)).threads[i]? = some t' →
          t'.rest ≠ .await (.onStatusTransition e) k' := by
  refine ⟨fun hall => ?_, fun i t hi => ⟨fun e k ht => ⟨?_, fun later => ?_⟩, ?_⟩⟩
  · obtain ⟨duties, hg, hs⟩ := exists_duties heffect w events
    have hmet : ∀ x ∈ duties.map Duty.debt, x = 0 := by
      intro x hx
      obtain ⟨d, hd, rfl⟩ := List.mem_map.mp hx
      obtain ⟨-, -, hm⟩ := hg.settled hall d hd
      exact hm
    rw [Settles, List.sum_eq_zero hmet, add_zero] at hs
    exact hs
  · exact committed_before_told heffect w hi ht
  · obtain ⟨d, hp⟩ := exists_duty heffect w hi
    have hd : d ≠ .unwritten := by
      rw [ht] at hp
      obtain ⟨d', hn, -⟩ := hp (runService deps w events).state trivial
      rw [hn.told e rfl]
      simp
    exact sessions_framed w hi hp hd later
  · intro id status source options k transition ht hok hne later t' e k' hi' ht'
    obtain ⟨d, hp⟩ := exists_duty heffect w hi
    rw [ht] at hp
    obtain ⟨d', hn, hk⟩ := hp (runService deps w events).state trivial
    obtain rfl := hn.written id status source options transition rfl hok hne
    have hstep : (runService deps w (events ++ [.step i])).threads[i]? = some ⟨t.call, k (exec deps
        (.transaction (writeStatusBody id status source options))
        (runService deps w events).state).1⟩ := by
      have hget := Pool.get_next_step (exec deps) (Call.program deps) hi
      rw [ht] at hget
      rwa [runService, Pool.run_concat]
    obtain ⟨t'', d', hi'', hp', rfl⟩ :=
      exists_later_duty (K := (· = .done)) w later hstep hk rfl
        fun w d o d' hd hn => (hn.framed (by rw [hd]; simp)).1
    rw [List.append_assoc, List.singleton_append] at hi''
    obtain rfl := Option.some.inj (hi''.symm.trans hi')
    rw [ht'] at hp'
    obtain ⟨d', hn', -⟩ := hp' (runService deps w (events ++ .step i :: later)).state trivial
    cases hn'.told e rfl

end Runs

def throwingDeps : VerificationServiceDeps :=
  { steadyDeps (steadyProvider (some "a") .pending none) with
    onStatusTransition := some fun _ _ => .error (plainError "effect") }

def redeliveredRun : List (Event Call) :=
  [.start (.start (some "u") (some (startInput "basic"))), .step 0, .step 0, .step 0,
    .start (.handleWebhookEvent (eventOf "a" "u" .pending (some "basic"))),
    .start (.handleWebhookEvent (eventOf "a" "u" .approved (some "basic"))),
    .step 1, .step 2, .step 1, .step 2, .step 2, .step 1, .step 2, .step 1, .step 1, .step 2,
    .start (.handleWebhookEvent (eventOf "a" "u" .pending (some "basic"))), .step 3, .step 3]

theorem effects_match_commits_redelivered :
    (runService throwingDeps .empty redeliveredRun).state.committed =
      (runService throwingDeps .empty redeliveredRun).state.told := by
  have hall : ∀ t ∈ (runService throwingDeps .empty redeliveredRun).threads,
      t.rest.result.isSome := by
    decide +kernel
  have h := (effects_match_commits rfl .empty redeliveredRun).1 hall
  have htold : World.empty.told = 0 := rfl
  have hcommitted : World.empty.committed = 0 := rfl
  rwa [htold, hcommitted, add_zero, zero_add] at h

example : Multiset.card (runService throwingDeps .empty redeliveredRun).state.told = 2 := by
  decide +kernel

end Kyc
