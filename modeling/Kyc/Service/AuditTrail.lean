import Kyc.Service.Sample
import Kyc.Service.Steps

/-! # The audit trail

Along every interleaving of calls the status entries of a session, oldest first,
replay from `initial` to the status its row stores. No entry starts from a terminal
status, so a terminal status is never left.
-/

namespace Kyc

variable (deps : VerificationServiceDeps)

theorem runService_audited {w : World} (hw : w.Fresh deps) (ha : w.tables.Audited)
    (events : List (Event Call)) : (runService deps w events).state.tables.Audited :=
  (runService_evolves hw [] events).audited ha

/-- Every session's status entries replay from `initial` to its stored status, in every state
that any calls can reach, and from then on a terminal status stays. -/
theorem audit_trail_replays (events later : List (Event Call)) :
    ∀ r ∈ (runService deps .empty events).state.tables.sessions.rows,
      Replay AuditedStep .initial (statusTrail (runService deps .empty events).state.tables r.id)
        r.status ∧
      (r.status.Terminal →
        ∃ r' ∈ (runService deps .empty (events ++ later)).state.tables.sessions.rows,
          r'.id = r.id ∧ r'.status = r.status) := by
  intro r hr
  have hw : World.empty.Fresh deps := World.fresh_empty deps
  constructor
  · exact (runService_audited deps hw Tables.audited_empty events).replay r hr
  · intro ht
    obtain ⟨r', hr', hk⟩ := (runService_evolves hw events later).keeps r hr
    exact ⟨r', hr', SessionRecord.id_of_identity hk.identity, hk.terminal ht⟩

/-- A session is started, reconciled to `pending` and approved by an event. -/
def approvedRun : List (Event Call) :=
  [.start (.start (some "u") (some (startInput "basic"))), .step 0, .step 0, .step 0,
    .start (.latestForUser (some "u") true), .step 1, .step 1, .step 1,
    .start (.handleWebhookEvent (eventOf "a" "u" .approved (some "basic"))),
    .step 2, .step 2]

def declinedRun : List (Event Call) :=
  [.start (.handleWebhookEvent (eventOf "a" "u" .declined (some "basic"))), .step 3, .step 3]

theorem audit_trail_replays_approved :
    Replay AuditedStep .initial
      (statusTrail (runService (steadyDeps (steadyProvider (some "a") .pending none)) .empty
        approvedRun).state.tables "x") .approved ∧
    ∃ r' ∈ (runService (steadyDeps (steadyProvider (some "a") .pending none)) .empty
        (approvedRun ++ declinedRun)).state.tables.sessions.rows,
      r'.id = "x" ∧ r'.status = .approved := by
  have hr : sessionOf "x" "u" (some "a") (some "basic") .approved 0 7 ∈
      (runService (steadyDeps (steadyProvider (some "a") .pending none)) .empty
        approvedRun).state.tables.sessions.rows := by
    decide +kernel
  obtain ⟨hlog, hstays⟩ := audit_trail_replays
    (steadyDeps (steadyProvider (some "a") .pending none)) approvedRun declinedRun _ hr
  exact ⟨hlog, hstays (by decide)⟩

end Kyc
