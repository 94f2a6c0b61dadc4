import Kyc.Service.Sample
import Kyc.Service.Steps

/-! # What a session keeps

Three paths bind an applicant: `start` after minting, the first event about a
session, and a reconciled read. Along every interleaving of them a bound applicant
stays, a session keeps what identifies it, and no session is removed.
-/

namespace Kyc

variable (deps : VerificationServiceDeps)

/-- Between any two moments of any run every session is kept, with its identity and, once it has
one, its applicant. -/
theorem sessions_keep_identity_and_applicant (w : World) (hw : w.Fresh deps)
    (events later : List (Event Call)) :
    ∀ r ∈ (runService deps w events).state.tables.sessions.rows,
      ∃ r', (runService deps w (events ++ later)).state.tables.sessions.get r.id = some r' ∧
        r'.identity = r.identity ∧
        (r.providerApplicantId ≠ none → r'.providerApplicantId = r.providerApplicantId) := by
  intro r hr
  obtain ⟨r', hr', hk⟩ := (runService_evolves hw events later).keeps r hr
  refine ⟨r', ?_, hk.identity, hk.applicant⟩
  rw [← SessionRecord.id_of_identity hk.identity]
  exact Table.get_of_mem hr'

def racingBinds : List (Event Call) :=
  [.start (.start (some "u") (some (startInput "basic"))), .step 0, .step 0,
    .start (.handleWebhookEvent (eventOf "a" "u" .pending none)),
    .start (.handleWebhookEvent (eventOf "b" "u" .pending none)),
    .step 1, .step 1, .step 2, .step 2, .step 1]

theorem sessions_keep_identity_and_applicant_racing :
    ∃ r', (runService (steadyDeps (steadyProvider none .pending none)) .empty
        (racingBinds ++ [.step 2])).state.tables.sessions.get "x" = some r' ∧
      r'.providerApplicantId = some "a" := by
  have hr : sessionOf "x" "u" (some "a") (some "basic") .pending 0 7 ∈
      (runService (steadyDeps (steadyProvider none .pending none)) .empty
        racingBinds).state.tables.sessions.rows := by
    decide +kernel
  obtain ⟨r', hg, -, ha⟩ := sessions_keep_identity_and_applicant
    (steadyDeps (steadyProvider none .pending none)) .empty (World.fresh_empty _) racingBinds
    [.step 2]
    _ hr
  exact ⟨r', hg, ha (by decide)⟩

end Kyc
