import Kyc.Service.Sample
import Kyc.Service.Webhooks

/-! # Events and levels

An event that names a level is about a session on that level. The search among the
applicant's own sessions keeps to the level; the fallback does not look at it and
opens the user's newest unbound session.
-/

namespace Kyc

/-- When the user has a session on the event's level that the applicant could stand on, the event
changes no session of another level, except that it opens the user's newest unbound session if
no session of the applicant is on that level. -/
theorem event_keeps_to_its_level (deps : VerificationServiceDeps) (w : World)
    (event : WebhookEvent) (level userId : String) (s : SessionRecord)
    (hl : event.levelName = some level) (hne : level ≠ "")
    (hu : event.externalUserId = some userId) (hune : userId ≠ "")
    (hs : s ∈ w.tables.sessions.rows) (hsu : s.userId = userId)
    (hsp : s.provider = deps.providerName) (hsl : s.levelName = some level)
    (hsb : s.Accepts event.providerApplicantId) :
    ∀ r ∈ w.tables.sessions.rows, r.levelName ≠ some level →
      (deliver deps w event).tables.standing r.id = w.tables.standing r.id ∨
      ((∀ q ∈ w.tables.sessions.rows, q.providerApplicantId = some event.providerApplicantId →
          q.levelName ≠ some level) ∧
        newestSession (·.unboundOf userId deps.providerName) w.tables.sessions.rows = some r) := by
  intro r hr hrl
  by_cases hb : ∃ q ∈ w.tables.sessions.rows,
      q.providerApplicantId = some event.providerApplicantId ∧ q.levelName = some level
  · left
    obtain ⟨q, hq, hqb, hql⟩ := hb
    apply deliver_standing_of_ne
    intro target needsBinding hroute hid
    have htl : target.levelName = some level := level_of_route hl hne hq hqb hql hroute
    obtain rfl := w.tables.sessions.key_injOn hr (Table.get_mem (route_mem hroute).1) hid
    exact hrl htl
  · have hoff : ∀ q ∈ w.tables.sessions.rows,
        q.providerApplicantId = some event.providerApplicantId → q.levelName ≠ some level :=
      fun q hq hqb hql => hb ⟨q, hq, hqb, hql⟩
    by_cases hnew :
        newestSession (·.unboundOf userId deps.providerName) w.tables.sessions.rows = some r
    · exact Or.inr ⟨hoff, hnew⟩
    · left
      have hsn : s.providerApplicantId = none :=
        hsb.resolve_right fun hsa => hoff s hs hsa hsl
      obtain ⟨u, hu'⟩ := newest_isSome SessionRecord.createdAt
        (p := (·.unboundOf userId deps.providerName)) hs
        (SessionRecord.unboundOf_iff.mpr ⟨hsu, hsp, hsn⟩)
      have hopen : route deps w.tables event = some (u, true) := by
        rw [route_eq_unbound, openedSession_eq (truthy_eq_some.mpr ⟨hu, hune⟩)
          (fallback_of_offLevel hl hoff)]
        exact hu'
      apply deliver_standing_of_ne
      intro target needsBinding hroute hid
      obtain ⟨rfl, -⟩ := Prod.mk.inj (Option.some.inj (hopen.symm.trans hroute))
      obtain rfl := w.tables.sessions.key_injOn hr (newest_mem hu') hid
      exact hnew hu'

/-- A user with an unbound session on each of two levels, the one on `card` started last. -/
def twoLevels : World :=
  worldOf [sessionOf "s1" "u" none (some "basic") .initial 0 0,
    sessionOf "s2" "u" none (some "card") .initial 1 1] (by decide)

theorem event_keeps_to_its_level_card :
    (deliver (steadyDeps (steadyProvider none .pending none)) twoLevels
      (eventOf "a" "u" .approved (some "card"))).tables.standing "s1" =
        twoLevels.tables.standing "s1" := by
  have h := event_keeps_to_its_level (steadyDeps (steadyProvider none .pending none)) twoLevels
    (eventOf "a" "u" .approved (some "card")) "card" "u"
    (sessionOf "s2" "u" none (some "card") .initial 1 1) rfl (by decide) rfl (by decide)
    (by decide) rfl rfl rfl (by decide)
    (sessionOf "s1" "u" none (some "basic") .initial 0 0) (by decide) (by decide)
  apply h.resolve_right
  intro hopen
  exact absurd hopen.2 (by decide)

/-- The first event about the level `basic` approves the newer session on `card`. -/
theorem event_of_unbound_level_misrouted :
    ¬ ∀ (deps : VerificationServiceDeps) (w : World) (event : WebhookEvent)
      (level userId : String) (s : SessionRecord),
      event.levelName = some level → event.externalUserId = some userId →
      s ∈ w.tables.sessions.rows → s.userId = userId → s.provider = deps.providerName →
      s.levelName = some level → s.Accepts event.providerApplicantId →
      ∀ r ∈ w.tables.sessions.rows, r.levelName ≠ some level →
        (deliver deps w event).tables.standing r.id = w.tables.standing r.id := by
  intro h
  have hs := h (steadyDeps (steadyProvider none .pending none)) twoLevels
    (eventOf "a" "u" .approved (some "basic")) "basic" "u"
    (sessionOf "s1" "u" none (some "basic") .initial 0 0) rfl rfl (by decide) rfl rfl rfl
    (by decide) (sessionOf "s2" "u" none (some "card") .initial 1 1) (by decide) (by decide)
  revert hs
  decide +kernel

end Kyc
