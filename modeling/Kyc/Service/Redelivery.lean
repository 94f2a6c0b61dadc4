import Kyc.Service.Sample
import Kyc.Service.Webhooks

/-! # Redelivered events

The first delivery changes what the lookups of the second one read: what is bound,
what is in progress, what is still unbound. The second delivery changes nothing
exactly when they lead it to a session that the first one has settled.
-/

namespace Kyc

variable {deps : VerificationServiceDeps} {t : Tables} {event : WebhookEvent}
  {new : VerificationStatus}

/-- A delivery in this state would change nothing. -/
def Quiet (deps : VerificationServiceDeps) (t : Tables) (event : WebhookEvent) : Prop :=
  ∀ new r needsBinding, event.status = some new →
    route deps t event = some (r, needsBinding) → r.Stands new (event.binding needsBinding)

/-- A delivery that finds its session settled changes no session and tells the host nothing, and
no other delivery is like that. -/
theorem deliver_unchanged_iff (w : World) (event : WebhookEvent) :
    ((∀ id, (deliver deps w event).tables.standing id = w.tables.standing id) ∧
      (deliver deps w event).effects = w.effects) ↔ Quiet deps w.tables event := by
  rcases deliver_cases deps w event with
    ⟨hn, hr⟩ | ⟨new, r, needsBinding, transition, hs, hr, hw⟩
  · constructor
    · intro _ new r needsBinding hs hr
      rcases hn with hn | hn
      · rw [hn] at hs; cases hs
      · rw [hn] at hr; cases hr
    · intro _
      exact ⟨fun id => by rw [hr.tables], hr.effects⟩
  · have hg := (route_mem hr).1
    constructor
    · rintro ⟨hst, -⟩ new' r' b hs' hr'
      obtain rfl : new = new' := Option.some.inj (hs.symm.trans hs')
      obtain ⟨rfl, rfl⟩ := Prod.mk.inj (Option.some.inj (hr.symm.trans hr'))
      apply hw.standing_eq_iff.mp
      have := hst r.id
      rw [hw.standing_self, Tables.standing_of_get hg] at this
      exact Option.some.inj this
    · intro hq
      have hst := hw.standing_eq_iff.mpr (hq new r needsBinding hs hr)
      constructor
      · intro id
        by_cases hid : id = r.id
        · rw [hid, hw.standing_self, Tables.standing_of_get hg, hst]
        · exact hw.standing_of_ne hid
      · have hno : transition.outcome ≠ .write .updated := by
          rw [hw.outcome, if_pos (route_mem hr).2]
          intro ho
          have hne := StatusWriteOutcome.of_eq_updated_iff.mp (StatusTransitionOutcome.write.inj ho)
          have hs' := congrArg Prod.fst hst
          have hws := hw.status
          rw [if_pos (route_mem hr).2] at hws
          exact hne (hws.symm.trans hs')
        rw [hw.effects, StatusTransition.told, if_neg fun h => hno h.1, List.append_nil]

/-- The sessions still in progress once `new` was written on `r`. -/
def inProgressAfter (applicantId : String) (r : SessionRecord) (new : VerificationStatus)
    (s : SessionRecord) : Bool :=
  if s.id = r.id then ¬ r.status.Terminal ∧ ¬ new.Terminal else s.inProgressOf applicantId

/-- One delivery settles the event. The session it leads to is on the event's level; or no other
session can be opened for the event, and the newest session then in progress has its status. -/
def SettledByOne (deps : VerificationServiceDeps) (t : Tables) (event : WebhookEvent) : Prop :=
  ∀ new r needsBinding, event.status = some new →
    route deps t event = some (r, needsBinding) →
    (event.levelName ≠ none ∧ r.levelName = event.levelName) ∨
    ((needsBinding = true → event.levelName = none ∨
        ∀ s ∈ t.sessions.rows, s.unboundOf r.userId r.provider → s.id = r.id) ∧
      ∀ q, newestSession (inProgressAfter event.providerApplicantId r new) t.sessions.rows =
        some q → q.id = r.id ∨ q.status = new)

theorem settledByOne_iff {r : SessionRecord} {needsBinding : Bool}
    (hs : event.status = some new) (hroute : route deps t event = some (r, needsBinding)) :
    SettledByOne deps t event ↔
      (event.levelName ≠ none ∧ r.levelName = event.levelName) ∨
      ((needsBinding = true → event.levelName = none ∨
          ∀ s ∈ t.sessions.rows, s.unboundOf r.userId r.provider → s.id = r.id) ∧
        ∀ q, newestSession (inProgressAfter event.providerApplicantId r new) t.sessions.rows =
          some q → q.id = r.id ∨ q.status = new) := by
  constructor
  · exact fun hone => hone new r needsBinding hs hroute
  · intro hone new' r' b hs' hroute'
    obtain rfl := Option.some.inj (hs.symm.trans hs')
    obtain ⟨rfl, rfl⟩ := Prod.mk.inj (Option.some.inj (hroute.symm.trans hroute'))
    exact hone

theorem quiet_iff_of_nowhere (hn : event.status = none ∨ route deps t event = none) :
    Quiet deps t event ↔ SettledByOne deps t event := by
  apply iff_of_true
  · intro new r b hs hroute
    rcases hn with hn | hn
    · rw [hn] at hs; cases hs
    · rw [hn] at hroute; cases hroute
  · intro new r b hs hroute
    rcases hn with hn | hn
    · rw [hn] at hs; cases hs
    · rw [hn] at hroute; cases hroute

theorem Quiet.of_known {q : SessionRecord} (hk : knownSession t event = some q)
    (ho : openedSession deps t event (knownSession t event) = none)
    (hq : ∀ new, event.status = some new → q.status.Terminal ∨ q.status = new) :
    Quiet deps t event := by
  intro new r needsBinding hs hr
  have hroute : route deps t event = some (q, false) := route_eq_known.mpr ⟨ho, hk⟩
  obtain ⟨rfl, rfl⟩ := Prod.mk.inj (Option.some.inj (hroute.symm.trans hr))
  intro _
  exact ⟨hq new hs, fun a ha => by cases ha⟩

theorem Quiet.known {q : SessionRecord} (h : Quiet deps t event)
    (hk : knownSession t event = some q)
    (ho : openedSession deps t event (knownSession t event) = none) (hs : event.status = some new) :
    q.status.Terminal ∨ q.status = new :=
  (h new q false hs (route_eq_known.mpr ⟨ho, hk⟩) trivial).1

theorem Quiet.opens_none (h : Quiet deps t event) (hwf : event.WellFormed)
    (hs : event.status = some new) :
    openedSession deps t event (knownSession t event) = none := by
  cases ho : openedSession deps t event (knownSession t event) with
  | none => rfl
  | some u =>
    have hroute := route_eq_unbound.mpr ho
    obtain ⟨_, -, -, hn⟩ := openedSession_mem ho
    have hb : event.binding true = some event.providerApplicantId :=
      truthy_eq_some.mpr ⟨rfl, hwf.applicant⟩
    have hu := (SessionRecord.unboundOf_iff.mp (newest_prop hn)).2.2
    have := (h new u true hs hroute (route_mem hroute).2).2 _ hb
    rw [hu] at this
    cases this

section Delivered

variable {t t' : Tables} {r r' : SessionRecord}

/-- The row `r` was bound to the event's applicant and written with its status. -/
structure Delivered (t : Tables) (event : WebhookEvent) (new : VerificationStatus)
    (r r' : SessionRecord) (t' : Tables) : Prop where
  get : t.sessions.get r.id = some r
  identity : r'.identity = r.identity
  applicant : r'.providerApplicantId = some event.providerApplicantId
  status : r'.status = r.status.write new
  sessions : t'.sessions = t.sessions.set r'

namespace Delivered

variable (h : Delivered t event new r r' t')

include h

theorem id : r'.id = r.id := SessionRecord.id_of_identity h.identity

theorem mem : r' ∈ t'.sessions.rows := by
  have hg : t'.sessions.get r'.id = some r' := by rw [h.sessions, Table.get_set_self]
  exact Table.get_mem hg

theorem mem_old {s : SessionRecord} (hs : s ∈ t'.sessions.rows) :
    s = r' ∨ s ∈ t.sessions.rows ∧ s.id ≠ r.id := by
  rw [h.sessions] at hs
  rcases Tables.mem_rows_setSession (t := t) hs with rfl | ⟨hm, hne⟩
  · exact Or.inl rfl
  · exact Or.inr ⟨hm, by rwa [h.id] at hne⟩

theorem mem_of_ne {s : SessionRecord} (hs : s ∈ t.sessions.rows) (hne : s.id ≠ r.id) :
    s ∈ t'.sessions.rows := by
  apply Table.get_mem (k := s.id)
  rw [h.sessions, Table.get_set_of_ne (by rwa [h.id]), Table.get_of_mem hs]

theorem settled : r'.status.Terminal ∨ r'.status = new := by
  rw [h.status]
  by_cases ht : r.status.Terminal
  · rw [VerificationStatus.write_of_terminal ht]; exact Or.inl ht
  · rw [VerificationStatus.write_of_not_terminal ht]; exact Or.inr rfl

theorem terminal_iff : r'.status.Terminal ↔ r.status.Terminal ∨ new.Terminal := by
  rw [h.status]
  by_cases ht : r.status.Terminal
  · simp [VerificationStatus.write_of_terminal ht, ht]
  · simp [VerificationStatus.write_of_not_terminal ht, ht]

theorem newest (p : SessionRecord → Bool) :
    newestSession p t'.sessions.rows =
      (newestSession (fun s => if s.id = r.id then p r' else p s) t.sessions.rows).map
        fun s => if s.id = r.id then r' else s := by
  rw [h.sessions]
  exact newestSession_set h.get h.identity p

theorem no_unbound_iff {userId provider : String} :
    newestSession (·.unboundOf userId provider) t'.sessions.rows = none ↔
      ∀ s ∈ t.sessions.rows, s.unboundOf userId provider → s.id = r.id := by
  rw [newest_eq_none]
  constructor
  · intro hall s hs hsu
    by_contra hne
    have := hall s (h.mem_of_ne hs hne)
    rw [hsu] at this
    cases this
  · intro hall s hs
    rw [← Bool.not_eq_true]
    intro hsu
    rcases h.mem_old hs with rfl | ⟨hm, hne⟩
    · have := (SessionRecord.unboundOf_iff.mp hsu).2.2
      rw [h.applicant] at this
      cases this
    · exact hne (hall s hm hsu)

/-- The newest session in progress after the delivery has the event's status, if any is left. -/
theorem inProgress_iff :
    (∀ q, newestSession (·.inProgressOf event.providerApplicantId) t'.sessions.rows = some q →
        q.status = new) ↔
      ∀ q, newestSession (inProgressAfter event.providerApplicantId r new) t.sessions.rows =
        some q → q.id = r.id ∨ q.status = new := by
  have hn := h.newest (·.inProgressOf event.providerApplicantId)
  have hp : newestSession (fun s => if s.id = r.id
        then r'.inProgressOf event.providerApplicantId
        else s.inProgressOf event.providerApplicantId) t.sessions.rows =
      newestSession (inProgressAfter event.providerApplicantId r new) t.sessions.rows := by
    apply newest_congr
    intro s _
    unfold inProgressAfter
    split
    · rw [Bool.eq_iff_iff, SessionRecord.inProgressOf_iff, h.terminal_iff]
      simp [h.applicant, not_or]
    · rfl
  rw [hn, hp]
  constructor
  · intro hq q hqn
    by_cases hid : q.id = r.id
    · exact Or.inl hid
    · right
      apply hq q
      rw [hqn, Option.map_some, if_neg hid]
  · intro hq q hqn
    obtain ⟨q₀, hq₀, rfl⟩ := Option.map_eq_some_iff.mp hqn
    by_cases hid : q₀.id = r.id
    · rw [if_pos hid]
      have hprop := newest_prop hq₀
      unfold inProgressAfter at hprop
      rw [if_pos hid] at hprop
      have hnt : ¬ r.status.Terminal := (of_decide_eq_true hprop).1
      rw [h.status, VerificationStatus.write_of_not_terminal hnt]
    · rw [if_neg hid]
      exact (hq q₀ hq₀).resolve_left hid

end Delivered

theorem not_onLevel_of_opened {session : SessionRecord} {level : String}
    (ho : openedSession deps t event (knownSession t event) = some session)
    (hl : event.levelName = some level) (hne : level ≠ "") {s : SessionRecord}
    (hs : s ∈ t.sessions.rows) (hb : s.providerApplicantId = some event.providerApplicantId) :
    s.levelName ≠ some level := by
  intro hsl
  rw [openedSession_eq_none_of_mem hl hne hs hb hsl] at ho
  cases ho

namespace Delivered

variable (h : Delivered t event new r r' t') {needsBinding : Bool}
  (hroute : route deps t event = some (r, needsBinding))

include h hroute

/-- An event written on its own level finds that session again. -/
theorem known_onLevel {level : String} (hl : event.levelName = some level) (hne : level ≠ "")
    (hrl : r.levelName = some level) : knownSession t' event = some r' := by
  have hrl' : r'.levelName = some level :=
    (SessionRecord.levelName_of_identity h.identity).trans hrl
  have hr' : r'.boundOn event.providerApplicantId level = true :=
    SessionRecord.boundOn_iff.mpr ⟨h.applicant, hrl'⟩
  have hn : newestSession (fun s => if s.id = r.id
      then r'.boundOn event.providerApplicantId level
      else s.boundOn event.providerApplicantId level) t.sessions.rows = some r := by
    cases needsBinding with
    | true =>
      apply newest_of_unique (Table.get_mem h.get) (by rw [if_pos rfl]; exact hr')
      intro s hs hp
      by_cases hid : s.id = r.id
      · exact t.sessions.key_injOn hs (Table.get_mem h.get) hid
      · rw [if_neg hid, SessionRecord.boundOn_iff] at hp
        exact absurd hp.2 (not_onLevel_of_opened (route_eq_unbound.mp hroute) hl hne hs hp.1)
    | false =>
      have hk := (route_eq_known.mp hroute).2
      obtain ⟨hm, hb⟩ := knownSession_mem hk
      obtain ⟨_, hkn, -, -⟩ := knownSession_onLevel hl hne hm hb hrl
      rw [← hk, hkn]
      apply newest_congr
      intro s hs
      split
      next hid =>
        obtain rfl := t.sessions.key_injOn hs hm hid
        rw [hr', SessionRecord.boundOn_iff.mpr ⟨hb, hrl⟩]
      next => rfl
  obtain ⟨_, hkn, -, -⟩ := knownSession_onLevel hl hne h.mem h.applicant hrl'
  rw [hkn, h.newest, hn, Option.map_some, if_pos rfl]

theorem quiet_onLevel (hwf : event.WellFormed) (hs : event.status = some new)
    (hon : event.levelName ≠ none ∧ r.levelName = event.levelName) : Quiet deps t' event := by
  obtain ⟨level, hl⟩ := Option.ne_none_iff_exists'.mp hon.1
  have hne : level ≠ "" := fun he => hwf.level (he ▸ hl)
  have hk := h.known_onLevel hroute hl hne (hon.2.trans hl)
  apply Quiet.of_known hk
  · rw [hk]
    apply openedSession_eq_none_of_onLevel
    intro level' hl'
    rw [SessionRecord.levelName_of_identity h.identity, hon.2, hl']
  · intro new' hs'
    obtain rfl := Option.some.inj (hs.symm.trans hs')
    exact h.settled

variable (hwf : event.WellFormed)
  (hoff : ¬ (event.levelName ≠ none ∧ r.levelName = event.levelName))

include hwf hoff

theorem not_onLevel {level : String} (hl : event.levelName = some level) {s : SessionRecord}
    (hs : s ∈ t'.sessions.rows) (hb : s.providerApplicantId = some event.providerApplicantId) :
    s.levelName ≠ some level := by
  have hne : level ≠ "" := fun he => hwf.level (he ▸ hl)
  have hrl : r.levelName ≠ some level := fun hrl => hoff ⟨by rw [hl]; simp, hrl.trans hl.symm⟩
  rcases h.mem_old hs with rfl | ⟨hm, -⟩
  · rwa [SessionRecord.levelName_of_identity h.identity]
  · intro hsl
    cases needsBinding with
    | true => exact not_onLevel_of_opened (route_eq_unbound.mp hroute) hl hne hm hb hsl
    | false =>
      obtain ⟨known, -, hk, hkl⟩ := knownSession_onLevel hl hne hm hb hsl
      obtain rfl := Option.some.inj (hk.symm.trans (route_eq_known.mp hroute).2)
      exact hrl hkl

theorem known_offLevel : knownSession t' event =
    (newestSession (·.inProgressOf event.providerApplicantId) t'.sessions.rows).or
      (newestSession (·.boundTo event.providerApplicantId) t'.sessions.rows) :=
  knownSession_offLevel fun _ hl _ hs hb => h.not_onLevel hroute hwf hoff hl hs hb

/-- Off its level, the event opens another session when it has opened this one and the user has
another one unbound. -/
theorem opens_none_iff : openedSession deps t' event (knownSession t' event) = none ↔
    (needsBinding = true → event.levelName = none ∨
      ∀ s ∈ t.sessions.rows, s.unboundOf r.userId r.provider → s.id = r.id) := by
  obtain ⟨q, hq⟩ : ∃ q, knownSession t' event = some q := by
    cases hk : knownSession t' event with
    | some q => exact ⟨q, rfl⟩
    | none => exact absurd h.applicant (knownSession_eq_none.mp hk r' h.mem)
  cases hl : event.levelName with
  | none =>
    rw [hq, openedSession_eq_none_of_onLevel (by simp [hl])]
    simp
  | some level =>
    have hoff' : knownSession t' event = none ∨ onAnotherLevel (knownSession t' event) event :=
      fallback_of_offLevel hl fun _ => h.not_onLevel hroute hwf hoff hl
    cases needsBinding with
    | true =>
      obtain ⟨userId, hu, -, hn⟩ := openedSession_mem (route_eq_unbound.mp hroute)
      obtain ⟨hru, hrp, -⟩ := SessionRecord.unboundOf_iff.mp (newest_prop hn)
      rw [openedSession_eq hu hoff', h.no_unbound_iff, hru, hrp]
      simp
    | false =>
      obtain ⟨hon, hk⟩ := route_eq_known.mp hroute
      simp only [Bool.false_eq_true, false_implies, iff_true]
      cases hu : truthy event.externalUserId with
      | none => unfold openedSession; rw [hu]
      | some userId =>
        have hrl : onAnotherLevel (some r) event = true :=
          (onAnotherLevel_some hl).mpr fun hrl => hoff ⟨by rw [hl]; simp, hrl.trans hl.symm⟩
        rw [hk, openedSession_eq hu (Or.inr hrl)] at hon
        rw [openedSession_eq hu hoff', h.no_unbound_iff]
        intro s hs hsu
        have := newest_eq_none.mp hon s hs
        rw [hsu] at this
        cases this

/-- Off its level, the event is quiet when it opens nothing more and what it is led to has its
status. -/
theorem quiet_offLevel_iff (hs : event.status = some new) : Quiet deps t' event ↔
    openedSession deps t' event (knownSession t' event) = none ∧
      ∀ q, newestSession (·.inProgressOf event.providerApplicantId) t'.sessions.rows = some q →
        q.status = new := by
  have hk := h.known_offLevel hroute hwf hoff
  constructor
  · intro hq
    have ho := hq.opens_none hwf hs
    refine ⟨ho, fun q hqn => ?_⟩
    rw [hqn, Option.some_or] at hk
    exact (hq.known hk ho hs).resolve_left (SessionRecord.inProgressOf_iff.mp (newest_prop hqn)).2
  · rintro ⟨ho, hall⟩
    cases hqn : newestSession (·.inProgressOf event.providerApplicantId) t'.sessions.rows with
    | some q =>
      rw [hqn, Option.some_or] at hk
      apply Quiet.of_known hk ho
      intro new' hs'
      obtain rfl := Option.some.inj (hs.symm.trans hs')
      exact Or.inr (hall q hqn)
    | none =>
      rw [hqn, Option.none_or] at hk
      obtain ⟨q, hqb⟩ := newest_isSome SessionRecord.createdAt
        (p := (·.boundTo event.providerApplicantId)) h.mem
        (SessionRecord.boundTo_iff.mpr h.applicant)
      apply Quiet.of_known (hk.trans hqb) ho
      intro _ _
      by_contra hnt
      have := newest_eq_none.mp hqn q (newest_mem hqb)
      rw [← Bool.not_eq_true, SessionRecord.inProgressOf_iff] at this
      exact this ⟨SessionRecord.boundTo_iff.mp (newest_prop hqb), fun ht => hnt (Or.inl ht)⟩

end Delivered

end Delivered

theorem Written.delivered {w w' : World} {r : SessionRecord} {needsBinding : Bool}
    {told : List StatusTransitionEvent} {transition : StatusTransition} (hwf : event.WellFormed)
    (hroute : route deps w.tables event = some (r, needsBinding))
    (hw : Written w r new (event.binding needsBinding) told transition w') :
    Delivered w.tables event new r transition.session w'.tables := by
  obtain ⟨hg, hacc⟩ := route_mem hroute
  refine ⟨hg, hw.identity, ?_, by rw [hw.status, if_pos hacc], hw.sessions⟩
  rw [hw.applicant, if_pos hacc]
  cases needsBinding with
  | true =>
    have hb : event.binding true = some event.providerApplicantId :=
      truthy_eq_some.mpr ⟨rfl, hwf.applicant⟩
    rw [hb, Option.some_or]
  | false => exact (knownSession_mem (route_eq_known.mp hroute).2).2

/-- Delivering an event twice changes no session beyond what delivering it once does, and tells
the host nothing more, exactly when one delivery settles it. -/
theorem redelivery_idempotent_iff (deps : VerificationServiceDeps) (w : World)
    (event : WebhookEvent) (hwf : event.WellFormed) :
    ((∀ id, (deliver deps (deliver deps w event) event).tables.standing id =
          (deliver deps w event).tables.standing id) ∧
      (deliver deps (deliver deps w event) event).effects = (deliver deps w event).effects) ↔
      SettledByOne deps w.tables event := by
  rw [deliver_unchanged_iff]
  rcases deliver_cases deps w event with
    ⟨hn, hr⟩ | ⟨new, r, needsBinding, transition, hs, hroute, hw⟩
  · rw [hr.tables]
    exact quiet_iff_of_nowhere hn
  · have h := hw.delivered hwf hroute
    rw [settledByOne_iff hs hroute]
    by_cases hon : event.levelName ≠ none ∧ r.levelName = event.levelName
    · exact iff_of_true (h.quiet_onLevel hroute hwf hs hon) (Or.inl hon)
    · rw [or_iff_right hon, ← h.opens_none_iff hroute hwf hon, ← h.inProgress_iff]
      exact h.quiet_offLevel_iff hroute hwf hon hs

def twoInProgress : World :=
  worldOf [sessionOf "s1" "u" (some "a") (some "basic") .pending 0 0,
    sessionOf "s2" "u" (some "a") (some "card") .pending 1 1] (by decide)

/-- Redelivering an approval that names no level approves the next session. -/
theorem redelivery_approves_next_session :
    ¬ ∀ (deps : VerificationServiceDeps) (w : World) (event : WebhookEvent),
      (∀ id, (deliver deps (deliver deps w event) event).tables.standing id =
          (deliver deps w event).tables.standing id) ∧
        (deliver deps (deliver deps w event) event).effects = (deliver deps w event).effects := by
  intro h
  have hs := (h (steadyDeps (steadyProvider none .pending none)) twoInProgress
    (eventOf "a" "u" .approved none)).1 "s1"
  revert hs
  decide +kernel

theorem redelivery_idempotent_iff_level :
    (deliver (steadyDeps (steadyProvider none .pending none))
      (deliver (steadyDeps (steadyProvider none .pending none)) twoInProgress
        (eventOf "a" "u" .approved (some "card")))
        (eventOf "a" "u" .approved (some "card"))).effects =
    (deliver (steadyDeps (steadyProvider none .pending none)) twoInProgress
      (eventOf "a" "u" .approved (some "card"))).effects := by
  refine ((redelivery_idempotent_iff (steadyDeps (steadyProvider none .pending none)) twoInProgress
    (eventOf "a" "u" .approved (some "card")) ⟨by decide, by decide⟩).mpr ?_).2
  intro new r needsBinding _ hroute
  left
  have hr : route (steadyDeps (steadyProvider none .pending none)) twoInProgress.tables
      (eventOf "a" "u" .approved (some "card")) =
        some (sessionOf "s2" "u" (some "a") (some "card") .pending 1 1, false) := by
    decide +kernel
  obtain ⟨rfl, -⟩ := Prod.mk.inj (Option.some.inj (hr.symm.trans hroute))
  exact ⟨by decide, rfl⟩

end Kyc
