import Kyc.Client.Hook

/-! # A flow that is parked offline

Losing the connection parks the flow of a browser, and the user takes it up again. A `start`
of the source that was in flight by then does too: what follows it does not ask whether the
flow is still its own.
-/

namespace Kyc.Client

/-- A call that the user makes. -/
def Input.FromUser : Input → Prop
  | .start _ => True
  | .retry _ => True
  | .restart _ => True
  | .cancel => True
  | _ => False

/-- The source's `start` settles. -/
def Input.SettlesStart : Input → Prop
  | .startSettled _ => True
  | _ => False

instance (i : Input) : Decidable i.SettlesStart := by
  cases i <;> unfold Input.SettlesStart <;> infer_instance

/-- What reaches a hook without the provider's page: the connection, the user, the source's
`start`, and what its component does. -/
def Input.OffPage : Input → Prop
  | .event _ => False
  | .message _ => False
  | .permissionChecked _ => False
  | .connectionChecked _ => False
  | .launchSettled _ => False
  | .refreshSettled _ _ => False
  | _ => True

namespace Hook

def Parked (s : Hook) : Prop := s.machine.status = .offline

instance (s : Hook) : Decidable s.Parked :=
  inferInstanceAs (Decidable (s.machine.status = .offline))

/-- A `start` in flight settles while the flow is parked. -/
def Overruns (s : Hook) (i : Input) : Prop :=
  s.Parked ∧ s.mounted ∧ s.stage = some .starting ∧ i.SettlesStart

instance (s : Hook) (i : Input) : Decidable (s.Overruns i) := by
  unfold Overruns
  infer_instance

variable {s : Hook}

theorem status_startSettled (hm : s.mounted)
    (answer : Except VerificationSourceError VerificationSession) :
    (s.startSettled answer).machine.status = .verifying ∨
      (s.startSettled answer).machine.status = .error := by
  unfold startSettled
  rw [if_pos hm]
  cases answer with
  | error cause => exact Or.inr rfl
  | ok acquired =>
    left
    dsimp only
    split <;> rfl

theorem machine_startSettled_of_not_mounted (hm : ¬ s.mounted)
    (answer : Except VerificationSourceError VerificationSession) :
    (s.startSettled answer).machine = s.machine := by
  unfold startSettled
  rw [if_neg hm]
  rfl

/-- Of what is no call of the user, exactly a `start` that overruns takes a parked flow up. -/
theorem parked_react_iff {i : Input} (hs : s.Parked) (hi : i.OffPage) (hu : ¬ i.FromUser) :
    (s.react .web i).Parked ↔ ¬ s.Overruns i := by
  cases i with
  | start | retry | restart | cancel => exact absurd trivial hu
  | event | message | permissionChecked | connectionChecked | launchSettled | refreshSettled =>
    exact absurd hi id
  | startSettled answer =>
    rw [react]
    by_cases hstage : s.stage = some .starting
    · rw [if_pos hstage]
      by_cases hm : s.mounted
      · refine iff_of_false ?_ (not_not.mpr ⟨hs, hm, hstage, trivial⟩)
        rcases status_startSettled hm answer with h | h <;> simp [Parked, h]
      · refine iff_of_true ?_ fun h => hm h.2.1
        rwa [Parked, machine_startSettled_of_not_mounted hm]
    · rw [if_neg hstage]
      exact iff_of_true hs fun h => hstage h.2.2.1
  | timerFired id =>
    refine iff_of_true ?_ fun h => h.2.2.2
    rwa [Parked, react, machine_timerFired]
  | online =>
    refine iff_of_true ?_ fun h => h.2.2.2
    rw [react]
    split <;> exact hs
  | offline =>
    refine iff_of_true ?_ fun h => h.2.2.2
    rw [react]
    split
    · unfold goOffline
      split
      · rfl
      · exact hs
    · exact hs
  | render | attach | unmount => exact iff_of_true hs fun h => h.2.2.2

/-- In every run of a hook in a browser, only the user takes a parked flow up, exactly if no `start`
that was in flight settles while the flow is parked. -/
theorem offline_never_resumes_iff (host : Host) (isOnline : Bool) (inputs : List Input)
    (hin : ∀ i ∈ inputs, i.OffPage) :
    (∀ pre mid, pre ++ mid <+: inputs → ((mount host isOnline).run .web pre).Parked →
        (∀ i ∈ mid, ¬ i.FromUser) → ((mount host isOnline).run .web (pre ++ mid)).Parked) ↔
      Reactions.Meets (react .web) (fun s i => ¬ s.Overruns i) (mount host isOnline) inputs := by
  rw [Reactions.kept_iff_meets, Reactions.meets_iff, Reactions.meets_iff]
  refine forall_congr' fun pre => forall_congr' fun i => forall_congr' fun hp => ?_
  have hi : i.OffPage := hin i (hp.subset (List.mem_append_right _ List.mem_cons_self))
  constructor
  · intro h hover
    have hu : ¬ i.FromUser := by
      obtain ⟨-, -, -, hsettles⟩ := hover
      cases i <;> first | exact id | exact absurd hsettles id
    exact (parked_react_iff hover.1 hi hu).mp (h hover.1 hu) hover
  · exact fun hover hs hu => (parked_react_iff hs hi hu).mpr hover

/-- The connection is lost and comes back after the page has come up. -/
theorem offline_never_resumes_iff_lostLater :
    ((mount ⟨false, false, false, true⟩ true).run .web
      [.start true, .startSettled (.ok { provider := "sumsub" }), .offline, .online]).Parked := by
  have kept := (offline_never_resumes_iff ⟨false, false, false, true⟩ true
    [.start true, .startSettled (.ok { provider := "sumsub" }), .offline, .online]
    (by simp [Input.OffPage])).mpr (by decide)
  exact kept [.start true, .startSettled (.ok { provider := "sumsub" }), .offline] [.online]
    (List.prefix_refl _) (by decide) (by simp [Input.FromUser])

/-- The connection is lost while the source acquires a session, which then brings the page up. -/
theorem session_acquired_offline_resumes :
    ((mount ⟨false, false, false, true⟩ true).run .web [.start true, .offline]).Parked ∧
      ((mount ⟨false, false, false, true⟩ true).run .web
        [.start true, .offline, .startSettled (.ok { provider := "sumsub" })]).machine.status =
          .verifying := by
  decide

end Hook

end Kyc.Client
