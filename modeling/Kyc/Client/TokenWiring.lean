import Kyc.Client.TokenDelivery

/-! # Token refresh within the verification hook

`useIdentityVerification` runs `useTokenRefresh` on the session of its machine. Whatever it
reacts to, its refreshes and its posts are those of that hook after some inputs of its own.
-/

namespace Kyc.Client

open UseTokenRefresh

namespace Hook

/-- Nothing was dispatched, settled or posted. -/
structure Quiet (h h' : Hook) : Prop where
  seq : h'.seq = h.seq
  refreshes : h'.refreshes = h.refreshes
  posts : h'.posts = h.posts

variable {p : Platform} {h : Hook}

theorem quiet_runEffect {effect : VerificationEffect} (he : effect ≠ .refreshToken) :
    h.Quiet (h.runEffect p effect) := by
  cases effect with
  | statusChange status => rw [runEffect]; split <;> exact ⟨rfl, rfl, rfl⟩
  | complete result delayed => rw [runEffect]; split <;> exact ⟨rfl, rfl, rfl⟩
  | cancel | error => exact ⟨rfl, rfl, rfl⟩
  | refreshToken => exact absurd rfl he

theorem quiet_handleEvent {e : VerificationEvent} (he : e ≠ .tokenExpired) :
    h.Quiet (h.handleEvent p e) := by
  have hplan : (planEvent e h.machine.session).effect ≠ some .refreshToken :=
    mt planEvent_effect_eq_refreshToken_iff.mp he
  unfold handleEvent
  split
  · split
    · exact ⟨rfl, rfl, rfl⟩
    · revert hplan
      obtain ⟨action, effect⟩ := planEvent e h.machine.session
      intro hplan
      cases effect with
      | none => cases action <;> exact ⟨rfl, rfl, rfl⟩
      | some effect =>
        have hne : effect ≠ .refreshToken := fun heq => hplan (congrArg some heq)
        cases action with
        | none => exact quiet_runEffect hne
        | some action =>
          have hact := quiet_runEffect (p := p) (h := h.applyAction action) hne
          exact ⟨hact.seq, hact.refreshes, hact.posts⟩
  · exact ⟨rfl, rfl, rfl⟩

theorem quiet_begin (onLine : Bool) : h.Quiet (h.begin p onLine) := by
  cases p with
  | native => exact ⟨rfl, rfl, rfl⟩
  | web => cases onLine <;> exact ⟨rfl, rfl, rfl⟩

theorem quiet_startSettled (answer : Except VerificationSourceError VerificationSession) :
    h.Quiet (h.startSettled answer) := by
  unfold startSettled
  split
  · split
    · split <;> exact ⟨rfl, rfl, rfl⟩
    · exact ⟨rfl, rfl, rfl⟩
  · exact ⟨rfl, rfl, rfl⟩

theorem quiet_launchSettled
    (answer : Except VerificationSourceError IdentityVerificationResult) :
    h.Quiet (h.launchSettled p answer) := by
  unfold launchSettled
  split
  · split
    · rename_i result
      have hhandled :
          h.Quiet (h.handleEvent p (.complete result.status (truthy result.applicantId))) :=
        quiet_handleEvent (by simp)
      exact ⟨hhandled.seq, hhandled.refreshes, hhandled.posts⟩
    · exact ⟨rfl, rfl, rfl⟩
  · exact ⟨rfl, rfl, rfl⟩

end Hook

/-- A refresh settles, or the page reports that its token has expired. -/
def Input.AboutTokens : Input → Prop
  | .refreshSettled _ _ => True
  | .event e => e = .tokenExpired
  | .message interpreted => interpreted = some .tokenExpired
  | _ => False

namespace Hook

variable {p : Platform} {h h' : Hook}

theorem quiet_react {i : Input} (hi : ¬ i.AboutTokens) : h.Quiet (h.react p i) := by
  cases i with
  | refreshSettled => exact absurd trivial hi
  | event e => exact quiet_handleEvent hi
  | message interpreted =>
    cases interpreted with
    | none => exact ⟨rfl, rfl, rfl⟩
    | some e => exact quiet_handleEvent fun he => hi (congrArg some he)
  | start onLine | retry onLine =>
    rw [react]
    split
    · exact ⟨rfl, rfl, rfl⟩
    · exact quiet_begin onLine
  | restart onLine =>
    rw [react]
    split
    · exact ⟨rfl, rfl, rfl⟩
    · have hbegun := quiet_begin (p := p) (h := h.applyAction .clearSession) onLine
      exact ⟨hbegun.seq, hbegun.refreshes, hbegun.posts⟩
  | permissionChecked answer =>
    rw [react]
    unfold permissionChecked
    repeat' split
    all_goals exact ⟨rfl, rfl, rfl⟩
  | connectionChecked answer =>
    rw [react]
    unfold connectionChecked
    repeat' split
    all_goals exact ⟨rfl, rfl, rfl⟩
  | startSettled answer =>
    rw [react]
    split
    · exact quiet_startSettled answer
    · exact ⟨rfl, rfl, rfl⟩
  | launchSettled answer =>
    rw [react]
    split
    · exact quiet_launchSettled answer
    · exact ⟨rfl, rfl, rfl⟩
  | timerFired id =>
    rw [react]
    unfold timerFired
    split
    · dsimp only
      split <;> exact ⟨rfl, rfl, rfl⟩
    · exact ⟨rfl, rfl, rfl⟩
  | online =>
    rw [react]
    split <;> exact ⟨rfl, rfl, rfl⟩
  | offline =>
    rw [react]
    unfold goOffline
    repeat' split
    all_goals exact ⟨rfl, rfl, rfl⟩
  | render | attach | cancel | unmount => exact ⟨rfl, rfl, rfl⟩

end Hook

/-- The refs of the one hook are those of the other that is within it. -/
structure Within (t : UseTokenRefresh) (h : Hook) : Prop where
  refreshable : t.refreshable = h.host.refreshable
  session : t.session = h.machine.session
  attached : t.attached = h.attached
  mounted : t.mounted = h.mounted
  seq : t.seq = h.seq
  refreshes : t.inFlight.map InFlight.refresh = h.refreshes
  posts : t.deliveries.map Delivery.post = h.posts

namespace Within

variable {p : Platform} {t : UseTokenRefresh} {h h' : Hook}

theorem quiet (w : Within t h) (hq : h.Quiet h')
    (hm : h'.mounted = h.mounted ∨ h'.mounted = false) :
    ∃ inputs, Within (t.run p inputs) h' := by
  let taken : List RefreshInput :=
    [.render h'.host.refreshable, .session h'.machine.session, .attach h'.attached]
  have refs : ∀ rest : List RefreshInput, (t.run p (taken ++ rest)) =
      ({ t with
          refreshable := h'.host.refreshable
          session := h'.machine.session
          attached := h'.attached } : UseTokenRefresh).run p rest := fun rest => rfl
  rcases hm with hm | hm
  · refine ⟨taken ++ [], ?_⟩
    rw [refs]
    exact ⟨rfl, rfl, rfl, w.mounted.trans hm.symm, w.seq.trans hq.seq.symm,
      w.refreshes.trans hq.refreshes.symm, w.posts.trans hq.posts.symm⟩
  · refine ⟨taken ++ [.unmount], ?_⟩
    rw [refs]
    exact ⟨rfl, rfl, rfl, hm.symm, w.seq.trans hq.seq.symm, w.refreshes.trans hq.refreshes.symm,
      w.posts.trans hq.posts.symm⟩

theorem refreshToken (w : Within t h) : Within (t.refreshToken p false) (h.refreshToken p) := by
  have refused : ∀ error, Within (t.onFailure error) (h.failWith error true) := fun error =>
    ⟨w.refreshable, w.session, w.attached, w.mounted, w.seq, w.refreshes, w.posts⟩
  unfold UseTokenRefresh.refreshToken Hook.refreshToken
  rw [w.session, w.refreshable]
  cases hs : h.machine.session with
  | none => exact refused _
  | some session =>
    dsimp only
    split
    · exact refused _
    · refine ⟨rfl, hs.symm ▸ rfl, w.attached, w.mounted, congrArg (· + 1) w.seq, ?_, w.posts⟩
      change (t.inFlight ++ [_]).map InFlight.refresh = _
      rw [List.map_append, w.refreshes, w.seq]
      rfl

theorem find? (w : Within t h) (hc : t.Counted p) (call : ℕ) :
    h.refreshes.find? (·.seq = call + 1) =
      (t.inFlight.find? (·.call = call)).map InFlight.refresh := by
  rw [← w.refreshes, List.find?_map, ← List.head?_filter, ← List.head?_filter]
  congr 2
  apply List.filter_congr
  intro r hr
  simp [(hc.linked r hr).seq]

theorem filter (w : Within t h) (hc : t.Counted p) (call : ℕ) :
    (t.inFlight.filter (·.call ≠ call)).map InFlight.refresh =
      h.refreshes.filter (·.seq ≠ call + 1) := by
  rw [← w.refreshes, List.filter_map]
  congr 1
  apply List.filter_congr
  intro r hr
  simp [(hc.linked r hr).seq]

theorem settled (w : Within t h) (hc : t.Counted p) (call : ℕ)
    (answer : Except (Option String) String) :
    Within (t.settled p call answer) (h.refreshSettled p (call + 1) answer) := by
  unfold UseTokenRefresh.settled Hook.refreshSettled
  rw [w.find? hc]
  cases hf : t.inFlight.find? (·.call = call) with
  | none => exact w
  | some r =>
    dsimp only [Option.map_some]
    rw [w.mounted, w.seq, w.session, w.attached]
    cases answer with
    | ok token =>
      dsimp only
      split
      · refine ⟨w.refreshable, rfl, rfl, rfl, rfl, w.filter hc call, ?_⟩
        change (t.deliveries ++ [_]).map Delivery.post = _
        rw [List.map_append, w.posts]
        rfl
      · exact ⟨w.refreshable, rfl, rfl, rfl, rfl, w.filter hc call, w.posts⟩
    | error message =>
      dsimp only
      split <;> exact ⟨w.refreshable, rfl, rfl, rfl, rfl, w.filter hc call, w.posts⟩

/-- Every reaction of the one hook is a run of the other. -/
theorem react (w : Within t h) (hc : t.Counted p) (i : Input) :
    ∃ inputs, Within (t.run p inputs) (h.react p i) := by
  have expired : ∃ inputs, Within (t.run p inputs) (h.handleEvent p .tokenExpired) := by
    unfold Hook.handleEvent
    split
    · rw [if_neg fun hd => hd.2]
      exact ⟨[.refreshToken false], w.refreshToken⟩
    · exact ⟨[], w⟩
  by_cases hi : i.AboutTokens
  · cases i with
    | refreshSettled seq answer =>
      cases seq with
      | succ call => exact ⟨[.settled call answer], w.settled hc call answer⟩
      | zero =>
        have none : h.refreshes.find? (·.seq = 0) = none := by
          rw [← w.refreshes, List.find?_eq_none]
          intro refresh hmem
          obtain ⟨r, hr, rfl⟩ := List.mem_map.mp hmem
          simp [(hc.linked r hr).seq]
        refine ⟨[], ?_⟩
        rw [Hook.react, Hook.refreshSettled, none]
        exact w
    | event e =>
      obtain rfl : e = .tokenExpired := hi
      exact expired
    | message interpreted =>
      obtain rfl : interpreted = some .tokenExpired := hi
      exact expired
    | _ => exact absurd hi id
  · apply w.quiet (Hook.quiet_react hi)
    by_cases hu : i = .unmount
    · subst hu
      exact Or.inr rfl
    · exact Or.inl (Hook.mounted_react hu)

end Within

/-- The posts of a verification hook are deliveries of the token refresh within it. -/
theorem run_within (p : Platform) (host : Host) (isOnline : Bool) (inputs : List Input) :
    ∃ inputs', Within ((UseTokenRefresh.mount host.refreshable none).run p inputs')
      ((Hook.mount host isOnline).run p inputs) := by
  induction inputs using List.reverseRecOn with
  | nil => exact ⟨[], rfl, rfl, rfl, rfl, rfl, rfl, rfl⟩
  | append_singleton inputs i ih =>
    obtain ⟨before, w⟩ := ih
    obtain ⟨after, w'⟩ := w.react (counted_run host.refreshable none before) i
    refine ⟨before ++ after, ?_⟩
    rw [UseTokenRefresh.run, Reactions.run_append, Hook.run, Reactions.run_concat]
    exact w'

/-- So every post of a verification hook was due when it was made. -/
theorem due_of_posted (p : Platform) (host : Host) (isOnline : Bool) (inputs : List Input)
    {post : TokenPost} (hp : post ∈ ((Hook.mount host isOnline).run p inputs).posts) :
    ∃ pre i d, d.post = post ∧
      ((UseTokenRefresh.mount host.refreshable none).run p pre).Due p i d := by
  obtain ⟨inputs', w⟩ := run_within p host isOnline inputs
  rw [← w.posts] at hp
  obtain ⟨d, hd, rfl⟩ := List.mem_map.mp hp
  obtain ⟨pre, i, -, -, hdue⟩ := due_of_delivered host.refreshable none inputs' hd
  exact ⟨pre, i, d, rfl, hdue⟩

end Kyc.Client
