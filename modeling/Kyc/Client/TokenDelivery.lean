import Kyc.Client.Hook
import Mathlib.Data.List.Nodup

/-! # Token delivery

`useTokenRefresh` by itself, on both platforms: any number of refreshes may be in flight and
settle in any order, while sessions come and go. The source's calls are numbered apart from the
counter of the hook, so that what the counter achieves can be stated.
-/

namespace Kyc.Client

/-- A refresh whose promise has not settled: the call of the source that it came of, and what its
continuation keeps. -/
structure InFlight where
  call : ℕ
  refresh : TokenRefresh
  deriving DecidableEq, Repr

/-- A token that was handed over, and the call of the source that returned it. -/
structure Delivery where
  call : ℕ
  post : TokenPost
  deriving DecidableEq, Repr

/-- The refs of `useTokenRefresh`, what its source and its options answer at the moment, and what it
did so far, oldest first. -/
structure UseTokenRefresh where
  refreshable : Bool
  session : Option VerificationSession
  attached : Bool
  mounted : Bool
  seq : ℕ
  inFlight : List InFlight
  /-- The sessions that the source was asked to refresh. -/
  called : List VerificationSession
  deliveries : List Delivery
  failures : List IdentityVerificationError
  deriving DecidableEq, Repr

/-- A call of the source either throws or returns a promise, which settles at most once. -/
inductive RefreshInput
  | render (refreshable : Bool)
  | session (session : Option VerificationSession)
  | attach (attached : Bool)
  | refreshToken (threw : Bool)
  | settled (call : ℕ) (answer : Except (Option String) String)
  | unmount

/-- What the continuation of a refresh keeps is what the source was asked for, by the sessions that
it was called with. -/
structure InFlight.Linked (p : Platform) (called : List VerificationSession) (r : InFlight) :
    Prop where
  seq : r.refresh.seq = r.call + 1
  dispatched : ∃ session, called[r.call]? = some session ∧
    r.refresh.identity = identityOf session ∧ r.refresh.allowedOrigin = session.allowedOrigin ∧
    (p = .web → truthy session.allowedOrigin ≠ none)

namespace InFlight

variable {p : Platform} {called : List VerificationSession} {r : InFlight}

theorem Linked.asked (h : r.Linked p called) (session : VerificationSession) :
    r.Linked p (called ++ [session]) := by
  obtain ⟨dispatched, hs, hid, ho, hw⟩ := h.dispatched
  refine ⟨h.seq, dispatched, ?_, hid, ho, hw⟩
  rw [List.getElem?_append_left (List.getElem?_eq_some_iff.mp hs).1, hs]

theorem Linked.lt (h : r.Linked p called) : r.call < called.length := by
  obtain ⟨session, hs, -⟩ := h.dispatched
  exact (List.getElem?_eq_some_iff.mp hs).1

end InFlight

namespace UseTokenRefresh

def mount (refreshable : Bool) (session : Option VerificationSession) : UseTokenRefresh where
  refreshable := refreshable
  session := session
  attached := false
  mounted := true
  seq := 0
  inFlight := []
  called := []
  deliveries := []
  failures := []

variable (p : Platform) (s : UseTokenRefresh)

def onFailure (error : IdentityVerificationError) : UseTokenRefresh :=
  { s with failures := s.failures ++ [error] }

def refreshToken (threw : Bool) : UseTokenRefresh :=
  let refused := s.onFailure (toIdentityVerificationError ClientErrorCode.tokenExpired.name none)
  match s.session with
  | some session =>
    if s.refreshable = false ∨ (p = .web ∧ truthy session.allowedOrigin = none) then refused
    else
      let asked := { s with seq := s.seq + 1, called := s.called ++ [session] }
      if threw then asked
      else
        { asked with
          inFlight := s.inFlight ++
            [⟨s.called.length, ⟨s.seq + 1, identityOf session, session.allowedOrigin⟩⟩] }
  | none => refused

/-- The continuations of a refresh; only the web names the origin that its token is for. -/
def settled (call : ℕ) (answer : Except (Option String) String) : UseTokenRefresh :=
  match s.inFlight.find? (·.call = call) with
  | some ⟨_, refresh⟩ =>
    let settled := { s with inFlight := s.inFlight.filter (·.call ≠ call) }
    match answer with
    | .ok token =>
      if s.mounted ∧ refresh.seq = s.seq ∧ s.session.map identityOf = some refresh.identity ∧
          s.attached then
        { settled with
          deliveries := s.deliveries ++
            [⟨call, ⟨token, if p = .web then refresh.allowedOrigin else none⟩⟩] }
      else settled
    | .error message =>
      if s.mounted ∧ refresh.seq = s.seq then
        settled.onFailure
          (toIdentityVerificationError ClientErrorCode.tokenRefreshFailed.name message)
      else settled
  | none => s

def react : RefreshInput → UseTokenRefresh
  | .render refreshable => { s with refreshable }
  | .session session => { s with session }
  | .attach attached => { s with attached }
  | .refreshToken threw => s.refreshToken p threw
  | .settled call answer => s.settled p call answer
  | .unmount => { s with mounted := false }

abbrev run (inputs : List RefreshInput) : UseTokenRefresh := Reactions.run (react p) s inputs

/-- There is no session, the source cannot refresh, or on the web there is no origin to post to. -/
def Refuses : Prop :=
  s.session = none ∨ s.refreshable = false ∨
    (p = .web ∧ ∀ session, s.session = some session → truthy session.allowedOrigin = none)

/-- The counter counts the calls of the source, of which none is both in flight and delivered. -/
structure Counted : Prop where
  seq : s.seq = s.called.length
  linked : ∀ r ∈ s.inFlight, r.Linked p s.called
  delivered : ∀ d ∈ s.deliveries, d.call < s.called.length ∧ ∀ r ∈ s.inFlight, r.call ≠ d.call
  once : (s.deliveries.map Delivery.call).Nodup

/-- The delivery is due in the state that the input finds: its token was returned by the last call
of the source, the hook is mounted, and the session at hand is the one that the call was for. -/
structure Due (i : RefreshInput) (d : Delivery) : Prop where
  newest : d.call + 1 = s.called.length
  returned : i = .settled d.call (.ok d.post.token)
  mounted : s.mounted
  session : ∃ dispatched current, s.called[d.call]? = some dispatched ∧ s.session = some current ∧
    identityOf current = identityOf dispatched ∧
    d.post.targetOrigin = (if p = .web then dispatched.allowedOrigin else none) ∧
    (p = .web → truthy dispatched.allowedOrigin ≠ none)

variable {p s}

theorem counted_mount (refreshable : Bool) (session : Option VerificationSession) :
    (mount refreshable session).Counted p :=
  ⟨rfl, fun _ hr => absurd hr List.not_mem_nil, fun _ hd => absurd hd List.not_mem_nil,
    List.nodup_nil⟩

theorem refuses_iff_of_some {session : VerificationSession} (h : s.session = some session) :
    s.Refuses p ↔ s.refreshable = false ∨ (p = .web ∧ truthy session.allowedOrigin = none) := by
  simp [Refuses, h]

theorem refreshToken_of_refuses (h : s.Refuses p) (threw : Bool) :
    s.refreshToken p threw =
      s.onFailure (toIdentityVerificationError ClientErrorCode.tokenExpired.name none) := by
  unfold refreshToken
  cases hs : s.session with
  | none => rfl
  | some session =>
    dsimp only
    rw [if_pos ((refuses_iff_of_some hs).mp h)]

theorem refreshToken_of_not_refuses (h : ¬ s.Refuses p) (threw : Bool) :
    ∃ session, s.session = some session ∧ (p = .web → truthy session.allowedOrigin ≠ none) ∧
      s.refreshToken p threw =
        { s with
          seq := s.seq + 1
          called := s.called ++ [session]
          inFlight := s.inFlight ++ if threw then [] else
            [⟨s.called.length, ⟨s.seq + 1, identityOf session, session.allowedOrigin⟩⟩] } := by
  cases hs : s.session with
  | none => exact absurd (Or.inl hs) h
  | some session =>
    rw [refuses_iff_of_some hs] at h
    refine ⟨session, rfl, fun hp ho => h (Or.inr ⟨hp, ho⟩), ?_⟩
    unfold refreshToken
    rw [hs]
    dsimp only
    rw [if_neg h]
    cases threw with
    | true => simp
    | false => rfl

/-- A settlement removes its promise, and delivers at most its token. -/
theorem settled_cases (call : ℕ) (answer : Except (Option String) String) :
    s.settled p call answer = s ∨
      (∃ failures, s.settled p call answer =
        { s with inFlight := s.inFlight.filter (·.call ≠ call), failures }) ∨
      ∃ token refresh, answer = .ok token ∧ ⟨call, refresh⟩ ∈ s.inFlight ∧ s.mounted ∧
        refresh.seq = s.seq ∧ s.session.map identityOf = some refresh.identity ∧
        s.settled p call answer =
          { s with
            inFlight := s.inFlight.filter (·.call ≠ call)
            deliveries := s.deliveries ++
              [⟨call, ⟨token, if p = .web then refresh.allowedOrigin else none⟩⟩] } := by
  unfold settled
  cases hf : s.inFlight.find? (·.call = call) with
  | none => exact Or.inl rfl
  | some r =>
    right
    obtain ⟨call', refresh⟩ := r
    obtain rfl : call' = call := by simpa using List.find?_some hf
    dsimp only
    cases answer with
    | error message =>
      left
      dsimp only
      split
      · exact ⟨_, rfl⟩
      · exact ⟨s.failures, rfl⟩
    | ok token =>
      dsimp only
      split
      next h =>
        exact Or.inr ⟨token, refresh, rfl, List.mem_of_find?_eq_some hf, h.1, h.2.1, h.2.2.1, rfl⟩
      next => exact Or.inl ⟨s.failures, rfl⟩

theorem Counted.refreshToken (h : s.Counted p) (threw : Bool) :
    (s.refreshToken p threw).Counted p := by
  by_cases hr : s.Refuses p
  · rw [refreshToken_of_refuses hr]
    exact ⟨h.seq, h.linked, h.delivered, h.once⟩
  · obtain ⟨session, hs, hw, heq⟩ := refreshToken_of_not_refuses hr threw
    rw [heq]
    constructor
    · simpa using h.seq
    · intro r hmem
      rcases List.mem_append.mp hmem with hmem | hmem
      · exact (h.linked r hmem).asked session
      · cases threw with
        | true => cases hmem
        | false =>
          obtain rfl := List.mem_singleton.mp hmem
          exact ⟨congrArg (· + 1) h.seq, session, by simp, rfl, rfl, hw⟩
    · intro d hd
      obtain ⟨hlt, hne⟩ := h.delivered d hd
      refine ⟨Nat.lt_of_lt_of_le hlt (by simp), fun r hmem => ?_⟩
      rcases List.mem_append.mp hmem with hmem | hmem
      · exact hne r hmem
      · cases threw with
        | true => cases hmem
        | false =>
          obtain rfl := List.mem_singleton.mp hmem
          exact (Nat.ne_of_lt hlt).symm
    · exact h.once

theorem Counted.settled (h : s.Counted p) (call : ℕ) (answer : Except (Option String) String) :
    (s.settled p call answer).Counted p := by
  have kept : ∀ r ∈ s.inFlight.filter (·.call ≠ call), r ∈ s.inFlight := fun r hr =>
    List.mem_of_mem_filter hr
  rcases s.settled_cases call answer with
    heq | ⟨failures, heq⟩ | ⟨token, refresh, -, hmem, -, -, -, heq⟩
  · rwa [heq]
  · rw [heq]
    exact ⟨h.seq, fun r hr => h.linked r (kept r hr), fun d hd =>
      ⟨(h.delivered d hd).1, fun r hr => (h.delivered d hd).2 r (kept r hr)⟩, h.once⟩
  · rw [heq]
    refine ⟨h.seq, fun r hr => h.linked r (kept r hr), fun d hd => ?_, ?_⟩
    · rcases List.mem_append.mp hd with hd | hd
      · exact ⟨(h.delivered d hd).1, fun r hr => (h.delivered d hd).2 r (kept r hr)⟩
      · obtain rfl := List.mem_singleton.mp hd
        exact ⟨(h.linked _ hmem).lt, fun r hr => by simpa using (List.mem_filter.mp hr).2⟩
    · have fresh : call ∉ s.deliveries.map Delivery.call := by
        rw [List.mem_map]
        rintro ⟨d, hd, rfl⟩
        exact (h.delivered d hd).2 _ hmem rfl
      rw [List.map_append]
      exact h.once.append (List.nodup_singleton _) (by simpa [List.disjoint_singleton] using fresh)

theorem Counted.react (h : s.Counted p) (i : RefreshInput) : (s.react p i).Counted p := by
  cases i with
  | refreshToken threw => exact h.refreshToken threw
  | settled call answer => exact h.settled call answer
  | render | session | attach | unmount => exact ⟨h.seq, h.linked, h.delivered, h.once⟩

theorem counted_run (refreshable : Bool) (session : Option VerificationSession)
    (inputs : List RefreshInput) : ((mount refreshable session).run p inputs).Counted p := by
  induction inputs using List.reverseRecOn with
  | nil => exact counted_mount refreshable session
  | append_singleton inputs i ih =>
    rw [run, Reactions.run_concat]
    exact ih.react i

/-- A step delivers nothing, or one token that is due. -/
theorem Counted.delivers (h : s.Counted p) (i : RefreshInput) :
    (s.react p i).deliveries = s.deliveries ∨
      ∃ d, (s.react p i).deliveries = s.deliveries ++ [d] ∧ s.Due p i d := by
  cases i with
  | render | session | attach | unmount => exact Or.inl rfl
  | refreshToken threw =>
    left
    rw [UseTokenRefresh.react]
    by_cases hr : s.Refuses p
    · rw [refreshToken_of_refuses hr]
      rfl
    · obtain ⟨session, -, -, heq⟩ := refreshToken_of_not_refuses hr threw
      rw [heq]
  | settled call answer =>
    rw [UseTokenRefresh.react]
    rcases s.settled_cases call answer with heq | ⟨failures, heq⟩ |
      ⟨token, refresh, rfl, hmem, hmounted, hseq, hid, heq⟩
    · exact Or.inl (by rw [heq])
    · exact Or.inl (by rw [heq])
    · right
      have linked := h.linked _ hmem
      obtain ⟨dispatched, hcalled, hident, horigin, hweb⟩ := linked.dispatched
      obtain ⟨current, hcurrent, hsame⟩ := Option.map_eq_some_iff.mp hid
      refine ⟨⟨call, token, if p = .web then refresh.allowedOrigin else none⟩, by rw [heq], ?_⟩
      constructor
      · exact linked.seq.symm.trans (hseq.trans h.seq)
      · rfl
      · exact hmounted
      · exact ⟨dispatched, current, hcalled, hcurrent, hsame.trans hident, by rw [← horigin], hweb⟩

/-- Every token that was delivered was due at the step that delivered it. -/
theorem due_of_delivered (refreshable : Bool) (session : Option VerificationSession)
    (inputs : List RefreshInput) {d : Delivery}
    (hd : d ∈ ((mount refreshable session).run p inputs).deliveries) :
    ∃ pre i, pre ++ [i] <+: inputs ∧
      ((mount refreshable session).run p (pre ++ [i])).deliveries =
        ((mount refreshable session).run p pre).deliveries ++ [d] ∧
      ((mount refreshable session).run p pre).Due p i d := by
  induction inputs using List.reverseRecOn with
  | nil => exact absurd hd List.not_mem_nil
  | append_singleton inputs i ih =>
    have last : (mount refreshable session).run p (inputs ++ [i]) =
        ((mount refreshable session).run p inputs).react p i := Reactions.run_concat ..
    by_cases earlier : d ∈ ((mount refreshable session).run p inputs).deliveries
    · obtain ⟨pre, j, hpre, step⟩ := ih earlier
      exact ⟨pre, j, hpre.trans (List.prefix_append _ _), step⟩
    · rw [last] at hd
      rcases (counted_run refreshable session inputs).delivers i with heq | ⟨d', heq, hdue⟩
      · rw [heq] at hd
        exact absurd hd earlier
      · rw [heq] at hd
        obtain rfl := List.mem_singleton.mp ((List.mem_append.mp hd).resolve_left earlier)
        refine ⟨inputs, i, List.prefix_refl _, ?_, hdue⟩
        rw [last, heq]

end UseTokenRefresh

open UseTokenRefresh

/-- Token delivery is safe in every run: what a step delivers is due at that step, no call of the
source delivers twice, and a refresh that is refused does not call the source. -/
theorem token_delivery_safe (p : Platform) (refreshable : Bool)
    (session : Option VerificationSession) (inputs : List RefreshInput) :
    let s := (mount refreshable session).run p inputs
    (∀ d ∈ s.deliveries, ∃ pre i, pre ++ [i] <+: inputs ∧
      ((mount refreshable session).run p (pre ++ [i])).deliveries =
        ((mount refreshable session).run p pre).deliveries ++ [d] ∧
      ((mount refreshable session).run p pre).Due p i d) ∧
    (s.deliveries.map Delivery.call).Nodup ∧
    ∀ threw,
      (s.Refuses p → s.react p (.refreshToken threw) =
        s.onFailure (toIdentityVerificationError ClientErrorCode.tokenExpired.name none)) ∧
      (¬ s.Refuses p → ∃ current, s.session = some current ∧
        (s.react p (.refreshToken threw)).called = s.called ++ [current] ∧
        (s.react p (.refreshToken threw)).failures = s.failures) := by
  intro s
  refine ⟨fun d hd => due_of_delivered refreshable session inputs hd,
    (counted_run refreshable session inputs).once, fun threw => ⟨?_, fun h => ?_⟩⟩
  · exact fun h => refreshToken_of_refuses h threw
  · obtain ⟨current, hs, -, heq⟩ := refreshToken_of_not_refuses h threw
    refine ⟨current, hs, ?_⟩
    rw [react, heq]
    exact ⟨rfl, rfl⟩

/-- Of two refreshes that overlap, only the newer one delivers. -/
example :
    let session : VerificationSession :=
      { provider := "sumsub"
        sessionId := some "s"
        allowedOrigin := some "https://kyc.example" }
    ((mount true (some session)).run .web
      [.attach true, .refreshToken false, .refreshToken false, .settled 0 (.ok "stale"),
        .settled 1 (.ok "fresh")]).deliveries =
      [⟨1, "fresh", some "https://kyc.example"⟩] := by
  decide

end Kyc.Client
