import Kyc.Domain.Errors
import Kyc.Programs.Reactions
import Mathlib.Data.Nat.Basic

/-! # Session tokens

`createSessionTokenProvider` starts a session once and refreshes it after. It keeps the id
of the session and the promise of a start that has not finished; a reset clears the id
and leaves the promise.
-/

namespace Kyc.Client

structure SessionTokenStart where
  sessionId : String
  accessToken : String
  deriving DecidableEq, Repr

/-- What a call is answered from: a start, or a refresh of the session that a start yielded. -/
inductive TokenSource
  | start (number : ℕ)
  | refresh (sessionId : String) (number : ℕ)
  deriving DecidableEq, Repr

def TokenSource.number : TokenSource → ℕ
  | start number => number
  | refresh _ number => number

/-- A call of `getAccessToken`, and how many starts were made before the reset it follows. -/
structure TokenCall where
  source : TokenSource
  reset : ℕ
  deriving DecidableEq, Repr

/-- The two variables of a provider, the promises that are out, and what happened so far. -/
structure SessionTokenProvider where
  sessionId : Option String
  starting : Option ℕ
  /-- The start that yielded `sessionId`. -/
  yieldedBy : ℕ
  /-- Starts that have not settled. -/
  pending : List ℕ
  /-- Starts that settled, whose `finally` has not run. -/
  settled : List ℕ
  /-- How many starts were made, and how many of them before the last reset. -/
  starts : ℕ
  reset : ℕ
  /-- How many starts succeeded since the last reset. -/
  succeeded : ℕ
  calls : List TokenCall
  deriving DecidableEq, Repr

/-- A promise settles in two steps here: its `then` runs, and later its `finally`. -/
inductive TokenInput
  | getAccessToken
  | reset
  | startSettled (number : ℕ) (answer : Except Thrown SessionTokenStart)
  | startFinished (number : ℕ)
  | refreshSettled (answer : Except Thrown String)

namespace SessionTokenProvider

/-- `createSessionTokenProvider(options)`. -/
def init : SessionTokenProvider where
  sessionId := none
  starting := none
  yieldedBy := 0
  pending := []
  settled := []
  starts := 0
  reset := 0
  succeeded := 0
  calls := []

variable (s : SessionTokenProvider)

def answer (source : TokenSource) : SessionTokenProvider :=
  { s with calls := s.calls ++ [⟨source, s.reset⟩] }

def startOnce : SessionTokenProvider :=
  match s.starting with
  | some number => s.answer (.start number)
  | none =>
    { s with
      starting := some s.starts
      pending := s.pending ++ [s.starts]
      starts := s.starts + 1 }.answer (.start s.starts)

def react : TokenInput → SessionTokenProvider
  | .getAccessToken =>
    match truthy s.sessionId with
    | some sessionId => s.answer (.refresh sessionId s.yieldedBy)
    | none => s.startOnce
  | .reset => { s with sessionId := none, reset := s.starts, succeeded := 0 }
  | .startSettled number answer =>
    if number ∈ s.pending then
      let settled :=
        { s with pending := s.pending.erase number, settled := s.settled ++ [number] }
      match answer with
      | .ok started =>
        { settled with
          sessionId := some started.sessionId
          yieldedBy := number
          succeeded := s.succeeded + 1 }
      | .error _ => settled
    else s
  | .startFinished number =>
    if number ∈ s.settled then
      { s with settled := s.settled.erase number, starting := none }
    else s
  -- the promise is the caller's, the provider keeps nothing of it
  | .refreshSettled _ => s

/-- Every call is answered by a start made after the reset that it follows, and between two resets
at most one start is in flight at a time and at most one succeeds. -/
structure RespectsReset : Prop where
  answered : ∀ c ∈ s.calls, c.reset ≤ c.source.number
  single : s.pending.length ≤ 1
  once : s.succeeded ≤ 1

/-- A reset finds no start that has not finished, and a start yields a session with an id. -/
def Undisturbed : TokenInput → Prop
  | .reset => s.starting = none
  | .startSettled _ (.ok started) => started.sessionId ≠ ""
  | _ => True

/-- What is out is the promise that is kept, made since the last reset, and a start that succeeded
since is the one that yielded the session. -/
structure Steady : Prop where
  respects : s.RespectsReset
  out : (s.starting = none ∧ s.pending = [] ∧ s.settled = []) ∨
    ∃ number, s.starting = some number ∧ s.reset ≤ number ∧
      ((s.pending = [number] ∧ s.settled = [] ∧ s.succeeded = 0) ∨
        (s.pending = [] ∧ s.settled = [number]))
  session : truthy s.sessionId ≠ none → s.reset ≤ s.yieldedBy
  succeeded : s.succeeded ≠ 0 → truthy s.sessionId ≠ none
  issued : s.reset ≤ s.starts

variable {s : SessionTokenProvider}

theorem steady_init : init.Steady := by
  constructor
  · exact ⟨by simp [init], by decide, by decide⟩
  · exact Or.inl ⟨rfl, rfl, rfl⟩
  · exact fun h => absurd rfl h
  · exact fun h => absurd rfl h
  · exact le_rfl

theorem RespectsReset.answer (h : s.RespectsReset) {source : TokenSource}
    (hs : s.reset ≤ source.number) : (s.answer source).RespectsReset where
  answered c hc := by
    rcases List.mem_append.mp hc with hc | hc
    · exact h.answered c hc
    · obtain rfl := List.mem_singleton.mp hc
      exact hs
  single := h.single
  once := h.once

theorem Steady.answer (h : s.Steady) {source : TokenSource} (hs : s.reset ≤ source.number) :
    (s.answer source).Steady :=
  ⟨h.respects.answer hs, h.out, h.session, h.succeeded, h.issued⟩

theorem Steady.startOnce (h : s.Steady) (hid : truthy s.sessionId = none) :
    s.startOnce.Steady := by
  have hzero : s.succeeded = 0 := by
    by_contra hne
    exact h.succeeded hne hid
  unfold SessionTokenProvider.startOnce
  rcases h.out with ⟨hstarting, hpending, hsettled⟩ | ⟨number, hstarting, hreset, hout⟩
  · rw [hstarting]
    have hmade : Steady { s with
        starting := some s.starts
        pending := s.pending ++ [s.starts]
        starts := s.starts + 1 } := by
      refine ⟨⟨h.respects.answered, ?_, h.respects.once⟩, ?_, h.session, h.succeeded,
        Nat.le_succ_of_le h.issued⟩
      · simp [hpending]
      · exact Or.inr ⟨s.starts, rfl, h.issued, Or.inl ⟨by simp [hpending], hsettled, hzero⟩⟩
    exact hmade.answer h.issued
  · rw [hstarting]
    exact h.answer hreset

theorem Steady.startSettled (h : s.Steady) {number : ℕ}
    {answer : Except Thrown SessionTokenStart} (hc : s.Undisturbed (.startSettled number answer)) :
    (s.react (.startSettled number answer)).Steady := by
  rw [react]
  split
  next hmem =>
    rcases h.out with ⟨-, hpending, -⟩ | ⟨n, hstarting, hreset, hout⟩
    · simp [hpending] at hmem
    · rcases hout with ⟨hpending, hsettled, hzero⟩ | ⟨hpending, -⟩
      · obtain rfl : number = n := by simpa [hpending] using hmem
        cases answer with
        | error e =>
          refine ⟨⟨h.respects.answered, ?_, h.respects.once⟩, ?_, h.session, h.succeeded,
            h.issued⟩
          · simp [hpending]
          · exact Or.inr
              ⟨number, hstarting, hreset, Or.inr ⟨by simp [hpending], by simp [hsettled]⟩⟩
        | ok started =>
          have hne : started.sessionId ≠ "" := hc
          have hid : truthy (some started.sessionId) ≠ none := by simp [truthy, hne]
          refine ⟨⟨h.respects.answered, ?_, ?_⟩, ?_, fun _ => hreset, fun _ => hid, h.issued⟩
          · simp [hpending]
          · simp [hzero]
          · exact Or.inr
              ⟨number, hstarting, hreset, Or.inr ⟨by simp [hpending], by simp [hsettled]⟩⟩
      · simp [hpending] at hmem
  next => exact h

theorem Steady.react (h : s.Steady) {i : TokenInput} (hc : s.Undisturbed i) :
    (s.react i).Steady := by
  cases i with
  | getAccessToken =>
    rw [SessionTokenProvider.react]
    split
    next sessionId hid =>
      exact h.answer (h.session (by simp [hid]))
    next hid => exact h.startOnce hid
  | reset =>
    have hstarting : s.starting = none := hc
    rcases h.out with ⟨-, hpending, hsettled⟩ | ⟨n, hn, -⟩
    · refine ⟨⟨h.respects.answered, h.respects.single, Nat.zero_le 1⟩,
        Or.inl ⟨hstarting, hpending, hsettled⟩, fun hid => absurd rfl hid,
        fun hne => absurd rfl hne,
        le_rfl⟩
    · rw [hstarting] at hn
      cases hn
  | startSettled number answer => exact h.startSettled hc
  | startFinished number =>
    rw [SessionTokenProvider.react]
    split
    next hmem =>
      rcases h.out with ⟨-, -, hsettled⟩ | ⟨n, -, -, ⟨-, hsettled, -⟩ | ⟨hpending, hsettled⟩⟩
      · simp [hsettled] at hmem
      · simp [hsettled] at hmem
      · obtain rfl : number = n := by simpa [hsettled] using hmem
        exact ⟨⟨h.respects.answered, h.respects.single, h.respects.once⟩,
          Or.inl ⟨rfl, hpending, by simp [hsettled]⟩, h.session, h.succeeded, h.issued⟩
    next => exact h
  | refreshSettled answer => exact h

end SessionTokenProvider

open SessionTokenProvider

/-- When no reset falls while a start is out and every session has an id, calls are answered by
starts made after the reset they follow, one at a time. -/
theorem session_tokens_respect_reset (inputs : List TokenInput)
    (hu : Reactions.Meets react Undisturbed init inputs) :
    Reactions.Always react RespectsReset init inputs :=
  hu.always (fun _ _ h hc => h.react hc) (fun _ h => h.respects) steady_init

/-- A start, and after a reset the next one. -/
theorem session_tokens_respect_reset_restarted :
    Reactions.Always react RespectsReset init
      [.getAccessToken, .startSettled 0 (.ok ⟨"s", "token"⟩), .startFinished 0, .reset,
        .getAccessToken] :=
  session_tokens_respect_reset _ ⟨trivial, by simp [Undisturbed], trivial, rfl, trivial, trivial⟩

theorem not_respectsReset_of_starting {s : SessionTokenProvider} {number : ℕ}
    (hs : s.starting = some number) (hn : number < s.starts) :
    ¬ ((s.react .reset).react .getAccessToken).RespectsReset := by
  intro h
  have hcall : ⟨.start number, s.starts⟩ ∈ ((s.react .reset).react .getAccessToken).calls := by
    simp [react, truthy, startOnce, hs, SessionTokenProvider.answer]
  have hle : s.starts ≤ number := h.answered _ hcall
  omega

/-- So does the second of two calls between which the provider is reset. -/
theorem session_token_of_pending_start :
    ¬ ∀ inputs, Reactions.Always react RespectsReset init inputs := by
  intro h
  have hlast := (h [.getAccessToken, .reset, .getAccessToken]).2.2.2
  exact not_respectsReset_of_starting (s := init.react .getAccessToken) rfl (by decide) hlast

end Kyc.Client
