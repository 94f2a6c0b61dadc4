import Kyc.Client.Hook
import Mathlib.Data.Nat.Basic
import Mathlib.Logic.Relation

/-! # What a reaction is made of

Every reaction of the hook is a sequence of a few moves on its refs. What all moves keep,
every reaction and so every run keeps.
-/

namespace Kyc.Client.Hook

/-- One move on the refs and the outstanding work of a hook. -/
inductive Move (s : Hook) : Hook → Prop
  | act (action : MachineAction) : Move s (s.applyAction action)
  | tell (call : HostCall) : Move s (s.tell call)
  | clear : Move s s.clearCompleteTimeout
  | schedule (result : IdentityVerificationResult) : Move s (s.scheduleComplete result)
  | fire (id : ℕ) :
    Move s { s with timers := s.timers.filter (·.id ≠ id), completeTimeout := none }
  | dispatch (identity allowedOrigin : Option String) :
    Move s
      { s with
        seq := s.seq + 1
        refreshes := s.refreshes ++ [⟨s.seq + 1, identity, allowedOrigin⟩] }
  | settle (seq : ℕ) : Move s { s with refreshes := s.refreshes.filter (·.seq ≠ seq) }
  | post (posts : List TokenPost) : Move s { s with posts }
  | set (host : Host) (isOnline attached running : Bool) (stage : Option Stage) :
    Move s { s with host, isOnline, attached, running, stage }
  | unmount : Move s { s with mounted := false }

/-- Any number of moves. -/
abbrev Moves : Hook → Hook → Prop := Relation.ReflTransGen Move

variable {p : Platform} {s s' : Hook}

theorem moves_failWith (error : IdentityVerificationError) (keepSession : Bool) :
    s.Moves (s.failWith error keepSession) :=
  (Relation.ReflTransGen.single (.act _)).tail (.tell _)

theorem Moves.finish (h : s.Moves s') : s.Moves s'.finish := h.tail (.set ..)

theorem moves_refreshToken : s.Moves (s.refreshToken p) := by
  unfold refreshToken
  split
  · dsimp only
    split
    · exact moves_failWith _ _
    · exact .single (.dispatch ..)
  · exact moves_failWith _ _

theorem moves_runEffect (effect : VerificationEffect) : s.Moves (s.runEffect p effect) := by
  cases effect with
  | statusChange status =>
    rw [runEffect]
    split
    · exact .single (.tell _)
    · exact .refl
  | complete result delayed =>
    rw [runEffect]
    split
    · exact .single (.schedule result)
    · exact .single (.tell _)
  | cancel | error => exact .single (.tell _)
  | refreshToken => exact moves_refreshToken

theorem moves_runPlan (plan : VerificationPlan) : s.Moves (s.runPlan p plan) := by
  obtain ⟨action, effect⟩ := plan
  cases action with
  | none =>
    cases effect with
    | none => exact .refl
    | some effect => exact moves_runEffect effect
  | some action =>
    have hact : s.Moves (s.applyAction action) := .single (.act action)
    cases effect with
    | none => exact hact
    | some effect => exact hact.trans (moves_runEffect effect)

theorem moves_handleEvent (event : VerificationEvent) : s.Moves (s.handleEvent p event) := by
  unfold handleEvent
  split
  · split
    · exact .single (.act _)
    · exact moves_runPlan _
  · exact .refl

theorem moves_begin (onLine : Bool) : s.Moves (s.begin p onLine) := by
  have hrunning : s.Moves { s with running := true } := .single (.set ..)
  have hbegun := (hrunning.tail .clear).tail (.act .begin)
  cases p with
  | native => exact hbegun.tail (.set ..)
  | web =>
    cases onLine with
    | true => exact hbegun.tail (.set ..)
    | false => exact Moves.finish (hbegun.tail (.act .offline))

theorem moves_permissionChecked (answer : Except (Option String) PermissionState) :
    s.Moves (s.permissionChecked answer) := by
  unfold permissionChecked
  split
  · split
    · exact .single (.set ..)
    · exact Moves.finish (.single (.act _))
    · exact Moves.finish (moves_failWith _ _)
  · exact Moves.finish .refl

theorem moves_connectionChecked (answer : Except (Option String) Bool) :
    s.Moves (s.connectionChecked answer) := by
  unfold connectionChecked
  split
  · split
    · exact .single (.set ..)
    · exact Moves.finish (.single (.act _))
    · exact Moves.finish (moves_failWith _ _)
  · exact Moves.finish .refl

theorem moves_startSettled (answer : Except VerificationSourceError VerificationSession) :
    s.Moves (s.startSettled answer) := by
  unfold startSettled
  split
  · split
    next acquired =>
      have hact : s.Moves (s.applyAction (.session acquired)) := .single (.act _)
      split
      · exact hact.tail (.set ..)
      · exact hact.finish
    next => exact Moves.finish (moves_failWith _ _)
  · exact Moves.finish .refl

theorem moves_launchSettled
    (answer : Except VerificationSourceError IdentityVerificationResult) :
    s.Moves (s.launchSettled p answer) := by
  unfold launchSettled
  split
  · split
    · exact Moves.finish (moves_handleEvent _)
    · exact Moves.finish (moves_failWith _ _)
  · exact Moves.finish .refl

theorem moves_refreshSettled (seq : ℕ) (answer : Except (Option String) String) :
    s.Moves (s.refreshSettled p seq answer) := by
  unfold refreshSettled
  split
  · have hsettle : s.Moves { s with refreshes := s.refreshes.filter (·.seq ≠ seq) } :=
      .single (.settle seq)
    dsimp only
    split
    · split
      · exact hsettle.tail (.post _)
      · exact hsettle
    · split
      · exact hsettle.trans (moves_failWith _ _)
      · exact hsettle
  · exact .refl

theorem moves_timerFired (id : ℕ) : s.Moves (s.timerFired id) := by
  unfold timerFired
  split
  · have hfire : s.Moves
        { s with timers := s.timers.filter (·.id ≠ id), completeTimeout := none } :=
      .single (.fire id)
    dsimp only
    split
    · exact hfire.tail (.tell _)
    · exact hfire
  · exact .refl

theorem moves_goOffline : s.Moves s.goOffline := by
  have hset : s.Moves { s with isOnline := false } := .single (.set ..)
  unfold goOffline
  split
  · exact hset.tail (.act .offline)
  · exact hset

/-- Every reaction is made of moves. -/
theorem moves_react (s : Hook) (i : Input) : s.Moves (s.react p i) := by
  cases i with
  | render | attach => exact .single (.set ..)
  | start onLine | retry onLine =>
    rw [react]
    split
    · exact .refl
    · exact moves_begin onLine
  | restart onLine =>
    rw [react]
    split
    · exact .refl
    · have hclear : s.Moves (s.applyAction .clearSession) := .single (.act _)
      exact hclear.trans (moves_begin onLine)
  | cancel =>
    have hclear : s.Moves s.clearCompleteTimeout := .single .clear
    exact (hclear.tail (.act .cancelled)).trans (moves_runEffect (p := p) .cancel)
  | event e => exact moves_handleEvent e
  | message interpreted =>
    cases interpreted with
    | none => exact .refl
    | some e => exact moves_handleEvent e
  | permissionChecked answer =>
    rw [react]
    split
    · exact moves_permissionChecked answer
    · exact .refl
  | connectionChecked answer =>
    rw [react]
    split
    · exact moves_connectionChecked answer
    · exact .refl
  | startSettled answer =>
    rw [react]
    split
    · exact moves_startSettled answer
    · exact .refl
  | launchSettled answer =>
    rw [react]
    split
    · exact moves_launchSettled answer
    · exact .refl
  | refreshSettled seq answer => exact moves_refreshSettled seq answer
  | timerFired id => exact moves_timerFired id
  | online =>
    rw [react]
    split
    · exact .single (.set ..)
    · exact .refl
  | offline =>
    rw [react]
    split
    · exact moves_goOffline
    · exact .refl
  | unmount =>
    have hunmount : s.Moves { s with mounted := false } := .single .unmount
    exact hunmount.tail .clear

theorem run_related {G : Hook → Hook → Prop} (hr : ∀ s, G s s)
    (ht : ∀ {a b c}, G a b → G b c → G a c) (hG : ∀ {a b}, a.Move b → G a b) (s : Hook)
    (inputs : List Input) : G s (s.run p inputs) := by
  have hmoves : ∀ {a b}, a.Moves b → G a b := by
    intro a b h
    induction h with
    | refl => exact hr a
    | tail _ hmove ih => exact ht ih (hG hmove)
  exact Reactions.run_related hr ht (fun s i => hmoves (moves_react s i)) s inputs

theorem run_keeps {I : Hook → Prop} (hI : ∀ {a b}, a.Move b → I a → I b) (hs : I s)
    (inputs : List Input) : I (s.run p inputs) :=
  run_related (G := fun a b => I a → I b) (fun _ h => h) (fun h h' ha => h' (h ha)) hI s inputs hs

end Kyc.Client.Hook
