import Kyc.Programs.Reactions

/-! # The bridge stub of React Native

The shell injects a stub before the page loads, whose `setToken` keeps what the host sends
until the page assigns a handler. The bridge script of the page and another injection of the
stub find the object that is there already, and leave that property as it is.
-/

namespace Kyc.Hosted

/-- The property `setToken` of the bridge, over the handlers of pages and the values sent. -/
inductive SetTokenProperty (η α : Type)
  | missing
  | function (handler : η)
  /-- What the stub defines: calls are queued as long as there is no handler. -/
  | accessor (handler : Option η) (pending : List α)
  deriving DecidableEq

/-- `window.__kycBridge`. -/
structure KycBridge (η α : Type) where
  kycQueued : Bool
  setToken : SetTokenProperty η α
  /-- Whether `post` and `readToken` are published. -/
  published : Bool
  deriving DecidableEq

/-- The window of the page, and the calls of handlers so far. -/
structure BridgeWindow (η α : Type) where
  kycBridge : Option (KycBridge η α)
  received : List (η × α)
  deriving DecidableEq

/-- What happens to the window; `setToken` is the call that the host injects. -/
inductive BridgeStep (η α : Type)
  | stubScript
  | bridgeScript
  | assign (handler : η)
  | setToken (value : α)
  deriving DecidableEq

variable {η α : Type}

namespace BridgeWindow

def initial : BridgeWindow η α := ⟨none, []⟩

/-- `window.__kycBridge || {}`. -/
def bridge (window : BridgeWindow η α) : KycBridge η α :=
  window.kycBridge.getD ⟨false, .missing, false⟩

def react (window : BridgeWindow η α) : BridgeStep η α → BridgeWindow η α
  | .stubScript =>
    if window.bridge.kycQueued then window
    else
      { window with
        kycBridge := some { window.bridge with
          setToken := .accessor none []
          kycQueued := true } }
  | .bridgeScript => { window with kycBridge := some { window.bridge with published := true } }
  | .assign handler =>
    match window.kycBridge with
    -- a TypeError of the page
    | none => window
    | some bridge =>
      match bridge.setToken with
      | .accessor _ pending =>
        { kycBridge := some { bridge with setToken := .accessor (some handler) [] }
          received := window.received ++ pending.map (handler, ·) }
      | _ => { window with kycBridge := some { bridge with setToken := .function handler } }
  | .setToken value =>
    match window.kycBridge with
    -- the call is `window.__kycBridge && ..`
    | none => window
    | some bridge =>
      match bridge.setToken with
      -- a TypeError of the injected call
      | .missing => window
      | .function handler => { window with received := window.received ++ [(handler, value)] }
      | .accessor (some handler) _ =>
        { window with received := window.received ++ [(handler, value)] }
      | .accessor none pending =>
        { window with
          kycBridge := some { bridge with setToken := .accessor none (pending ++ [value]) } }

/-- The values that no handler was there for. -/
def pending (window : BridgeWindow η α) : List α :=
  match window.bridge.setToken with
  | .accessor _ pending => pending
  | _ => []

end BridgeWindow

open BridgeWindow

def BridgeStep.handler? : BridgeStep η α → Option η
  | assign handler => some handler
  | _ => none

def BridgeStep.value? : BridgeStep η α → Option α
  | setToken value => some value
  | _ => none

def sent (steps : List (BridgeStep η α)) : List α := steps.filterMap BridgeStep.value?

def assigned (steps : List (BridgeStep η α)) : Option η :=
  (steps.filterMap BridgeStep.handler?).getLast?

/-- What the host has sent since the stub is there. -/
structure Delivers (steps : List (BridgeStep η α)) (window : BridgeWindow η α) : Prop where
  /-- The queue and the handler are where they were. -/
  intact : ∃ published,
    window.kycBridge = some ⟨true, .accessor (assigned steps) window.pending, published⟩
  in_order : window.received.map Prod.snd ++ window.pending = sent steps
  at_once : (assigned steps).isSome → window.pending = []

section Steps

variable {steps : List (BridgeStep η α)} {window : BridgeWindow η α}

theorem sent_concat (steps : List (BridgeStep η α)) (step : BridgeStep η α) :
    sent (steps ++ [step]) = sent steps ++ step.value?.toList := by
  rw [sent, List.filterMap_append]
  cases step <;> rfl

theorem assigned_concat (steps : List (BridgeStep η α)) (step : BridgeStep η α) :
    assigned (steps ++ [step]) = step.handler?.or (assigned steps) := by
  rw [assigned, List.filterMap_append]
  cases step <;> simp [BridgeStep.handler?, assigned]

/-- A script that finds the stub leaves its property. -/
theorem Delivers.script (h : Delivers steps window) {step : BridgeStep η α}
    (hstep : step = .stubScript ∨ step = .bridgeScript) :
    Delivers (steps ++ [step]) (window.react step) := by
  obtain ⟨published, hbridge⟩ := h.intact
  have quiet : step.value? = none ∧ step.handler? = none := by
    rcases hstep with rfl | rfl <;> exact ⟨rfl, rfl⟩
  have kept : (window.react step).received = window.received ∧ ∃ published,
      (window.react step).kycBridge =
        some ⟨true, .accessor (assigned steps) window.pending, published⟩ := by
    rcases hstep with rfl | rfl
    · exact ⟨by simp [react, bridge, hbridge], published, by simp [react, bridge, hbridge]⟩
    · exact ⟨rfl, true, by simp [react, bridge, hbridge]⟩
  obtain ⟨hreceived, published', hbridge'⟩ := kept
  have hpending : (window.react step).pending = window.pending := by
    rw [pending, bridge, hbridge']
    rfl
  have hassigned : assigned (steps ++ [step]) = assigned steps := by
    rw [assigned_concat, quiet.2, Option.none_or]
  constructor
  · exact ⟨published', by rw [hassigned, hpending, hbridge']⟩
  · rw [hreceived, hpending, h.in_order, sent_concat, quiet.1, Option.toList_none, List.append_nil]
  · rw [hassigned, hpending]
    exact h.at_once

theorem Delivers.assign (h : Delivers steps window) (handler : η) :
    Delivers (steps ++ [.assign handler]) (window.react (.assign handler)) := by
  obtain ⟨published, hbridge⟩ := h.intact
  have next : window.react (.assign handler) =
      ⟨some ⟨true, .accessor (some handler) [], published⟩,
        window.received ++ window.pending.map (handler, ·)⟩ := by
    rw [react, hbridge]
  rw [next]
  constructor
  · exact ⟨published, by rw [assigned_concat]; rfl⟩
  · rw [sent_concat, ← h.in_order]
    simp [pending, bridge, BridgeStep.value?, Function.comp_def]
  · exact fun _ => rfl

/-- A value that is sent goes to the handler, or to the end of the queue. -/
theorem Delivers.setToken (h : Delivers steps window) (value : α) :
    Delivers (steps ++ [.setToken value]) (window.react (.setToken value)) := by
  obtain ⟨published, hbridge⟩ := h.intact
  have hassigned : assigned (steps ++ [.setToken value]) = assigned steps := by
    rw [assigned_concat]
    rfl
  have hsent : sent (steps ++ [.setToken value]) = sent steps ++ [value] := sent_concat steps _
  cases handler : assigned steps with
  | none =>
    rw [handler] at hbridge
    have next : window.react (.setToken value) =
        { window with
          kycBridge := some ⟨true, .accessor none (window.pending ++ [value]), published⟩ } := by
      rw [react, hbridge]
    rw [next]
    constructor
    · exact ⟨published, by rw [hassigned, handler]; rfl⟩
    · rw [hsent, ← h.in_order, List.append_assoc]
      rfl
    · rw [hassigned, handler]
      exact fun h => absurd h Bool.false_ne_true
  | some handler' =>
    have empty : window.pending = [] := h.at_once (by rw [handler]; rfl)
    rw [handler, empty] at hbridge
    have next : window.react (.setToken value) =
        { window with received := window.received ++ [(handler', value)] } := by
      rw [react, hbridge]
    have still : (window.react (.setToken value)).pending = [] := by
      rw [next, pending, bridge, hbridge]
      rfl
    constructor
    · exact ⟨published, by rw [hassigned, handler, still, next, hbridge]⟩
    · rw [still, hsent, ← h.in_order, empty, next]
      simp
    · exact fun _ => still

end Steps

theorem run_early (early : List α) :
    Reactions.run react (initial : BridgeWindow η α) (early.map .setToken) = initial := by
  induction early with
  | nil => rfl
  | cons value early ih => exact ih

/-- Once the stub is there, what the host sends is received once and in order, whatever scripts run
and whatever handlers the page assigns; what it sent before is not. -/
theorem bridge_delivers (early : List α) (steps : List (BridgeStep η α)) :
    Delivers steps
      (Reactions.run react initial (early.map .setToken ++ .stubScript :: steps)) := by
  rw [List.append_cons, Reactions.run_append, Reactions.run_append, run_early]
  induction steps using List.reverseRecOn with
  | nil => exact ⟨⟨false, rfl⟩, rfl, fun _ => rfl⟩
  | append_singleton steps step ih =>
    rw [Reactions.run_concat]
    cases step with
    | stubScript => exact ih.script (Or.inl rfl)
    | bridgeScript => exact ih.script (Or.inr rfl)
    | assign handler => exact ih.assign handler
    | setToken value => exact ih.setToken value

/-- A value that is sent before the stub is there is never received. -/
theorem not_received_of_early :
    ¬ ∀ (early : List ℕ) (steps : List (BridgeStep ℕ ℕ)), (assigned steps).isSome →
      (Reactions.run react initial (early.map .setToken ++ .stubScript :: steps)).received.map
        Prod.snd = early ++ sent steps := by
  intro h
  have received := h [7] [.bridgeScript, .assign 0] rfl
  revert received
  decide

end Kyc.Hosted
