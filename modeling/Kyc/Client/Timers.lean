import Kyc.Client.Moves

/-! # Delayed completions

An approval is reported to the host by a timer, after the success screen. The hook keeps
the handle of one timer, the newest. What it clears when a run ends is that one; earlier
ones go on, and a cancel event clears none.
-/

namespace Kyc.Client

namespace Hook

/-- A new run begins, `cancel` is called, a cancel event is handled, or the hook unmounts. -/
def Retires (s : Hook) (i : Input) : Prop :=
  match i with
  | .start _ | .retry _ | .restart _ => s.running = false
  | .cancel | .unmount => True
  | i => s.handled i = some .cancel

def Fires (s : Hook) (id : ℕ) : Prop := (s.timerFired id).calls ≠ s.calls

instance (s : Hook) (id : ℕ) : Decidable (s.Fires id) :=
  inferInstanceAs (Decidable ((s.timerFired id).calls ≠ s.calls))

/-- What the input clears is all there is to clear. -/
def Cleared (s : Hook) : Input → Prop
  | .start _ | .retry _ | .restart _ | .cancel => ∀ t ∈ s.timers, s.completeTimeout = some t.id
  | .unmount => True
  | _ => s.timers = []

/-- Timers are numbered in the order they are scheduled, and an unmounted hook stays so. -/
structure Schedules (s s' : Hook) : Prop where
  scheduled : s.scheduled ≤ s'.scheduled
  timers : ∀ t ∈ s'.timers, t ∈ s.timers ∨ (s.scheduled ≤ t.id ∧ t.id < s'.scheduled)
  mounted : s'.mounted → s.mounted

section Schedules

variable {p : Platform} {s s' s'' : Hook}

theorem Schedules.refl (s : Hook) : s.Schedules s := ⟨le_rfl, fun _ ht => Or.inl ht, id⟩

theorem Schedules.trans (h : s.Schedules s') (h' : s'.Schedules s'') : s.Schedules s'' where
  scheduled := Nat.le_trans h.scheduled h'.scheduled
  timers t ht := by
    have hle := h.scheduled
    have hle' := h'.scheduled
    rcases h'.timers t ht with ht' | hnew
    · rcases h.timers t ht' with hold | hnew
      · exact Or.inl hold
      · right
        omega
    · right
      omega
  mounted hm := h.mounted (h'.mounted hm)

theorem Move.schedules (h : s.Move s') : s.Schedules s' := by
  cases h with
  | schedule result =>
    refine ⟨Nat.le_succ _, fun t ht => ?_, id⟩
    rcases List.mem_append.mp ht with ht | ht
    · exact Or.inl ht
    · obtain rfl := List.mem_singleton.mp ht
      exact Or.inr ⟨le_rfl, Nat.lt_succ_self _⟩
  | clear | fire => exact ⟨le_rfl, fun _ ht => Or.inl (List.mem_of_mem_filter ht), id⟩
  | unmount => exact ⟨le_rfl, fun _ ht => Or.inl ht, fun hm => by cases hm⟩
  | _ => exact ⟨le_rfl, fun _ ht => Or.inl ht, id⟩

theorem schedules_run (s : Hook) (inputs : List Input) : s.Schedules (s.run p inputs) :=
  run_related .refl .trans Move.schedules s inputs

theorem id_lt_scheduled {host : Host} {isOnline : Bool} {inputs : List Input} {t : CompleteTimer}
    (ht : t ∈ ((mount host isOnline).run p inputs).timers) :
    t.id < ((mount host isOnline).run p inputs).scheduled := by
  rcases (schedules_run (mount host isOnline) inputs).timers t ht with hold | hnew
  · exact absurd hold List.not_mem_nil
  · exact hnew.2

end Schedules

section Retired

variable {p : Platform} {s : Hook} {i : Input}

theorem fires_iff {id : ℕ} : s.Fires id ↔ s.mounted ∧ ∃ t ∈ s.timers, t.id = id := by
  unfold Fires timerFired
  cases hf : s.timers.find? (·.id = id) with
  | none =>
    have hno : ¬ ∃ t ∈ s.timers, t.id = id := by
      rintro ⟨t, ht, hid⟩
      exact absurd (List.find?_eq_none.mp hf t ht) (by simp [hid])
    exact iff_of_false (fun h => h rfl) fun h => hno h.2
  | some timer =>
    have hid : timer.id = id := by simpa using List.find?_some hf
    dsimp only
    by_cases hm : s.mounted
    · rw [if_pos hm]
      exact iff_of_true (by simp [tell]) ⟨hm, timer, List.mem_of_find?_eq_some hf, hid⟩
    · rw [if_neg hm]
      exact iff_of_false (fun h => h rfl) fun h => hm h.1

theorem timers_clearCompleteTimeout_eq_nil_iff :
    s.clearCompleteTimeout.timers = [] ↔ ∀ t ∈ s.timers, s.completeTimeout = some t.id := by
  simp [clearCompleteTimeout, List.filter_eq_nil_iff]

theorem timers_begin (onLine : Bool) :
    (s.begin p onLine).timers = s.clearCompleteTimeout.timers := by
  cases p with
  | native => rfl
  | web => cases onLine <;> rfl

theorem timers_react_cancel (hh : s.handled i = some .cancel) :
    (s.react p i).timers = s.timers ∧ (s.react p i).mounted = s.mounted := by
  obtain ⟨hm, hreact⟩ := react_of_handled (p := p) hh
  have hevent : s.handleEvent p .cancel = (s.applyAction .cancelled).tell .onCancel := by
    rw [handleEvent, if_pos hm, if_neg fun hc => hc.2]
    rfl
  rw [hevent] at hreact
  rcases hreact with he | he <;> rw [he] <;> exact ⟨rfl, rfl⟩

/-- What a run is retired by leaves the cleared timers, those left alone, or an unmounted hook. -/
theorem Retires.react_cases (hr : s.Retires i) :
    ((s.react p i).timers = s.clearCompleteTimeout.timers ∧ (s.react p i).mounted = s.mounted ∧
        (s.Cleared i ↔ ∀ t ∈ s.timers, s.completeTimeout = some t.id)) ∨
      ((s.react p i).timers = s.timers ∧ (s.react p i).mounted = s.mounted ∧
        (s.Cleared i ↔ s.timers = [])) ∨
      ((s.react p i).timers = s.clearCompleteTimeout.timers ∧ (s.react p i).mounted = false ∧
        s.Cleared i) := by
  have hhandled : ∀ {i}, s.handled i = some .cancel → (s.Cleared i ↔ s.timers = []) := by
    intro i hh
    cases i with
    | start | retry | restart | cancel | unmount => cases hh
    | _ => rfl
  cases i with
  | start onLine | retry onLine =>
    left
    have hrun : s.running = false := hr
    rw [react, hrun]
    exact ⟨timers_begin onLine, mounted_begin onLine, Iff.rfl⟩
  | restart onLine =>
    left
    have hrun : s.running = false := hr
    rw [react, hrun]
    exact ⟨timers_begin onLine, mounted_begin onLine, Iff.rfl⟩
  | cancel => exact Or.inl ⟨rfl, rfl, Iff.rfl⟩
  | unmount => exact Or.inr (Or.inr ⟨rfl, rfl, trivial⟩)
  | _ =>
    right
    left
    obtain ⟨ht, hm⟩ := timers_react_cancel (p := p) hr
    exact ⟨ht, hm, hhandled hr⟩

theorem Retires.timers_eq_nil_iff (hr : s.Retires i) :
    ((s.react p i).mounted → (s.react p i).timers = []) ↔ (s.mounted → s.Cleared i) := by
  rcases hr.react_cases (p := p) with ⟨ht, hm, hc⟩ | ⟨ht, hm, hc⟩ | ⟨ht, hm, hc⟩
  · rw [ht, hm, hc, timers_clearCompleteTimeout_eq_nil_iff]
  · rw [ht, hm, hc]
  · rw [hm]
    exact iff_of_true (fun h => by cases h) fun _ => hc

theorem Retires.timers_subset (hr : s.Retires i) : ∀ t ∈ (s.react p i).timers, t ∈ s.timers := by
  intro t ht
  rcases hr.react_cases (p := p) with ⟨he, -⟩ | ⟨he, -⟩ | ⟨he, -⟩
  · rw [he] at ht
    exact List.mem_of_mem_filter ht
  · rwa [he] at ht
  · rw [he] at ht
    exact List.mem_of_mem_filter ht

end Retired

end Hook

open Hook

/-- No delayed completion that was scheduled before a run is retired fires in any continuation
exactly when, in a mounted hook, what the retirement clears is all there was. -/
theorem retired_completions_iff (p : Platform) (host : Host) (isOnline : Bool)
    (inputs : List Input) {i : Input} (hr : ((mount host isOnline).run p inputs).Retires i) :
    (∀ later id, ((mount host isOnline).run p (inputs ++ i :: later)).Fires id →
      ((mount host isOnline).run p inputs).scheduled ≤ id) ↔
    (((mount host isOnline).run p inputs).mounted →
      ((mount host isOnline).run p inputs).Cleared i) := by
  set s := (mount host isOnline).run p inputs with hs
  have hlater : ∀ later, (mount host isOnline).run p (inputs ++ i :: later) =
      (s.react p i).run p later := fun later => Reactions.run_append (react p) _ inputs (i :: later)
  rw [← hr.timers_eq_nil_iff (p := p)]
  constructor
  · intro hnone hm
    rw [List.eq_nil_iff_forall_not_mem]
    intro t ht
    have hlt : t.id < s.scheduled := id_lt_scheduled (hr.timers_subset t ht)
    have hle := hnone [] t.id (by rw [hlater]; exact fires_iff.mpr ⟨hm, t, ht, rfl⟩)
    omega
  · rintro hnil later id hf
    rw [hlater, fires_iff] at hf
    obtain ⟨hm, t, ht, rfl⟩ := hf
    have hrun := schedules_run (p := p) (s.react p i) later
    have hstep : s.scheduled ≤ (s.react p i).scheduled := (schedules_run s [i]).scheduled
    rcases hrun.timers t ht with hold | hnew
    · rw [hnil (hrun.mounted hm)] at hold
      exact absurd hold List.not_mem_nil
    · omega

def approvals (n : ℕ) : List Input :=
  .start true :: .startSettled (.ok { provider := "sumsub", sessionId := some "s" }) ::
    List.replicate n (.event (.complete .approved none))

/-- One approval is retired by a cancel. -/
theorem retired_completions_iff_one :
    ((mount ⟨false, true, false, true⟩ true).run .web (approvals 1)).timers.length = 1 ∧
      ∀ later id, ((mount ⟨false, true, false, true⟩ true).run .web
        (approvals 1 ++ .cancel :: later)).Fires id → 1 ≤ id := by
  have hr : ((mount ⟨false, true, false, true⟩ true).run .web (approvals 1)).Retires .cancel :=
    trivial
  have hcleared : ((mount ⟨false, true, false, true⟩ true).run .web (approvals 1)).Cleared
      .cancel := by
    simp only [Cleared]
    decide
  refine ⟨by decide, ?_⟩
  exact (retired_completions_iff .web ⟨false, true, false, true⟩ true (approvals 1) hr).mpr
    fun _ => hcleared

/-- Of two, the first outlives it. -/
theorem first_of_two_completions_fires :
    ¬ ∀ (p : Platform) (host : Host) (isOnline : Bool) (inputs : List Input) (i : Input),
      ((mount host isOnline).run p inputs).Retires i → ∀ later id,
        ((mount host isOnline).run p (inputs ++ i :: later)).Fires id →
          ((mount host isOnline).run p inputs).scheduled ≤ id := by
  intro h
  have hfires : ((mount ⟨false, true, false, true⟩ true).run .web
      (approvals 2 ++ [.cancel])).Fires 0 := by
    decide
  exact absurd (h .web ⟨false, true, false, true⟩ true (approvals 2) .cancel trivial [] 0 hfires)
    (by decide)

end Kyc.Client
