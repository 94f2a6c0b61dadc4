import Mathlib.Data.List.Basic

/-! # Replaying a log

A log of labelled steps leads from a state to a state. Logs compose, and a log
extended by a step that starts where it ended leads to where that step ends.
-/

namespace Kyc

variable {σ ε : Type}

/-- The entries of the log, taken in order, lead from `s` to `s'`. -/
inductive Replay (step : σ → ε → σ → Prop) : σ → List ε → σ → Prop
  | nil (s : σ) : Replay step s [] s
  | cons {s m s' : σ} {e : ε} {log : List ε} :
    step s e m → Replay step m log s' → Replay step s (e :: log) s'

namespace Replay

variable {step : σ → ε → σ → Prop} {s m s' : σ} {e : ε} {log log' : List ε}

@[simp] theorem nil_iff : Replay step s [] s' ↔ s = s' := by
  constructor
  · intro h; cases h; rfl
  · rintro rfl; exact .nil _

theorem append (h : Replay step s log m) (h' : Replay step m log' s') :
    Replay step s (log ++ log') s' := by
  induction h with
  | nil => exact h'
  | cons he _ ih => exact .cons he (ih h')

theorem snoc (h : Replay step s log m) (he : step m e s') : Replay step s (log ++ [e]) s' :=
  h.append (.cons he (.nil _))

theorem exists_last (h : Replay step s log s') : s' = s ∨ ∃ m, ∃ e ∈ log, step m e s' := by
  induction h with
  | nil => exact Or.inl rfl
  | @cons s m s' e log he _ ih =>
    rcases ih with rfl | ⟨m', e', hm, he'⟩
    · exact Or.inr ⟨s, e, List.mem_cons_self, he⟩
    · exact Or.inr ⟨m', e', List.mem_cons_of_mem e hm, he'⟩

end Replay

end Kyc
