import Kyc.Boot.Guard
import Kyc.Limits.Sweeps
import Kyc.Numbers.Conversions

/-! # Rate limits from the environment

The limits are what `Number` makes of four variables. A variable that does not spell a limit
is meant to leave the default, and only one that spells zero to switch a limit off. A blank
text is a zero for `Number`, though, and so is a numeral too small for a double.
-/

namespace Kyc

open Boot Json Numbers Sumsub

def LimitedRoute.variableName : LimitedRoute → String
  | token => "RATE_LIMIT_TOKEN_PER_MIN"
  | hosted => "RATE_LIMIT_HOSTED_PER_MIN"
  | webhook => "RATE_LIMIT_WEBHOOK_PER_MIN"
  | graphql => "RATE_LIMIT_GRAPHQL_PER_MIN"

/-- `DEFAULT_RATE_LIMITS`. -/
def defaultRateLimits : RateLimits := ⟨60, 60, 120, 100⟩

def limitFromEnv (value : Option Text) (fallback : ℚ) : ℚ :=
  match numberOf value with
  | .finite parsed => if 0 ≤ parsed then parsed else fallback
  | _ => fallback

def rateLimitsFromEnv (env : Env) : RateLimits where
  token := limitFromEnv (env "RATE_LIMIT_TOKEN_PER_MIN") defaultRateLimits.token
  hosted := limitFromEnv (env "RATE_LIMIT_HOSTED_PER_MIN") defaultRateLimits.hosted
  webhook := limitFromEnv (env "RATE_LIMIT_WEBHOOK_PER_MIN") defaultRateLimits.webhook
  graphql := limitFromEnv (env "RATE_LIMIT_GRAPHQL_PER_MIN") defaultRateLimits.graphql

theorem of_rateLimitsFromEnv (env : Env) (route : LimitedRoute) :
    (rateLimitsFromEnv env).of route =
      limitFromEnv (env route.variableName) (defaultRateLimits.of route) := by
  cases route <;> rfl

theorem one_le_default (route : LimitedRoute) : 1 ≤ defaultRateLimits.of route := by
  cases route <;> decide +kernel

theorem rounded_default (route : LimitedRoute) :
    Doubles.rounded (defaultRateLimits.of route) = defaultRateLimits.of route := by
  cases route <;> decide +kernel

def spelled (s : Text) : Option ℚ :=
  match numeral (trimmed s) with
  | some (.finite q) => some q
  | _ => none

/-- A decision stays within the limit: it allows no more requests in a window than that, and what
is left of it is between nothing and all. -/
def DecidesWithin (limits : RateLimits) (windows : RateWindows) (request : RateRequest) : Prop :=
  ∀ route decision, limitedRoute request.pathname = some route →
    (rateLimiter limits windows request).1 = some decision →
    ∃ window, (rateLimiter limits windows request).2.get (windowKey route request.client) =
        some window ∧
      (decision.allowed → (window.count : ℚ) ≤ limits.of route) ∧
      0 ≤ decision.remaining ∧ decision.remaining ≤ limits.of route

/-- Limits are never switched off or overrun unless the environment says so. -/
structure FailsClosed (env : Env) : Prop where
  unlimited : ∀ route, (rateLimitsFromEnv env).of route = 0 →
    (env route.variableName).bind spelled = some 0
  fallback : ∀ route, (¬ ∃ q, (env route.variableName).bind spelled = some q ∧ 0 ≤ q) →
    (rateLimitsFromEnv env).of route = defaultRateLimits.of route
  within : ∀ requests, Reactions.Meets (afterRequest (rateLimitsFromEnv env))
    (DecidesWithin (rateLimitsFromEnv env)) .empty requests

/-- A text that is not blank, and spells no number near zero or between zero and one. -/
def LimitText (s : Text) : Prop :=
  trimmed s ≠ [] ∧ ∀ q, spelled s = some q →
    q = 0 ∨ q < -(2 : ℚ) ^ (-1075 : ℤ) ∨ 1 - (2 : ℚ) ^ (-54 : ℤ) ≤ q

section Limit

variable {s : Text} {fallback : ℚ}

theorem ne_nil_of_spelled {q : ℚ} (h : spelled s = some q) : trimmed s ≠ [] := by
  intro blank
  rw [spelled, blank] at h
  cases h

theorem limitFromEnv_of_spelled {q : ℚ} (h : spelled s = some q) :
    limitFromEnv (some s) fallback =
      if |Doubles.rounded q| < Doubles.overflow ∧ 0 ≤ Doubles.rounded q then Doubles.rounded q
      else fallback := by
  have hs := ne_nil_of_spelled h
  rw [spelled] at h
  cases hn : numeral (trimmed s) with
  | none => simp [hn] at h
  | some n =>
    cases n with
    | infinite negative => simp [hn] at h
    | finite q' =>
      obtain rfl : q' = q := by simpa [hn] using h
      rw [limitFromEnv, numberOf, number, if_neg hs, hn]
      by_cases finite : |Doubles.rounded q'| < Doubles.overflow
      · simp [Numeral.toNumber, Doubles.toDouble, finite]
      · simp [Numeral.toNumber, Doubles.toDouble, finite]

theorem limitFromEnv_of_not_spelled (h : spelled s = none) (hs : trimmed s ≠ []) :
    limitFromEnv (some s) fallback = fallback := by
  rw [limitFromEnv, numberOf, number, if_neg hs]
  rw [spelled] at h
  cases hn : numeral (trimmed s) with
  | none => rfl
  | some n =>
    cases n with
    | infinite negative => rfl
    | finite q => simp [hn] at h

theorem limitFromEnv_of_blank (hs : trimmed s = []) : limitFromEnv (some s) fallback = 0 := by
  rw [limitFromEnv, numberOf, number, if_pos hs]
  exact if_pos le_rfl

/-- The limit of a text is the default, zero that it spells, or one and more. -/
theorem LimitText.limit (h : LimitText s) :
    limitFromEnv (some s) fallback = fallback ∨
      ∃ q, spelled s = some q ∧ 0 ≤ q ∧ limitFromEnv (some s) fallback = Doubles.rounded q ∧
        (q = 0 ∨ 1 ≤ Doubles.rounded q) := by
  cases hs : spelled s with
  | none => exact Or.inl (limitFromEnv_of_not_spelled hs h.1)
  | some q =>
    rw [limitFromEnv_of_spelled hs]
    split_ifs with used
    · right
      refine ⟨q, rfl, ?_⟩
      rcases h.2 q hs with rfl | negative | whole
      · exact ⟨le_rfl, rfl, Or.inl rfl⟩
      · have low := (Doubles.rounded_nonneg_iff q).mp used.2
        linarith
      · have tiny : (2 : ℚ) ^ (-54 : ℤ) ≤ 1 := by norm_num
        exact ⟨by linarith, rfl, Or.inr ((Doubles.one_le_rounded_iff q).mpr whole)⟩
    · exact Or.inl rfl

end Limit

section Decisions

variable {limits : RateLimits}

/-- A limit that is off, or a double that allows a request, decides within it, whatever windows
there are. -/
theorem decidesWithin_of_limits
    (h : ∀ route, limits.of route = 0 ∨
      1 ≤ limits.of route ∧ Doubles.rounded (limits.of route) = limits.of route)
    (windows : RateWindows) (request : RateRequest) : DecidesWithin limits windows request := by
  intro route decision hroute hdecision
  rcases h route with off | ⟨least, double⟩
  · rw [rateLimiter_of_unlimited limits] at hdecision
    · cases hdecision
    · intro other hother
      rw [hroute] at hother
      rwa [← Option.some.inj hother]
  · have rounded_sub_le {k : ℚ} (hk : 0 ≤ k) :
        Doubles.rounded (limits.of route - k) ≤ limits.of route :=
      (Doubles.rounded_mono (sub_le_self _ hk)).trans_eq double
    have limited := limited_of_route limits windows hroute (by linarith)
    generalize rateLimiter limits windows request = result at limited hdecision ⊢
    cases limited with
    | opened =>
      obtain rfl := Option.some.inj hdecision
      refine ⟨_, Table.get_set_self _ _, fun _ => ?_, ?_, ?_⟩
      · exact_mod_cast least
      · exact Doubles.rounded_nonneg (sub_nonneg.mpr least)
      · exact rounded_sub_le zero_le_one
    | @counted window hget =>
      obtain rfl := Option.some.inj hdecision
      have hkey := (Table.get_eq_some.mp hget).2
      refine ⟨{ window with count := window.count + 1 }, ?_, fun allowed => ?_, ?_, ?_⟩
      · rw [← hkey]
        exact Table.get_set_self _ _
      · exact of_decide_eq_true allowed
      · exact le_max_left _ _
      · exact max_le (by linarith) (rounded_sub_le (Nat.cast_nonneg _))

theorem exists_limitedRoute (route : LimitedRoute) :
    ∃ pathname, limitedRoute pathname = some route := by
  cases route with
  | token => exact ⟨"/verification/token", by decide⟩
  | hosted => exact ⟨"/hosted/a", by decide⟩
  | webhook => exact ⟨"/webhook/kyc/a", by decide⟩
  | graphql => exact ⟨"/graphql", by decide⟩

theorem one_le_of_decidesWithin {route : LimitedRoute} (hl : limits.of route ≠ 0)
    (h : ∀ requests, Reactions.Meets (afterRequest limits) (DecidesWithin limits) .empty requests) :
    1 ≤ limits.of route := by
  obtain ⟨pathname, hroute⟩ := exists_limitedRoute route
  have first := (h [⟨pathname, "a", 0⟩]).1
  have limited : Limited limits .empty ⟨pathname, "a", 0⟩ route _ :=
    limited_of_route limits .empty hroute hl
  rw [DecidesWithin] at first
  generalize rateLimiter limits .empty ⟨pathname, "a", 0⟩ = result at limited first
  cases limited with
  | opened =>
    obtain ⟨window, hget, within, -⟩ := first route _ hroute rfl
    rw [Table.get_set_self] at hget
    obtain rfl := Option.some.inj hget
    exact_mod_cast within rfl
  | counted hget => cases hget

end Decisions

section Texts

variable {env : Env} {route : LimitedRoute} {s : Text}

/-- A text that makes the limits fail closed is not blank, and spells no number that rounds to zero
or to something below one. -/
theorem FailsClosed.limitText (h : FailsClosed env) (hs : env route.variableName = some s) :
    LimitText s := by
  have limit := of_rateLimitsFromEnv env route
  have unlimited := h.unlimited route
  rw [hs] at limit unlimited
  constructor
  · intro blank
    rw [limit, limitFromEnv_of_blank blank] at unlimited
    exact ne_nil_of_spelled (unlimited rfl) blank
  · intro q hq
    by_contra hn
    obtain ⟨nonzero, hn⟩ := not_or.mp hn
    obtain ⟨low, high⟩ := not_or.mp hn
    have nonneg := (Doubles.rounded_nonneg_iff q).mpr (not_lt.mp low)
    have less := (Doubles.one_le_rounded_iff q).not.mpr high
    have finite : |Doubles.rounded q| < Doubles.overflow := by
      rw [abs_of_nonneg nonneg]
      exact lt_of_lt_of_le (not_le.mp less) Doubles.one_le_overflow
    rw [limitFromEnv_of_spelled hq, if_pos ⟨finite, nonneg⟩] at limit
    apply less
    rw [← limit]
    refine one_le_of_decidesWithin (fun off => nonzero ?_) h.within
    have zero := unlimited off
    rw [Option.bind_some, hq] at zero
    exact Option.some.inj zero

theorem limit_cases (h : ∀ route s, env (LimitedRoute.variableName route) = some s → LimitText s)
    (route : LimitedRoute) :
    (rateLimitsFromEnv env).of route = defaultRateLimits.of route ∨
      ∃ q, (env route.variableName).bind spelled = some q ∧ 0 ≤ q ∧
        (rateLimitsFromEnv env).of route = Doubles.rounded q ∧
          (q = 0 ∨ 1 ≤ Doubles.rounded q) := by
  rw [of_rateLimitsFromEnv]
  cases hs : env route.variableName with
  | none => exact Or.inl rfl
  | some s => exact (h route s hs).limit

theorem failsClosed_of_limitText
    (h : ∀ route s, env (LimitedRoute.variableName route) = some s → LimitText s) :
    FailsClosed env := by
  constructor
  case unlimited =>
    intro route off
    have least := one_le_default route
    obtain default | ⟨q, hq, -, heq, rfl | whole⟩ := limit_cases h route
    · linarith
    · exact hq
    · linarith
  case fallback =>
    intro route none_spelled
    obtain default | ⟨q, hq, nonneg, -⟩ := limit_cases h route
    · exact default
    · exact absurd ⟨q, hq, nonneg⟩ none_spelled
  case within =>
    intro requests
    refine Reactions.meets_iff.mpr fun pre request _ => decidesWithin_of_limits ?_ _ request
    intro route
    obtain default | ⟨q, -, -, heq, rfl | whole⟩ := limit_cases h route
    · rw [default]
      exact Or.inr ⟨one_le_default route, rounded_default route⟩
    · left
      rw [heq]
      decide +kernel
    · rw [heq]
      exact Or.inr ⟨whole, Doubles.rounded_rounded_of_one_le whole⟩

end Texts

/-- The limits fail closed exactly if every variable that is set is set to such a text. -/
theorem failsClosed_iff (env : Env) :
    FailsClosed env ↔ ∀ route s, env (LimitedRoute.variableName route) = some s → LimitText s := by
  constructor
  · intro h route s hs
    exact h.limitText hs
  · intro h
    exact failsClosed_of_limitText h

/-- A variable that is set to a blank text switches the limit of its route off. -/
theorem not_failsClosed_of_blank :
    ¬ FailsClosed fun name =>
      if name = "RATE_LIMIT_TOKEN_PER_MIN" then some (lit " ") else none := by
  intro h
  have spelled := h.unlimited .token (by decide +kernel)
  revert spelled
  decide +kernel

end Kyc
