import Kyc.Limits.Sliding
import Kyc.Limits.Sweeps

/-! # Whom the limiter lets in

Within any minute, wherever it begins, the limiter lets no more than twice the limit of a
client's requests in on a route. It turns a request away only if it let the whole limit in
during the minute before.
-/

namespace Kyc

open FixedWindow

def admits : Option RateLimitDecision → Bool
  | none => true
  | some decision => decision.allowed

def admissions (counter : LimitedRoute × String)
    (log : List (RateRequest × Option RateLimitDecision)) : List ℚ :=
  (log.filter fun x => x.1.counter = some counter ∧ admits x.2).map (·.1.now)

section Serve

variable (limits : RateLimits)

theorem serve_concat (windows : RateWindows) (requests : List RateRequest)
    (request : RateRequest) :
    serve limits windows (requests ++ [request]) = serve limits windows requests ++
      [(request, (rateLimiter limits
        (Reactions.run (afterRequest limits) windows requests) request).1)] := by
  induction requests generalizing windows with
  | nil => rfl
  | cons first requests ih =>
    rw [List.cons_append, serve, serve, List.cons_append, ih]
    rfl

theorem map_fst_serve (windows : RateWindows) (requests : List RateRequest) :
    (serve limits windows requests).map Prod.fst = requests := by
  induction requests generalizing windows with
  | nil => rfl
  | cons request requests ih => rw [serve, List.map_cons, ih]

end Serve

section Counter

variable {limits : RateLimits} (hl : ∀ route, 1 ≤ limits.of route) {requests : List RateRequest}
  (hkeys : (requests.filterMap RateRequest.counter).dedup.length < rateLimitMaxWindows)
  (counter : LimitedRoute × String)

include hl hkeys

theorem filter_serve_eq :
    ((serve limits .empty requests).filter (·.1.counter = some counter)).map
        (fun x => (x.1.now, x.2)) =
      (places windowEnd none (timesOf counter requests)).map fun place =>
        (place.time, some (decidedAt (limits.of counter.1) place)) := by
  have times : ((serve limits .empty requests).filter (·.1.counter = some counter)).map
      (·.1.now) = timesOf counter requests := by
    conv_rhs => rw [← map_fst_serve limits .empty requests, timesOf, List.filter_map, List.map_map]
    rfl
  have limited : ∀ route, limits.of route ≠ 0 := fun route =>
    (lt_of_lt_of_le zero_lt_one (hl route)).ne'
  have decisions := decisionsOf_eq limited hkeys counter
  rw [decisionsOf] at decisions
  rw [← List.zip_map', times, decisions, ← List.zip_map', map_time_places]

theorem countP_admissions (span : ℚ → Bool) :
    (admissions counter (serve limits .empty requests)).countP span =
      (places windowEnd none (timesOf counter requests)).countP fun place =>
        place.number ≤ ⌊limits.of counter.1⌋₊ ∧ span place.time := by
  have positive : 0 ≤ limits.of counter.1 := le_trans zero_le_one (hl counter.1)
  have admitted (log : List (RateRequest × Option RateLimitDecision)) :
      (admissions counter log).countP span =
        ((log.filter (·.1.counter = some counter)).map fun x => (x.1.now, x.2)).countP
          fun x => span x.1 ∧ admits x.2 := by
    rw [admissions, List.countP_map, List.countP_map, List.countP_filter, List.countP_filter]
    refine List.countP_congr fun x _ => ?_
    simp only [Function.comp_apply, Bool.and_eq_true, decide_eq_true_eq]
    tauto
  rw [admitted, filter_serve_eq hl hkeys counter, List.countP_map]
  refine List.countP_congr fun place _ => ?_
  simp only [Function.comp_apply, admits, allowed_decidedAt place (hl counter.1),
    decide_eq_true_eq, Nat.le_floor_iff positive]
  tauto

variable (hclock : (requests.map RateRequest.now).Pairwise (· ≤ ·))
  (whole : ∀ request ∈ requests, WholeMs request.now)

include hclock whole

omit hl hkeys whole in
theorem sorted_timesOf : (timesOf counter requests).Pairwise (· ≤ ·) :=
  hclock.sublist (List.filter_sublist.map _)

omit hl hkeys hclock in
theorem whole_timesOf : ∀ t ∈ timesOf counter requests, WholeMs t := by
  intro t ht
  obtain ⟨request, hmem, rfl⟩ := List.mem_map.mp ht
  exact whole request (List.mem_filter.mp hmem).1

/-- Within any minute no more than twice the limit is let in. -/
theorem countP_admissions_le (since : ℚ) :
    ((admissions counter (serve limits .empty requests)).countP fun t =>
      since ≤ t ∧ t < since + rateLimitWindowMs : ℕ) ≤ 2 * limits.of counter.1 := by
  have positive : 0 ≤ limits.of counter.1 := le_trans zero_le_one (hl counter.1)
  have covers : ∀ t ∈ timesOf counter requests, since ≤ t →
      since + rateLimitWindowMs ≤ windowEnd t := by
    intro t ht hsince
    rw [windowEnd_of_whole (whole_timesOf counter whole t ht)]
    exact add_le_add_left hsince _
  have bound := countP_places_le ⌊limits.of counter.1⌋₊ (sorted_timesOf counter hclock) covers
  rw [countP_admissions hl hkeys]
  simp only [decide_eq_true_eq]
  calc _ ≤ ((2 * ⌊limits.of counter.1⌋₊ : ℕ) : ℚ) := by exact_mod_cast bound
    _ = 2 * (⌊limits.of counter.1⌋₊ : ℚ) := by push_cast; ring
    _ ≤ 2 * limits.of counter.1 := by linarith [Nat.floor_le positive]

/-- A request is turned away only if the whole limit was let in during the minute before, and is
told to come back within the minute after. -/
theorem turned_away {request : RateRequest} {decision : RateLimitDecision}
    (hm : (request, some decision) ∈ serve limits .empty requests)
    (hc : request.counter = some counter) (hd : decision.allowed = false) :
    limits.of counter.1 < ((admissions counter (serve limits .empty requests)).countP fun t =>
      t ≤ request.now ∧ request.now < t + rateLimitWindowMs : ℕ) + 1 ∧
      1 ≤ decision.resetSeconds ∧ decision.resetSeconds ≤ 60 := by
  have positive : 0 ≤ limits.of counter.1 := le_trans zero_le_one (hl counter.1)
  have times := whole_timesOf counter whole
  have sorted := sorted_timesOf counter hclock
  have member : (request.now, some decision) ∈
      ((serve limits .empty requests).filter (·.1.counter = some counter)).map
        fun x => (x.1.now, x.2) :=
    List.mem_map.mpr ⟨_, List.mem_filter.mpr ⟨hm, decide_eq_true hc⟩, rfl⟩
  rw [filter_serve_eq hl hkeys counter] at member
  obtain ⟨place, hplace, heq⟩ := List.mem_map.mp member
  obtain ⟨htime, hdecision⟩ := Prod.mk.inj heq
  obtain rfl := Option.some.inj hdecision
  have above : ⌊limits.of counter.1⌋₊ < place.number := by
    rw [← not_le, Nat.le_floor_iff positive]
    rw [allowed_decidedAt place (hl counter.1)] at hd
    exact of_decide_eq_false hd
  have before := le_countP_places windowEnd_mono (fun t ht => lt_windowEnd (times t ht)) sorted
    hplace above
  have counted : (places windowEnd none (timesOf counter requests)).countP (fun q =>
        q.number ≤ ⌊limits.of counter.1⌋₊ ∧ q.time ≤ place.time ∧
          place.time < windowEnd q.time) =
      (places windowEnd none (timesOf counter requests)).countP fun q =>
        q.number ≤ ⌊limits.of counter.1⌋₊ ∧ q.time ≤ place.time ∧
          place.time < q.time + rateLimitWindowMs := by
    refine List.countP_congr fun q hq => ?_
    have among := among_of_mem windowEnd (timesOf counter requests) (by simp)
      (List.Subset.refl _) hq
    rw [windowEnd_of_whole (times _ among.time)]
  rw [counted] at before
  refine ⟨?_, (resetSeconds_decidedAt _ times sorted hplace).2⟩
  rw [countP_admissions hl hkeys]
  simp only [decide_eq_true_eq, ← htime]
  calc limits.of counter.1 < (⌊limits.of counter.1⌋₊ : ℚ) + 1 := Nat.lt_floor_add_one _
    _ ≤ _ := add_le_add_left ((Nat.cast_le (α := ℚ)).mpr before) 1

end Counter

end Kyc
