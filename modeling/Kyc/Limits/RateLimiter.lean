import Kyc.Limits.FixedWindow
import Kyc.Numbers.Order
import Kyc.Tables.Keyed
import Mathlib.Data.List.Dedup

/-! # The rate limiter

`createRateLimiter` counts the requests of every client on every limited route in a map of
windows, which it sweeps when the map is full. As long as it is not, each client of a
route is counted in fixed windows of its own. Times and limits are doubles: what is computed
from them is rounded, and exact on a clock of whole milliseconds.
-/

namespace Kyc

inductive LimitedRoute
  | token
  | hosted
  | webhook
  | graphql
  deriving DecidableEq, Repr

def LimitedRoute.name : LimitedRoute → String
  | token => "token"
  | hosted => "hosted"
  | webhook => "webhook"
  | graphql => "graphql"

def limitedRoute (pathname : String) : Option LimitedRoute :=
  if pathname = "/verification/token" then some .token
  else if "/hosted/".toList <+: pathname.toList then some .hosted
  else if "/webhook/kyc/".toList <+: pathname.toList then some .webhook
  else if pathname = "/graphql" then some .graphql
  else none

structure RateLimits where
  token : ℚ
  hosted : ℚ
  webhook : ℚ
  graphql : ℚ
  deriving DecidableEq, Repr

/-- `limits[route]`. -/
def RateLimits.of (limits : RateLimits) : LimitedRoute → ℚ
  | .token => limits.token
  | .hosted => limits.hosted
  | .webhook => limits.webhook
  | .graphql => limits.graphql

/-- `RATE_LIMIT_WINDOW_MS`. -/
def rateLimitWindowMs : ℚ := 60000

/-- When a window that opens now is over: `current + RATE_LIMIT_WINDOW_MS`. -/
def windowEnd (current : ℚ) : ℚ := Doubles.rounded (current + rateLimitWindowMs)

/-- `RATE_LIMIT_MAX_WINDOWS`. -/
def rateLimitMaxWindows : ℕ := 10000

structure RateWindow where
  key : String
  count : ℕ
  resetAt : ℚ
  deriving DecidableEq, Repr

/-- The map of windows, in insertion order. -/
abbrev RateWindows := Table RateWindow.key

/-- Drop the oldest windows until there are fewer than `max`. -/
def dropOldest (max : ℕ) : List RateWindow → List RateWindow
  | [] => []
  | window :: windows =>
    if (window :: windows).length < max then window :: windows else dropOldest max windows

theorem dropOldest_sublist (max : ℕ) (windows : List RateWindow) :
    (dropOldest max windows).Sublist windows := by
  induction windows with
  | nil => exact .slnil
  | cons window windows ih =>
    rw [dropOldest]
    split
    · exact .refl _
    · exact ih.cons window

/-- Drop every window that has elapsed, and if that is not enough the oldest ones. -/
def sweepWindows (windows : RateWindows) (now : ℚ) (max : ℕ) : RateWindows :=
  let live := windows.filter fun window => ¬ window.resetAt ≤ now
  ⟨dropOldest max live.rows, live.nodup.sublist ((dropOldest_sublist max live.rows).map _)⟩

structure RateLimitDecision where
  allowed : Bool
  limit : ℚ
  remaining : ℚ
  resetSeconds : ℚ
  deriving DecidableEq, Repr

structure RateRequest where
  pathname : String
  client : String
  now : ℚ
  deriving DecidableEq, Repr

def windowKey (route : LimitedRoute) (client : String) : String := route.name ++ ":" ++ client

variable (limits : RateLimits)

/-- The function that `createRateLimiter` returns, on its map. -/
def rateLimiter (windows : RateWindows) (request : RateRequest) :
    Option RateLimitDecision × RateWindows :=
  match limitedRoute request.pathname with
  | none => (none, windows)
  | some route =>
    if limits.of route = 0 then (none, windows)
    else
      let limit := limits.of route
      let key := windowKey route request.client
      let current := request.now
      let swept :=
        if windows.rows.length ≥ rateLimitMaxWindows then
          sweepWindows windows current rateLimitMaxWindows
        else windows
      let opened : Option RateLimitDecision × RateWindows :=
        (some
          { allowed := true
            limit
            remaining := Doubles.rounded (limit - 1)
            resetSeconds := rateLimitWindowMs / 1000 },
          swept.set ⟨key, 1, windowEnd current⟩)
      match swept.get key with
      | none => opened
      | some window =>
        if window.resetAt ≤ current then opened
        else
          (some
            { allowed := ((window.count + 1 : ℕ) : ℚ) ≤ limit
              limit
              remaining := max 0 (Doubles.rounded (limit - (window.count + 1 : ℕ)))
              resetSeconds :=
                ⌈Doubles.rounded (Doubles.rounded (window.resetAt - current) / 1000)⌉ },
            swept.set { window with count := window.count + 1 })

def serve : RateWindows → List RateRequest → List (RateRequest × Option RateLimitDecision)
  | _, [] => []
  | windows, request :: requests =>
    (request, (rateLimiter limits windows request).1) ::
      serve (rateLimiter limits windows request).2 requests

def RateRequest.counter (request : RateRequest) : Option (LimitedRoute × String) :=
  (limitedRoute request.pathname).map (·, request.client)

def timesOf (counter : LimitedRoute × String) (requests : List RateRequest) : List ℚ :=
  (requests.filter (·.counter = some counter)).map (·.now)

def decisionsOf (counter : LimitedRoute × String) (requests : List RateRequest) :
    List (Option RateLimitDecision) :=
  ((serve limits .empty requests).filter (·.1.counter = some counter)).map Prod.snd

open FixedWindow

/-- The decision on a request, by where it stands in its window. -/
def decidedAt (limit : ℚ) (place : Place ℚ) : RateLimitDecision :=
  if place.number = 1 then
    { allowed := true
      limit
      remaining := Doubles.rounded (limit - 1)
      resetSeconds := rateLimitWindowMs / 1000 }
  else
    { allowed := (place.number : ℚ) ≤ limit
      limit
      remaining := max 0 (Doubles.rounded (limit - place.number))
      resetSeconds :=
        ⌈Doubles.rounded (Doubles.rounded (windowEnd place.opened - place.time) / 1000)⌉ }

/-- The decision on a request without any rounding. -/
def decisionAt (limit : ℚ) (place : Place ℚ) : RateLimitDecision where
  allowed := (place.number : ℚ) ≤ limit
  limit := limit
  remaining := max 0 (limit - place.number)
  resetSeconds := ⌈(place.opened + rateLimitWindowMs - place.time) / 1000⌉

theorem LimitedRoute.head?_name_inj {route route' : LimitedRoute}
    (h : route.name.toList.head? = route'.name.toList.head?) : route = route' := by
  cases route <;> cases route' <;> first | rfl | exact absurd h (by decide)

theorem windowKey_inj {route route' : LimitedRoute} {client client' : String}
    (h : windowKey route client = windowKey route' client') :
    route = route' ∧ client = client' := by
  have hhead : ∀ (route : LimitedRoute) (client : String),
      (windowKey route client).toList.head? = route.name.toList.head? := by
    intro route client
    cases route <;> simp [windowKey, LimitedRoute.name, String.toList_append]
  obtain rfl : route = route' := by
    apply LimitedRoute.head?_name_inj
    rw [← hhead route client, ← hhead route' client', h]
  exact ⟨rfl, String.append_right_inj _ |>.mp h⟩

/-- The window of the map that a client of a route is counted in, after its last request. -/
def windowOf (counter : LimitedRoute × String) (place : Place ℚ) : RateWindow :=
  ⟨windowKey counter.1 counter.2, place.number, windowEnd place.opened⟩

/-- The map holds the window of every client and route that has one. -/
structure Mirrors (windows : RateWindows) (last : LimitedRoute × String → Option (Place ℚ)) :
    Prop where
  get : ∀ counter,
    windows.get (windowKey counter.1 counter.2) = (last counter).map (windowOf counter)
  positive : ∀ counter, ∀ place ∈ last counter, 1 ≤ place.number

theorem mirrors_empty : Mirrors .empty fun _ => none where
  get _ := rfl
  positive _ _ h := nomatch h

section Steps

variable {limits} {windows : RateWindows} {last : LimitedRoute × String → Option (Place ℚ)}
  {counter : LimitedRoute × String} {request : RateRequest}

theorem Mirrors.set (hm : Mirrors windows last) (counter : LimitedRoute × String)
    {place : Place ℚ} (hp : 1 ≤ place.number) :
    Mirrors (windows.set (windowOf counter place)) (Function.update last counter (some place)) := by
  constructor <;> intro counter' <;> by_cases hc : counter' = counter
  · subst hc
    rw [Function.update_self]
    exact Table.get_set_self windows (windowOf counter' place)
  · rw [Function.update_of_ne hc, ← hm.get counter']
    apply Table.get_set_of_ne
    intro hkey
    obtain ⟨hroute, hclient⟩ := windowKey_inj hkey
    exact hc (Prod.ext hroute hclient)
  · subst hc
    rw [Function.update_self]
    rintro _ ⟨⟩
    exact hp
  · rw [Function.update_of_ne hc]
    exact hm.positive counter'

theorem rateLimiter_of_none (hc : request.counter = none) :
    rateLimiter limits windows request = (none, windows) := by
  have hroute : limitedRoute request.pathname = none := Option.map_eq_none_iff.mp hc
  rw [rateLimiter, hroute]

/-- While the map is not full, a request is decided on by its place in the window of its client, and
that window is written back. -/
theorem rateLimiter_of_counter (hc : request.counter = some counter)
    (hl : limits.of counter.1 ≠ 0) (hsize : windows.rows.length < rateLimitMaxWindows)
    (hm : Mirrors windows last) :
    rateLimiter limits windows request =
      (some (decidedAt (limits.of counter.1)
          (FixedWindow.next windowEnd (last counter) request.now)),
        windows.set (windowOf counter
          (FixedWindow.next windowEnd (last counter) request.now))) := by
  obtain ⟨route, hroute, rfl⟩ := Option.map_eq_some_iff.mp hc
  have hget := hm.get (route, request.client)
  simp only [rateLimiter, hroute, if_neg hl, if_neg (Nat.not_le.mpr hsize), ge_iff_le]
  cases hlast : last (route, request.client) with
  | none =>
    rw [hlast] at hget
    rw [hget, FixedWindow.next]
    rfl
  | some place =>
    rw [hlast] at hget
    rw [hget]
    by_cases helapsed : windowEnd place.opened ≤ request.now
    · rw [FixedWindow.next, if_pos helapsed]
      simp only [Option.map_some, windowOf, if_pos helapsed]
      rfl
    · have later : place.number + 1 ≠ 1 := by
        have := hm.positive _ place hlast
        omega
      rw [FixedWindow.next, if_neg helapsed]
      simp only [Option.map_some, windowOf, if_neg helapsed, decidedAt, if_neg later]

end Steps

section Runs

variable {limits} {touched : List (LimitedRoute × String)}

/-- The windows of the map are those of the given clients and routes. -/
def HeldFor (touched : List (LimitedRoute × String)) (windows : RateWindows) : Prop :=
  ∀ window ∈ windows.rows, ∃ counter ∈ touched, window.key = windowKey counter.1 counter.2

theorem HeldFor.set {windows : RateWindows} (h : HeldFor touched windows)
    {counter : LimitedRoute × String} (hc : counter ∈ touched) (place : Place ℚ) :
    HeldFor touched (windows.set (windowOf counter place)) := by
  intro window hmem
  rcases Table.mem_set hmem with rfl | hmem
  · exact ⟨counter, hc, rfl⟩
  · exact h window hmem

theorem HeldFor.length_le {windows : RateWindows} (h : HeldFor touched windows) :
    windows.rows.length ≤ touched.dedup.length := by
  have hsub : windows.rows.map RateWindow.key ⊆
      touched.dedup.map fun counter => windowKey counter.1 counter.2 := by
    intro key hkey
    obtain ⟨window, hmem, rfl⟩ := List.mem_map.mp hkey
    obtain ⟨counter, hc, heq⟩ := h window hmem
    exact List.mem_map.mpr ⟨counter, List.mem_dedup.mpr hc, heq.symm⟩
  have hlength := (List.subperm_of_subset windows.nodup hsub).length_le
  rwa [List.length_map, List.length_map] at hlength

/-- While the map cannot fill up, the limiter counts every client of a route in fixed windows. -/
theorem serve_refines (hl : ∀ route, limits.of route ≠ 0)
    (htouched : touched.dedup.length < rateLimitMaxWindows) {windows : RateWindows}
    {last : LimitedRoute × String → Option (Place ℚ)} (hm : Mirrors windows last)
    (hh : HeldFor touched windows) {requests : List RateRequest}
    (hr : requests.filterMap RateRequest.counter ⊆ touched) :
    (serve limits windows requests).filterMap (fun x => x.1.counter.map (·, x.2)) =
      (placesOfKinds windowEnd last
        (requests.filterMap fun request => request.counter.map (·, request.now))).map
          fun x => (x.1, some (decidedAt (limits.of x.1.1) x.2)) := by
  induction requests generalizing windows last with
  | nil => rfl
  | cons request requests ih =>
    cases hc : request.counter with
    | none =>
      rw [List.filterMap_cons_none hc] at hr
      rw [serve, rateLimiter_of_none hc, List.filterMap_cons_none (by rw [hc]; rfl),
        List.filterMap_cons_none (by rw [hc]; rfl)]
      exact ih hm hh hr
    | some counter =>
      rw [List.filterMap_cons_some hc] at hr
      obtain ⟨hmem, hr⟩ := List.cons_subset.mp hr
      have hsize : windows.rows.length < rateLimitMaxWindows :=
        Nat.lt_of_le_of_lt hh.length_le htouched
      rw [serve, rateLimiter_of_counter hc (hl counter.1) hsize hm,
        List.filterMap_cons_some (by rw [hc]; rfl), List.filterMap_cons_some (by rw [hc]; rfl),
        placesOfKinds, List.map_cons]
      exact congrArg _ (ih (hm.set _ (one_le_number_next windowEnd _ _)) (hh.set hmem _) hr)

theorem decisionsOf_eq (hl : ∀ route, limits.of route ≠ 0) {requests : List RateRequest}
    (hkeys : (requests.filterMap RateRequest.counter).dedup.length < rateLimitMaxWindows)
    (counter : LimitedRoute × String) :
    decisionsOf limits counter requests =
      (places windowEnd none (timesOf counter requests)).map fun place =>
        some (decidedAt (limits.of counter.1) place) := by
  have refines := serve_refines hl hkeys mirrors_empty (fun _ h => absurd h List.not_mem_nil)
    (List.Subset.refl (requests.filterMap RateRequest.counter))
  rw [decisionsOf, timesOf, ← map_snd_filter_kind, ← map_snd_filter_kind,
    ← placesOfKinds_of_kind windowEnd (fun _ => none), refines, List.filter_map,
    List.map_map, List.map_map]
  apply List.map_congr_left
  intro x hx
  obtain rfl : x.1 = counter := by simpa using (List.mem_filter.mp hx).2
  rfl

end Runs

section Exact

/-- A time in whole milliseconds, as `Date.now` gives it, that is exact with a minute more. -/
def WholeMs (t : ℚ) : Prop := ∃ n : ℤ, |n| < 2 ^ 53 - 60000 ∧ t = n

variable {limit : ℚ} {place : Place ℚ} {times : List ℚ}

theorem windowEnd_mono : Monotone windowEnd := fun _ _ h =>
  Doubles.rounded_mono (add_le_add_left h _)

theorem windowEnd_of_whole {t : ℚ} (h : WholeMs t) : windowEnd t = t + rateLimitWindowMs := by
  obtain ⟨n, hn, rfl⟩ := h
  have sum : (n : ℚ) + rateLimitWindowMs = ((n + 60000 : ℤ) : ℚ) := by
    rw [rateLimitWindowMs]
    push_cast
    rfl
  have small : |n + 60000| < 2 ^ 53 := by
    rw [abs_lt] at hn ⊢
    omega
  rw [windowEnd, sum, Doubles.rounded_intCast small]

theorem lt_windowEnd {t : ℚ} (h : WholeMs t) : t < windowEnd t := by
  rw [windowEnd_of_whole h, rateLimitWindowMs]
  linarith

theorem exists_left (whole : ∀ t ∈ times, WholeMs t) (sorted : times.Pairwise (· ≤ ·))
    (hp : place ∈ places windowEnd none times) :
    ∃ d : ℕ, 0 < d ∧ d ≤ 60000 ∧ windowEnd place.opened - place.time = d ∧
      place.opened + rateLimitWindowMs - place.time = d := by
  have among := among_of_mem windowEnd times (by simp) (List.Subset.refl _) hp
  have within := within_of_mem (fun t ht => lt_windowEnd (whole t ht)) sorted (by simp) hp
  rw [windowEnd_of_whole (whole _ among.opened)] at within ⊢
  obtain ⟨m, -, hm⟩ := whole _ among.opened
  obtain ⟨n, -, hn⟩ := whole _ among.time
  rw [hm, hn, rateLimitWindowMs] at within ⊢
  obtain ⟨low, high⟩ := within
  have low' : m ≤ n := by exact_mod_cast low
  have high' : n < m + 60000 := by exact_mod_cast high
  have value : (m : ℚ) + 60000 - n = ((m + 60000 - n).toNat : ℕ) := by
    rw [← Int.cast_natCast, Int.toNat_of_nonneg (by omega)]
    push_cast
    rfl
  exact ⟨(m + 60000 - n).toNat, by omega, by omega, value, value⟩

theorem max_rounded_sub {n k : ℕ} (hn : n < 2 ^ 53) :
    max 0 (Doubles.rounded ((n : ℚ) - k)) = max 0 ((n : ℚ) - k) := by
  rcases le_total k n with le | le
  · have exact_sub : (n : ℚ) - k = ((n - k : ℕ) : ℚ) := (Nat.cast_sub le).symm
    rw [exact_sub, Doubles.rounded_natCast_of_lt (by omega)]
  · have neg : (n : ℚ) - k ≤ 0 := sub_nonpos.mpr (by exact_mod_cast le)
    have zero : Doubles.rounded ((0 : ℕ) : ℚ) = ((0 : ℕ) : ℚ) :=
      Doubles.rounded_natCast_of_lt (by norm_num)
    rw [Nat.cast_zero] at zero
    rw [max_eq_left neg, max_eq_left ((Doubles.rounded_mono neg).trans_eq zero)]

theorem allowed_decidedAt (place : Place ℚ) (hl : 1 ≤ limit) :
    (decidedAt limit place).allowed = decide ((place.number : ℚ) ≤ limit) := by
  unfold decidedAt
  split
  next first => simp [first, hl]
  next => rfl

/-- On a clock of whole milliseconds a window resets within a minute. -/
theorem resetSeconds_decidedAt (limit : ℚ) (whole : ∀ t ∈ times, WholeMs t)
    (sorted : times.Pairwise (· ≤ ·)) (hp : place ∈ places windowEnd none times) :
    (decidedAt limit place).resetSeconds =
        ⌈(place.opened + rateLimitWindowMs - place.time) / 1000⌉ ∧
      1 ≤ (decidedAt limit place).resetSeconds ∧ (decidedAt limit place).resetSeconds ≤ 60 := by
  obtain ⟨d, pos, most, left, left'⟩ := exists_left whole sorted hp
  have among := among_of_mem windowEnd times (by simp) (List.Subset.refl _) hp
  have seconds : (decidedAt limit place).resetSeconds = ((⌈(d : ℚ) / 1000⌉ : ℤ) : ℚ) := by
    unfold decidedAt
    split
    next first =>
      have minute : (d : ℚ) / 1000 = ((60 : ℤ) : ℚ) := by
        rw [← left', among.first first, add_sub_cancel_left, rateLimitWindowMs]
        norm_num
      rw [minute, Int.ceil_intCast, rateLimitWindowMs]
      norm_num
    next =>
      dsimp only
      rw [left, Doubles.rounded_natCast_of_lt (by omega), Doubles.ceil_rounded_div_thousand most]
  have positive : (0 : ℚ) < (d : ℚ) / 1000 := by positivity
  have low : (1 : ℤ) ≤ ⌈(d : ℚ) / 1000⌉ := Int.one_le_ceil_iff.mpr positive
  have high : ⌈(d : ℚ) / 1000⌉ ≤ (60 : ℤ) := by
    refine Int.ceil_le.mpr ((div_le_iff₀ (by norm_num)).mpr ?_)
    norm_num
    exact most
  rw [seconds, left']
  exact ⟨rfl, by exact_mod_cast low, by exact_mod_cast high⟩

theorem decidedAt_eq (whole : ∀ t ∈ times, WholeMs t) (sorted : times.Pairwise (· ≤ ·))
    (hp : place ∈ places windowEnd none times) {n : ℕ} (least : 1 ≤ n) (most : n < 2 ^ 53) :
    decidedAt (n : ℚ) place = decisionAt (n : ℚ) place := by
  have allowed := allowed_decidedAt place (Nat.one_le_cast.mpr least : 1 ≤ (n : ℚ))
  have reset := (resetSeconds_decidedAt (n : ℚ) whole sorted hp).1
  have remaining : (decidedAt (n : ℚ) place).remaining = max 0 ((n : ℚ) - place.number) := by
    rw [← max_rounded_sub most]
    unfold decidedAt
    split
    next first =>
      have nonneg : (0 : ℚ) ≤ n - (1 : ℕ) := sub_nonneg.mpr (by exact_mod_cast least)
      rw [first, max_eq_right (Doubles.rounded_nonneg nonneg), Nat.cast_one]
    next => rfl
  have same : (decidedAt (n : ℚ) place).limit = n := by
    unfold decidedAt
    split <;> rfl
  cases hd : decidedAt (n : ℚ) place with
  | mk =>
    rw [hd] at allowed reset remaining same
    subst allowed reset remaining same
    rfl

end Exact

/-- The decisions on the requests of a client on a route count them in windows of their own. -/
structure CountsExactly (limits : RateLimits) (requests : List RateRequest)
    (counter : LimitedRoute × String) : Prop where
  windows : ∃ windows, Splits (· + rateLimitWindowMs) windows (timesOf counter requests) ∧
    decisionsOf limits counter requests = (windows.flatMap numbered).map fun place =>
      some (decisionAt (limits.of counter.1) place)
  reset : ∀ decision, some decision ∈ decisionsOf limits counter requests →
    1 ≤ decision.resetSeconds ∧ decision.resetSeconds ≤ 60
  /-- No other history in which the client makes the same requests on the route is decided on
  otherwise. -/
  independent : ∀ requests',
    (requests'.filterMap RateRequest.counter).dedup.length < rateLimitMaxWindows →
    timesOf counter requests' = timesOf counter requests →
    decisionsOf limits counter requests' = decisionsOf limits counter requests

/-- Whatever clients make requests in whatever order, as long as there are fewer of them than the
map holds windows, on a clock of whole milliseconds the limiter counts each of them exactly. -/
theorem rate_limiter_counts_exactly (limits : RateLimits)
    (hl : ∀ route, ∃ n : ℕ, 1 ≤ n ∧ n < 2 ^ 53 ∧ limits.of route = n)
    (requests : List RateRequest) (whole : ∀ request ∈ requests, WholeMs request.now)
    (hclock : (requests.map RateRequest.now).Pairwise (· ≤ ·))
    (hkeys : (requests.filterMap RateRequest.counter).dedup.length < rateLimitMaxWindows)
    (counter : LimitedRoute × String) : CountsExactly limits requests counter := by
  have limited : ∀ route, limits.of route ≠ 0 := by
    intro route
    obtain ⟨n, hn, -, heq⟩ := hl route
    rw [heq]
    exact Nat.cast_ne_zero.mpr (Nat.ne_of_gt hn)
  have sorted : (timesOf counter requests).Pairwise (· ≤ ·) :=
    hclock.sublist (List.filter_sublist.map _)
  have wholeTimes : ∀ t ∈ timesOf counter requests, WholeMs t := by
    intro t ht
    obtain ⟨request, hmem, rfl⟩ := List.mem_map.mp ht
    exact whole request (List.mem_filter.mp hmem).1
  have decisions := decisionsOf_eq limited hkeys counter
  constructor
  · obtain ⟨n, least, most, heq⟩ := hl counter.1
    obtain ⟨windows, hs, hplaces⟩ := exists_splits windowEnd (timesOf counter requests)
    refine ⟨windows, hs.congr fun t ht => windowEnd_of_whole (wholeTimes t ht), ?_⟩
    rw [decisions, ← hplaces]
    refine List.map_congr_left fun place hp => ?_
    rw [heq, decidedAt_eq wholeTimes sorted hp least most]
  · intro decision hd
    rw [decisions] at hd
    obtain ⟨place, hp, heq⟩ := List.mem_map.mp hd
    obtain rfl := Option.some.inj heq
    exact (resetSeconds_decidedAt _ wholeTimes sorted hp).2
  · intro requests' hkeys' htimes
    rw [decisionsOf_eq limited hkeys' counter, htimes, decisions]

def sampleRequests : List RateRequest :=
  [⟨"/graphql", "a", 0⟩, ⟨"/graphql", "b", 10⟩, ⟨"/graphql", "a", 30000⟩, ⟨"/graphql", "a", 30500⟩,
    ⟨"/graphql", "a", 60000⟩]

theorem rate_limiter_counts_exactly_twoClients :
    CountsExactly ⟨2, 2, 2, 2⟩ sampleRequests (.graphql, "a") := by
  have whole : ∀ request ∈ sampleRequests, WholeMs request.now := by
    have times : ∀ request ∈ sampleRequests, request.now = (request.now.num : ℚ) ∧
        |request.now.num| < 2 ^ 53 - 60000 := by
      decide +kernel
    exact fun request hmem => ⟨_, (times request hmem).2, (times request hmem).1⟩
  exact rate_limiter_counts_exactly ⟨2, 2, 2, 2⟩
    (fun route => ⟨2, by decide, by decide, by cases route <;> rfl⟩) sampleRequests whole
    (by decide +kernel) (by decide +kernel) (.graphql, "a")

/-- The third request of the first client is one too many, and the fourth opens a window. -/
example : (decisionsOf ⟨2, 2, 2, 2⟩ (.graphql, "a") sampleRequests) =
    [some ⟨true, 2, 1, 60⟩, some ⟨true, 2, 0, 30⟩, some ⟨false, 2, 0, 30⟩,
      some ⟨true, 2, 1, 60⟩] := by
  decide +kernel

def fractionalRequests : List RateRequest :=
  let now := Doubles.rounded (55361 / 10)
  [⟨"/graphql", "a", now⟩, ⟨"/graphql", "a", now⟩]

/-- Between milliseconds a window may be rounded to last longer than a minute, and what is left of a
limit beyond the 53rd power of two may be rounded as well. -/
theorem not_counts_exactly_of_rounding :
    ((fractionalRequests.map RateRequest.now).Pairwise (· ≤ ·) ∧
      (fractionalRequests.filterMap RateRequest.counter).dedup.length < rateLimitMaxWindows ∧
      ¬ CountsExactly ⟨2, 2, 2, 2⟩ fractionalRequests (.graphql, "a")) ∧
    ¬ CountsExactly ⟨2, 2, 2, 2 ^ 53 + 2⟩ [⟨"/graphql", "a", 0⟩] (.graphql, "a") := by
  refine ⟨⟨by decide +kernel, by decide +kernel, fun h => ?_⟩, fun h => ?_⟩
  · have late : some ⟨true, 2, 0, 61⟩ ∈
        decisionsOf ⟨2, 2, 2, 2⟩ (.graphql, "a") fractionalRequests := by
      decide +kernel
    have bound : (61 : ℚ) ≤ 60 := (h.reset _ late).2
    norm_num at bound
  · obtain ⟨windows, hs, hdecisions⟩ := h.windows
    have times : timesOf (.graphql, "a") [⟨"/graphql", "a", 0⟩] = [0] := by decide +kernel
    have decided : decisionsOf ⟨2, 2, 2, 2 ^ 53 + 2⟩ (.graphql, "a") [⟨"/graphql", "a", 0⟩] =
        [some ⟨true, 2 ^ 53 + 2, 2 ^ 53, 60⟩] := by
      decide +kernel
    rw [times] at hs
    rw [decided] at hdecisions
    generalize hts : ([0] : List ℚ) = ts at hs
    cases hs with
    | nil => cases hts
    | cons inside outside hs =>
      obtain ⟨rfl, hrest⟩ := List.cons.inj hts
      obtain ⟨rfl, rfl⟩ := List.append_eq_nil_iff.mp hrest.symm
      cases hs
      exact absurd hdecisions (by decide +kernel)

end Kyc
