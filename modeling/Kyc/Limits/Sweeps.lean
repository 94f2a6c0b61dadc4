import Kyc.Limits.RateLimiter
import Kyc.Programs.Reactions
import Kyc.Tables.Iteration

/-! # Sweeping the windows of the limiter

The limiter sweeps a map that is full before it counts a request. The sweep leaves room for
one more window, so that the map never outgrows its cap. It drops the windows that came into
the map first, which are those that expire first unless a window was renewed in its place.
-/

namespace Kyc

variable (limits : RateLimits)

/-- The map that a request is counted in: the one before it, swept if it is full. -/
def sweptFor (windows : RateWindows) (now : ℚ) : RateWindows :=
  if windows.rows.length ≥ rateLimitMaxWindows then
    sweepWindows windows now rateLimitMaxWindows
  else windows

def afterRequest (windows : RateWindows) (request : RateRequest) : RateWindows :=
  (rateLimiter limits windows request).2

/-- A request of a limited route opens a window, or is counted in the one of its client. -/
inductive Limited (windows : RateWindows) (request : RateRequest) (route : LimitedRoute) :
    Option RateLimitDecision × RateWindows → Prop
  | opened (elapsed : ∀ window,
        (sweptFor windows request.now).get (windowKey route request.client) = some window →
          window.resetAt ≤ request.now) :
      Limited windows request route
        (some
          { allowed := true
            limit := limits.of route
            remaining := Doubles.rounded (limits.of route - 1)
            resetSeconds := rateLimitWindowMs / 1000 },
          (sweptFor windows request.now).set
            ⟨windowKey route request.client, 1, windowEnd request.now⟩)
  | counted {window : RateWindow}
      (hget : (sweptFor windows request.now).get (windowKey route request.client) = some window)
      (live : request.now < window.resetAt) :
      Limited windows request route
        (some
          { allowed := ((window.count + 1 : ℕ) : ℚ) ≤ limits.of route
            limit := limits.of route
            remaining := max 0 (Doubles.rounded (limits.of route - (window.count + 1 : ℕ)))
            resetSeconds :=
              ⌈Doubles.rounded (Doubles.rounded (window.resetAt - request.now) / 1000)⌉ },
          (sweptFor windows request.now).set { window with count := window.count + 1 })

theorem rateLimiter_of_unlimited {windows : RateWindows} {request : RateRequest}
    (h : ∀ route, limitedRoute request.pathname = some route → limits.of route = 0) :
    rateLimiter limits windows request = (none, windows) := by
  cases hroute : limitedRoute request.pathname with
  | none => rw [rateLimiter, hroute]
  | some route =>
    rw [rateLimiter, hroute]
    exact if_pos (h route hroute)

theorem limited_of_route (windows : RateWindows) {request : RateRequest} {route : LimitedRoute}
    (hroute : limitedRoute request.pathname = some route) (hl : limits.of route ≠ 0) :
    Limited limits windows request route (rateLimiter limits windows request) := by
  simp only [rateLimiter, hroute, if_neg hl]
  rw [← sweptFor]
  cases hget : (sweptFor windows request.now).get (windowKey route request.client) with
  | none => exact .opened fun window h => by rw [hget] at h; cases h
  | some window =>
    dsimp only
    split
    next elapsed =>
      refine .opened fun other h => ?_
      rw [hget] at h
      obtain rfl := Option.some.inj h
      exact elapsed
    next live => exact .counted hget (not_le.mp live)

theorem afterRequest_cases (windows : RateWindows) (request : RateRequest) :
    afterRequest limits windows request = windows ∨
      ∃ window,
        afterRequest limits windows request = (sweptFor windows request.now).set window := by
  by_cases h : ∀ route, limitedRoute request.pathname = some route → limits.of route = 0
  · left
    rw [afterRequest, rateLimiter_of_unlimited limits h]
  · right
    obtain ⟨route, h⟩ := not_forall.mp h
    obtain ⟨hroute, hl⟩ := Classical.not_imp.mp h
    have limited := limited_of_route limits windows hroute hl
    rw [afterRequest]
    generalize rateLimiter limits windows request = result at limited ⊢
    cases limited with
    | opened => exact ⟨_, rfl⟩
    | counted => exact ⟨_, rfl⟩

/-- The two loops of `sweepWindows`, which delete windows from the map that they go over. -/
def sweepLoops (windows : RateWindows) (now : ℚ) (max : ℕ) : List (Option RateWindow) :=
  Iteration.forOf (Iteration.deleteDownTo RateWindow.key max)
    (Iteration.forOf (Iteration.deleteIf RateWindow.key fun window => window.resetAt ≤ now)
      (windows.rows.map some))

theorem dropOldest_eq_drop (max : ℕ) (windows : List RateWindow) :
    dropOldest max windows = windows.drop (windows.length + 1 - max) := by
  induction windows with
  | nil => simp [dropOldest]
  | cons window windows ih =>
    rw [dropOldest]
    by_cases few : (window :: windows).length < max
    · have none_dropped : (window :: windows).length + 1 - max = 0 := by omega
      rw [if_pos few, none_dropped, List.drop_zero]
    · have one_more : (window :: windows).length + 1 - max = windows.length + 1 - max + 1 := by
        rw [List.length_cons] at few ⊢
        omega
      rw [if_neg few, ih, one_more, List.drop_succ_cons]

def liveWindows (windows : RateWindows) (now : ℚ) : List RateWindow :=
  windows.rows.filter fun window => ¬ window.resetAt ≤ now

theorem mem_liveWindows {windows : RateWindows} {now : ℚ} {window : RateWindow} :
    window ∈ liveWindows windows now ↔ window ∈ windows.rows ∧ now < window.resetAt := by
  simp [liveWindows]

theorem rows_sweepWindows (windows : RateWindows) (now : ℚ) (max : ℕ) :
    (sweepWindows windows now max).rows =
      (liveWindows windows now).drop ((liveWindows windows now).length + 1 - max) :=
  dropOldest_eq_drop max (liveWindows windows now)

/-- Deleting windows while going over them comes to the same as going over those that are left. -/
theorem rows_sweepLoops (windows : RateWindows) (now : ℚ) (max : ℕ) :
    Iteration.rows (sweepLoops windows now max) = (sweepWindows windows now max).rows := by
  have all : Iteration.rows (windows.rows.map some) = windows.rows := by
    simp [Iteration.rows, List.reduceOption]
  have live : Iteration.rows
      (Iteration.forOf (Iteration.deleteIf RateWindow.key fun window => window.resetAt ≤ now)
        (windows.rows.map some)) = liveWindows windows now := by
    rw [Iteration.rows_forOf_deleteIf, all, liveWindows]
    · simp only [decide_not]
    · rw [all]
      exact windows.nodup
  rw [sweepLoops, Iteration.rows_forOf_deleteDownTo, live, rows_sweepWindows]
  rw [live]
  exact windows.nodup.sublist (List.filter_sublist.map _)

/-- What a sweep keeps of the windows of a map. -/
structure Sweeps (windows : RateWindows) (now : ℚ) (max : ℕ) (kept : List RateWindow) : Prop where
  fewer : kept.length < max
  live : ∀ window ∈ kept, now < window.resetAt
  sublist : kept.Sublist windows.rows
  /-- A window that has not elapsed is dropped only if there are too many of them. -/
  full : ∀ window ∈ windows.rows, now < window.resetAt → window ∉ kept →
    max ≤ (liveWindows windows now).length ∧ kept.length = max - 1

theorem sweeps_sweepWindows (windows : RateWindows) (now : ℚ) {max : ℕ} (hm : 1 ≤ max) :
    Sweeps windows now max (sweepWindows windows now max).rows := by
  rw [rows_sweepWindows]
  constructor
  case fewer =>
    rw [List.length_drop]
    omega
  case live =>
    intro window hmem
    exact (mem_liveWindows.mp (List.mem_of_mem_drop hmem)).2
  case sublist => exact (List.drop_sublist _ _).trans List.filter_sublist
  case full =>
    intro window hmem hlive hdropped
    have many : max ≤ (liveWindows windows now).length := by
      by_contra few
      have none_dropped : (liveWindows windows now).length + 1 - max = 0 := by omega
      rw [none_dropped, List.drop_zero] at hdropped
      exact hdropped (mem_liveWindows.mpr ⟨hmem, hlive⟩)
    refine ⟨many, ?_⟩
    rw [List.length_drop]
    omega

theorem length_sweptFor_lt (windows : RateWindows) (now : ℚ) :
    (sweptFor windows now).rows.length < rateLimitMaxWindows := by
  rw [sweptFor]
  split
  next => exact (sweeps_sweepWindows windows now (by decide)).fewer
  next room => exact not_le.mp room

theorem length_afterRequest_le {windows : RateWindows}
    (h : windows.rows.length ≤ rateLimitMaxWindows) (request : RateRequest) :
    (afterRequest limits windows request).rows.length ≤ rateLimitMaxWindows := by
  have room := length_sweptFor_lt windows request.now
  rcases afterRequest_cases limits windows request with unlimited | ⟨window, heq⟩
  · rwa [unlimited]
  · rw [heq]
    exact (Table.length_set_le _ window).trans room

/-- The limiter holds no more windows than the cap, and a sweep deletes no more than it has to. -/
theorem limiter_memory_bounded :
    (∀ (limits : RateLimits) (requests : List RateRequest),
      Reactions.Always (afterRequest limits) (·.rows.length ≤ rateLimitMaxWindows) .empty
        requests) ∧
    ∀ (windows : RateWindows) (now : ℚ) (max : ℕ), 1 ≤ max →
      Sweeps windows now max (Iteration.rows (sweepLoops windows now max)) := by
  constructor
  · intro limits requests
    have bounded : ∀ (windows : RateWindows) (request : RateRequest),
        windows.rows.length ≤ rateLimitMaxWindows → True →
          (afterRequest limits windows request).rows.length ≤ rateLimitMaxWindows :=
      fun windows request h _ => length_afterRequest_le limits h request
    refine Reactions.Meets.always (C := fun _ _ => True) bounded (fun _ h => h) (by decide) ?_
    exact Reactions.meets_iff.mpr fun _ _ _ => trivial
  · intro windows now max hm
    rw [rows_sweepLoops]
    exact sweeps_sweepWindows windows now hm

/-- A map in which the window of one client has elapsed, and those of three others have not. -/
def mixedWindows : RateWindows :=
  (((Table.empty.set ⟨"a", 1, 60000⟩).set ⟨"b", 2, 90000⟩).set ⟨"c", 1, 95000⟩).set
    ⟨"d", 3, 100000⟩

/-- Of the three windows that are live one is dropped as well, to leave room for a third. -/
theorem limiter_memory_bounded_mixed :
    Iteration.rows (sweepLoops mixedWindows 60000 3) = [⟨"c", 1, 95000⟩, ⟨"d", 3, 100000⟩] ∧
      Sweeps mixedWindows 60000 3 (Iteration.rows (sweepLoops mixedWindows 60000 3)) :=
  ⟨by decide +kernel, limiter_memory_bounded.2 mixedWindows 60000 3 (by decide)⟩

/-- Of the windows that have not elapsed, a request evicts none that expires after one it keeps. -/
def EvictsInOrder (windows : RateWindows) (request : RateRequest) : Prop :=
  ∀ route, limitedRoute request.pathname = some route → limits.of route ≠ 0 →
    ∀ evicted ∈ liveWindows windows request.now,
      evicted ∉ (sweptFor windows request.now).rows →
      ∀ kept ∈ (sweptFor windows request.now).rows, evicted.resetAt ≤ kept.resetAt

/-- A request that renews a window finds behind it only windows that expire as late as that will. A
map that is full has no window that could be renewed, as the sweep drops it. -/
def RenewsInOrder (windows : RateWindows) (request : RateRequest) : Prop :=
  ∀ route, limitedRoute request.pathname = some route → limits.of route ≠ 0 →
    windows.rows.length < rateLimitMaxWindows →
    ∀ front behind window, windows.rows = front ++ window :: behind →
      window.key = windowKey route request.client → window.resetAt ≤ request.now →
      ∀ other ∈ behind, windowEnd request.now ≤ other.resetAt

/-- The windows expire in the order in which they came into the map. -/
def InOrder (windows : List RateWindow) : Prop :=
  windows.Pairwise fun window other => window.resetAt ≤ other.resetAt

theorem sweptFor_sublist (windows : RateWindows) (now : ℚ) :
    (sweptFor windows now).rows.Sublist windows.rows := by
  rw [sweptFor]
  split
  next => exact (sweeps_sweepWindows windows now (by decide)).sublist
  next => exact .refl _

theorem not_full_of_elapsed {windows : RateWindows} {now : ℚ} {window : RateWindow}
    (hmem : window ∈ (sweptFor windows now).rows) (elapsed : window.resetAt ≤ now) :
    windows.rows.length < rateLimitMaxWindows ∧ sweptFor windows now = windows := by
  rw [sweptFor] at hmem ⊢
  split at hmem
  next =>
    have live := (sweeps_sweepWindows windows now (by decide)).live window hmem
    exact absurd live (not_lt.mpr elapsed)
  next room => exact ⟨not_le.mp room, if_neg room⟩

theorem evicts_of_inOrder {windows : RateWindows} (h : InOrder windows.rows)
    (request : RateRequest) : EvictsInOrder limits windows request := by
  intro route _ _ evicted hlive hevicted kept hkept
  rw [sweptFor] at hevicted hkept
  split at hevicted
  next full =>
    rw [if_pos full, rows_sweepWindows] at hkept
    rw [rows_sweepWindows] at hevicted
    have inOrder : InOrder (liveWindows windows request.now) := h.sublist List.filter_sublist
    set dropped := (liveWindows windows request.now).length + 1 - rateLimitMaxWindows
    rw [← List.take_append_drop dropped (liveWindows windows request.now)] at hlive inOrder
    have front := (List.mem_append.mp hlive).resolve_right hevicted
    exact (List.pairwise_append.mp inOrder).2.2 evicted front kept hkept
  next => exact absurd (mem_liveWindows.mp hlive).1 hevicted

theorem InOrder.replace {front behind : List RateWindow} {old window : RateWindow}
    (h : InOrder (front ++ old :: behind))
    (before : ∀ other ∈ front, other.resetAt ≤ window.resetAt)
    (after : ∀ other ∈ behind, window.resetAt ≤ other.resetAt) :
    InOrder (front ++ window :: behind) := by
  obtain ⟨hfront, hbehind, across⟩ := List.pairwise_append.mp h
  refine List.pairwise_append.mpr ⟨hfront, ?_, ?_⟩
  · exact List.pairwise_cons.mpr ⟨after, (List.pairwise_cons.mp hbehind).2⟩
  · intro first hfirst other hother
    rcases List.mem_cons.mp hother with rfl | hother
    · exact before first hfirst
    · exact across first hfirst other (List.mem_cons_of_mem old hother)

theorem InOrder.append {windows : List RateWindow} (h : InOrder windows) {window : RateWindow}
    (before : ∀ other ∈ windows, other.resetAt ≤ window.resetAt) :
    InOrder (windows ++ [window]) := by
  refine List.pairwise_append.mpr ⟨h, List.pairwise_singleton _ _, ?_⟩
  intro first hfirst other hother
  rw [List.mem_singleton.mp hother]
  exact before first hfirst

/-- The windows are in order, and none lasts longer than one that opens now. -/
structure Ordered (windows : RateWindows) (now : ℚ) : Prop where
  inOrder : InOrder windows.rows
  bounded : ∀ window ∈ windows.rows, window.resetAt ≤ windowEnd now

theorem Ordered.sweptFor {windows : RateWindows} {now : ℚ} (h : Ordered windows now) :
    Ordered (sweptFor windows now) now where
  inOrder := h.inOrder.sublist (sweptFor_sublist windows now)
  bounded window hmem := h.bounded window ((sweptFor_sublist windows now).subset hmem)

theorem Ordered.later {windows : RateWindows} {now now' : ℚ} (h : Ordered windows now)
    (hnow : now ≤ now') : Ordered windows now' where
  inOrder := h.inOrder
  bounded window hmem := (h.bounded window hmem).trans (windowEnd_mono hnow)

section Sets

variable {windows : RateWindows} {window : RateWindow} {now : ℚ}

theorem Ordered.opened (h : Ordered windows now) (hget : windows.get window.key = none)
    (lasts : window.resetAt = windowEnd now) : Ordered (windows.set window) now := by
  constructor
  · rw [Table.rows_set_new hget]
    exact h.inOrder.append fun other hmem => (h.bounded other hmem).trans_eq lasts.symm
  · intro other hmem
    rcases Table.mem_set hmem with rfl | hmem
    · exact lasts.le
    · exact h.bounded other hmem

theorem Ordered.replace {front behind : List RateWindow} {old : RateWindow}
    (h : Ordered windows now) (hrows : windows.rows = front ++ old :: behind)
    (hkey : old.key = window.key) (bound : window.resetAt ≤ windowEnd now)
    (before : ∀ other ∈ front, other.resetAt ≤ window.resetAt)
    (after : ∀ other ∈ behind, window.resetAt ≤ other.resetAt) :
    Ordered (windows.set window) now := by
  have inOrder := h.inOrder
  rw [hrows] at inOrder
  constructor
  · rw [Table.rows_set_middle hrows hkey]
    exact inOrder.replace before after
  · intro other hmem
    rcases Table.mem_set hmem with rfl | hmem
    · exact bound
    · exact h.bounded other hmem

theorem Ordered.count (h : Ordered windows now) (hmem : window ∈ windows.rows) (count : ℕ) :
    Ordered (windows.set { window with count }) now := by
  obtain ⟨front, behind, hrows⟩ := List.append_of_mem hmem
  have inOrder := h.inOrder
  rw [hrows] at inOrder
  obtain ⟨-, later, across⟩ := List.pairwise_append.mp inOrder
  refine h.replace hrows rfl (h.bounded window hmem) (fun other hother => ?_) ?_
  · exact across other hother window List.mem_cons_self
  · exact (List.pairwise_cons.mp later).1

end Sets

/-- A request that renews no window out of order keeps the order. -/
theorem Ordered.afterRequest {windows : RateWindows} {request : RateRequest}
    (h : Ordered windows request.now) (renews : RenewsInOrder limits windows request) :
    Ordered (afterRequest limits windows request) request.now := by
  by_cases hunlimited : ∀ route, limitedRoute request.pathname = some route → limits.of route = 0
  · rwa [Kyc.afterRequest, rateLimiter_of_unlimited limits hunlimited]
  · obtain ⟨route, hlimited⟩ := not_forall.mp hunlimited
    obtain ⟨hroute, hl⟩ := Classical.not_imp.mp hlimited
    have renews := renews route hroute hl
    have swept := h.sweptFor
    have limited := limited_of_route limits windows hroute hl
    rw [Kyc.afterRequest]
    generalize rateLimiter limits windows request = result at limited ⊢
    cases limited with
    | opened elapsed =>
      set window : RateWindow :=
        ⟨windowKey route request.client, 1, windowEnd request.now⟩ with hwindow
      cases hget : (Kyc.sweptFor windows request.now).get window.key with
      | none => exact swept.opened hget rfl
      | some old =>
        obtain ⟨hold, hkey⟩ := Table.get_eq_some.mp hget
        obtain ⟨room, hswept⟩ := not_full_of_elapsed hold (elapsed old hget)
        rw [hswept] at hold ⊢
        obtain ⟨front, behind, hrows⟩ := List.append_of_mem hold
        refine h.replace hrows hkey le_rfl (fun other hmem => ?_) ?_
        · exact h.bounded other (by rw [hrows]; exact List.mem_append_left _ hmem)
        · exact renews room front behind old hrows hkey (elapsed old hget)
    | counted hget => exact swept.count (Table.get_eq_some.mp hget).1 _

section Flood

variable {limits}

theorem rows_afterRequest_new {windows : RateWindows} {client : String} (now : ℚ)
    (hl : limits.graphql ≠ 0) (room : windows.rows.length < rateLimitMaxWindows)
    (hnew : ∀ window ∈ windows.rows, window.key ≠ windowKey .graphql client) :
    (afterRequest limits windows ⟨"/graphql", client, now⟩).rows =
      windows.rows ++ [⟨windowKey .graphql client, 1, windowEnd now⟩] := by
  have swept : sweptFor windows now = windows := if_neg (not_le.mpr room)
  have hnone : windows.get (windowKey .graphql client) = none := Table.get_eq_none.mpr hnew
  have hroute : limitedRoute "/graphql" = some .graphql := by decide
  have limited : Limited limits windows ⟨"/graphql", client, now⟩ .graphql _ :=
    limited_of_route limits windows hroute hl
  rw [afterRequest]
  generalize rateLimiter limits windows ⟨"/graphql", client, now⟩ = result at limited ⊢
  cases limited with
  | opened =>
    dsimp only
    rw [swept]
    exact Table.rows_set_new hnone
  | counted hget =>
    rw [swept, hnone] at hget
    cases hget

theorem renewsInOrder_of_new {windows : RateWindows} {client : String} (now : ℚ)
    (hnew : ∀ window ∈ windows.rows, window.key ≠ windowKey .graphql client) :
    RenewsInOrder limits windows ⟨"/graphql", client, now⟩ := by
  intro route hroute _ _ front behind window hrows hkey
  have graphql : limitedRoute "/graphql" = some .graphql := by decide
  obtain rfl : LimitedRoute.graphql = route := Option.some.inj (graphql.symm.trans hroute)
  refine absurd hkey (hnew window ?_)
  rw [hrows]
  exact List.mem_append_right front List.mem_cons_self

/-- Requests of clients that have no windows yet fill the map, and renew none. -/
theorem run_new {clients : List String} (now : ℚ) (hl : limits.graphql ≠ 0)
    (distinct : clients.Nodup) {windows : RateWindows}
    (room : windows.rows.length + clients.length ≤ rateLimitMaxWindows)
    (hnew : ∀ window ∈ windows.rows, ∀ client ∈ clients, window.key ≠ windowKey .graphql client) :
    (Reactions.run (afterRequest limits) windows
      (clients.map fun client => ⟨"/graphql", client, now⟩)).rows =
        (windows.rows ++ clients.map fun client =>
          ⟨windowKey .graphql client, 1, windowEnd now⟩) ∧
      Reactions.Meets (afterRequest limits) (RenewsInOrder limits) windows
        (clients.map fun client => ⟨"/graphql", client, now⟩) := by
  induction clients generalizing windows with
  | nil => exact ⟨(List.append_nil _).symm, trivial⟩
  | cons client clients ih =>
    obtain ⟨fresh, distinct⟩ := List.nodup_cons.mp distinct
    have hfirst := fun window hmem => hnew window hmem client List.mem_cons_self
    rw [List.length_cons] at room
    have first := rows_afterRequest_new now hl (by omega) hfirst
    have later : ∀ window ∈ (afterRequest limits windows ⟨"/graphql", client, now⟩).rows,
        ∀ other ∈ clients, window.key ≠ windowKey .graphql other := by
      intro window hmem other hother
      rw [first] at hmem
      rcases List.mem_append.mp hmem with hmem | hmem
      · exact hnew window hmem other (List.mem_cons_of_mem client hother)
      · rw [List.mem_singleton.mp hmem]
        intro hkey
        exact fresh ((windowKey_inj hkey).2 ▸ hother)
    have size : (afterRequest limits windows ⟨"/graphql", client, now⟩).rows.length +
        clients.length ≤ rateLimitMaxWindows := by
      rw [first, List.length_append, List.length_singleton]
      omega
    obtain ⟨rows, renews⟩ := ih distinct size later
    refine ⟨?_, renewsInOrder_of_new now hfirst, renews⟩
    rw [List.map_cons, Reactions.run, List.foldl_cons, ← Reactions.run, rows, first,
      List.append_assoc]
    rfl

/-- Clients of a flood, which nothing should count one by one. -/
@[irreducible] def floodClients (n : ℕ) : List String :=
  (List.range n).map fun i => String.ofList (List.replicate (i + 1) 'x')

theorem length_floodClients (n : ℕ) : (floodClients n).length = n := by
  rw [floodClients, List.length_map, List.length_range]

theorem nodup_floodClients (n : ℕ) : (floodClients n).Nodup := by
  rw [floodClients]
  refine List.Nodup.map (fun i j h => ?_) List.nodup_range
  have lengths := congrArg (·.toList.length) h
  simpa using lengths

theorem key_ne_of_flood {name client : String} (hname : name.toList.head? ≠ some 'x') {n : ℕ}
    (hc : client ∈ floodClients n) : windowKey .graphql name ≠ windowKey .graphql client := by
  rw [floodClients] at hc
  obtain ⟨i, -, rfl⟩ := List.mem_map.mp hc
  intro heq
  apply hname
  rw [(windowKey_inj heq).2]
  simp [List.replicate_succ]

def flooded (before : List RateRequest) (n : ℕ) (now : ℚ) : List RateRequest :=
  before ++ (floodClients n).map (⟨"/graphql", ·, now⟩)

/-- The map that a flood leaves behind the windows of other clients. -/
theorem rows_flooded {before : List RateRequest} {rows : List RateWindow} (n : ℕ) (now : ℚ)
    (hrows : (Reactions.run (afterRequest ⟨1, 1, 1, 1⟩) .empty before).rows = rows)
    (room : rows.length + n ≤ rateLimitMaxWindows)
    (hother : ∀ window ∈ rows, ∃ name : String, name.toList.head? ≠ some 'x' ∧
      window.key = windowKey .graphql name) :
    (Reactions.run (afterRequest ⟨1, 1, 1, 1⟩) .empty (flooded before n now)).rows =
        (rows ++ (floodClients n).map fun client =>
          ⟨windowKey .graphql client, 1, windowEnd now⟩) ∧
      Reactions.Meets (afterRequest ⟨1, 1, 1, 1⟩) (RenewsInOrder ⟨1, 1, 1, 1⟩)
        (Reactions.run (afterRequest ⟨1, 1, 1, 1⟩) .empty before)
        ((floodClients n).map (⟨"/graphql", ·, now⟩)) := by
  have limited : (RateLimits.mk 1 1 1 1).graphql ≠ 0 := by decide
  have fresh : ∀ window ∈ (Reactions.run (afterRequest ⟨1, 1, 1, 1⟩) .empty before).rows,
      ∀ client ∈ floodClients n, window.key ≠ windowKey .graphql client := by
    intro window hmem client hclient
    rw [hrows] at hmem
    obtain ⟨name, hname, hkey⟩ := hother window hmem
    rw [hkey]
    exact key_ne_of_flood hname hclient
  have size : (Reactions.run (afterRequest ⟨1, 1, 1, 1⟩) .empty before).rows.length +
      (floodClients n).length ≤ rateLimitMaxWindows := by
    rwa [hrows, length_floodClients]
  obtain ⟨run, renews⟩ := run_new now limited (nodup_floodClients n) size fresh
  rw [flooded, Reactions.run_append, run, hrows]
  exact ⟨rfl, renews⟩

theorem rows_sweptFor_of_full {windows : RateWindows} (now : ℚ)
    (size : windows.rows.length = rateLimitMaxWindows)
    (live : ∀ window ∈ windows.rows, now < window.resetAt) :
    liveWindows windows now = windows.rows ∧ (sweptFor windows now).rows = windows.rows.drop 1 := by
  have all : liveWindows windows now = windows.rows := by
    rw [liveWindows, List.filter_eq_self]
    intro window hmem
    simpa using live window hmem
  refine ⟨all, ?_⟩
  rw [sweptFor, if_pos size.ge, rows_sweepWindows, all, size]
  rfl

/-- Requests before a flood, in the order of the clock, and one after it. -/
theorem clock_flooded (before : List RateRequest) (n : ℕ) (client : String) (now : ℚ)
    (sorted : (before.map RateRequest.now).Pairwise (· ≤ ·))
    (early : ∀ request ∈ before, request.now ≤ now) :
    ((flooded before n now ++ [RateRequest.mk "/graphql" client now]).map
      RateRequest.now).Pairwise (· ≤ ·) := by
  have flood : ∀ request ∈ (floodClients n).map fun client =>
      (RateRequest.mk "/graphql" client now), request.now = now := by
    intro request hmem
    obtain ⟨client, -, rfl⟩ := List.mem_map.mp hmem
    rfl
  rw [List.pairwise_map] at sorted ⊢
  rw [flooded, List.pairwise_append, List.pairwise_append]
  refine ⟨⟨sorted, ?_, ?_⟩, List.pairwise_singleton _ _, ?_⟩
  · refine List.pairwise_of_forall_mem_list fun first hfirst next hnext => ?_
    rw [flood first hfirst, flood next hnext]
  · intro first hfirst next hnext
    rw [flood next hnext]
    exact early first hfirst
  · intro first hfirst next hnext
    rw [List.mem_singleton.mp hnext]
    rcases List.mem_append.mp hfirst with hfirst | hfirst
    · exact early first hfirst
    · exact (flood first hfirst).le

end Flood

/-- As long as no window is renewed in front of one that expires before it will, a sweep drops the
windows that expire first. -/
theorem sweep_evicts_in_order (limits : RateLimits) (requests : List RateRequest)
    (hclock : (requests.map RateRequest.now).Pairwise (· ≤ ·))
    (renews : Reactions.Meets (afterRequest limits) (RenewsInOrder limits) .empty requests) :
    Reactions.Meets (afterRequest limits) (EvictsInOrder limits) .empty requests := by
  suffices ∀ windows, (∀ request ∈ requests, Ordered windows request.now) →
      Reactions.Meets (afterRequest limits) (RenewsInOrder limits) windows requests →
      Reactions.Meets (afterRequest limits) (EvictsInOrder limits) windows requests by
    refine this .empty (fun _ _ => ⟨.nil, fun _ hmem => ?_⟩) renews
    exact absurd hmem List.not_mem_nil
  clear renews
  induction requests with
  | nil => exact fun _ _ _ => trivial
  | cons request requests ih =>
    intro windows ordered ⟨renews, rest⟩
    obtain ⟨later, hclock⟩ := List.pairwise_cons.mp hclock
    have first := ordered request List.mem_cons_self
    refine ⟨evicts_of_inOrder limits first.inOrder request, ih hclock _ (fun next hnext => ?_) rest⟩
    exact (first.afterRequest limits renews).later (later next.now (List.mem_map_of_mem hnext))

def returning : List RateRequest := [⟨"/graphql", "a", 0⟩, ⟨"/graphql", "a", 60000⟩]

def returningRequests : List RateRequest := flooded returning 9999 90000

/-- The next client makes the limiter drop the window that was renewed, which expires first. -/
theorem sweep_evicts_in_order_flood :
    (∃ windows, windows = Reactions.run (afterRequest ⟨1, 1, 1, 1⟩) .empty returningRequests ∧
      windows.rows.length = rateLimitMaxWindows ∧
      ⟨"graphql:a", 1, 120000⟩ ∈ liveWindows windows 90000 ∧
      ⟨"graphql:a", 1, 120000⟩ ∉ (sweptFor windows 90000).rows) ∧
    Reactions.Meets (afterRequest ⟨1, 1, 1, 1⟩) (EvictsInOrder ⟨1, 1, 1, 1⟩) .empty
      (returningRequests ++ [⟨"/graphql", "y", 90000⟩]) := by
  have start : (Reactions.run (afterRequest ⟨1, 1, 1, 1⟩) .empty returning).rows =
      [⟨"graphql:a", 1, 120000⟩] := by
    decide +kernel
  obtain ⟨rows, flood⟩ := rows_flooded 9999 90000 start (by decide)
    fun window hmem => ⟨"a", by decide, by rw [List.mem_singleton.mp hmem]; decide⟩
  have reset : windowEnd 90000 = 150000 := by decide +kernel
  rw [reset, ← returningRequests] at rows
  have size : (Reactions.run (afterRequest ⟨1, 1, 1, 1⟩) .empty returningRequests).rows.length =
      rateLimitMaxWindows := by
    rw [rows, List.length_append, List.length_map, length_floodClients]
    rfl
  refine ⟨⟨_, rfl, size, ?_⟩, sweep_evicts_in_order _ _ ?_ ?_⟩
  · generalize Reactions.run _ _ _ = windows at rows size
    have ⟨live, swept⟩ := rows_sweptFor_of_full 90000 size fun window hmem => by
      rw [rows] at hmem
      simp only [List.cons_append, List.nil_append, List.mem_cons, List.mem_map] at hmem
      obtain rfl | ⟨client, -, rfl⟩ := hmem <;> norm_num
    have distinct := windows.nodup.of_map
    rw [rows] at distinct live swept
    rw [live, swept]
    exact ⟨List.mem_cons_self, (List.nodup_cons.mp distinct).1⟩
  · exact clock_flooded returning 9999 "y" 90000 (by decide +kernel) (by decide +kernel)
  · rw [Reactions.meets_append_iff, returningRequests, flooded, Reactions.meets_append_iff,
      ← flooded, ← returningRequests]
    refine ⟨⟨⟨?_, ?_, trivial⟩, flood⟩, ?_, trivial⟩
    · intro _ _ _ _ front behind window hrows
      exact absurd hrows (by simp)
    · intro _ _ _ _ front behind window hrows _ _ other hother
      have alone : (front ++ window :: behind).length = 1 := by
        rw [← hrows]
        decide +kernel
      have none_behind : behind = [] := by
        rw [List.length_append, List.length_cons] at alone
        exact List.eq_nil_of_length_eq_zero (by omega)
      rw [none_behind] at hother
      exact absurd hother List.not_mem_nil
    · intro _ _ _ room
      rw [size] at room
      exact absurd room (lt_irrefl _)

def overtaking : List RateRequest :=
  [⟨"/graphql", "a", 0⟩, ⟨"/graphql", "b", 30000⟩, ⟨"/graphql", "a", 60000⟩]

def floodRequests : List RateRequest :=
  flooded overtaking 9998 60000 ++ [⟨"/graphql", "y", 60000⟩]

/-- The window that came first is evicted, though the one behind it expires earlier. -/
theorem not_evicts_in_order_of_flood :
    (floodRequests.map RateRequest.now).Pairwise (· ≤ ·) ∧
      ¬ Reactions.Meets (afterRequest ⟨1, 1, 1, 1⟩) (EvictsInOrder ⟨1, 1, 1, 1⟩) .empty
        floodRequests := by
  refine ⟨clock_flooded overtaking 9998 "y" 60000 (by decide +kernel) (by decide +kernel),
    fun h => ?_⟩
  obtain ⟨evicts, -⟩ := (Reactions.meets_append_iff.mp h).2
  have start : (Reactions.run (afterRequest ⟨1, 1, 1, 1⟩) .empty overtaking).rows =
      [⟨"graphql:a", 1, 120000⟩, ⟨"graphql:b", 1, 90000⟩] := by
    decide +kernel
  have others : ∀ window ∈ [(⟨"graphql:a", 1, 120000⟩ : RateWindow), ⟨"graphql:b", 1, 90000⟩],
      ∃ name : String, name.toList.head? ≠ some 'x' ∧ window.key = windowKey .graphql name := by
    intro window hmem
    rcases List.mem_cons.mp hmem with rfl | hmem
    · exact ⟨"a", by decide, by decide⟩
    · exact ⟨"b", by decide, by rw [List.mem_singleton.mp hmem]; decide⟩
  have reset : windowEnd 60000 = 120000 := by decide +kernel
  have hrows := (rows_flooded 9998 60000 start (by decide) others).1
  rw [reset] at hrows
  generalize Reactions.run _ _ _ = windows at evicts hrows
  have size : windows.rows.length = rateLimitMaxWindows := by
    rw [hrows, List.length_append, List.length_map, length_floodClients]
    rfl
  have ⟨live, swept⟩ := rows_sweptFor_of_full 60000 size fun window hmem => by
    rw [hrows] at hmem
    simp only [List.cons_append, List.nil_append, List.mem_cons, List.mem_map] at hmem
    obtain rfl | rfl | ⟨client, -, rfl⟩ := hmem <;> norm_num
  have distinct := windows.nodup.of_map
  rw [hrows] at distinct live swept
  have wrong := evicts .graphql (by decide) (by decide) ⟨"graphql:a", 1, 120000⟩
    (by rw [live]; exact List.mem_cons_self) (by rw [swept]; exact (List.nodup_cons.mp distinct).1)
    ⟨"graphql:b", 1, 90000⟩ (by rw [swept]; exact List.mem_cons_self)
  norm_num at wrong

end Kyc
