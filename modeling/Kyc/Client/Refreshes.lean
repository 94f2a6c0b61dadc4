import Kyc.Client.Moves
import Kyc.Tables.Keyed

/-! # Superseded token refreshes

A refresh is dispatched for the session at hand, which may be replaced or cleared before
the refresh settles. A token that arrives then is compared with the session it finds; a
failure is not, and fails whatever flow there is.
-/

namespace Kyc.Client

namespace Hook

def Dispatches (p : Platform) (s : Hook) (i : Input) (r : TokenRefresh) : Prop :=
  r ∉ s.refreshes ∧ r ∈ (s.react p i).refreshes

/-- The input leaves the hook without a session, or with a session that was just acquired. -/
def Replaces (p : Platform) (s : Hook) (i : Input) : Prop :=
  (s.react p i).machine.session = none ∨
    ∃ acquired, i = .startSettled (.ok acquired) ∧ s.stage = some .starting ∧ s.mounted

/-- The host, the page and the state see nothing of what happened. -/
structure Unobserved (s s' : Hook) : Prop where
  machine : s'.machine = s.machine
  calls : s'.calls = s.calls
  posts : s'.posts = s.posts

/-- The numbers of the refreshes that are out are handed out, one to each. -/
structure Sequenced (s : Hook) : Prop where
  ordered : s.refreshes.Pairwise (·.seq < ·.seq)
  issued : ∀ r ∈ s.refreshes, r.seq ≤ s.seq

section Sequenced

variable {p : Platform} {s s' : Hook}

theorem Move.sequenced (h : s.Move s') (hs : s.Sequenced) : s'.Sequenced := by
  cases h with
  | dispatch identity allowedOrigin =>
    constructor
    · refine List.pairwise_append.mpr ⟨hs.ordered, List.pairwise_singleton .., ?_⟩
      intro r hr r' hr'
      obtain rfl := List.mem_singleton.mp hr'
      exact Nat.lt_succ_of_le (hs.issued r hr)
    · intro r hr
      rcases List.mem_append.mp hr with hr | hr
      · exact Nat.le_succ_of_le (hs.issued r hr)
      · obtain rfl := List.mem_singleton.mp hr
        exact le_rfl
  | settle seq =>
    exact ⟨hs.ordered.filter _, fun r hr => hs.issued r (List.mem_of_mem_filter hr)⟩
  | _ => exact ⟨hs.ordered, hs.issued⟩

theorem sequenced_run (host : Host) (isOnline : Bool) (inputs : List Input) :
    ((mount host isOnline).run p inputs).Sequenced :=
  run_keeps Move.sequenced ⟨List.Pairwise.nil, fun _ hr => absurd hr List.not_mem_nil⟩ inputs

theorem Sequenced.find? (hs : s.Sequenced) {r : TokenRefresh} (hr : r ∈ s.refreshes) :
    s.refreshes.find? (·.seq = r.seq) = some r := by
  have hnodup : (s.refreshes.map TokenRefresh.seq).Nodup :=
    (List.pairwise_map.mpr hs.ordered).imp Nat.ne_of_lt
  let pending : Table TokenRefresh.seq := ⟨s.refreshes, hnodup⟩
  have hmem : r ∈ pending.rows := hr
  exact Table.get_of_mem hmem

end Sequenced

section Unobserved

variable {p : Platform} {s s' : Hook} {r : TokenRefresh}

theorem not_unobserved_failWith (hc : s'.calls = s.calls) {error : IdentityVerificationError}
    {keepSession : Bool} : ¬ s.Unobserved (s'.failWith error keepSession) := by
  intro hu
  have hcalls : s'.calls ++ [.onError error] = s.calls := hu.calls
  rw [hc] at hcalls
  simp at hcalls

theorem unobserved_resolved_iff (hf : s.refreshes.find? (·.seq = r.seq) = some r)
    (token : String) :
    s.Unobserved (s.react p (.refreshSettled r.seq (.ok token))) ↔
      s.mounted = false ∨ r.seq ≠ s.seq ∨ s.attached = false ∨
        s.machine.session.map identityOf ≠ some r.identity := by
  have hno : (s.mounted = false ∨ r.seq ≠ s.seq ∨ s.attached = false ∨
      s.machine.session.map identityOf ≠ some r.identity) ↔
      ¬ (s.mounted ∧ r.seq = s.seq ∧ s.machine.session.map identityOf = some r.identity ∧
        s.attached) := by
    rw [← Bool.not_eq_true, ← Bool.not_eq_true]
    tauto
  rw [react, refreshSettled, hf, hno]
  dsimp only
  split
  next hposts =>
    refine iff_of_false (fun hu => ?_) fun h => h hposts
    have hlength := congrArg List.length hu.posts
    simp at hlength
  next hposts => exact iff_of_true ⟨rfl, rfl, rfl⟩ hposts

theorem unobserved_rejected_iff (hf : s.refreshes.find? (·.seq = r.seq) = some r)
    (message : Option String) :
    s.Unobserved (s.react p (.refreshSettled r.seq (.error message))) ↔
      s.mounted = false ∨ r.seq ≠ s.seq := by
  rw [react, refreshSettled, hf]
  dsimp only
  split
  next hfails =>
    refine iff_of_false (not_unobserved_failWith (by rfl)) ?_
    rintro (hm | hseq)
    · exact absurd hfails.1 (by simp [hm])
    · exact hseq hfails.2
  next hfails =>
    refine iff_of_true ⟨rfl, rfl, rfl⟩ ?_
    by_cases hm : s.mounted
    · exact Or.inr fun hseq => hfails ⟨hm, hseq⟩
    · exact Or.inl (by simpa using hm)

/-- A refresh that is out settles unobserved exactly when the hook is unmounted, a newer refresh
was dispatched, or it brings a token that there is no page or no matching session for. -/
theorem unobserved_refreshSettled_iff (hf : s.refreshes.find? (·.seq = r.seq) = some r)
    (answer : Except (Option String) String) :
    s.Unobserved (s.react p (.refreshSettled r.seq answer)) ↔
      s.mounted = false ∨ r.seq ≠ s.seq ∨
        ((∃ token, answer = .ok token) ∧
          (s.attached = false ∨ s.machine.session.map identityOf ≠ some r.identity)) := by
  cases answer with
  | ok token => simp [unobserved_resolved_iff hf]
  | error message => simp [unobserved_rejected_iff hf]

end Unobserved

end Hook

open Hook

/-- A refresh that an input dispatched is still out when the session it was dispatched for has been
replaced or cleared. -/
structure Superseded (p : Platform) (host : Host) (isOnline : Bool) (before : List Input)
    (i : Input) (between : List Input) (r : TokenRefresh) : Prop where
  dispatched : ((mount host isOnline).run p before).Dispatches p i r
  superseded : ∃ a j b, between = a ++ j :: b ∧
    ((mount host isOnline).run p (before ++ i :: a)).Replaces p j
  unsettled : r ∈ ((mount host isOnline).run p (before ++ i :: between)).refreshes

/-- A superseded refresh settles unobserved exactly when the hook is unmounted, a newer refresh was
dispatched, or it resolves to a token that finds no page, or a session of another identity. -/
theorem superseded_refresh_unobserved_iff (p : Platform) (host : Host) (isOnline : Bool)
    (before : List Input) (i : Input) (between : List Input) (r : TokenRefresh)
    (h : Superseded p host isOnline before i between r) (answer : Except (Option String) String) :
    let s := (mount host isOnline).run p (before ++ i :: between)
    s.Unobserved (s.react p (.refreshSettled r.seq answer)) ↔
      s.mounted = false ∨ r.seq ≠ s.seq ∨
        ((∃ token, answer = .ok token) ∧
          (s.attached = false ∨ s.machine.session.map identityOf ≠ some r.identity)) :=
  unobserved_refreshSettled_iff ((sequenced_run host isOnline _).find? h.unsettled) answer

def shown (sessionId : String) : List Input :=
  [.start true,
    .startSettled (.ok
      { provider := "sumsub"
        sessionId := some sessionId
        allowedOrigin := some "https://kyc.example" }),
    .attach true]

theorem superseded_shown (a b : List Input)
    (hr : ⟨1, some "s", some "https://kyc.example"⟩ ∈
      ((mount ⟨false, true, false, true⟩ true).run .web
        (shown "s" ++ .event .tokenExpired :: (a ++ .cancel :: b))).refreshes) :
    Superseded .web ⟨false, true, false, true⟩ true (shown "s") (.event .tokenExpired)
      (a ++ .cancel :: b) ⟨1, some "s", some "https://kyc.example"⟩ where
  dispatched := ⟨by decide, by decide⟩
  superseded := ⟨a, .cancel, b, rfl, Or.inl rfl⟩
  unsettled := hr

/-- A token for a session that was cancelled is dropped. -/
theorem superseded_refresh_unobserved_iff_cancel :
    ((mount ⟨false, true, false, true⟩ true).run .web
      (shown "s" ++ [.event .tokenExpired, .cancel])).Unobserved
      (((mount ⟨false, true, false, true⟩ true).run .web
        (shown "s" ++ [.event .tokenExpired, .cancel])).react .web
          (.refreshSettled 1 (.ok "token"))) :=
  (superseded_refresh_unobserved_iff .web ⟨false, true, false, true⟩ true (shown "s")
    (.event .tokenExpired) [.cancel] ⟨1, some "s", some "https://kyc.example"⟩
    (superseded_shown [] [] (by decide)) (.ok "token")).mpr
    (Or.inr (Or.inr ⟨⟨_, rfl⟩, Or.inr (by decide)⟩))

/-- A refusal of it fails the session that came after. -/
theorem superseded_refresh_fails_new_session :
    ¬ ∀ (p : Platform) (host : Host) (isOnline : Bool) (before : List Input) (i : Input)
      (between : List Input) (r : TokenRefresh),
      Superseded p host isOnline before i between r →
        ∀ answer, ((mount host isOnline).run p (before ++ i :: between)).Unobserved
          (((mount host isOnline).run p (before ++ i :: between)).react p
            (.refreshSettled r.seq answer)) := by
  intro h
  have hu := h _ _ _ _ _ _ _ (superseded_shown [] (shown "t") (by decide)) (.error none)
  exact absurd hu.calls (by decide)

end Kyc.Client
