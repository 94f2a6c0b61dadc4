import Kyc.Hosted.Scripts
import Kyc.Programs.Reactions

/-! # Token requests of the Sumsub page

The web SDK asks for a fresh token when its own expires, and gets a promise of one. The page
keeps the resolver of the last promise only, which the next token that the host delivers
settles: a promise that another one comes after, with no token between them, is never settled.
-/

namespace Kyc.Sumsub

open Json Hosted

variable {ν : Type}

/-- What happens to the page: the SDK asks for a token, or the host delivers a value. -/
inductive TokenEvent (ν : Type)
  | expirationHandler
  | setToken (value : Option (Value ν))

/-- A promise that was settled, with the time of its request, that of the delivery and the token. -/
structure SettledToken where
  requested : ℕ
  delivered : ℕ
  token : Text
  deriving DecidableEq

/-- The page's slot, with the promises that it gave out, each named by the time of its request. -/
structure PageTokens where
  time : ℕ
  awaitingToken : Option ℕ
  promises : List ℕ
  settled : List SettledToken
  deriving DecidableEq

namespace PageTokens

def initial : PageTokens := ⟨0, none, [], []⟩

def tokenOf (value : Option (Value ν)) : Option Text := (readToken value).filter (· ≠ [])

def react (page : PageTokens) : TokenEvent ν → PageTokens
  | .expirationHandler =>
    { page with
      time := page.time + 1
      awaitingToken := some page.time
      promises := page.promises ++ [page.time] }
  | .setToken value =>
    match tokenOf value, page.awaitingToken with
    | some token, some promise =>
      { page with
        time := page.time + 1
        awaitingToken := none
        settled := page.settled ++ [⟨promise, page.time, token⟩] }
    | _, _ => { page with time := page.time + 1 }

/-- The page after the given events. -/
def after (events : List (TokenEvent ν)) : PageTokens := Reactions.run react initial events

def Unsettled (page : PageTokens) (promise : ℕ) : Prop :=
  promise ∈ page.promises ∧ ∀ s ∈ page.settled, s.requested ≠ promise

def Hanging (page : PageTokens) : Prop := ∃ promise, page.Unsettled promise

/-- A promise that has not been settled, and whose resolver is lost. -/
def Abandoned (page : PageTokens) : Prop :=
  ∃ promise, page.Unsettled promise ∧ page.awaitingToken ≠ some promise

end PageTokens

open PageTokens

def TokenEvent.Delivers : TokenEvent ν → Prop
  | expirationHandler => False
  | setToken value => (tokenOf value).isSome

section Steps

variable {page : PageTokens} {value : Option (Value ν)}

theorem react_setToken_of_none (h : tokenOf value = none ∨ page.awaitingToken = none) :
    page.react (.setToken value) = { page with time := page.time + 1 } := by
  rw [react]
  rcases h with h | h
  · rw [h]
  · rw [h]
    cases tokenOf value <;> rfl

theorem react_setToken_of_some {token : Text} {promise : ℕ} (ht : tokenOf value = some token)
    (hp : page.awaitingToken = some promise) :
    page.react (.setToken value) =
      { page with
        time := page.time + 1
        awaitingToken := none
        settled := page.settled ++ [⟨promise, page.time, token⟩] } := by
  rw [react, ht, hp]

theorem setToken_cases (page : PageTokens) (value : Option (Value ν)) :
    (tokenOf value = none ∨ page.awaitingToken = none) ∨
      ∃ token promise, tokenOf value = some token ∧ page.awaitingToken = some promise := by
  cases ht : tokenOf value with
  | none => exact Or.inl (Or.inl rfl)
  | some token =>
    cases hp : page.awaitingToken with
    | none => exact Or.inl (Or.inr rfl)
    | some promise => exact Or.inr ⟨token, promise, rfl, rfl⟩

/-- The page holds the resolver of a promise that has not been settled, if any, and the times of the
requests are past. -/
structure WellFormed (page : PageTokens) : Prop where
  awaited : ∀ promise ∈ page.awaitingToken, page.Unsettled promise
  past : ∀ promise ∈ page.promises, promise < page.time
  known : ∀ s ∈ page.settled, s.requested ∈ page.promises

theorem wellFormed_initial : WellFormed initial :=
  ⟨fun _ h => (by cases h), fun _ h => (by cases h), fun _ h => (by cases h)⟩

theorem WellFormed.react (h : WellFormed page) (e : TokenEvent ν) : WellFormed (page.react e) := by
  cases e with
  | expirationHandler =>
    refine ⟨?_, ?_, fun s hs => List.mem_append_left _ (h.known s hs)⟩
    · rintro promise ⟨⟩
      refine ⟨List.mem_append_right _ List.mem_cons_self, fun s hs heq => ?_⟩
      exact Nat.lt_irrefl _ (heq ▸ h.past _ (h.known s hs))
    · intro promise hmem
      rcases List.mem_append.mp hmem with hmem | hmem
      · exact Nat.lt_succ_of_lt (h.past promise hmem)
      · rw [List.mem_singleton.mp hmem]
        exact Nat.lt_succ_self _
  | setToken value =>
    have past : ∀ promise ∈ page.promises, promise < page.time + 1 :=
      fun promise hmem => Nat.lt_succ_of_lt (h.past promise hmem)
    rcases setToken_cases page value with nothing | ⟨token, promise, ht, hp⟩
    · rw [react_setToken_of_none nothing]
      exact ⟨h.awaited, past, h.known⟩
    · rw [react_setToken_of_some ht hp]
      refine ⟨fun _ h => (by cases h), past, fun s hs => ?_⟩
      rcases List.mem_append.mp hs with hs | hs
      · exact h.known s hs
      · rw [List.mem_singleton.mp hs]
        exact (h.awaited promise hp).1

/-- A request abandons the promise that is awaited. -/
theorem abandoned_expirationHandler (h : WellFormed page) :
    (page.react (.expirationHandler : TokenEvent ν)).Abandoned ↔
      page.Abandoned ∨ page.awaitingToken.isSome := by
  have before {promise : ℕ} (hne : promise ≠ page.time) :
      (page.react (.expirationHandler : TokenEvent ν)).Unsettled promise ↔
        page.Unsettled promise := by
    simp [PageTokens.react, Unsettled, hne]
  have old {promise : ℕ} (hu : page.Unsettled promise) : promise ≠ page.time :=
    Nat.ne_of_lt (h.past promise hu.1)
  constructor
  · rintro ⟨promise, hu, hne⟩
    have hne : promise ≠ page.time := fun heq => hne (by rw [heq]; rfl)
    by_cases awaited : page.awaitingToken = some promise
    · exact Or.inr (by rw [awaited]; rfl)
    · exact Or.inl ⟨promise, (before hne).mp hu, awaited⟩
  · intro hor
    obtain ⟨promise, hu⟩ : ∃ promise, page.Unsettled promise := by
      rcases hor with ⟨promise, hu, -⟩ | awaited
      · exact ⟨promise, hu⟩
      · obtain ⟨promise, hp⟩ := Option.isSome_iff_exists.mp awaited
        exact ⟨promise, h.awaited promise hp⟩
    refine ⟨promise, (before (old hu)).mpr hu, fun heq => old hu ?_⟩
    exact (Option.some.inj heq).symm

theorem abandoned_setToken :
    (page.react (.setToken value)).Abandoned ↔ page.Abandoned := by
  rcases setToken_cases page value with nothing | ⟨token, promise, ht, hp⟩
  · rw [react_setToken_of_none nothing]
    exact Iff.rfl
  · rw [react_setToken_of_some ht hp]
    constructor
    · rintro ⟨other, ⟨hmem, hu⟩, -⟩
      refine ⟨other, ⟨hmem, fun s hs => hu s (List.mem_append_left _ hs)⟩, fun heq => ?_⟩
      rw [hp] at heq
      exact hu ⟨promise, page.time, token⟩ (List.mem_append_right _ List.mem_cons_self)
        (Option.some.inj heq)
    · rintro ⟨other, ⟨hmem, hu⟩, hne⟩
      refine ⟨other, ⟨hmem, fun s hs => ?_⟩, fun heq => by cases heq⟩
      rcases List.mem_append.mp hs with hs | hs
      · exact hu s hs
      · rw [List.mem_singleton.mp hs]
        rintro rfl
        exact hne hp

theorem hanging_of_delivers {e : TokenEvent ν} (he : e.Delivers) :
    (page.react e).Hanging ↔ page.Abandoned := by
  cases e with
  | expirationHandler => exact he.elim
  | setToken value =>
    rw [← abandoned_setToken]
    have nobody : (page.react (.setToken value)).awaitingToken = none := by
      obtain ⟨token, ht⟩ := Option.isSome_iff_exists.mp he
      cases hp : page.awaitingToken with
      | none => rw [react_setToken_of_none (Or.inr hp), hp]
      | some promise => rw [react_setToken_of_some ht hp]
    rw [Abandoned, nobody, Hanging]
    simp

end Steps

section Runs

variable {events : List (TokenEvent ν)}

theorem after_concat (events : List (TokenEvent ν)) (e : TokenEvent ν) :
    after (events ++ [e]) = (after events).react e :=
  Reactions.run_concat _ _ _ _

theorem wellFormed_after (events : List (TokenEvent ν)) : WellFormed (after events) := by
  induction events using List.reverseRecOn with
  | nil => exact wellFormed_initial
  | append_singleton events e ih =>
    rw [after_concat]
    exact ih.react e

def NoneDelivers (events : List (TokenEvent ν)) : Prop := ∀ e ∈ events, ¬ e.Delivers

theorem noneDelivers_concat {events : List (TokenEvent ν)} {e : TokenEvent ν} :
    NoneDelivers (events ++ [e]) ↔ NoneDelivers events ∧ ¬ e.Delivers := by
  simp [NoneDelivers, or_imp, forall_and]

theorem concat_eq_append_cons {events a b : List (TokenEvent ν)} {e c : TokenEvent ν} :
    events ++ [e] = a ++ c :: b ↔
      b = [] ∧ e = c ∧ events = a ∨ ∃ b', b = b' ++ [e] ∧ events = a ++ c :: b' := by
  constructor
  · intro h
    cases b using List.reverseRecOn with
    | nil =>
      obtain ⟨rfl, last⟩ := List.append_inj' h rfl
      exact Or.inl ⟨rfl, (List.cons.inj last).1, rfl⟩
    | append_singleton b' e' =>
      rw [← List.cons_append, ← List.append_assoc] at h
      obtain ⟨rfl, last⟩ := List.append_inj' h rfl
      exact Or.inr ⟨b', by rw [last], rfl⟩
  · rintro (⟨rfl, rfl, rfl⟩ | ⟨b', rfl, rfl⟩)
    · rfl
    · rw [List.append_assoc, List.cons_append]

theorem exists_requested_concat {events : List (TokenEvent ν)} {value : Option (Value ν)}
    {P : List (TokenEvent ν) → List (TokenEvent ν) → Prop} :
    (∃ a b, events ++ [.setToken value] = a ++ .expirationHandler :: b ∧ P a b) ↔
      ∃ a b, events = a ++ .expirationHandler :: b ∧ P a (b ++ [.setToken value]) := by
  constructor
  · rintro ⟨a, b, heq, hP⟩
    rcases concat_eq_append_cons.mp heq with ⟨-, h, -⟩ | ⟨b', rfl, rfl⟩
    · cases h
    · exact ⟨a, b', rfl, hP⟩
  · rintro ⟨a, b, rfl, hP⟩
    exact ⟨a, b ++ [.setToken value], by rw [List.append_assoc, List.cons_append], hP⟩

def Awaits (events : List (TokenEvent ν)) : Prop :=
  ∃ a b, events = a ++ .expirationHandler :: b ∧ NoneDelivers b

def Overlaps (events : List (TokenEvent ν)) : Prop :=
  ∃ a b, events = a ++ .expirationHandler :: b ∧ Awaits a

theorem isSome_awaitingToken_iff (events : List (TokenEvent ν)) :
    (after events).awaitingToken.isSome ↔ Awaits events := by
  induction events using List.reverseRecOn with
  | nil => simp [after, Reactions.run, initial, Awaits]
  | append_singleton events e ih =>
    rw [after_concat]
    cases e with
    | expirationHandler =>
      exact iff_of_true rfl ⟨events, [], rfl, fun _ h => (by cases h)⟩
    | setToken value =>
      have slot : ((after events).react (.setToken value)).awaitingToken.isSome ↔
          (after events).awaitingToken.isSome ∧ ¬ (TokenEvent.setToken value).Delivers := by
        rcases setToken_cases (after events) value with (ht | hp) | ⟨token, promise, ht, hp⟩
        · rw [react_setToken_of_none (Or.inl ht)]
          simp [TokenEvent.Delivers, ht]
        · rw [react_setToken_of_none (Or.inr hp)]
          simp [hp]
        · rw [react_setToken_of_some ht hp]
          simp [TokenEvent.Delivers, ht]
      rw [slot, ih, Awaits, Awaits, exists_requested_concat]
      simp only [noneDelivers_concat, ← exists_and_right, and_assoc]

theorem overlaps_expirationHandler (events : List (TokenEvent ν)) :
    Overlaps (events ++ [.expirationHandler]) ↔ Overlaps events ∨ Awaits events := by
  constructor
  · rintro ⟨a, b, heq, awaits⟩
    rcases concat_eq_append_cons.mp heq with ⟨-, -, rfl⟩ | ⟨b', -, rfl⟩
    · exact Or.inr awaits
    · exact Or.inl ⟨a, b', rfl, awaits⟩
  · rintro (⟨a, b, rfl, awaits⟩ | awaits)
    · exact ⟨a, b ++ [.expirationHandler], by rw [List.append_assoc, List.cons_append], awaits⟩
    · exact ⟨events, [], rfl, awaits⟩

theorem abandoned_iff (events : List (TokenEvent ν)) :
    (after events).Abandoned ↔ Overlaps events := by
  induction events using List.reverseRecOn with
  | nil => simp [after, Reactions.run, initial, Abandoned, Unsettled, Overlaps]
  | append_singleton events e ih =>
    rw [after_concat]
    cases e with
    | expirationHandler =>
      rw [abandoned_expirationHandler (wellFormed_after events), ih, isSome_awaitingToken_iff,
        overlaps_expirationHandler]
    | setToken value =>
      rw [abandoned_setToken, ih, Overlaps, Overlaps, exists_requested_concat]

/-- A promise was settled with a token that was delivered after the promise was given out. -/
def SettledInTime (events : List (TokenEvent ν)) (s : SettledToken) : Prop :=
  s.requested < s.delivered ∧ events[s.requested]? = some .expirationHandler ∧
    ∃ value, events[s.delivered]? = some (.setToken value) ∧ readToken value = some s.token

theorem SettledInTime.concat {s : SettledToken} (h : SettledInTime events s) (e : TokenEvent ν) :
    SettledInTime (events ++ [e]) s := by
  obtain ⟨order, requested, value, delivered, hvalue⟩ := h
  have kept {i : ℕ} {f : TokenEvent ν} (hi : events[i]? = some f) :
      (events ++ [e])[i]? = some f := by
    rw [List.getElem?_append_left (List.getElem?_eq_some_iff.mp hi).1, hi]
  exact ⟨order, kept requested, value, kept delivered, hvalue⟩

/-- The page's times are those of the events. -/
structure Recorded (events : List (TokenEvent ν)) (page : PageTokens) : Prop where
  time : page.time = events.length
  promises : ∀ promise ∈ page.promises, events[promise]? = some .expirationHandler
  settled : ∀ s ∈ page.settled, SettledInTime events s

theorem recorded_after (events : List (TokenEvent ν)) : Recorded events (after events) := by
  induction events using List.reverseRecOn with
  | nil => exact ⟨rfl, fun _ h => (by cases h), fun _ h => (by cases h)⟩
  | append_singleton events e ih =>
    have page := wellFormed_after events
    have last : (events ++ [e])[(after events).time]? = some e := by
      rw [ih.time]
      simp
    have promises : ∀ promise ∈ (after events).promises,
        (events ++ [e])[promise]? = some .expirationHandler := by
      intro promise hmem
      rw [List.getElem?_append_left (ih.time ▸ page.past promise hmem), ih.promises promise hmem]
    have settled : ∀ s ∈ (after events).settled, SettledInTime (events ++ [e]) s :=
      fun s hs => (ih.settled s hs).concat e
    have time : (after events).time + 1 = (events ++ [e]).length := by
      rw [ih.time, List.length_append, List.length_singleton]
    rw [after_concat]
    cases e with
    | expirationHandler =>
      refine ⟨time, fun promise hmem => ?_, settled⟩
      rcases List.mem_append.mp hmem with hmem | hmem
      · exact promises promise hmem
      · rw [List.mem_singleton.mp hmem]
        exact last
    | setToken value =>
      rcases setToken_cases (after events) value with nothing | ⟨token, promise, ht, hp⟩
      · rw [react_setToken_of_none nothing]
        exact ⟨time, promises, settled⟩
      · rw [react_setToken_of_some ht hp]
        refine ⟨time, promises, fun s hs => ?_⟩
        rcases List.mem_append.mp hs with hs | hs
        · exact settled s hs
        · rw [List.mem_singleton.mp hs]
          have awaited := (page.awaited promise hp).1
          exact ⟨page.past promise awaited, promises promise awaited, value, last,
            (Option.filter_eq_some_iff.mp ht).1⟩

end Runs

/-- No request hangs once a later token was delivered, and none is answered with an earlier one. -/
structure AnswersRequests (events : List (TokenEvent ν)) : Prop where
  none_hangs : ∀ earlier e, earlier ++ [e] <+: events → e.Delivers →
    ¬ (after (earlier ++ [e])).Hanging
  in_time : ∀ s ∈ (after events).settled, SettledInTime events s

/-- A delivered token leaves no request hanging exactly if no two requests came before it with no
token between them. -/
theorem answersRequests_iff (events : List (TokenEvent ν)) :
    AnswersRequests events ↔
      ∀ earlier e, earlier ++ [e] <+: events → e.Delivers → ¬ Overlaps earlier := by
  have hangs (earlier : List (TokenEvent ν)) {e : TokenEvent ν} (he : e.Delivers) :
      (after (earlier ++ [e])).Hanging ↔ Overlaps earlier := by
    rw [after_concat, hanging_of_delivers he, abandoned_iff]
  constructor
  · intro h earlier e hp he overlaps
    exact h.none_hangs earlier e hp he ((hangs earlier he).mpr overlaps)
  · intro h
    refine ⟨fun earlier e hp he hanging => ?_, (recorded_after events).settled⟩
    exact h earlier e hp he ((hangs earlier he).mp hanging)

def overlapping : List (TokenEvent ℕ) :=
  [.expirationHandler, .expirationHandler, .setToken (some (.string (lit "t")))]

/-- The first promise is never settled. -/
theorem not_answersRequests_of_overlapping : ¬ AnswersRequests overlapping := by
  intro h
  have token : (tokenOf (some (.string (lit "t")) : Option (Value ℕ))).isSome := by decide
  refine h.none_hangs [.expirationHandler, .expirationHandler] _ (List.prefix_refl _) token ?_
  exact ⟨0, by decide, by decide⟩

end Kyc.Sumsub
