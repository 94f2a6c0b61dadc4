import Kyc.Encoding.LowerCase

/-! # Where a native shell may navigate

The navigation guard of the hardened web view. It reads the origin of a requested page with
a regular expression, and takes it to match a declared wildcard by its last characters.
-/

namespace Kyc.Hosted

open Json Encoding

/-- `^https?:\/\/`, in whatever case, as the scheme it spells. -/
def schemes : List Text := [lit "https://", lit "http://"]

def scheme? (url : Text) : Option Text := schemes.find? (· <+: url.map asciiLower)

/-- `match[1]` of `ORIGIN_RE`. -/
def originMatch? (url : Text) : Option Text :=
  (scheme? url).bind fun scheme =>
    let authority := upTo (lit "/?#") (url.drop scheme.length)
    if authority = [] then none else some (url.take scheme.length ++ authority)

/-- Line terminators, that `.` does not match. -/
def lineTerminators : List UInt16 := [10, 13, 0x2028, 0x2029]

/-- `WILDCARD_RE`, with the scheme and the domain. -/
def wildcardMatch? (wanted : Text) : Option (Text × Text) :=
  (schemes.find? fun scheme => scheme ++ lit "*." <+: wanted).bind fun scheme =>
    let domain := wanted.drop (scheme.length + 2)
    if domain ≠ [] ∧ ∀ c ∈ domain, c ∉ lineTerminators then some (scheme, domain) else none

structure HostedWebViewOptions where
  url : Text
  allowedOrigin : Option Text
  allowedNavigationOrigins : List Text

section Guard

variable (L : LowerCase)

/-- Scheme, host and port, in lower case. -/
def originOf (url : Text) : Option Text := (originMatch? url).map L.lower

/-- An exact origin, or a single subdomain wildcard. -/
def matchesOrigin (pattern origin : Text) : Bool :=
  let wanted := L.lower pattern
  if wanted = origin then true
  else
    match wildcardMatch? wanted with
    | none => false
    | some (scheme, domain) =>
      scheme <+: origin ∧ (lit "." ++ domain) <:+ origin.drop scheme.length

def createNavigationGuard (allowed : List Text) (url : Text) : Bool :=
  if allowed = [] ∨ url = lit "about:blank" then true
  else
    match originOf L url with
    | none => false
    | some origin => allowed.any fun pattern => matchesOrigin L pattern origin

namespace HostedWebViewOptions

variable (options : HostedWebViewOptions)

def origin : Option Text := options.allowedOrigin <|> originOf L options.url

/-- The pin and the declared origins; nothing without a pin, or with an empty one. -/
def allowed : List Text :=
  match options.origin L with
  | none => []
  | some origin => if origin = [] then [] else origin :: options.allowedNavigationOrigins

def onShouldStartLoadWithRequest (url : Text) : Bool :=
  createNavigationGuard L (options.allowed L) url

end HostedWebViewOptions

end Guard

section Origins

variable (L : LowerCase)

/-- The origin of a page: its authority ends where the path, the query or the fragment
starts, and user information is no part of it. -/
def standardOrigin (url : Text) : Option Text :=
  (scheme? url).bind fun scheme =>
    let host := afterLast (unit '@') (upTo (lit "/\\?#") (url.drop scheme.length))
    if host = [] then none else some (scheme ++ L.lower host)

/-- Among the patterns is the origin, or a wildcard for a proper subdomain of it. -/
def Declared (patterns : List Text) (origin : Text) : Prop :=
  ∃ pattern ∈ patterns, L.lower pattern = origin ∨
    ∃ scheme ∈ schemes, ∃ subdomain domain, subdomain ≠ [] ∧
      L.lower pattern = scheme ++ lit "*." ++ domain ∧
      origin = scheme ++ subdomain ++ lit "." ++ domain

end Origins

theorem mem_schemes {scheme : Text} :
    scheme ∈ schemes ↔ scheme = lit "https://" ∨ scheme = lit "http://" := by
  simp [schemes]

theorem scheme_ends {scheme : Text} (h : scheme ∈ schemes) :
    ∃ name, scheme = name ++ [unit '/'] := by
  rcases mem_schemes.mp h with rfl | rfl
  · exact ⟨lit "https:/", rfl⟩
  · exact ⟨lit "http:/", rfl⟩

theorem scheme_unique {scheme scheme' s : Text} (h : scheme ∈ schemes) (h' : scheme' ∈ schemes)
    (hs : scheme <+: s) (hs' : scheme' <+: s) : scheme = scheme' := by
  have apart : ¬ lit "http://" <+: lit "https://" := by decide
  have long : ¬ lit "https://" <+: lit "http://" := by decide
  rcases List.prefix_or_prefix_of_prefix hs hs' with p | p <;>
    rcases mem_schemes.mp h with rfl | rfl <;> rcases mem_schemes.mp h' with rfl | rfl <;>
    first
    | rfl
    | exact absurd p apart
    | exact absurd p long

theorem prefix_of_scheme? {url scheme : Text} (h : scheme? url = some scheme) :
    scheme <+: url.map asciiLower := by
  simpa using List.find?_some (p := fun scheme => decide (scheme <+: url.map asciiLower)) h

theorem scheme?_eq_some_iff {url scheme : Text} :
    scheme? url = some scheme ↔
      scheme ∈ schemes ∧ ∃ start rest, url = start ++ rest ∧ start.map asciiLower = scheme := by
  constructor
  · rintro h
    have mem := List.mem_of_find?_eq_some h
    obtain ⟨t, ht⟩ := prefix_of_scheme? h
    obtain ⟨start, rest, rfl, hstart, -⟩ := List.map_eq_append_iff.mp ht.symm
    exact ⟨mem, start, rest, rfl, hstart⟩
  · rintro ⟨mem, start, rest, rfl, rfl⟩
    have here : start.map asciiLower <+: (start ++ rest).map asciiLower := by simp
    cases h : scheme? (start ++ rest) with
    | none =>
      have := List.find?_eq_none.mp h _ mem
      exact absurd (decide_eq_true here) this
    | some scheme =>
      rw [scheme_unique (List.mem_of_find?_eq_some h) mem (prefix_of_scheme? h) here]

theorem ascii_of_mem_schemes {scheme : Text} (h : scheme ∈ schemes) : Ascii scheme := by
  rcases mem_schemes.mp h with rfl | rfl <;> unfold Ascii <;> decide

section Parts

variable {L : LowerCase} {start scheme rest : Text}

/-- A scheme ends with a delimiter, so that what follows it is lowered on its own. -/
theorem lower_append (h : scheme ∈ schemes) (hstart : start.map asciiLower = scheme) :
    L.lower (start ++ rest) = scheme ++ L.lower rest := by
  obtain ⟨name, rfl⟩ := scheme_ends h
  obtain ⟨a, b, rfl, ha, hb⟩ := List.map_eq_append_iff.mp hstart
  obtain ⟨c, rfl, hc⟩ : ∃ c, b = [c] ∧ asciiLower c = unit '/' := by
    cases b with
    | nil => simp at hb
    | cons c b => exact ⟨c, by simpa using (List.cons.inj hb).2, (List.cons.inj hb).1⟩
  obtain rfl := (asciiLower_eq_iff (by decide)).mp hc
  have small : Ascii a := ascii_of_map_asciiLower (ha ▸ fun c hc =>
    ascii_of_mem_schemes h c (List.mem_append_left _ hc))
  rw [List.append_assoc, List.singleton_append, L.lower_split _ (by decide), L.lower_ascii a small,
    ha, List.append_assoc, List.singleton_append]

theorem scheme?_append (h : scheme ∈ schemes) (hstart : start.map asciiLower = scheme) :
    scheme? (start ++ rest) = some scheme :=
  scheme?_eq_some_iff.mpr ⟨h, start, rest, rfl, hstart⟩

theorem originOf_append (h : scheme ∈ schemes) (hstart : start.map asciiLower = scheme)
    (hne : upTo (lit "/?#") rest ≠ []) :
    originOf L (start ++ rest) = some (scheme ++ L.lower (upTo (lit "/?#") rest)) := by
  have length : scheme.length = start.length := by rw [← hstart, List.length_map]
  rw [originOf, originMatch?, scheme?_append h hstart, Option.bind_some, length,
    List.drop_left, List.take_left, if_neg hne, Option.map_some, lower_append h hstart]

theorem originOf_eq_some_iff {url o : Text} :
    originOf L url = some o ↔
      ∃ scheme ∈ schemes, ∃ start rest, url = start ++ rest ∧ start.map asciiLower = scheme ∧
        upTo (lit "/?#") rest ≠ [] ∧ o = scheme ++ L.lower (upTo (lit "/?#") rest) := by
  constructor
  · rintro h
    obtain ⟨m, hm, -⟩ := Option.map_eq_some_iff.mp h
    obtain ⟨scheme, hs, hm⟩ := Option.bind_eq_some_iff.mp hm
    obtain ⟨mem, start, rest, rfl, hstart⟩ := scheme?_eq_some_iff.mp hs
    have length : scheme.length = start.length := by rw [← hstart, List.length_map]
    rw [length, List.drop_left] at hm
    have hne : upTo (lit "/?#") rest ≠ [] := by
      rintro empty
      simp [empty] at hm
    rw [originOf_append mem hstart hne] at h
    exact ⟨scheme, mem, start, rest, rfl, hstart, hne, (Option.some.inj h).symm⟩
  · rintro ⟨scheme, mem, start, rest, rfl, hstart, hne, rfl⟩
    exact originOf_append mem hstart hne

theorem standardOrigin_append (h : scheme ∈ schemes) (hstart : start.map asciiLower = scheme) :
    standardOrigin L (start ++ rest) =
      let host := afterLast (unit '@') (upTo (lit "/\\?#") rest)
      if host = [] then none else some (scheme ++ L.lower host) := by
  have length : scheme.length = start.length := by rw [← hstart, List.length_map]
  rw [standardOrigin, scheme?_append h hstart, Option.bind_some, length, List.drop_left]

theorem map_asciiLower_scheme (h : scheme ∈ schemes) : scheme.map asciiLower = scheme := by
  rcases mem_schemes.mp h with rfl | rfl <;> decide

theorem originOf_originOf {url o : Text} (h : originOf L url = some o) :
    originOf L o = some o := by
  obtain ⟨scheme, mem, start, rest, rfl, hstart, hne, rfl⟩ := originOf_eq_some_iff.mp h
  have same : upTo (lit "/?#") (L.lower (upTo (lit "/?#") rest))
      = L.lower (upTo (lit "/?#") rest) := by
    rw [L.upTo_lower (by decide), upTo_upTo (List.Subset.refl _)]
  rw [originOf_append mem (map_asciiLower_scheme mem), same, L.lower_lower]
  rw [same]
  exact fun empty => hne (L.lower_eq_nil _ empty)

theorem originOf_clean {url : Text} (h : scheme ∈ schemes)
    (ho : originOf L url = some (scheme ++ rest)) : ∀ c ∈ rest, c ∉ lit "/?#" := by
  obtain ⟨scheme', mem, start, t, -, -, -, same⟩ := originOf_eq_some_iff.mp ho
  obtain rfl := scheme_unique h mem (List.prefix_append _ _) ⟨_, same.symm⟩
  rintro c hc separator
  rw [List.append_cancel_left same] at hc
  refine L.not_mem_lower c ?_ _ (fun inside => not_mem_of_mem_upTo inside separator) hc
  have : lit "/?#" ⊆ delimiters := by decide
  exact this separator

theorem standardOrigin_originOf {url o : Text} (h : originOf L url = some o) :
    standardOrigin L o = standardOrigin L url := by
  obtain ⟨scheme, mem, start, rest, rfl, hstart, -, rfl⟩ := originOf_eq_some_iff.mp h
  have same : upTo (lit "/\\?#") (L.lower (upTo (lit "/?#") rest))
      = L.lower (upTo (lit "/\\?#") rest) := by
    rw [L.upTo_lower (by decide), upTo_upTo (by decide)]
  rw [standardOrigin_append mem (map_asciiLower_scheme mem), standardOrigin_append mem hstart,
    same, L.afterLast_lower (by decide)]
  simp only [L.lower_eq_nil_iff, L.lower_lower]

end Parts

theorem wildcardMatch?_eq_some_iff {wanted scheme domain : Text} :
    wildcardMatch? wanted = some (scheme, domain) ↔
      scheme ∈ schemes ∧ wanted = scheme ++ lit "*." ++ domain ∧ domain ≠ [] ∧
        ∀ c ∈ domain, c ∉ lineTerminators := by
  have rest (s t : Text) : (s ++ lit "*." ++ t).drop (s.length + 2) = t :=
    List.drop_left' (by simp [lit])
  constructor
  · rintro h
    obtain ⟨s, hs, h⟩ := Option.bind_eq_some_iff.mp h
    obtain ⟨t, rfl⟩ : s ++ lit "*." <+: wanted := by
      simpa using List.find?_some (p := fun s => decide (s ++ lit "*." <+: wanted)) hs
    rw [rest] at h
    dsimp only at h
    split_ifs at h with hd
    obtain ⟨rfl, rfl⟩ := Prod.mk.inj (Option.some.inj h)
    exact ⟨List.mem_of_find?_eq_some hs, rfl, hd⟩
  · rintro ⟨mem, rfl, hd⟩
    have found : (schemes.find? fun s => s ++ lit "*." <+: scheme ++ lit "*." ++ domain)
        = some scheme := by
      cases h : schemes.find? fun s => s ++ lit "*." <+: scheme ++ lit "*." ++ domain with
      | none =>
        have := List.find?_eq_none.mp h _ mem
        simp at this
      | some s =>
        have start : s ++ lit "*." <+: scheme ++ lit "*." ++ domain := by
          simpa using List.find?_some
            (p := fun s => decide (s ++ lit "*." <+: scheme ++ lit "*." ++ domain)) h
        rw [scheme_unique (List.mem_of_find?_eq_some h) mem
          ((List.prefix_append s _).trans start) ⟨lit "*." ++ domain, by simp⟩]
    rw [wildcardMatch?, found, Option.bind_some, rest, if_pos hd]

section Guard

variable {L : LowerCase}

theorem matchesOrigin_iff {pattern origin : Text} :
    matchesOrigin L pattern origin ↔ L.lower pattern = origin ∨
      ∃ scheme domain, wildcardMatch? (L.lower pattern) = some (scheme, domain) ∧
        ∃ before, origin = scheme ++ before ++ lit "." ++ domain := by
  unfold matchesOrigin
  dsimp only
  split_ifs with same
  · simp [same]
  · rw [or_iff_right same]
    cases h : wildcardMatch? (L.lower pattern) with
    | none => simp
    | some found =>
      obtain ⟨scheme, domain⟩ := found
      simp only [Bool.decide_and, Bool.and_eq_true, decide_eq_true_eq, Option.some.injEq,
        Prod.mk.injEq]
      constructor
      · rintro ⟨⟨t, rfl⟩, before, h⟩
        rw [List.drop_left] at h
        exact ⟨scheme, domain, ⟨rfl, rfl⟩, before, by simp [← h]⟩
      · rintro ⟨_, _, ⟨rfl, rfl⟩, before, rfl⟩
        refine ⟨⟨before ++ (lit "." ++ domain), by simp⟩, before, ?_⟩
        rw [List.append_assoc, List.append_assoc, List.drop_left]

namespace HostedWebViewOptions

variable (L) (options : HostedWebViewOptions)

def patterns : List Text := (options.origin L).toList ++ options.allowedNavigationOrigins

/-- The guard lets through what a pin or a declared origin covers, and nothing else. -/
def AdmitsOnlyPinned : Prop :=
  ∀ url, url ≠ lit "about:blank" → options.onShouldStartLoadWithRequest L url →
    ∃ origin, standardOrigin L url = some origin ∧ Declared L (options.patterns L) origin

/-- There is a pin, no wildcard that any origin could match, and no pattern with user
information or a backslash that leads to an origin which is not declared. -/
structure Pins : Prop where
  pinned : ∃ origin, options.origin L = some origin ∧ origin ≠ []
  exact_only : ∀ pattern ∈ options.patterns L, ∀ scheme domain,
    wildcardMatch? (L.lower pattern) = some (scheme, domain) → ∃ c ∈ domain, c ∈ lit "/?#"
  standard : ∀ pattern ∈ options.patterns L,
    originOf L (L.lower pattern) = some (L.lower pattern) →
      ∃ origin, standardOrigin L (L.lower pattern) = some origin ∧
        Declared L (options.patterns L) origin

variable {L options}

theorem allowed_of_pinned {origin : Text} (h : options.origin L = some origin)
    (hne : origin ≠ []) : options.allowed L = options.patterns L := by
  rw [allowed, patterns, h]
  exact if_neg hne

theorem pinned_of_allowed (h : options.allowed L ≠ []) :
    ∃ origin, options.origin L = some origin ∧ origin ≠ [] := by
  rw [allowed] at h
  split at h
  · exact absurd rfl h
  · rename_i origin horigin
    split_ifs at h with empty
    · exact absurd rfl h
    · exact ⟨origin, horigin, empty⟩

theorem admits_iff {origin : Text} (h : options.origin L = some origin) (hne : origin ≠ [])
    {url : Text} (hurl : url ≠ lit "about:blank") :
    options.onShouldStartLoadWithRequest L url ↔
      ∃ o, originOf L url = some o ∧ ∃ pattern ∈ options.patterns L, matchesOrigin L pattern o := by
  have some_pattern : options.patterns L ≠ [] := by simp [patterns, h]
  rw [onShouldStartLoadWithRequest, allowed_of_pinned h hne, createNavigationGuard,
    if_neg (by simp [some_pattern, hurl])]
  cases originOf L url with
  | none => simp
  | some o => simp

theorem lower_letters {host : Text} (letters : ∀ c ∈ host, c = unit 'x') : L.lower host = host := by
  have small : Ascii host := by
    rintro c hc
    rw [letters c hc]
    decide
  have fixed : host.map asciiLower = host.map id := List.map_congr_left fun c hc => by
    rw [letters c hc]
    decide
  rw [L.lower_ascii host small, fixed, List.map_id]

theorem lower_domain {pattern scheme domain : Text}
    (h : wildcardMatch? (L.lower pattern) = some (scheme, domain)) :
    L.lower (lit "." ++ domain) = lit "." ++ domain := by
  obtain ⟨-, hlower, -, -⟩ := wildcardMatch?_eq_some_iff.mp h
  apply L.lower_right (scheme ++ lit "*")
  have wanted : scheme ++ lit "*" ++ (lit "." ++ domain) = L.lower pattern := by
    rw [hlower]
    simp [lit]
  rw [wanted, L.lower_lower]

/-- Before a backslash and the domain of a wildcard, a host passes for a part of the origin. -/
theorem originOf_disguised {pattern scheme domain host : Text}
    (hw : wildcardMatch? (L.lower pattern) = some (scheme, domain))
    (clean : ∀ c ∈ domain, c ∉ lit "/?#") (hne : host ≠ [])
    (letters : ∀ c ∈ host, c = unit 'x') :
    originOf L (scheme ++ (host ++ unit '\\' :: (lit "." ++ domain)))
      = some (scheme ++ (host ++ unit '\\' :: (lit "." ++ domain))) := by
  obtain ⟨mem, -⟩ := wildcardMatch?_eq_some_iff.mp hw
  have whole : upTo (lit "/?#") (host ++ unit '\\' :: (lit "." ++ domain))
      = host ++ unit '\\' :: (lit "." ++ domain) := by
    refine upTo_of_free fun c hc => ?_
    rcases List.mem_append.mp hc with hc | hc
    · rw [letters c hc]
      decide
    · rcases List.mem_append.mp (show c ∈ lit "\\." ++ domain from hc) with hc | hc
      · have : ∀ c ∈ lit "\\.", c ∉ lit "/?#" := by decide
        exact this c hc
      · exact clean c hc
  have lowered : L.lower (host ++ unit '\\' :: (lit "." ++ domain))
      = host ++ unit '\\' :: (lit "." ++ domain) := by
    rw [L.lower_split _ (by decide), lower_letters letters, lower_domain hw]
  rw [originOf_append mem (map_asciiLower_scheme mem), whole, lowered]
  rw [whole]
  simp [hne]

/-- The browser ends the host at the backslash. -/
theorem standardOrigin_disguised {scheme host rest : Text} (mem : scheme ∈ schemes)
    (hne : host ≠ [])
    (letters : ∀ c ∈ host, c = unit 'x') :
    standardOrigin L (scheme ++ (host ++ unit '\\' :: rest)) = some (scheme ++ host) := by
  have free : ∀ c ∈ host, c ∉ lit "/\\?#" := by
    rintro c hc
    rw [letters c hc]
    decide
  have no_user : unit '@' ∉ host := fun hc => absurd (letters _ hc) (by decide)
  rw [standardOrigin_append mem (map_asciiLower_scheme mem), upTo_append free (by decide),
    afterLast_of_not_mem no_user]
  dsimp only
  rw [if_neg hne, lower_letters letters]

/-- A wildcard that some origin can match lets in a host of any name: a backslash ends the
authority of a page, but not what the code takes for one. -/
theorem wildcard_admits (hpin : ∃ origin, options.origin L = some origin ∧ origin ≠ [])
    {pattern scheme domain : Text} (hp : pattern ∈ options.patterns L)
    (hw : wildcardMatch? (L.lower pattern) = some (scheme, domain))
    (clean : ∀ c ∈ domain, c ∉ lit "/?#") {host : Text} (hne : host ≠ [])
    (letters : ∀ c ∈ host, c = unit 'x') :
    options.onShouldStartLoadWithRequest L
      (scheme ++ (host ++ unit '\\' :: (lit "." ++ domain))) := by
  obtain ⟨mem, -⟩ := wildcardMatch?_eq_some_iff.mp hw
  obtain ⟨pin, hpin, hpin_ne⟩ := hpin
  refine (admits_iff hpin hpin_ne ?_).mpr
    ⟨_, originOf_disguised hw clean hne letters, pattern, hp, ?_⟩
  · rcases mem_schemes.mp mem with rfl | rfl <;> simp [lit, unit]
  · refine matchesOrigin_iff.mpr (Or.inr ⟨scheme, domain, hw, host ++ lit "\\", ?_⟩)
    simp [lit]

theorem not_declared {patterns : List Text} {scheme host : Text} (h : scheme ∈ schemes)
    (letters : ∀ c ∈ host, c = unit 'x')
    (long : ∀ pattern ∈ patterns, (L.lower pattern).length < host.length) :
    ¬ Declared L patterns (scheme ++ host) := by
  rintro ⟨pattern, hp, same | ⟨scheme', mem, subdomain, domain, -, -, same⟩⟩
  · have := long pattern hp
    rw [same, List.length_append] at this
    omega
  · have dot : unit '.' ∈ scheme ++ host := by
      rw [same]
      simp [lit]
    rcases List.mem_append.mp dot with hd | hd
    · rcases mem_schemes.mp h with rfl | rfl <;> revert hd <;> decide
    · exact absurd (letters _ hd) (by decide)

theorem AdmitsOnlyPinned.pinned (only : options.AdmitsOnlyPinned L) :
    ∃ origin, options.origin L = some origin ∧ origin ≠ [] := by
  by_contra open_guard
  have empty : options.allowed L = [] := by
    by_contra h
    exact open_guard (pinned_of_allowed h)
  have admitted : options.onShouldStartLoadWithRequest L [] := by
    rw [onShouldStartLoadWithRequest, empty, createNavigationGuard, if_pos (Or.inl rfl)]
  obtain ⟨origin, h, -⟩ := only [] (by decide) admitted
  rw [standardOrigin, show scheme? [] = none by decide] at h
  cases h

theorem AdmitsOnlyPinned.exact_only (only : options.AdmitsOnlyPinned L)
    {pattern scheme domain : Text} (hp : pattern ∈ options.patterns L)
    (hw : wildcardMatch? (L.lower pattern) = some (scheme, domain)) :
    ∃ c ∈ domain, c ∈ lit "/?#" := by
  by_contra clean
  push Not at clean
  obtain ⟨mem, -⟩ := wildcardMatch?_eq_some_iff.mp hw
  let host := List.replicate (((options.patterns L).map L.lower).flatten.length + 1) (unit 'x')
  have letters : ∀ c ∈ host, c = unit 'x' := fun c hc => List.eq_of_mem_replicate hc
  have hne : host ≠ [] := by simp [host]
  have other : scheme ++ (host ++ unit '\\' :: (lit "." ++ domain)) ≠ lit "about:blank" := by
    rcases mem_schemes.mp mem with rfl | rfl <;> simp [lit, unit]
  obtain ⟨origin, horigin, declared⟩ :=
    only _ other (wildcard_admits only.pinned hp hw clean hne letters)
  obtain rfl := Option.some.inj ((standardOrigin_disguised mem hne letters).symm.trans horigin)
  refine not_declared mem letters (fun p hp => ?_) declared
  have := (List.sublist_flatten_of_mem (List.mem_map_of_mem (f := L.lower) hp)).length_le
  simp only [host, List.length_replicate]
  omega

theorem AdmitsOnlyPinned.standard (only : options.AdmitsOnlyPinned L) {pattern : Text}
    (hp : pattern ∈ options.patterns L)
    (own : originOf L (L.lower pattern) = some (L.lower pattern)) :
    ∃ origin, standardOrigin L (L.lower pattern) = some origin ∧
      Declared L (options.patterns L) origin := by
  obtain ⟨origin, hpin, hne⟩ := only.pinned
  have other : L.lower pattern ≠ lit "about:blank" := by
    rintro blank
    rw [blank] at own
    simp [originOf, show originMatch? (lit "about:blank") = none by decide] at own
  exact only _ other ((admits_iff hpin hne other).mpr
    ⟨_, own, pattern, hp, matchesOrigin_iff.mpr (Or.inl rfl)⟩)

theorem Pins.admitsOnlyPinned (h : options.Pins L) : options.AdmitsOnlyPinned L := by
  rintro url hurl admitted
  obtain ⟨origin, hpin, hne⟩ := h.pinned
  obtain ⟨o, ho, pattern, hp, hm⟩ := (admits_iff hpin hne hurl).mp admitted
  rw [← standardOrigin_originOf ho]
  rcases matchesOrigin_iff.mp hm with rfl | ⟨scheme, domain, hw, before, rfl⟩
  · exact h.standard pattern hp (originOf_originOf ho)
  · obtain ⟨mem, -⟩ := wildcardMatch?_eq_some_iff.mp hw
    obtain ⟨c, hc, separator⟩ := h.exact_only pattern hp scheme domain hw
    rw [List.append_assoc, List.append_assoc] at ho
    exact absurd separator (originOf_clean mem ho c (by simp [hc]))

/-- The guard admits pinned and declared origins alone exactly when there is a pin, no
wildcard is declared that an origin could match, and every declared origin is also declared
the way the browser reads it. -/
theorem guard_admits_only_pinned_iff (L : LowerCase) (options : HostedWebViewOptions) :
    options.AdmitsOnlyPinned L ↔ options.Pins L := by
  constructor
  · rintro only
    exact ⟨only.pinned, fun _ hp _ _ hw => only.exact_only hp hw,
      fun _ hp own => only.standard hp own⟩
  · rintro pins
    exact pins.admitsOnlyPinned

end HostedWebViewOptions

/-- A backslash ends the host of a page, but not what the guard matches. -/
theorem guard_admits_foreign_host :
    ¬ HostedWebViewOptions.AdmitsOnlyPinned asciiCase
      { url := lit "https://kyc.example.com/hosted/sess-1"
        allowedOrigin := none
        allowedNavigationOrigins := [lit "https://*.sumsub.com"] } := by
  rintro only
  obtain ⟨origin, h, pattern, hp, declared⟩ :=
    only (lit "https://evil.example\\.sumsub.com/") (by decide) (by decide)
  obtain rfl : lit "https://evil.example" = origin := by
    simpa [show standardOrigin asciiCase (lit "https://evil.example\\.sumsub.com/")
      = some (lit "https://evil.example") by decide] using h
  have patterns : pattern = lit "https://kyc.example.com" ∨ pattern = lit "https://*.sumsub.com" :=
    List.mem_pair.mp hp
  rcases declared with same | ⟨scheme, mem, subdomain, domain, -, wanted, origin⟩
  · rcases patterns with rfl | rfl <;> revert same <;> decide
  · have start : scheme ++ lit "*." <+: asciiCase.lower pattern := ⟨domain, wanted.symm⟩
    have rest : (asciiCase.lower pattern).drop (scheme.length + 2) = domain := by
      rw [wanted]
      exact List.drop_left' (by simp [lit])
    have finish : lit "." ++ domain <:+ lit "https://evil.example" :=
      ⟨scheme ++ subdomain, by rw [origin]; simp⟩
    rw [← rest] at finish
    clear rest wanted origin hp h
    revert start finish
    rcases patterns with rfl | rfl <;> rcases mem_schemes.mp mem with rfl | rfl <;> decide

end Guard

end Kyc.Hosted
