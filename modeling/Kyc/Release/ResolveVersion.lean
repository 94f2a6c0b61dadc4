import Kyc.Numbers.Conversions
import Kyc.Release.SemVer

/-! # What a run publishes

A release publishes the version of its tag, every other run a prerelease of the next patch
after the latest tag. That is put together from texts: it is a version in its place among
the others unless one of them has a superfluous zero or the patch is too large to count on.
-/

namespace Kyc

open Json Numbers

structure VersionTag where
  version : Text
  prerelease : Bool
  deriving DecidableEq

def isTagVersion (s : Text) : Bool :=
  match SemVer.core s with
  | some (_, _, _, []) => true
  | some (_, _, _, c :: suffix) =>
    c = unit '-' ∧ suffix ≠ [] ∧ suffix.all fun c => SemVer.isIdentifierUnit c ∨ c = unit '.'
  | none => false

def parseVersionTag : Option Text → Option VersionTag
  | some (v :: version) =>
    if v = unit 'v' ∧ isTagVersion version then some ⟨version, unit '-' ∈ version⟩ else none
  | _ => none

inductive DistTag
  | latest
  | next
  deriving DecidableEq

structure VersionRequest where
  event : Text
  tag : Text
  run : Text
  sha : Text
  shortSha : Option Text
  latestTag : Option Text
  onMain : Bool

structure ResolvedVersion where
  version : Text
  disttag : DistTag
  deriving DecidableEq

def withoutLeadingV : Text → Text
  | c :: s => if c = unit 'v' then s else c :: s
  | [] => []

/-- A text up to the first hyphen that the rest of the line is the rest of the text from. -/
def withoutSuffix : Text → Text
  | [] => []
  | c :: s =>
    if c = unit '-' ∧ s.all (· ∉ ([10, 13, 0x2028, 0x2029] : Text)) then []
    else c :: withoutSuffix s

def VersionRequest.commit (request : VersionRequest) : Text :=
  request.shortSha.getD (request.sha.take 7)

def VersionRequest.latest (request : VersionRequest) : Text :=
  request.latestTag.getD (lit "v0.0.0")

def VersionRequest.prerelease (request : VersionRequest) : Text :=
  let numbers := (withoutSuffix (withoutLeadingV request.latest)).splitOn (unit '.')
  let patch := (numberOf numbers[2]?).addOne
  numbers[0]?.getD (lit "undefined") ++ unit '.' :: (numbers[1]?.getD (lit "undefined") ++
    unit '.' :: (patch.text ++ lit "-pre." ++ request.run ++ unit '.' :: request.commit))

def resolveVersion (request : VersionRequest) : Except Text ResolvedVersion :=
  if request.event = lit "release" then
    match parseVersionTag request.tag with
    | none =>
      .error (lit "::error::release tag '" ++ request.tag ++
        lit "' is not vX.Y.Z or vX.Y.Z-<prerelease>")
    | some parsed =>
      if request.onMain then
        .ok ⟨parsed.version, if parsed.prerelease then .next else .latest⟩
      else
        .error (lit "::error::release commit " ++ request.sha.take 7 ++
          lit " is not on main - use `gh release create --target main`")
  else .ok ⟨request.prerelease, .next⟩

/-! ## Prereleases in order -/

def IsHex (s : Text) : Prop := s ≠ [] ∧ ∀ c ∈ s, (hexValue c).isSome

/-- A run that is not a release, with its number and the short sha of its commit. -/
structure VersionRequest.IsPush (request : VersionRequest) : Prop where
  event : request.event ≠ lit "release"
  run : SemVer.IsDigits request.run
  commit : IsHex request.commit

/-- A version is valid, and in its place after the latest tag's and before those of later runs. -/
structure VersionInOrder (request : VersionRequest) (latest version : Text) : Prop where
  valid : SemVer.isValid version
  after_latest : SemVer.Precedes latest version
  before_later : ∀ later : VersionRequest, later.IsPush → later.latestTag = request.latestTag →
    decimal.read request.run < decimal.read later.run →
    ∃ laterVersion, resolveVersion later = .ok ⟨laterVersion, .next⟩ ∧
      SemVer.Precedes version laterVersion

def PublishesInOrder (request : VersionRequest) (latest : Text) : Prop :=
  ∃ version, resolveVersion request = .ok ⟨version, .next⟩ ∧ VersionInOrder request latest version

/-- One can be counted on from the patch: it is below two to the 53, or doubles are written above
it. -/
def Increases (patch : Text) : Prop :=
  decimal.read patch < 2 ^ 53 ∨
    decimal.read patch < 2 ^ 54 ∧ 2 ≤ decimal.read patch % 4 ∨
    2 ^ 54 ≤ decimal.read patch ∧
      ∃ n, (numberOf (some patch)).written = some n ∧ decimal.read patch < n

/-- One more than the patch is the patch. -/
def Stays (patch : Text) : Prop :=
  2 ^ 53 ≤ decimal.read patch ∧ decimal.read patch < 2 ^ 54 ∧ decimal.read patch % 4 = 0 ∨
    2 ^ 54 ≤ decimal.read patch ∧
      (numberOf (some patch)).written = some (decimal.read patch)

def prereleaseIdentifiers (run commit : Text) : List SemVer.Identifier :=
  [lit "pre", run, commit].map SemVer.identifier

/-- No number has a superfluous zero, nor has a short sha that is digits alone, and the patch can
be increased, or at least leaves the latest tag's own prerelease behind. -/
structure Publishable (latest : SemVer.Parts) (run commit : Text) : Prop where
  major : SemVer.hasSuperfluousZero latest.major = false
  minor : SemVer.hasSuperfluousZero latest.minor = false
  patch : Increases latest.patch ∨ Stays latest.patch ∧
    ∃ prerelease ∈ latest.version.prerelease,
      List.Lex SemVer.Identifier.Lt prerelease (prereleaseIdentifiers run commit)
  run : SemVer.hasSuperfluousZero run = false
  commit : ¬ (commit.all isDigit ∧ SemVer.hasSuperfluousZero commit)

section Tags

variable {a b p rest : Text} {tag : Text} {parsed : VersionTag}

def IsSuffix (rest : Text) : Prop :=
  rest = [] ∨ ∃ suffix, rest = unit '-' :: suffix ∧
    ∀ c ∈ suffix, SemVer.isIdentifierUnit c ∨ c = unit '.'

theorem parseVersionTag_eq_some (h : parseVersionTag (some tag) = some parsed) :
    tag = unit 'v' :: parsed.version ∧
      ∃ a b p rest, SemVer.core parsed.version = some (a, b, p, rest) ∧ IsSuffix rest := by
  cases tag with
  | nil => cases h
  | cons v version =>
    rw [parseVersionTag] at h
    split_ifs at h with accepted
    obtain rfl := Option.some.inj h
    obtain ⟨rfl, hv⟩ := accepted
    refine ⟨rfl, ?_⟩
    rw [isTagVersion] at hv
    match hc : SemVer.core version with
    | none => simp [hc] at hv
    | some (a, b, p, []) => exact ⟨a, b, p, [], rfl, Or.inl rfl⟩
    | some (a, b, p, c :: suffix) =>
      simp only [hc, decide_eq_true_eq, List.all_eq_true] at hv
      obtain ⟨rfl, -, units⟩ := hv
      exact ⟨a, b, p, _, rfl, Or.inr ⟨suffix, rfl, by simpa using units⟩⟩

theorem suffix_unit {c : UInt16} (h : SemVer.isIdentifierUnit c ∨ c = unit '.') :
    c ∉ ([10, 13, 0x2028, 0x2029] : Text) ∧ c ≠ unit '+' := by
  have others : ∀ d ∈ unit '+' :: ([10, 13, 0x2028, 0x2029] : Text),
      ¬ (SemVer.isIdentifierUnit d ∨ d = unit '.') := by decide
  exact ⟨fun line => others c (List.mem_cons_of_mem _ line) h,
    fun plus => others c (plus ▸ List.mem_cons_self) h⟩

theorem withoutSuffix_append (ha : unit '-' ∉ a) (h : IsSuffix rest) :
    withoutSuffix (a ++ rest) = a := by
  induction a with
  | nil =>
    rcases h with rfl | ⟨suffix, rfl, units⟩
    · rfl
    · exact if_pos ⟨rfl, List.all_eq_true.mpr fun c hc =>
        decide_eq_true (suffix_unit (units c hc)).1⟩
  | cons c a ih =>
    obtain ⟨hc, ha⟩ := not_or.mp (List.mem_cons.not.mp ha)
    rw [List.cons_append, withoutSuffix, if_neg (fun h => hc h.1.symm), ih ha]

def prereleaseOf (v : SemVer.Parts) (run commit : Text) : Text :=
  v.major ++ unit '.' :: (v.minor ++ unit '.' :: ((numberOf (some v.patch)).addOne.text ++
    unit '-' :: (lit "pre." ++ (run ++ unit '.' :: commit))))

/-- A version whose numbers are digits. -/
structure HasDigits (v : SemVer.Parts) : Prop where
  major : SemVer.IsDigits v.major
  minor : SemVer.IsDigits v.minor
  patch : SemVer.IsDigits v.patch

/-- The version of an accepted tag has parts, and they make the prereleases after it. -/
theorem exists_parts_of_tag (h : parseVersionTag (some tag) = some parsed) :
    ∃ v, SemVer.parts parsed.version = some v ∧ HasDigits v ∧
      ∀ request : VersionRequest, request.latest = tag →
        request.prerelease = prereleaseOf v request.run request.commit := by
  obtain ⟨htag, a, b, p, rest, hcore, suffix⟩ := parseVersionTag_eq_some h
  obtain ⟨ha, hb, hp, hversion⟩ := SemVer.core_eq_some hcore
  obtain ⟨prerelease, hsuffixes⟩ :
      ∃ prerelease, SemVer.suffixes rest = some (prerelease, none) := by
    rcases suffix with rfl | ⟨suffix, rfl, units⟩
    · exact ⟨none, rfl⟩
    · exact ⟨some suffix, SemVer.suffixes_prerelease fun plus => (suffix_unit (units _ plus)).2 rfl⟩
  refine ⟨⟨a, b, p, prerelease, none⟩, ?_, ⟨ha, hb, hp⟩, ?_⟩
  · rw [SemVer.parts, hcore]
    simp [hsuffixes]
  · intro request hlatest
    have numbers : withoutSuffix (withoutLeadingV request.latest) =
        a ++ unit '.' :: (b ++ unit '.' :: p) := by
      have apart : parsed.version = (a ++ unit '.' :: (b ++ unit '.' :: p)) ++ rest := by
        simp [hversion]
      have hyphen : unit '-' ∉ a ++ unit '.' :: (b ++ unit '.' :: p) := by
        have dot : unit '-' ≠ unit '.' := by decide
        simp [ha.not_mem, hb.not_mem, hp.not_mem, dot, show isDigit (unit '-') = false by decide]
      rw [hlatest, htag, withoutLeadingV, if_pos rfl, apart, withoutSuffix_append hyphen suffix]
    have split : (a ++ unit '.' :: (b ++ unit '.' :: p)).splitOn (unit '.') = [a, b, p] := by
      have first := SemVer.identifiers_append (t := b ++ unit '.' :: p)
        (ha.not_mem (c := unit '.') (by decide))
      rw [SemVer.identifiers_append (hb.not_mem (by decide)),
        SemVer.identifiers_of_not_mem (hp.not_mem (by decide))] at first
      exact first
    rw [VersionRequest.prerelease, numbers, split, prereleaseOf]
    simp [lit]

end Tags

section Publish

variable {v : SemVer.Parts} {run commit : Text} {n : ℕ}

theorem hex_unit {c : UInt16} (h : (hexValue c).isSome) :
    SemVer.isIdentifierUnit c ∧ c ≠ unit '.' ∧ c ≠ unit '+' := by
  refine ⟨?_, ?_, ?_⟩
  · rw [hexValue] at h
    simp only [SemVer.isIdentifierUnit, decide_eq_true_eq]
    split_ifs at h with digit small large
    · exact Or.inl digit
    · exact Or.inr (Or.inl ⟨small.1, UInt16.le_trans small.2 (by decide)⟩)
    · exact Or.inr (Or.inr (Or.inl ⟨large.1, UInt16.le_trans large.2 (by decide)⟩))
    · cases h
  · rintro rfl
    exact absurd h (by decide)
  · rintro rfl
    exact absurd h (by decide)

theorem parts_prereleaseOf (hv : HasDigits v) (hrun : SemVer.IsDigits run) (hcommit : IsHex commit)
    (hn : (numberOf (some v.patch)).addOne.written = some n) :
    SemVer.parts (prereleaseOf v run commit) =
      some ⟨v.major, v.minor, decimal.print n, some (lit "pre." ++ (run ++ unit '.' :: commit)),
        none⟩ := by
  have plus : unit '+' ∉ lit "pre." ++ (run ++ unit '.' :: commit) := by
    have outer : unit '+' ∉ lit "pre." := by decide
    have dot : unit '+' ≠ unit '.' := by decide
    have last : unit '+' ∉ commit := fun h => (hex_unit (hcommit.2 _ h)).2.2 rfl
    simp [outer, dot, last, hrun.not_mem, show isDigit (unit '+') = false by decide]
  rw [prereleaseOf, text_of_written hn]
  exact SemVer.parts_prerelease hv.major hv.minor (SemVer.isDigits_print n) plus

theorem identifiers_prerelease (hrun : SemVer.IsDigits run) (hcommit : IsHex commit) :
    SemVer.identifiers (lit "pre." ++ (run ++ unit '.' :: commit)) = [lit "pre", run, commit] := by
  have last : unit '.' ∉ commit := fun h => (hex_unit (hcommit.2 _ h)).2.1 rfl
  have first := SemVer.identifiers_append (a := lit "pre") (t := run ++ unit '.' :: commit)
    (by decide)
  rw [SemVer.identifiers_append (hrun.not_mem (by decide)),
    SemVer.identifiers_of_not_mem last] at first
  exact first

theorem isValid_prereleaseOf (hv : HasDigits v) (hrun : SemVer.IsDigits run)
    (hcommit : IsHex commit) (hn : (numberOf (some v.patch)).addOne.written = some n) :
    SemVer.isValid (prereleaseOf v run commit) ↔
      SemVer.hasSuperfluousZero v.major = false ∧ SemVer.hasSuperfluousZero v.minor = false ∧
        SemVer.hasSuperfluousZero run = false ∧
        ¬ (commit.all isDigit ∧ SemVer.hasSuperfluousZero commit) := by
  have pre : SemVer.isPrereleaseIdentifier (lit "pre") := by decide
  have last := SemVer.isPrereleaseIdentifier_iff hcommit.1 fun c hc => (hex_unit (hcommit.2 c hc)).1
  have patch : SemVer.isNumericIdentifier (decimal.print n) :=
    (SemVer.isNumericIdentifier_iff (SemVer.isDigits_print n)).mpr
      (SemVer.hasSuperfluousZero_print n)
  rw [SemVer.isValid, parts_prereleaseOf hv hrun hcommit hn, Option.any_some, SemVer.Parts.isValid,
    decide_eq_true_eq, SemVer.isNumericIdentifier_iff hv.major,
    SemVer.isNumericIdentifier_iff hv.minor, Option.all_some, identifiers_prerelease hrun hcommit]
  simp only [patch, pre, List.all_cons, List.all_nil, Bool.and_true, Bool.true_and,
    Bool.and_eq_true, hrun.isPrereleaseIdentifier_iff, last, Option.all_none, true_and, and_true]

theorem version_prereleaseOf (hrun : SemVer.IsDigits run) (hcommit : IsHex commit) :
    (⟨v.major, v.minor, decimal.print n, some (lit "pre." ++ (run ++ unit '.' :: commit)),
        none⟩ : SemVer.Parts).version =
      ⟨decimal.read v.major, decimal.read v.minor, n, some (prereleaseIdentifiers run commit)⟩ := by
  rw [SemVer.Parts.version, Option.map_some, identifiers_prerelease hrun hcommit,
    decimal_read_print, prereleaseIdentifiers]

theorem prereleaseLt_some {a : Option (List SemVer.Identifier)} {b : List SemVer.Identifier} :
    SemVer.PrereleaseLt a (some b) ↔
      ∃ prerelease ∈ a, List.Lex SemVer.Identifier.Lt prerelease b := by
  cases a with
  | none => exact iff_of_false id (by simp)
  | some a => simp [SemVer.PrereleaseLt]

theorem version_lt_iff (v : SemVer.Version) (patch : ℕ)
    (prerelease : Option (List SemVer.Identifier)) :
    v.Lt ⟨v.major, v.minor, patch, prerelease⟩ ↔
      v.patch < patch ∨ v.patch = patch ∧ SemVer.PrereleaseLt v.prerelease prerelease := by
  simp [SemVer.Version.Lt]

theorem increases_iff (hp : SemVer.IsDigits v.patch)
    (hn : (numberOf (some v.patch)).addOne.written = some n) :
    Increases v.patch ↔ decimal.read v.patch < n := by
  rw [written_addOne_of_digits hp.1 hp.2] at hn
  rw [Increases]
  split_ifs at hn with small between
  · have value := Option.some.inj hn
    omega
  · have value := Option.some.inj hn
    omega
  · simp only [hn, Option.some.injEq, exists_eq_left']
    omega

theorem stays_iff (hp : SemVer.IsDigits v.patch)
    (hn : (numberOf (some v.patch)).addOne.written = some n) :
    Stays v.patch ↔ decimal.read v.patch = n := by
  rw [written_addOne_of_digits hp.1 hp.2] at hn
  rw [Stays]
  split_ifs at hn with small between
  · have value := Option.some.inj hn
    omega
  · have value := Option.some.inj hn
    omega
  · simp only [hn, Option.some.injEq]
    omega

theorem precedes_prereleaseOf (hv : HasDigits v) (hrun : SemVer.IsDigits run)
    (hcommit : IsHex commit) (hn : (numberOf (some v.patch)).addOne.written = some n) {s : Text}
    (hs : SemVer.parts s = some v) :
    SemVer.Precedes s (prereleaseOf v run commit) ↔
      Increases v.patch ∨ Stays v.patch ∧ ∃ prerelease ∈ v.version.prerelease,
        List.Lex SemVer.Identifier.Lt prerelease (prereleaseIdentifiers run commit) := by
  rw [increases_iff hv.patch hn, stays_iff hv.patch hn, ← prereleaseLt_some]
  have next := parts_prereleaseOf hv hrun hcommit hn
  have version := version_prereleaseOf (v := v) (n := n) hrun hcommit
  constructor
  · rintro ⟨v', w, hv', hw, lt⟩
    obtain rfl := Option.some.inj (hs.symm.trans hv')
    obtain rfl := Option.some.inj (next.symm.trans hw)
    rw [version] at lt
    exact (version_lt_iff v.version n _).mp lt
  · intro lt
    refine ⟨_, _, hs, next, ?_⟩
    rw [version]
    exact (version_lt_iff v.version n _).mpr lt

theorem precedes_of_run_lt (hv : HasDigits v) {run' commit' : Text} (hrun : SemVer.IsDigits run)
    (hrun' : SemVer.IsDigits run') (hcommit : IsHex commit) (hcommit' : IsHex commit')
    (hn : (numberOf (some v.patch)).addOne.written = some n)
    (more : decimal.read run < decimal.read run') :
    SemVer.Precedes (prereleaseOf v run commit) (prereleaseOf v run' commit') := by
  refine ⟨_, _, parts_prereleaseOf hv hrun hcommit hn, parts_prereleaseOf hv hrun' hcommit' hn, ?_⟩
  rw [version_prereleaseOf hrun hcommit, version_prereleaseOf hrun' hcommit']
  refine (version_lt_iff ⟨_, _, _, _⟩ n _).mpr (Or.inr ⟨rfl, List.Lex.cons (List.Lex.rel ?_)⟩)
  rw [SemVer.identifier_of_digits hrun, SemVer.identifier_of_digits hrun']
  exact more

theorem not_increases_of_not_written (hp : SemVer.IsDigits v.patch)
    (hn : (numberOf (some v.patch)).addOne.written = none) :
    ¬ Increases v.patch ∧ ¬ Stays v.patch := by
  rw [written_addOne_of_digits hp.1 hp.2] at hn
  split_ifs at hn with small between
  rw [Increases, Stays]
  simp only [hn, reduceCtorEq, false_and, exists_false, and_false, or_false]
  omega

theorem not_isValid_prereleaseOf (hv : HasDigits v)
    (hn : (numberOf (some v.patch)).addOne.written = none) :
    ¬ SemVer.isValid (prereleaseOf v run commit) := by
  obtain ⟨digits, c, rest, htext, hdigits, hc, other⟩ :=
    text_addOne_of_digits hv.patch.1 hv.patch.2 hn
  rw [SemVer.isValid, prereleaseOf, htext, List.append_assoc, List.cons_append,
    SemVer.parts_eq_none hv.major hv.minor hdigits hc other]
  simp

end Publish

/-- A run's version is valid and in its place exactly if the latest tag, the number of the run and
its short sha are such. -/
theorem publishesInOrder_iff (request : VersionRequest) (push : request.IsPush) {tag : VersionTag}
    (accepted : parseVersionTag (some request.latest) = some tag) :
    PublishesInOrder request tag.version ↔
      ∃ v, SemVer.parts tag.version = some v ∧ Publishable v request.run request.commit := by
  obtain ⟨v, hparts, hv, prerelease⟩ := exists_parts_of_tag accepted
  have resolved : ∀ later : VersionRequest, later.IsPush → later.latestTag = request.latestTag →
      resolveVersion later = .ok ⟨prereleaseOf v later.run later.commit, .next⟩ := by
    intro later hlater same
    have latest : later.latest = request.latest := by
      rw [VersionRequest.latest, same, ← VersionRequest.latest]
    rw [resolveVersion, if_neg hlater.event, prerelease later latest]
  have own := resolved request push rfl
  simp only [hparts, Option.some.injEq, exists_eq_left']
  constructor
  · rintro ⟨version, hversion, order⟩
    obtain rfl : prereleaseOf v request.run request.commit = version := by
      simpa using own.symm.trans hversion
    cases hn : (numberOf (some v.patch)).addOne.written with
    | none => exact absurd order.valid (not_isValid_prereleaseOf hv hn)
    | some n =>
      obtain ⟨hmajor, hminor, hrun, hcommit⟩ :=
        (isValid_prereleaseOf hv push.run push.commit hn).mp order.valid
      have patch := (precedes_prereleaseOf hv push.run push.commit hn hparts).mp order.after_latest
      exact ⟨hmajor, hminor, patch, hrun, hcommit⟩
  · intro h
    cases hn : (numberOf (some v.patch)).addOne.written with
    | none =>
      obtain ⟨small, equal⟩ := not_increases_of_not_written hv.patch hn
      exact (h.patch.elim small fun h => equal h.1).elim
    | some n =>
      refine ⟨_, own, ?_⟩
      constructor
      case valid =>
        exact (isValid_prereleaseOf hv push.run push.commit hn).mpr
          ⟨h.major, h.minor, h.run, h.commit⟩
      case after_latest =>
        exact (precedes_prereleaseOf hv push.run push.commit hn hparts).mpr h.patch
      case before_later =>
        intro later hlater same more
        exact ⟨_, resolved later hlater same,
          precedes_of_run_lt hv push.run hlater.run push.commit hlater.commit hn more⟩

/-- A run after `v1.2.3`, of a commit whose short sha is a letter and digits. -/
def samplePush : VersionRequest where
  event := lit "push"
  tag := []
  run := lit "42"
  sha := lit "fedcba9876543210"
  shortSha := none
  latestTag := some (lit "v1.2.3")
  onMain := false

theorem samplePush_isPush : samplePush.IsPush where
  event := by decide
  run := ⟨by decide, by decide⟩
  commit := ⟨by decide, by decide⟩

theorem publishesInOrder_samplePush : PublishesInOrder samplePush (lit "1.2.3") :=
  have accepted : parseVersionTag (some samplePush.latest) = some ⟨lit "1.2.3", false⟩ := by decide
  (publishesInOrder_iff samplePush samplePush_isPush accepted).mpr
    ⟨⟨lit "1", lit "2", lit "3", none, none⟩, by decide, by decide, by decide,
      Or.inl (Or.inl (by decide)), by decide, by decide⟩

/-- A short sha of digits alone with a zero in front makes the version invalid. -/
theorem not_publishesInOrder_of_digits :
    ¬ PublishesInOrder { samplePush with run := lit "12", shortSha := some (lit "0123456789") }
      (lit "1.2.3") := by
  rintro ⟨version, hversion, order⟩
  obtain rfl : lit "1.2.4-pre.12.0123456789" = version := by
    injection hversion with resolved
    have text : VersionRequest.prerelease
        { samplePush with run := lit "12", shortSha := some (lit "0123456789") } =
          lit "1.2.4-pre.12.0123456789" := by decide +kernel
    rw [← text]
    exact congrArg ResolvedVersion.version resolved
  exact absurd order.valid (by decide)

end Kyc
