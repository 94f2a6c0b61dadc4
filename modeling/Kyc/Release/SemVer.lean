import Kyc.Json.RoundTrip
import Mathlib.Data.List.TakeWhile

/-! # Semantic versions

Which texts are versions of SemVer 2.0.0, and which of two has precedence. A text with
superfluous zeros is not a version, but it can still be compared with one.
-/

namespace Kyc.SemVer

open Json

/-! ## Parts of a version -/

section Parts

def hasSuperfluousZero : Text → Bool
  | zero :: _ :: _ => zero = unit '0'
  | _ => false

def isIdentifierUnit (c : UInt16) : Bool :=
  isDigit c ∨ unit 'a' ≤ c ∧ c ≤ unit 'z' ∨ unit 'A' ≤ c ∧ c ≤ unit 'Z' ∨ c = unit '-'

def isNumericIdentifier (s : Text) : Bool := s ≠ [] ∧ s.all isDigit ∧ ¬ hasSuperfluousZero s

def isBuildIdentifier (s : Text) : Bool := s ≠ [] ∧ s.all isIdentifierUnit

def isPrereleaseIdentifier (s : Text) : Bool :=
  isBuildIdentifier s ∧ ¬ (s.all isDigit ∧ hasSuperfluousZero s)

def identifiers (s : Text) : List Text := s.splitOn (unit '.')

def leadingDigits (s : Text) : Option (Text × Text) :=
  if s.takeWhile isDigit = [] then none else some (s.takeWhile isDigit, s.dropWhile isDigit)

def afterDot : Text → Option Text
  | c :: s => if c = unit '.' then some s else none
  | [] => none

def core (s : Text) : Option (Text × Text × Text × Text) := do
  let (major, s) ← leadingDigits s
  let s ← afterDot s
  let (minor, s) ← leadingDigits s
  let s ← afterDot s
  let (patch, s) ← leadingDigits s
  return (major, minor, patch, s)

structure Parts where
  major : Text
  minor : Text
  patch : Text
  prerelease : Option Text
  build : Option Text
  deriving DecidableEq

/-- What stands behind the numbers: a prerelease and a build, or one of them, or none. -/
def suffixes (s : Text) : Option (Option Text × Option Text) :=
  let build := match s.dropWhile (· ≠ unit '+') with
    | [] => none
    | _ :: build => some build
  match s.takeWhile (· ≠ unit '+') with
  | [] => some (none, build)
  | c :: prerelease => if c = unit '-' then some (some prerelease, build) else none

def parts (s : Text) : Option Parts := do
  let (major, minor, patch, rest) ← core s
  let (prerelease, build) ← suffixes rest
  return ⟨major, minor, patch, prerelease, build⟩

def Parts.isValid (v : Parts) : Bool :=
  isNumericIdentifier v.major ∧ isNumericIdentifier v.minor ∧ isNumericIdentifier v.patch ∧
    (v.prerelease.all fun s => (identifiers s).all isPrereleaseIdentifier) ∧
    (v.build.all fun s => (identifiers s).all isBuildIdentifier)

def isValid (s : Text) : Bool := (parts s).any Parts.isValid

end Parts

/-! ## Precedence -/

section Precedence

inductive Identifier
  | numeric (n : ℕ)
  | alphanumeric (s : Text)
  deriving DecidableEq

def identifier (s : Text) : Identifier :=
  if s ≠ [] ∧ s.all isDigit then .numeric (decimal.read s) else .alphanumeric s

def Identifier.Lt : Identifier → Identifier → Prop
  | numeric m, numeric n => m < n
  | numeric _, alphanumeric _ => True
  | alphanumeric _, numeric _ => False
  | alphanumeric s, alphanumeric t => List.Lex (· < ·) s t

/-- A version without its build, which precedence does not depend on. -/
structure Version where
  major : ℕ
  minor : ℕ
  patch : ℕ
  prerelease : Option (List Identifier)
  deriving DecidableEq

/-- A prerelease comes before the version itself. -/
def PrereleaseLt : Option (List Identifier) → Option (List Identifier) → Prop
  | some a, some b => List.Lex Identifier.Lt a b
  | some _, none => True
  | none, _ => False

def Version.Lt (v w : Version) : Prop :=
  v.major < w.major ∨ v.major = w.major ∧ (v.minor < w.minor ∨ v.minor = w.minor ∧
    (v.patch < w.patch ∨ v.patch = w.patch ∧ PrereleaseLt v.prerelease w.prerelease))

def Parts.version (v : Parts) : Version where
  major := decimal.read v.major
  minor := decimal.read v.minor
  patch := decimal.read v.patch
  prerelease := v.prerelease.map fun s => (identifiers s).map identifier

def Precedes (s t : Text) : Prop :=
  ∃ v w, parts s = some v ∧ parts t = some w ∧ v.version.Lt w.version

end Precedence

section Read

def IsDigits (s : Text) : Prop := s ≠ [] ∧ ∀ c ∈ s, isDigit c

variable {a b t rest : Text} {c : UInt16}

theorem takeWhile_digits (ha : ∀ d ∈ a, isDigit d) (hc : isDigit c = false) :
    (a ++ c :: rest).takeWhile isDigit = a := by
  rw [List.takeWhile_append_of_pos ha, List.takeWhile_cons_of_neg (by simp [hc]), List.append_nil]

theorem dropWhile_digits (ha : ∀ d ∈ a, isDigit d) (hc : isDigit c = false) :
    (a ++ c :: rest).dropWhile isDigit = c :: rest := by
  rw [List.dropWhile_append_of_pos ha, List.dropWhile_cons_of_neg (by simp [hc])]

theorem leadingDigits_append (ha : IsDigits a) (hc : isDigit c = false) :
    leadingDigits (a ++ c :: rest) = some (a, c :: rest) := by
  rw [leadingDigits, takeWhile_digits ha.2 hc, dropWhile_digits ha.2 hc, if_neg ha.1]

theorem core_append (ha : IsDigits a) (hb : IsDigits b) :
    core (a ++ unit '.' :: (b ++ unit '.' :: t)) =
      (leadingDigits t).map fun patch => (a, b, patch.1, patch.2) := by
  rw [core, leadingDigits_append ha (by decide)]
  simp only [Option.bind_eq_bind, Option.bind_some, afterDot, if_true,
    leadingDigits_append hb (show isDigit (unit '.') = false by decide)]
  cases leadingDigits t <;> rfl

theorem leadingDigits_eq_some {s : Text} (h : leadingDigits s = some (a, rest)) :
    IsDigits a ∧ s = a ++ rest := by
  rw [leadingDigits] at h
  split_ifs at h with empty
  obtain ⟨rfl, rfl⟩ := Prod.mk.inj (Option.some.inj h)
  refine ⟨⟨empty, fun c hc => List.mem_takeWhile_imp hc⟩, ?_⟩
  exact (List.takeWhile_append_dropWhile).symm

theorem afterDot_eq_some {s : Text} (h : afterDot s = some t) : s = unit '.' :: t := by
  cases s with
  | nil => cases h
  | cons c s =>
    rw [afterDot] at h
    split_ifs at h with dot
    rw [dot, Option.some.inj h]

theorem core_eq_some {s major minor patch : Text} (h : core s = some (major, minor, patch, rest)) :
    IsDigits major ∧ IsDigits minor ∧ IsDigits patch ∧
      s = major ++ unit '.' :: (minor ++ unit '.' :: (patch ++ rest)) := by
  simp only [core, Option.bind_eq_bind, Option.bind_eq_some_iff, Prod.exists] at h
  obtain ⟨a, s₁, h₁, s₂, h₂, b, s₃, h₃, s₄, h₄, c, s₅, h₅, heq⟩ := h
  obtain ⟨rfl, rfl, rfl, rfl⟩ : a = major ∧ b = minor ∧ c = patch ∧ s₅ = rest := by
    simpa using heq
  obtain ⟨ha, rfl⟩ := leadingDigits_eq_some h₁
  obtain ⟨hb, rfl⟩ := leadingDigits_eq_some h₃
  obtain ⟨hc, rfl⟩ := leadingDigits_eq_some h₅
  rw [afterDot_eq_some h₂, afterDot_eq_some h₄]
  exact ⟨ha, hb, hc, rfl⟩

theorem suffixes_prerelease (ht : unit '+' ∉ t) :
    suffixes (unit '-' :: t) = some (some t, none) := by
  have plain : ∀ c ∈ unit '-' :: t, (decide (c ≠ unit '+')) = true := by
    rintro c hc
    refine decide_eq_true ?_
    rintro rfl
    rcases List.mem_cons.mp hc with h | h
    · exact absurd h (by decide)
    · exact ht h
  rw [suffixes, List.takeWhile_eq_self_iff.mpr plain, List.dropWhile_eq_nil_iff.mpr plain]
  exact if_pos rfl

theorem suffixes_other (hc : c ∉ lit "-+") : suffixes (c :: t) = none := by
  have plus : c ≠ unit '+' := fun h => hc (h ▸ by decide)
  have minus : c ≠ unit '-' := fun h => hc (h ▸ by decide)
  rw [suffixes, List.takeWhile_cons_of_pos (by simp [plus])]
  exact if_neg minus

theorem parts_prerelease {p : Text} (ha : IsDigits a) (hb : IsDigits b) (hp : IsDigits p)
    (ht : unit '+' ∉ t) :
    parts (a ++ unit '.' :: (b ++ unit '.' :: (p ++ unit '-' :: t))) =
      some ⟨a, b, p, some t, none⟩ := by
  rw [parts, core_append ha hb, leadingDigits_append hp (by decide)]
  simp [suffixes_prerelease ht]

theorem parts_eq_none {digits : Text} (ha : IsDigits a) (hb : IsDigits b)
    (hd : ∀ d ∈ digits, isDigit d) (hc : isDigit c = false) (other : c ∉ lit "-+") :
    parts (a ++ unit '.' :: (b ++ unit '.' :: (digits ++ c :: t))) = none := by
  rw [parts, core_append ha hb, leadingDigits, takeWhile_digits hd hc, dropWhile_digits hd hc]
  split_ifs
  · rfl
  · simp [suffixes_other other]

theorem identifiers_append (ha : unit '.' ∉ a) :
    identifiers (a ++ unit '.' :: t) = a :: identifiers t := by
  rw [identifiers, List.splitOn_append_cons_self_of_not_mem ha]
  rfl

theorem identifiers_of_not_mem (ha : unit '.' ∉ a) : identifiers a = [a] :=
  List.splitOn_eq_singleton ha

theorem IsDigits.not_mem (ha : IsDigits a) (hc : isDigit c = false) : c ∉ a := fun h => by
  rw [ha.2 c h] at hc
  cases hc

theorem isDigits_print (n : ℕ) : IsDigits (decimal.print n) :=
  ⟨fun empty => Nat.toDigits_ne_nil (List.map_eq_nil_iff.mp empty),
    fun _ hc => isDigit_of_mem_print hc⟩

theorem head_print_ne {n : ℕ} (hn : 0 < n) : (decimal.print n).head? ≠ some (unit '0') := by
  have head : (decimal.print n).head? = (Nat.toDigits 10 n).head?.map unit := List.head?_map
  rw [head]
  induction n using Nat.strong_induction_on with
  | _ n ih =>
    rw [Nat.toDigits_eq_if (by decide)]
    split_ifs with small
    · have all : ∀ m < 10, 0 < m → unit m.digitChar ≠ unit '0' := by decide
      simpa using all n small hn
    · have less := ih (n / 10) (by omega) (by omega) List.head?_map
      rwa [List.head?_append_of_ne_nil _ Nat.toDigits_ne_nil]

theorem hasSuperfluousZero_print (n : ℕ) : hasSuperfluousZero (decimal.print n) = false := by
  rcases Nat.eq_zero_or_pos n with rfl | pos
  · decide
  · have head := head_print_ne pos
    match h : decimal.print n with
    | [] => rfl
    | [_] => rfl
    | c :: _ :: _ =>
      rw [h] at head
      simpa [hasSuperfluousZero] using head

theorem isNumericIdentifier_iff (ha : IsDigits a) :
    isNumericIdentifier a ↔ hasSuperfluousZero a = false := by
  have all : a.all isDigit := List.all_eq_true.mpr ha.2
  simp [isNumericIdentifier, ha.1, all]

theorem isPrereleaseIdentifier_iff (hs : a ≠ []) (units : ∀ c ∈ a, isIdentifierUnit c) :
    isPrereleaseIdentifier a ↔ ¬ (a.all isDigit ∧ hasSuperfluousZero a) := by
  have all : a.all isIdentifierUnit := List.all_eq_true.mpr units
  have build : isBuildIdentifier a := decide_eq_true ⟨hs, all⟩
  rw [isPrereleaseIdentifier, decide_eq_true_eq]
  exact and_iff_right build

theorem IsDigits.isPrereleaseIdentifier_iff (ha : IsDigits a) :
    isPrereleaseIdentifier a ↔ hasSuperfluousZero a = false := by
  have all : a.all isDigit := List.all_eq_true.mpr ha.2
  rw [SemVer.isPrereleaseIdentifier_iff ha.1 fun c hc => decide_eq_true (Or.inl (ha.2 c hc))]
  simp [all]

theorem identifier_of_digits (ha : IsDigits a) : identifier a = .numeric (decimal.read a) :=
  if_pos ⟨ha.1, List.all_eq_true.mpr ha.2⟩

end Read

end Kyc.SemVer
