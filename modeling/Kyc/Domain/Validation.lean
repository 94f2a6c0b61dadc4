import Mathlib.Algebra.GroupWithZero.Nat
import Mathlib.Data.Rat.Defs
import Kyc.Domain.Types

/-! # Input validation

Start inputs arrive as arbitrary JSON values. The rules bound the free texts and
throw a `VALIDATION_ERROR` each; a level or locale that is no string has no `trim`.
-/

namespace Kyc

/-- A JSON value; the fields of an object have pairwise different names. -/
inductive JsonValue
  | null
  | bool (b : Bool)
  | number (q : ℚ)
  | string (s : String)
  | array (items : List JsonValue)
  | object (fields : List (String × JsonValue))

/-- `v?.name`, for a name that nothing inherits: `none` is `undefined`. -/
def JsonValue.field? : Option JsonValue → String → Option JsonValue
  | some (.object fields), name => fields.lookup name
  | _, _ => none

/-- The white space and line terminators that `trim` removes. -/
def isTrimmed (c : Char) : Bool :=
  c ∈ ['\t', '\n', '\x0b', '\x0c', '\r', ' ', '\u00a0', '\u1680', '\u2028', '\u2029', '\u202f',
    '\u205f', '\u3000', '\ufeff'] ∨ ('\u2000' ≤ c ∧ c ≤ '\u200a')

/-- `s.trim() === ''`. -/
def isBlank (s : String) : Bool := s.toList.all isTrimmed

/-- `s.length`: the number of UTF-16 code units. -/
def utf16Length (s : String) : ℕ := (s.toList.map fun c => if c.val < 0x10000 then 1 else 2).sum

def maxLevelNameLength : ℕ := 100

def maxLocaleLength : ℕ := 35

/-- `LOCALE_PATTERN`: two lower-case letters, optionally `-` and two upper-case letters. -/
def localePattern (s : String) : Bool :=
  let lower := fun c : Char => 'a' ≤ c ∧ c ≤ 'z'
  let upper := fun c : Char => 'A' ≤ c ∧ c ≤ 'Z'
  match s.toList with
  | [a, b] => lower a ∧ lower b
  | [a, b, '-', c, d] => lower a ∧ lower b ∧ upper c ∧ upper d
  | _ => false

def requireId (value : Option String) (name : String) : Except Thrown String :=
  match truthy value with
  | some s =>
    if isBlank s then .error (Errors.validationError (name ++ " is required and cannot be empty"))
    else .ok s
  | none => .error (Errors.validationError (name ++ " is required and cannot be empty"))

theorem requireId_eq_ok {value : Option String} {name id : String}
    (h : requireId value name = .ok id) : value = some id := by
  unfold requireId at h
  cases hv : truthy value with
  | none => rw [hv] at h; cases h
  | some s =>
    rw [hv] at h
    dsimp only at h
    split at h
    · cases h
    · obtain rfl := Except.ok.inj h
      exact (truthy_eq_some.mp hv).1

theorem requireId_of_not_blank {name id : String} (h : isBlank id = false) :
    requireId (some id) name = .ok id := by
  have hne : id ≠ "" := by
    rintro rfl
    revert h
    decide
  unfold requireId
  rw [truthy_eq_some.mpr ⟨rfl, hne⟩]
  simp [h]

theorem requireId_of_blank {name id : String} (h : isBlank id = true) :
    requireId (some id) name =
      .error (Errors.validationError (name ++ " is required and cannot be empty")) := by
  unfold requireId
  cases hv : truthy (some id) with
  | none => rfl
  | some s =>
    have hs : id = s := Option.some.inj (truthy_eq_some.mp hv).1
    subst hs
    simp [h]

/-- An optional text: absent is fine, present means non-blank and bounded. -/
def optionalText (value : Option JsonValue) (name : String) (maxLength : ℕ) :
    Except Thrown (Option String) :=
  match value with
  | none => .ok none
  | some .null => .ok none
  | some (.string s) =>
    if isBlank s then .error (Errors.validationError (name ++ " cannot be empty when provided"))
    else if utf16Length s > maxLength then
      .error (Errors.validationError
        (name ++ " must be at most " ++ toString maxLength ++ " characters"))
    else .ok (some s)
  -- no other value has a `trim` method: a TypeError, without a code
  | some _ => .error (plainError "value.trim is not a function")

/-- `isVerificationPlatform`, with the platform it recognises. -/
def verificationPlatform? : Option JsonValue → Option VerificationPlatform
  | some (.string "WEB") => some .web
  | some (.string "IOS") => some .ios
  | some (.string "ANDROID") => some .android
  | _ => none

/-- The start input, validated: a known platform, bounded optional texts. -/
def validateStartInput (input : Option JsonValue) : Except Thrown CreateSessionOptions :=
  match verificationPlatform? (JsonValue.field? input "platform") with
  | none => .error (Errors.validationError "platform must be one of WEB, IOS, ANDROID")
  | some platform => do
    let levelName ← optionalText (JsonValue.field? input "levelName") "levelName" maxLevelNameLength
    let locale ← optionalText (JsonValue.field? input "locale") "locale" maxLocaleLength
    match locale with
    | some s =>
      if localePattern s then .ok ⟨platform, levelName, locale⟩
      else .error (Errors.validationError "locale must look like \"en\" or \"en-US\"")
    | none => .ok ⟨platform, levelName, locale⟩

end Kyc
