import Mathlib.Logic.Basic

/-! # Coded errors

The wire codes, the errors the service raises, and the code read off any thrown
value. A thrown value is kept to what the service inspects of it: whether it is an
object, its message, and its two places for a code.
-/

namespace Kyc

/-- `ErrorCodes` of errors.ts. -/
inductive ErrorCode
  | unauthorized
  | validationError
  | providerUnavailable
  | sessionNotFound
  | sessionCreationFailed
  | persistenceFailed
  deriving DecidableEq, Repr

def ErrorCode.name : ErrorCode → String
  | unauthorized => "UNAUTHORIZED"
  | validationError => "VALIDATION_ERROR"
  | providerUnavailable => "PROVIDER_UNAVAILABLE"
  | sessionNotFound => "SESSION_NOT_FOUND"
  | sessionCreationFailed => "SESSION_CREATION_FAILED"
  | persistenceFailed => "PERSISTENCE_FAILED"

/-- What a property holds, for code that only asks whether it is a string. -/
inductive Field
  | nullish
  | text (s : String)
  | other
  deriving DecidableEq, Repr

/-- A thrown value: an object with a message, `extensions?.code` and `code`, or anything else. -/
inductive Thrown
  | object (message : Option String) (extensionsCode code : Field)
  | nonObject
  deriving DecidableEq, Repr

/-- `new KycError(code, message)`: the code stands in both places. -/
def createError (code : ErrorCode) (message : String) : Thrown :=
  .object (some message) (.text code.name) (.text code.name)

/-- `new Error(message)`. -/
def plainError (message : String) : Thrown := .object (some message) .nullish .nullish

namespace Errors

def unauthorized : Thrown := createError .unauthorized "Authentication required"

def validationError (message : String) : Thrown := createError .validationError message

def providerUnavailable : Thrown :=
  createError .providerUnavailable "Verification service temporarily unavailable"

def sessionNotFound : Thrown := createError .sessionNotFound "Verification session not found"

def sessionCreationFailed : Thrown :=
  createError .sessionCreationFailed "Failed to create verification session"

def persistenceFailed : Thrown :=
  createError .persistenceFailed "Failed to save verification data"

end Errors

/-- `a ?? b`. -/
def Field.orElse : Field → Field → Field
  | nullish, b => b
  | a, _ => a

def getErrorCode : Thrown → Option String
  | .object _ extensionsCode code => match extensionsCode.orElse code with
    | .text s => some s
    | _ => none
  | .nonObject => none

@[simp] theorem getErrorCode_createError (code : ErrorCode) (message : String) :
    getErrorCode (createError code message) = some code.name := rfl

/-- A string that counts as true: neither absent nor empty. -/
def truthy : Option String → Option String
  | some s => if s = "" then none else some s
  | none => none

theorem truthy_eq_some {o : Option String} {s : String} :
    truthy o = some s ↔ o = some s ∧ s ≠ "" := by
  cases o with
  | none => simp [truthy]
  | some t => by_cases ht : t = "" <;> simp +contextual [truthy, ht, eq_comm]

@[simp] theorem truthy_truthy (o : Option String) : truthy (truthy o) = truthy o := by
  cases ho : truthy o with
  | none => rfl
  | some s => exact truthy_eq_some.mpr ⟨rfl, (truthy_eq_some.mp ho).2⟩

end Kyc
