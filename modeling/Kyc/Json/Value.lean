import Mathlib.Algebra.GroupWithZero.Nat
import Mathlib.Data.List.Nodup

/-! # JSON values

The values that `JSON.parse` yields, with strings as JavaScript has them, sequences of
UTF-16 code units, and over any type of numbers. They are read the way scripts read
untyped values: properties that may be missing, truth values and texts.
-/

namespace Kyc.Json

/-- A JavaScript string: its code units. -/
abbrev Text := List UInt16

/-- What holds of the units of a text is decided along the text, and not over all units. -/
instance (priority := high) decidableForallUnits (s : Text) (p : UInt16 → Prop) [DecidablePred p] :
    Decidable (∀ c ∈ s, p c) := List.decidableBAll p s

/-- The code unit of a character of the basic plane. -/
def unit (c : Char) : UInt16 := c.val.toUInt16

/-- The text of a literal. -/
def lit (s : String) : Text := s.toList.map unit

def isHighSurrogate (c : UInt16) : Bool := 0xd800 ≤ c ∧ c < 0xdc00

def isLowSurrogate (c : UInt16) : Bool := 0xdc00 ≤ c ∧ c < 0xe000

/-- A JSON value; the fields of an object have pairwise different names. -/
inductive Value (ν : Type)
  | null
  | bool (b : Bool)
  | number (x : ν)
  | string (s : Text)
  | array (items : List (Value ν))
  | object (fields : List (Text × Value ν))

/-- The names that every object inherits from `Object.prototype`. -/
def objectPrototype : List String :=
  ["constructor", "__defineGetter__", "__defineSetter__", "hasOwnProperty", "__lookupGetter__",
    "__lookupSetter__", "isPrototypeOf", "propertyIsEnumerable", "toString", "valueOf",
    "__proto__", "toLocaleString"]

namespace Value

variable {ν : Type}

/-- `v?.name`, for a name that nothing inherits: `none` is `undefined`. -/
def get? (name : String) : Value ν → Option (Value ν)
  | object fields => fields.lookup (lit name)
  | _ => none

/-- `typeof v === 'string'`, with the string. -/
def string? : Value ν → Option Text
  | string s => some s
  | _ => none

def isNull : Value ν → Bool
  | null => true
  | _ => false

/-- `typeof v === 'number'`, with the number. -/
def number? : Value ν → Option ν
  | number x => some x
  | _ => none

/-- `typeof v === 'object'`, other than `null`. -/
def isRecord : Value ν → Bool
  | array _ => true
  | object _ => true
  | _ => false

/-- Whether a condition takes the value for true. -/
def isTruthy [Zero ν] [DecidableEq ν] : Value ν → Bool
  | null => false
  | bool b => b
  | number x => x ≠ 0
  | string s => s ≠ []
  | array _ => true
  | object _ => true

end Value

/-- `a || b` of two values that may be undefined. -/
def orElse {ν : Type} [Zero ν] [DecidableEq ν] (a b : Option (Value ν)) : Option (Value ν) :=
  match a with
  | some v => if v.isTruthy then some v else b
  | none => b

/-- `v && v.name`, for a name that nothing inherits. -/
def andField {ν : Type} [Zero ν] [DecidableEq ν] (v : Option (Value ν)) (name : String) :
    Option (Value ν) :=
  match v with
  | some w => if w.isTruthy then w.get? name else some w
  | none => none

section Fallbacks

variable {ν : Type} [Zero ν] [DecidableEq ν]

theorem orElse_eq_some {a b : Option (Value ν)} {v : Value ν} (h : orElse a b = some v) :
    (a = some v ∧ v.isTruthy) ∨ ((∀ w ∈ a, ¬ w.isTruthy) ∧ b = some v) := by
  cases a with
  | none => exact Or.inr ⟨by simp, h⟩
  | some w =>
    rw [orElse] at h
    split_ifs at h with truthy
    · obtain rfl := Option.some.inj h
      exact Or.inl ⟨rfl, truthy⟩
    · exact Or.inr ⟨by simpa using truthy, h⟩

theorem exists_orElse (a : Option (Value ν)) (b : Value ν) : ∃ v, orElse a (some b) = some v := by
  cases a with
  | none => exact ⟨b, rfl⟩
  | some v =>
    rw [orElse]
    split_ifs
    · exact ⟨v, rfl⟩
    · exact ⟨b, rfl⟩

theorem orElse_of_not_truthy {a b : Option (Value ν)} (h : ∀ v ∈ a, ¬ v.isTruthy) :
    orElse a b = b := by
  cases a with
  | none => rfl
  | some v => exact if_neg (h v rfl)

theorem orElse_of_truthy {v : Value ν} (h : v.isTruthy) (b : Option (Value ν)) :
    orElse (some v) b = some v := if_pos h

theorem get?_of_not_truthy {v : Value ν} (h : ¬ v.isTruthy) (name : String) :
    v.get? name = none := by
  cases v with
  | object fields => exact absurd rfl h
  | _ => rfl

end Fallbacks

end Kyc.Json
