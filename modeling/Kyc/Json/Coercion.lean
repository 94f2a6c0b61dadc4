import Kyc.Json.RoundTrip

/-! # Values as texts

What a value becomes where a script needs a string: in a template, in a concatenation, as
the name of a property. An object whose own `toString` is data cannot be converted.
-/

namespace Kyc.Json

/-- How numbers are written where a string is needed; every such text starts with a digit, a
sign, or as infinity and no number do. -/
structure NumberTexts (ν : Type) where
  text : ν → Text
  head_text : ∀ x, ∃ c s, text x = c :: s ∧ (isDigit c ∨ c ∈ lit "-IN")

def decimalTexts : NumberTexts ℕ where
  text := decimal.print
  head_text n := by
    cases hn : Nat.toDigits 10 n with
    | nil => exact absurd hn Nat.toDigits_ne_nil
    | cons c s =>
      have text : decimal.print n = unit c :: s.map unit := congrArg (List.map unit) hn
      have digit : c.isDigit := Nat.isDigit_of_mem_toDigits (by decide) (by decide)
        (n := n) (hn ▸ List.mem_cons_self)
      simp only [Char.isDigit, ge_iff_le, Bool.and_eq_true, decide_eq_true_eq,
        UInt32.le_iff_toNat_le] at digit
      refine ⟨unit c, s.map unit, text, Or.inl ?_⟩
      have low : 48 ≤ c.val.toNat := digit.1
      have high : c.val.toNat ≤ 57 := digit.2
      have value : (unit c).toNat = c.val.toNat := by
        rw [unit, UInt32.toNat_toUInt16]
        omega
      simp only [isDigit, UInt16.le_iff_toNat_le, value, decide_eq_true_eq]
      exact ⟨low, high⟩

variable {ν : Type} (T : NumberTexts ν)

mutual

/-- `String(v)`: `none` is a type error. -/
def toText : Value ν → Option Text
  | .null => some (lit "null")
  | .bool true => some (lit "true")
  | .bool false => some (lit "false")
  | .number x => some (T.text x)
  | .string s => some s
  | .array items => joinItems items
  | .object fields =>
    if lit "toString" ∈ fields.map Prod.fst then none else some (lit "[object Object]")

/-- `items.join()`, where `null` leaves its place empty. -/
def joinItems : List (Value ν) → Option Text
  | [] => some []
  | v :: items => (toText v).bind fun first =>
    (joinMoreItems items).map fun others => (if v.isNull then [] else first) ++ others

def joinMoreItems : List (Value ν) → Option Text
  | [] => some []
  | v :: items => (toText v).bind fun first =>
    (joinMoreItems items).map fun others =>
      unit ',' :: (if v.isNull then [] else first) ++ others

end

def inherits (name : Text) : Bool := name ∈ objectPrototype.map lit

end Kyc.Json
