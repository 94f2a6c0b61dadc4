import Kyc.Json.Syntax
import Kyc.Numbers.Doubles

/-! # Numerals

The numerals that `Number` reads, over the units of a text: decimal ones with a sign and an
exponent, those of another base, and infinity. What they stand for is exact, before it is
rounded.
-/

namespace Kyc.Numbers

open Json

/-- What a numeral stands for. -/
inductive Numeral
  | finite (q : ℚ)
  | infinite (negative : Bool)
  deriving DecidableEq, Repr

def digitsIn (base : ℕ) : Text → Option ℕ
  | [] => none
  | c :: s => (c :: s).foldlM (fun n c => do
      let d ← hexValue c
      if d < base then some (base * n + d) else none) 0

/-- The exponent of a decimal numeral, with what comes before its digits. -/
def exponentPart : Text → Option ℤ
  | [] => some 0
  | e :: s =>
    if e ∉ lit "eE" then none
    else
      match s with
      | [] => none
      | c :: digits =>
        if c = unit '-' then (digitsIn 10 digits).map fun n => -(n : ℤ)
        else if c = unit '+' then (digitsIn 10 digits).map fun n => (n : ℤ)
        else (digitsIn 10 (c :: digits)).map fun n => (n : ℤ)

def fractionPart : Text → Text × Text
  | [] => ([], [])
  | c :: s => if c = unit '.' then s.span isDigit else ([], c :: s)

def unsignedDecimal (s : Text) : Option ℚ := do
  let (fraction, rest) := fractionPart (s.dropWhile isDigit)
  let digits ← digitsIn 10 (s.takeWhile isDigit ++ fraction)
  let exponent ← exponentPart rest
  return digits * 10 ^ (exponent - fraction.length)

def unsignedNumeral (negative : Bool) (s : Text) : Option Numeral :=
  if s = lit "Infinity" then some (.infinite negative)
  else (unsignedDecimal s).map fun q => .finite (if negative then -q else q)

def decimalNumeral : Text → Option Numeral
  | [] => none
  | c :: s =>
    if c = unit '-' then unsignedNumeral true s
    else if c = unit '+' then unsignedNumeral false s
    else unsignedNumeral false (c :: s)

/-- The base that a numeral says it is in. -/
def baseOf (c : UInt16) : Option ℕ :=
  if c ∈ lit "bB" then some 2
  else if c ∈ lit "oO" then some 8
  else if c ∈ lit "xX" then some 16
  else none

/-- A numeral without white space around it. -/
def numeral : Text → Option Numeral
  | zero :: c :: digits =>
    match if zero = unit '0' then baseOf c else none with
    | some base => (digitsIn base digits).map fun n => .finite n
    | none => decimalNumeral (zero :: c :: digits)
  | s => decimalNumeral s

/-- A JavaScript number; the zeros are not told apart. -/
inductive Number
  | nan
  | infinite (negative : Bool)
  | finite (x : ℚ)
  deriving DecidableEq, Repr

def Numeral.toNumber : Numeral → Number
  | .infinite negative => .infinite negative
  | .finite q => (Doubles.toDouble q).elim (.infinite (q < 0)) .finite

/-- `Number(s)`, for a text without white space around it. -/
def number (s : Text) : Number :=
  if s = [] then .finite 0 else ((numeral s).map Numeral.toNumber).getD .nan

end Kyc.Numbers
