import Kyc.Json.Value

/-! # JSON texts

`JSON.stringify` and `JSON.parse`. How a number is written and read is a parameter, which
numerals are allowed is not.
-/

namespace Kyc.Json

/-- How numbers are written, and what a numeral stands for. -/
structure Numerals (ν : Type) where
  print : ν → Text
  read : Text → ν

variable {ν : Type}

section Print

def hexDigit (n : ℕ) : UInt16 := if n < 10 then (48 + n).toUInt16 else (87 + n).toUInt16

/-- `\uXXXX`. -/
def escapeCode (c : UInt16) : Text :=
  lit "\\u" ++ [hexDigit (c.toNat / 4096), hexDigit (c.toNat / 256 % 16),
    hexDigit (c.toNat / 16 % 16), hexDigit (c.toNat % 16)]

def escapeUnit (c : UInt16) : Text :=
  if c = unit '"' then lit "\\\""
  else if c = unit '\\' then lit "\\\\"
  else if c = 8 then lit "\\b"
  else if c = 9 then lit "\\t"
  else if c = 10 then lit "\\n"
  else if c = 12 then lit "\\f"
  else if c = 13 then lit "\\r"
  else if c < 32 ∨ isHighSurrogate c ∨ isLowSurrogate c then escapeCode c
  else [c]

def escape : Text → Text
  | [] => []
  | [c] => escapeUnit c
  | c :: d :: rest =>
    if isHighSurrogate c ∧ isLowSurrogate d then c :: d :: escape rest
    else escapeUnit c ++ escape (d :: rest)

def quote (s : Text) : Text := unit '"' :: escape s ++ [unit '"']

variable (N : Numerals ν)

mutual

/-- `JSON.stringify(v)`. -/
def stringify : Value ν → Text
  | .null => lit "null"
  | .bool true => lit "true"
  | .bool false => lit "false"
  | .number x => N.print x
  | .string s => quote s
  | .array items => unit '[' :: stringifyItems items ++ [unit ']']
  | .object fields => unit '{' :: stringifyFields fields ++ [unit '}']

def stringifyItems : List (Value ν) → Text
  | [] => []
  | v :: items => stringify v ++ stringifyMoreItems items

def stringifyMoreItems : List (Value ν) → Text
  | [] => []
  | v :: items => unit ',' :: stringify v ++ stringifyMoreItems items

def stringifyFields : List (Text × Value ν) → Text
  | [] => []
  | field :: fields => stringifyField field ++ stringifyMoreFields fields

def stringifyMoreFields : List (Text × Value ν) → Text
  | [] => []
  | field :: fields => unit ',' :: stringifyField field ++ stringifyMoreFields fields

def stringifyField : Text × Value ν → Text
  | (name, v) => quote name ++ unit ':' :: stringify v

end

end Print

section Read

def isSpace (c : UInt16) : Bool := c ∈ [9, 10, 13, 32]

def skip : Text → Text := List.dropWhile isSpace

def isDigit (c : UInt16) : Bool := unit '0' ≤ c ∧ c ≤ unit '9'

def isNumeric (c : UInt16) : Bool := isDigit c || c ∈ lit "+-.eE"

def digits (s : Text) : Option Text :=
  match s with
  | c :: rest => if isDigit c then some (rest.dropWhile isDigit) else none
  | [] => none

def fraction (s : Text) : Option Text :=
  match s with
  | c :: rest => if c = unit '.' then digits rest else some (c :: rest)
  | [] => some []

def exponent (s : Text) : Option Text :=
  match s with
  | c :: d :: rest =>
    if c ∈ lit "eE" then digits (if d ∈ lit "+-" then rest else d :: rest)
    else some (c :: d :: rest)
  | s => some s

def integer (s : Text) : Option Text :=
  match s with
  | c :: rest => if c = unit '0' then some rest else digits (c :: rest)
  | [] => none

def unsigned (s : Text) : Text :=
  match s with
  | c :: rest => if c = unit '-' then rest else c :: rest
  | [] => []

/-- The grammar of a number. -/
def isNumeral (s : Text) : Bool :=
  s.all isNumeric && ((integer (unsigned s)).bind fraction).bind exponent = some []

def hexValue (c : UInt16) : Option ℕ :=
  if isDigit c then some (c.toNat - 48)
  else if unit 'a' ≤ c ∧ c ≤ unit 'f' then some (c.toNat - 87)
  else if unit 'A' ≤ c ∧ c ≤ unit 'F' then some (c.toNat - 55)
  else none

/-- The unit that `\uXXXX` stands for. -/
def readCode (a b c d : UInt16) : Option UInt16 := do
  let a ← hexValue a
  let b ← hexValue b
  let c ← hexValue c
  let d ← hexValue d
  return (a * 4096 + b * 256 + c * 16 + d).toUInt16

/-- The unit that `\c` stands for. -/
def readEscape (c : UInt16) : Option UInt16 :=
  if c = unit '"' ∨ c = unit '\\' ∨ c = unit '/' then some c
  else if c = unit 'b' then some 8
  else if c = unit 't' then some 9
  else if c = unit 'n' then some 10
  else if c = unit 'f' then some 12
  else if c = unit 'r' then some 13
  else none

def prepend (c : UInt16) (r : Text × Text) : Text × Text := (c :: r.1, r.2)

def readString : Text → Option (Text × Text)
  | [] => none
  | c :: rest =>
    if c = unit '"' then some ([], rest)
    else if c = unit '\\' then
      match rest with
      | [] => none
      | e :: rest =>
        if e = unit 'u' then
          match rest with
          | a :: b :: c :: d :: rest =>
            (readCode a b c d).bind fun x => (readString rest).map (prepend x)
          | _ => none
        else (readEscape e).bind fun x => (readString rest).map (prepend x)
    else if c < 32 then none
    else (readString rest).map (prepend c)

def readMore {α : Type} (item : Text → Option (α × Text)) (close : UInt16) :
    ℕ → Text → Option (List α × Text)
  | 0, _ => none
  | fuel + 1, s =>
    match skip s with
    | [] => none
    | c :: rest =>
      if c = close then some ([], rest)
      else if c = unit ',' then
        (item rest).bind fun (x, rest) =>
          (readMore item close fuel rest).map fun (xs, rest) => (x :: xs, rest)
      else none

def readList {α : Type} (item : Text → Option (α × Text)) (close : UInt16) (fuel : ℕ)
    (s : Text) : Option (List α × Text) :=
  match skip s with
  | [] => none
  | c :: rest =>
    if c = close then some ([], rest)
    else (item (c :: rest)).bind fun (x, rest) =>
      (readMore item close fuel rest).map fun (xs, rest) => (x :: xs, rest)

def readField {α : Type} (item : Text → Option (α × Text)) (s : Text) :
    Option ((Text × α) × Text) :=
  match skip s with
  | [] => none
  | c :: rest =>
    if c = unit '"' then
      (readString rest).bind fun (name, rest) =>
        match skip rest with
        | [] => none
        | c :: rest =>
          if c = unit ':' then (item rest).map fun (v, rest) => ((name, v), rest) else none
    else none

/-- The fields of an object literal, in which the last value of a name counts. -/
def merge : List (Text × Value ν) → List (Text × Value ν)
  | [] => []
  | (name, v) :: fields =>
    (name, ((merge fields).lookup name).getD v) :: (merge fields).filter (·.1 ≠ name)

def readWord (word : String) (v : Value ν) (s : Text) : Option (Value ν × Text) :=
  if lit word <+: s then some (v, s.drop (lit word).length) else none

variable (N : Numerals ν)

def readNumber (s : Text) : Option (Value ν × Text) :=
  if isNumeral (s.takeWhile isNumeric) then
    some (.number (N.read (s.takeWhile isNumeric)), s.dropWhile isNumeric)
  else none

/-- A value in front of a text; the fuel bounds how deep and how far it reaches. -/
def readValue : ℕ → Text → Option (Value ν × Text)
  | 0, _ => none
  | fuel + 1, s =>
    match skip s with
    | [] => none
    | c :: rest =>
      if c = unit '"' then (readString rest).map fun (s, rest) => (.string s, rest)
      else if c = unit '[' then
        (readList (readValue fuel) (unit ']') fuel rest).map fun (items, rest) =>
          (.array items, rest)
      else if c = unit '{' then
        (readList (readField (readValue fuel)) (unit '}') fuel rest).map fun (fields, rest) =>
          (.object (merge fields), rest)
      else if c = unit 'n' then readWord "null" .null (c :: rest)
      else if c = unit 't' then readWord "true" (.bool true) (c :: rest)
      else if c = unit 'f' then readWord "false" (.bool false) (c :: rest)
      else readNumber N (c :: rest)

/-- `JSON.parse(s)`: `none` is a syntax error. -/
def parse (s : Text) : Option (Value ν) :=
  (readValue N (s.length + 1) s).bind fun (v, rest) => if skip rest = [] then some v else none

end Read

end Kyc.Json
