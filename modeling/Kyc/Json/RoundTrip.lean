import Kyc.Json.Syntax

/-! # What is written reads back

Strings, numerals and whole values: parsing what was stringified gives it back, for values
whose numbers survive being written and whose objects have no name twice.
-/

namespace Kyc.Json

section Strings

theorem hexValue_hexDigit {n : ℕ} (hn : n < 16) : hexValue (hexDigit n) = some n := by
  have all : ∀ m < 16, hexValue (hexDigit m) = some m := by decide
  exact all n hn

theorem readCode_escapeCode (c : UInt16) :
    readCode (hexDigit (c.toNat / 4096)) (hexDigit (c.toNat / 256 % 16))
      (hexDigit (c.toNat / 16 % 16)) (hexDigit (c.toNat % 16)) = some c := by
  have hc : c.toNat < 65536 := c.toNat_lt
  have hsum : c.toNat / 4096 * 4096 + c.toNat / 256 % 16 * 256 + c.toNat / 16 % 16 * 16
      + c.toNat % 16 = c.toNat := by omega
  rw [readCode, hexValue_hexDigit (by omega), hexValue_hexDigit (by omega),
    hexValue_hexDigit (by omega), hexValue_hexDigit (by omega)]
  have read : (c.toNat / 4096 * 4096 + c.toNat / 256 % 16 * 256 + c.toNat / 16 % 16 * 16
      + c.toNat % 16).toUInt16 = c := by rw [hsum]; exact UInt16.ofNat_toNat
  exact congrArg some read

theorem readString_cons {c : UInt16} (quote : c ≠ unit '"') (slash : c ≠ unit '\\')
    (control : ¬ c < 32) (s : Text) : readString (c :: s) = (readString s).map (prepend c) := by
  rw [readString.eq_def]
  simp [quote, slash, control]

theorem readString_escapeCode (c : UInt16) (s : Text) :
    readString (escapeCode c ++ s) = (readString s).map (prepend c) := by
  rw [escapeCode, readString.eq_def]
  simp [lit, unit, readCode_escapeCode]

theorem readString_escapeUnit (c : UInt16) (s : Text) :
    readString (escapeUnit c ++ s) = (readString s).map (prepend c) := by
  unfold escapeUnit
  split_ifs with h₁ h₂ h₃ h₄ h₅ h₆ h₇ h₈
  all_goals first
    | (subst_vars; rw [readString.eq_def]; rfl)
    | exact readString_escapeCode c s
    | skip
  have control : ¬ c < 32 := fun h => h₈ (Or.inl h)
  exact readString_cons h₁ h₂ control s

theorem surrogate_stands {c : UInt16} (h : isHighSurrogate c ∨ isLowSurrogate c) :
    c ≠ unit '"' ∧ c ≠ unit '\\' ∧ ¬ c < 32 := by
  have large : 0xd800 ≤ c := by
    rcases h with h | h <;> simp only [isHighSurrogate, isLowSurrogate, decide_eq_true_eq] at h
    · exact h.1
    · exact UInt16.le_trans (by decide) h.1
  refine ⟨?_, ?_, UInt16.not_lt.mpr (UInt16.le_trans (by decide) large)⟩ <;>
    · rintro rfl
      exact absurd large (by decide)

theorem readString_escape (s rest : Text) :
    readString (escape s ++ unit '"' :: rest) = some (s, rest) := by
  induction s using escape.induct with
  | case1 =>
    rw [escape, List.nil_append, readString.eq_def]
    simp
  | case2 c =>
    rw [escape, readString_escapeUnit, readString.eq_def]
    simp [prepend]
  | case3 c d s pair ih =>
    obtain ⟨hc₁, hc₂, hc₃⟩ := surrogate_stands (Or.inl pair.1)
    obtain ⟨hd₁, hd₂, hd₃⟩ := surrogate_stands (Or.inr pair.2)
    rw [escape, if_pos pair, List.cons_append, List.cons_append, readString_cons hc₁ hc₂ hc₃,
      readString_cons hd₁ hd₂ hd₃, ih]
    rfl
  | case4 c d s pair ih =>
    rw [escape, if_neg pair, List.append_assoc, readString_escapeUnit, ih]
    rfl

end Strings

section Lists

variable {α β : Type}

theorem skip_cons {c : UInt16} (hc : isSpace c = false) (s : Text) : skip (c :: s) = c :: s := by
  simp [skip, hc]

/-- The text can be neither white space nor more of a numeral. -/
def Ends (s : Text) : Prop := ∀ c ∈ s.head?, isNumeric c = false

theorem ends_cons {c : UInt16} (hc : isNumeric c = false) (s : Text) : Ends (c :: s) := by
  simpa [Ends] using hc

def separated (write : α → Text) (xs : List α) : Text :=
  xs.flatMap fun x => unit ',' :: write x

theorem length_le_separated {write : α → Text} {xs : List α} :
    xs.length ≤ (separated write xs).length := by
  induction xs with
  | nil => simp
  | cons x xs ih =>
    simp only [separated, List.flatMap_cons, List.length_append, List.length_cons] at ih ⊢
    omega

theorem length_lt_separated (write : α → Text) {xs : List α} {x : α} (hx : x ∈ xs) :
    (write x).length < (separated write xs).length := by
  induction xs with
  | nil => simp at hx
  | cons y ys ih =>
    simp only [separated, List.flatMap_cons, List.length_append, List.length_cons] at ih ⊢
    rcases List.mem_cons.mp hx with rfl | hx
    · omega
    · have := ih hx
      omega

/-- What may close a list: a unit that is none of the others that stand around elements. -/
structure Closes (close : UInt16) : Prop where
  not_space : isSpace close = false
  not_numeric : isNumeric close = false
  not_comma : unit ',' ≠ close

variable {item : Text → Option (β × Text)} {write : α → Text} {f : α → β} {close : UInt16}

theorem ends_separated (write : α → Text) (hclose : Closes close) (xs : List α) (rest : Text) :
    Ends (separated write xs ++ close :: rest) := by
  cases xs with
  | nil => exact ends_cons hclose.not_numeric rest
  | cons x xs => exact ends_cons (by decide) _

theorem readMore_separated (hclose : Closes close) {xs : List α} {fuel : ℕ}
    (hfuel : xs.length < fuel) (rest : Text)
    (reads : ∀ x ∈ xs, ∀ s, Ends s → item (write x ++ s) = some (f x, s)) :
    readMore item close fuel (separated write xs ++ close :: rest) = some (xs.map f, rest) := by
  induction xs generalizing fuel with
  | nil =>
    obtain ⟨fuel, rfl⟩ := Nat.exists_eq_succ_of_ne_zero (Nat.ne_zero_of_lt hfuel)
    simp [separated, readMore, skip_cons hclose.not_space]
  | cons x xs ih =>
    obtain ⟨fuel, rfl⟩ := Nat.exists_eq_succ_of_ne_zero (Nat.ne_zero_of_lt hfuel)
    have first := reads x List.mem_cons_self _ (ends_separated write hclose xs rest)
    have others := ih (Nat.lt_of_succ_lt_succ hfuel) fun y hy => reads y (List.mem_cons_of_mem x hy)
    have text : separated write (x :: xs) ++ close :: rest
        = unit ',' :: (write x ++ (separated write xs ++ close :: rest)) := by
      simp [separated]
    rw [text, readMore, skip_cons (by decide)]
    simp [hclose.not_comma, first, others]

theorem readList_separated (item : Text → Option (β × Text)) (hclose : Closes close)
    {xs : List α} {fuel : ℕ} (hfuel : xs.length ≤ fuel) (rest : Text)
    (leads : ∀ x ∈ xs, ∃ c s, write x = c :: s ∧ isSpace c = false ∧ c ≠ close)
    (reads : ∀ x ∈ xs, ∀ s, Ends s → item (write x ++ s) = some (f x, s)) :
    readList item close fuel ((separated write xs).tail ++ close :: rest) =
      some (xs.map f, rest) := by
  cases xs with
  | nil => simp [separated, readList, skip_cons hclose.not_space]
  | cons x xs =>
    obtain ⟨c, s, hx, space, hc⟩ := leads x List.mem_cons_self
    have first := reads x List.mem_cons_self _ (ends_separated write hclose xs rest)
    have others := readMore_separated hclose (Nat.lt_of_succ_le hfuel) rest
      fun y hy => reads y (List.mem_cons_of_mem x hy)
    have text : (separated write (x :: xs)).tail ++ close :: rest
        = c :: (s ++ (separated write xs ++ close :: rest)) := by
      simp [separated, hx]
    rw [hx, List.cons_append] at first
    rw [text, readList, skip_cons space]
    simp [hc, first, others]

end Lists

section Values

variable {ν : Type} (N : Numerals ν)

mutual

/-- The value with its numbers as they read back. -/
def Value.reread : Value ν → Value ν
  | .null => .null
  | .bool b => .bool b
  | .number x => .number (N.read (N.print x))
  | .string s => .string s
  | .array items => .array (rereadItems items)
  | .object fields => .object (rereadFields fields)

def Value.rereadItems : List (Value ν) → List (Value ν)
  | [] => []
  | v :: items => v.reread :: rereadItems items

def Value.rereadFields : List (Text × Value ν) → List (Text × Value ν)
  | [] => []
  | field :: fields => rereadField field :: rereadFields fields

def Value.rereadField : Text × Value ν → Text × Value ν
  | (name, v) => (name, v.reread)

end

/-- A value whose numbers are written as numerals, and whose objects have no name twice. -/
inductive Value.Numeric : Value ν → Prop
  | null : Numeric .null
  | bool (b : Bool) : Numeric (.bool b)
  | number {x : ν} (h : isNumeral (N.print x)) : Numeric (.number x)
  | string (s : Text) : Numeric (.string s)
  | array {items : List (Value ν)} (h : ∀ v ∈ items, Numeric v) : Numeric (.array items)
  | object {fields : List (Text × Value ν)} (names : (fields.map Prod.fst).Nodup)
      (h : ∀ field ∈ fields, Numeric field.2) : Numeric (.object fields)

/-- The number is written as a numeral that stands for it. -/
def Numerals.Reads (x : ν) : Prop := isNumeral (N.print x) ∧ N.read (N.print x) = x

/-- Natural numbers, in decimal notation. -/
def decimal : Numerals ℕ where
  print n := (Nat.toDigits 10 n).map unit
  read s := s.foldl (fun n c => 10 * n + (c.toNat - 48)) 0

theorem toNat_unit_of_isDigit {c : Char} (h : c.isDigit) : (unit c).toNat = c.toNat := by
  have small : c.toNat ≤ 57 := by
    simp only [Char.isDigit, Bool.and_eq_true, decide_eq_true_eq, ge_iff_le] at h
    exact h.2
  rw [unit, UInt32.toNat_toUInt16]
  exact Nat.mod_eq_of_lt (Nat.lt_of_le_of_lt small (by decide))

theorem isDigit_of_mem_print {n : ℕ} {c : UInt16} (h : c ∈ decimal.print n) : isDigit c := by
  obtain ⟨d, hd, rfl⟩ := List.mem_map.mp h
  have digit := Nat.isDigit_of_mem_toDigits (by decide) (by decide) hd
  have value := toNat_unit_of_isDigit digit
  simp only [Char.isDigit, Bool.and_eq_true, decide_eq_true_eq, ge_iff_le] at digit
  simp only [isDigit, decide_eq_true_eq, UInt16.le_iff_toNat_le, value]
  exact digit

theorem decimal_read_print (n : ℕ) : decimal.read (decimal.print n) = n := by
  have digits : ∀ (s : List Char) (m : ℕ), (∀ c ∈ s, c.isDigit) →
      (s.map unit).foldl (fun n c => 10 * n + (c.toNat - 48)) m = Nat.ofDigitChars 10 s m := by
    intro s
    induction s with
    | nil => exact fun _ _ => rfl
    | cons c s ih =>
      intro m hs
      obtain ⟨hc, hs⟩ := List.forall_mem_cons.mp hs
      rw [List.map_cons, List.foldl_cons, toNat_unit_of_isDigit hc, ih _ hs, Nat.ofDigitChars_cons]
      rfl
  calc decimal.read (decimal.print n)
      = Nat.ofDigitChars 10 (Nat.toDigits 10 n) 0 :=
        digits _ 0 fun _ hc => Nat.isDigit_of_mem_toDigits (by decide) (by decide) hc
    _ = n := Nat.ofDigitChars_ten_toDigits
/-- A value that stringifying does not change. -/
inductive Value.Proper : Value ν → Prop
  | null : Proper .null
  | bool (b : Bool) : Proper (.bool b)
  | number {x : ν} (h : N.Reads x) : Proper (.number x)
  | string (s : Text) : Proper (.string s)
  | array {items : List (Value ν)} (h : ∀ v ∈ items, Proper v) : Proper (.array items)
  | object {fields : List (Text × Value ν)} (names : (fields.map Prod.fst).Nodup)
      (h : ∀ field ∈ fields, Proper field.2) : Proper (.object fields)

theorem reread_array (items : List (Value ν)) :
    (Value.array items).reread N = .array (items.map (Value.reread N)) := by
  rw [Value.reread]
  congr 1
  induction items with
  | nil => rfl
  | cons v items ih => rw [Value.rereadItems, ih, List.map_cons]

theorem reread_object (fields : List (Text × Value ν)) :
    (Value.object fields).reread N =
      .object (fields.map fun field => (field.1, field.2.reread N)) := by
  rw [Value.reread]
  congr 1
  induction fields with
  | nil => rfl
  | cons field fields ih => rw [Value.rereadFields, ih, List.map_cons, Value.rereadField]

variable {N} in
theorem Value.Proper.numeric {v : Value ν} (h : v.Proper N) : v.Numeric N := by
  induction h with
  | null => exact .null
  | bool b => exact .bool b
  | number h => exact .number h.1
  | string s => exact .string s
  | array _ ih => exact .array ih
  | object names _ ih => exact .object names ih

variable {N} in
theorem Value.Proper.reread {v : Value ν} (h : v.Proper N) : v.reread N = v := by
  induction h with
  | null | bool | string => rfl
  | number h => rw [Value.reread, h.2]
  | @array items _ ih =>
    rw [reread_array, List.map_congr_left ih, List.map_id']
  | @object fields _ _ ih =>
    have same : ∀ field ∈ fields, (field.1, field.2.reread N) = id field := by
      intro field hf
      rw [ih field hf, id]
    rw [reread_object, List.map_congr_left same, List.map_id]

theorem stringifyMoreItems_eq (items : List (Value ν)) :
    stringifyMoreItems N items = separated (stringify N) items := by
  induction items with
  | nil => simp [stringifyMoreItems, separated]
  | cons v items ih => simp [stringifyMoreItems, separated, ih]

theorem stringifyItems_eq (items : List (Value ν)) :
    stringifyItems N items = (separated (stringify N) items).tail := by
  cases items with
  | nil => simp [stringifyItems, separated]
  | cons v items => simp [stringifyItems, stringifyMoreItems_eq, separated]

theorem stringifyMoreFields_eq (fields : List (Text × Value ν)) :
    stringifyMoreFields N fields = separated (stringifyField N) fields := by
  induction fields with
  | nil => simp [stringifyMoreFields, separated]
  | cons field fields ih => simp [stringifyMoreFields, separated, ih]

theorem stringifyFields_eq (fields : List (Text × Value ν)) :
    stringifyFields N fields = (separated (stringifyField N) fields).tail := by
  cases fields with
  | nil => simp [stringifyFields, separated]
  | cons field fields => simp [stringifyFields, stringifyMoreFields_eq, separated]

variable {N}

theorem all_isNumeric_of_isNumeral {s : Text} (h : isNumeral s) : ∀ c ∈ s, isNumeric c := by
  simp only [isNumeral, Bool.and_eq_true, List.all_eq_true] at h
  exact h.1

theorem exists_cons_of_isNumeral {s : Text} (h : isNumeral s) :
    ∃ c rest, s = c :: rest ∧ isNumeric c := by
  cases s with
  | nil => simp [isNumeral, unsigned, integer] at h
  | cons c rest => exact ⟨c, rest, rfl, all_isNumeric_of_isNumeral h c List.mem_cons_self⟩

theorem isNumeric_stands {c : UInt16} (h : isNumeric c) :
    isSpace c = false ∧ ∀ d ∈ lit "\"[\x7bntf]", c ≠ d := by
  have others : ∀ d ∈ [9, 10, 13, 32] ++ lit "\"[\x7bntf]", isNumeric d = false := by decide
  have differs : ∀ d ∈ [9, 10, 13, 32] ++ lit "\"[\x7bntf]", c ≠ d := by
    rintro d hd rfl
    simp [others c hd] at h
  refine ⟨?_, fun d hd => differs d (List.mem_append_right _ hd)⟩
  simp only [isSpace, decide_eq_false_iff_not]
  exact fun hc => differs c (List.mem_append_left _ hc) rfl

theorem readNumber_print {x : ν} (hx : isNumeral (N.print x)) {rest : Text} (hrest : Ends rest) :
    readNumber N (N.print x ++ rest) = some (.number (N.read (N.print x)), rest) := by
  have all := all_isNumeric_of_isNumeral hx
  have stop : rest.takeWhile isNumeric = [] ∧ rest.dropWhile isNumeric = rest := by
    cases rest with
    | nil => simp
    | cons c rest => simp [hrest c rfl]
  have taken : (N.print x ++ rest).takeWhile isNumeric = N.print x := by
    rw [List.takeWhile_append_of_pos all, stop.1, List.append_nil]
  have dropped : (N.print x ++ rest).dropWhile isNumeric = rest := by
    rw [List.dropWhile_append_of_pos all, stop.2]
  rw [readNumber, taken, dropped, if_pos hx]

theorem readValue_print {x : ν} (hx : isNumeral (N.print x)) {fuel : ℕ} {rest : Text}
    (hrest : Ends rest) :
    readValue N (fuel + 1) (N.print x ++ rest) = some (.number (N.read (N.print x)), rest) := by
  have read := readNumber_print hx hrest
  obtain ⟨c, s, text, hc⟩ := exists_cons_of_isNumeral hx
  obtain ⟨space, others⟩ := isNumeric_stands hc
  rw [text, List.cons_append] at read ⊢
  rw [readValue, skip_cons space]
  dsimp only
  rw [if_neg (others (unit '"') (by decide)), if_neg (others (unit '[') (by decide)),
    if_neg (others (unit '{') (by decide)), if_neg (others (unit 'n') (by decide)),
    if_neg (others (unit 't') (by decide)), if_neg (others (unit 'f') (by decide)), read]

theorem readValue_word {c : Char} {word : String} {v : Value ν} {fuel : ℕ} {rest : Text}
    (h : (c, word, v) ∈ [('n', "null", Value.null), ('t', "true", .bool true),
      ('f', "false", .bool false)]) :
    readValue N (fuel + 1) (lit word ++ rest) = some (v, rest) := by
  simp only [List.mem_cons, Prod.mk.injEq, List.not_mem_nil, or_false] at h
  rcases h with ⟨rfl, rfl, rfl⟩ | ⟨rfl, rfl, rfl⟩ | ⟨rfl, rfl, rfl⟩
  · rfl
  · rfl
  · rfl

theorem exists_cons_stringify {v : Value ν} (hv : v.Numeric N) :
    ∃ c s, stringify N v = c :: s ∧ isSpace c = false ∧ c ≠ unit ']' := by
  cases hv with
  | null => exact ⟨unit 'n', lit "ull", rfl, by decide, by decide⟩
  | bool b =>
    cases b with
    | false => exact ⟨unit 'f', lit "alse", rfl, by decide, by decide⟩
    | true => exact ⟨unit 't', lit "rue", rfl, by decide, by decide⟩
  | number hx =>
    obtain ⟨c, s, text, hc⟩ := exists_cons_of_isNumeral hx
    obtain ⟨space, others⟩ := isNumeric_stands hc
    exact ⟨c, s, by rw [stringify, text], space, others _ (by decide)⟩
  | string s => exact ⟨_, _, by rw [stringify, quote]; rfl, by decide, by decide⟩
  | array h => exact ⟨_, _, by rw [stringify]; rfl, by decide, by decide⟩
  | object names h => exact ⟨_, _, by rw [stringify]; rfl, by decide, by decide⟩

theorem merge_of_nodup {fields : List (Text × Value ν)} (names : (fields.map Prod.fst).Nodup) :
    merge fields = fields := by
  induction fields with
  | nil => rfl
  | cons field fields ih =>
    obtain ⟨name, v⟩ := field
    obtain ⟨fresh, names⟩ := List.nodup_cons.mp names
    have other : ∀ f ∈ fields, f.1 ≠ name := by
      rintro f hf rfl
      exact fresh (List.mem_map.mpr ⟨f, hf, rfl⟩)
    have missing : fields.lookup name = none := List.lookup_eq_none_iff.mpr fun f hf => by
      simpa using (other f hf).symm
    rw [merge, ih names, missing, List.filter_eq_self.mpr (by simpa using other)]
    rfl

theorem readField_stringifyField {fuel : ℕ} {field : Text × Value ν} {w : Value ν} {rest : Text}
    (h : readValue N fuel (stringify N field.2 ++ rest) = some (w, rest)) :
    readField (readValue N fuel) (stringifyField N field ++ rest) =
      some ((field.1, w), rest) := by
  obtain ⟨name, v⟩ := field
  have text : stringifyField N (name, v) ++ rest
      = unit '"' :: (escape name ++ unit '"' :: (unit ':' :: (stringify N v ++ rest))) := by
    simp [stringifyField, quote]
  rw [text, readField, skip_cons (by decide)]
  have colon : isSpace (unit ':') = false := by decide
  simp only [if_true, readString_escape, Option.bind_some, skip_cons colon]
  simp only at h
  rw [h]
  rfl

theorem closes_array : Closes (unit ']') where
  not_space := by decide
  not_numeric := by decide
  not_comma := by decide

theorem closes_object : Closes (unit '}') where
  not_space := by decide
  not_numeric := by decide
  not_comma := by decide

theorem exists_fuel {v : Value ν} (hv : v.Numeric N) {fuel : ℕ}
    (hfuel : (stringify N v).length ≤ fuel) : ∃ n, fuel = n + 1 := by
  obtain ⟨c, s, start, -⟩ := exists_cons_stringify hv
  rw [start, List.length_cons] at hfuel
  exact ⟨fuel - 1, by omega⟩

theorem readValue_string (s : Text) {fuel : ℕ} {rest : Text} :
    readValue N (fuel + 1) (stringify N (.string s) ++ rest) = some (.string s, rest) := by
  have text : stringify N (.string s) ++ rest = unit '"' :: (escape s ++ unit '"' :: rest) := by
    simp [stringify, quote]
  rw [text, readValue, skip_cons (by decide)]
  simp [readString_escape]

theorem readValue_array {items : List (Value ν)} {fuel : ℕ} {rest : Text}
    (h : ∀ v ∈ items, v.Numeric N) (enough : (separated (stringify N) items).length ≤ fuel)
    (read : ∀ v ∈ items, ∀ s, Ends s →
      readValue N fuel (stringify N v ++ s) = some (v.reread N, s)) :
    readValue N (fuel + 1) (stringify N (.array items) ++ rest) =
      some ((Value.array items).reread N, rest) := by
  have list := readList_separated (readValue N fuel) closes_array
    (Nat.le_trans length_le_separated enough) rest (fun v hv => exists_cons_stringify (h v hv)) read
  have text : stringify N (.array items) ++ rest
      = unit '[' :: ((separated (stringify N) items).tail ++ unit ']' :: rest) := by
    simp [stringify, stringifyItems_eq]
  rw [text, readValue, skip_cons (by decide)]
  simp [list, reread_array, show unit '[' ≠ unit '"' by decide]

theorem readValue_object {fields : List (Text × Value ν)} {fuel : ℕ} {rest : Text}
    (names : (fields.map Prod.fst).Nodup)
    (enough : (separated (stringifyField N) fields).length ≤ fuel)
    (read : ∀ field ∈ fields, ∀ s, Ends s →
      readValue N fuel (stringify N field.2 ++ s) = some (field.2.reread N, s)) :
    readValue N (fuel + 1) (stringify N (.object fields) ++ rest) =
      some ((Value.object fields).reread N, rest) := by
  have list := readList_separated (readField (readValue N fuel)) closes_object
    (Nat.le_trans length_le_separated enough) rest
    (fun field hf => ⟨unit '"', _, by rw [stringifyField, quote]; rfl, by decide, by decide⟩)
    fun field hf s hs => readField_stringifyField (read field hf s hs)
  have text : stringify N (.object fields) ++ rest
      = unit '{' :: ((separated (stringifyField N) fields).tail ++ unit '}' :: rest) := by
    simp [stringify, stringifyFields_eq]
  have names' : ((fields.map fun field => (field.1, field.2.reread N)).map Prod.fst).Nodup := by
    simpa [Function.comp_def] using names
  rw [text, readValue, skip_cons (by decide)]
  simp [list, reread_object, merge_of_nodup names', show unit '{' ≠ unit '"' by decide,
    show unit '{' ≠ unit '[' by decide]

/-- Any value reads back in front of any text, given fuel for its length. -/
theorem readValue_stringify {v : Value ν} (hv : v.Numeric N) {fuel : ℕ}
    (hfuel : (stringify N v).length ≤ fuel) {rest : Text} (hrest : Ends rest) :
    readValue N fuel (stringify N v ++ rest) = some (v.reread N, rest) := by
  induction hv generalizing fuel rest with
  | null =>
    obtain ⟨fuel, rfl⟩ := exists_fuel .null hfuel
    exact readValue_word (c := 'n') (by simp [Value.reread])
  | bool b =>
    obtain ⟨fuel, rfl⟩ := exists_fuel (.bool b) hfuel
    cases b with
    | false => exact readValue_word (c := 'f') (by simp [Value.reread])
    | true => exact readValue_word (c := 't') (by simp [Value.reread])
  | number hx =>
    obtain ⟨fuel, rfl⟩ := exists_fuel (.number hx) hfuel
    exact readValue_print hx hrest
  | string s =>
    obtain ⟨fuel, rfl⟩ := exists_fuel (.string s) hfuel
    exact readValue_string s
  | @array items h ih =>
    have length : (stringify N (.array items)).length
        = (separated (stringify N) items).tail.length + 2 := by
      simp [stringify, stringifyItems_eq]
    rw [List.length_tail] at length
    obtain ⟨fuel, rfl⟩ := exists_fuel (.array h) hfuel
    have enough : (separated (stringify N) items).length ≤ fuel := by omega
    refine readValue_array h enough fun v hv s hs => ih v hv ?_ hs
    have shorter := length_lt_separated (stringify N) hv
    omega
  | @object fields names h ih =>
    have length : (stringify N (.object fields)).length
        = (separated (stringifyField N) fields).tail.length + 2 := by
      simp [stringify, stringifyFields_eq]
    rw [List.length_tail] at length
    obtain ⟨fuel, rfl⟩ := exists_fuel (.object names h) hfuel
    have enough : (separated (stringifyField N) fields).length ≤ fuel := by omega
    refine readValue_object names enough fun (name, v) hf s hs => ih (name, v) hf ?_ hs
    have shorter := length_lt_separated (stringifyField N) hf
    simp only [stringifyField, List.length_append, List.length_cons] at shorter
    dsimp only
    omega

/-- `JSON.parse(JSON.stringify(v))` is `v` up to its numbers. -/
theorem parse_stringify_numeric {v : Value ν} (hv : v.Numeric N) :
    parse N (stringify N v) = some (v.reread N) := by
  have read : readValue N ((stringify N v).length + 1) (stringify N v ++ []) =
      some (v.reread N, []) := readValue_stringify hv (Nat.le_succ _) (by simp [Ends])
  rw [List.append_nil] at read
  rw [parse, read]
  rfl

/-- `JSON.parse(JSON.stringify(v))` is `v`. -/
theorem parse_stringify {v : Value ν} (hv : v.Proper N) : parse N (stringify N v) = some v := by
  rw [parse_stringify_numeric hv.numeric, hv.reread]

end Values

end Kyc.Json
