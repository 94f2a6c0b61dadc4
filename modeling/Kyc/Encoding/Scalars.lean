import Kyc.Encoding.Utf8
import Kyc.Json.RoundTrip

/-! # Well-formed texts

Texts in which no surrogate stands on its own. Their bytes are read back one character at a
time, so that no two of them have the same bytes, and every JSON text is one.
-/

namespace Kyc.Encoding

open Json

def isSurrogate (c : UInt16) : Bool := isHighSurrogate c || isLowSurrogate c

/-- A text of Unicode characters. -/
inductive Paired : Text → Prop
  | nil : Paired []
  | unit {c : UInt16} {s : Text} (hc : isSurrogate c = false) (hs : Paired s) :
      Paired (c :: s)
  | pair {c d : UInt16} {s : Text} (hc : isHighSurrogate c) (hd : isLowSurrogate d)
      (hs : Paired s) : Paired (c :: d :: s)

theorem isSurrogate_iff {c : UInt16} :
    isSurrogate c = true ↔ 0xd800 ≤ c.toNat ∧ c.toNat < 0xe000 := by
  simp only [isSurrogate, isHighSurrogate, isLowSurrogate, Bool.or_eq_true, decide_eq_true_eq,
    UInt16.le_iff_toNat_le, UInt16.lt_iff_toNat_lt]
  constructor
  · rintro (⟨low, high⟩ | ⟨low, high⟩)
    · exact ⟨low, Nat.lt_trans high (by decide)⟩
    · exact ⟨Nat.le_trans (by decide) low, high⟩
  · rintro ⟨low, high⟩
    rcases Nat.lt_or_ge c.toNat 0xdc00 with h | h
    · exact Or.inl ⟨low, h⟩
    · exact Or.inr ⟨h, high⟩

theorem isHighSurrogate_iff {c : UInt16} :
    isHighSurrogate c = true ↔ 0xd800 ≤ c.toNat ∧ c.toNat < 0xdc00 := by
  simp only [isHighSurrogate, decide_eq_true_eq, UInt16.le_iff_toNat_le, UInt16.lt_iff_toNat_lt]
  rfl

theorem isLowSurrogate_iff {c : UInt16} :
    isLowSurrogate c = true ↔ 0xdc00 ≤ c.toNat ∧ c.toNat < 0xe000 := by
  simp only [isLowSurrogate, decide_eq_true_eq, UInt16.le_iff_toNat_le, UInt16.lt_iff_toNat_lt]
  rfl

theorem isSurrogate_of_lt {c : UInt16} (h : c.toNat < 0x80) : isSurrogate c = false := by
  rw [Bool.eq_false_iff, ne_eq, isSurrogate_iff]
  omega

theorem isHighSurrogate_eq_false {c : UInt16} (h : isSurrogate c = false) :
    isHighSurrogate c = false := (Bool.or_eq_false_iff.mp h).1

theorem Paired.of_ascii {s : Text} (h : Ascii s) : Paired s := by
  induction s with
  | nil => exact .nil
  | cons c s ih =>
    obtain ⟨hc, hs⟩ := ascii_cons.mp h
    exact .unit (isSurrogate_of_lt hc) (ih hs)

theorem Paired.append {s t : Text} (hs : Paired s) (ht : Paired t) :
    Paired (s ++ t) := by
  induction hs with
  | nil => exact ht
  | unit hc _ ih => exact .unit hc ih
  | pair hc hd _ ih => exact .pair hc hd ih

def utf16Character (c : Char) : Text :=
  if c.toNat < 0x10000 then [c.toNat.toUInt16]
  else [(0xd800 + (c.toNat - 0x10000) / 1024).toUInt16,
    (0xdc00 + (c.toNat - 0x10000) % 1024).toUInt16]

def utf16 (s : String) : Text := s.toList.flatMap utf16Character

theorem paired_utf16Character (c : Char) : Paired (utf16Character c) := by
  have valid : c.toNat < 0xd800 ∨ 0xdfff < c.toNat ∧ c.toNat < 0x110000 := c.valid
  unfold utf16Character
  split_ifs with small
  · refine .unit ?_ .nil
    rw [Bool.eq_false_iff, ne_eq, isSurrogate_iff]
    simp
    omega
  · refine .pair (isHighSurrogate_iff.mpr ?_) (isLowSurrogate_iff.mpr ?_) .nil
    · simp
      omega
    · simp
      omega

theorem paired_utf16 (s : String) : Paired (utf16 s) := by
  rw [utf16]
  induction s.toList with
  | nil => exact .nil
  | cons c s ih => exact (paired_utf16Character c).append ih

section Bytes

theorem utf8_unit {c : UInt16} (hc : isSurrogate c = false) (s : Text) :
    utf8 (c :: s) = utf8Unit c ++ utf8 s := by
  cases s with
  | nil => exact (List.append_nil _).symm
  | cons d s =>
    rw [utf8, if_neg]
    rintro ⟨high, -⟩
    exact Bool.false_ne_true ((isHighSurrogate_eq_false hc).symm.trans high)

theorem utf8_pair {c d : UInt16} (hc : isHighSurrogate c) (hd : isLowSurrogate d) (s : Text) :
    utf8 (c :: d :: s) = utf8Pair c d ++ utf8 s := by
  rw [utf8, if_pos ⟨hc, hd⟩]

theorem utf8_append {s : Text} (hs : Paired s) (t : Text) :
    utf8 (s ++ t) = utf8 s ++ utf8 t := by
  induction hs with
  | nil => rfl
  | unit hc _ ih =>
    rw [List.cons_append, utf8_unit hc, utf8_unit hc, ih, List.append_assoc]
  | pair hc hd _ ih =>
    rw [List.cons_append, List.cons_append, utf8_pair hc hd, utf8_pair hc hd, ih,
      List.append_assoc]

/-- The first character of some bytes, as its code units. -/
def readCharacter : List UInt8 → Option (Text × List UInt8)
  | a :: s =>
    if a.toNat < 0x80 then some ([a.toNat.toUInt16], s)
    else if a.toNat < 0xe0 then
      match s with
      | b :: s => some ([((a.toNat - 0xc0) * 64 + (b.toNat - 0x80)).toUInt16], s)
      | _ => none
    else if a.toNat < 0xf0 then
      match s with
      | b :: c :: s =>
        some ([((a.toNat - 0xe0) * 4096 + (b.toNat - 0x80) * 64 + (c.toNat - 0x80)).toUInt16], s)
      | _ => none
    else
      match s with
      | b :: c :: d :: s =>
        let n := (a.toNat - 0xf0) * 262144 + (b.toNat - 0x80) * 4096 + (c.toNat - 0x80) * 64 +
          (d.toNat - 0x80) - 0x10000
        some ([(0xd800 + n / 1024).toUInt16, (0xdc00 + n % 1024).toUInt16], s)
      | _ => none
  | [] => none

theorem toNat_toUInt8 {n : ℕ} (h : n < 256) : n.toUInt8.toNat = n := by
  simpa using h

theorem toUInt16_eq {c : UInt16} {n : ℕ} (h : n = c.toNat) : n.toUInt16 = c := by
  subst h
  exact UInt16.ofNat_toNat

theorem readCharacter_utf8Unit {c : UInt16} (hc : isSurrogate c = false) (s : List UInt8) :
    readCharacter (utf8Unit c ++ s) = some ([c], s) := by
  have size : c.toNat < 65536 := c.toNat_lt
  have plain : ¬ (isHighSurrogate c ∨ isLowSurrogate c) := by
    simpa [isSurrogate] using hc
  unfold utf8Unit
  dsimp only
  split_ifs with h₁ h₂
  · simp only [List.singleton_append, readCharacter, toNat_toUInt8 (show c.toNat < 256 by omega),
      if_pos h₁, toUInt16_eq rfl]
  · have lead := toNat_toUInt8 (show 0xc0 + c.toNat / 64 < 256 by omega)
    have tail := toNat_toUInt8 (show 0x80 + c.toNat % 64 < 256 by omega)
    simp only [List.cons_append, List.nil_append, readCharacter, lead, tail]
    rw [if_neg (by omega), if_pos (by omega), toUInt16_eq (c := c) (by omega)]
  · have lead := toNat_toUInt8 (show 0xe0 + c.toNat / 4096 < 256 by omega)
    have second := toNat_toUInt8 (show 0x80 + c.toNat / 64 % 64 < 256 by omega)
    have third := toNat_toUInt8 (show 0x80 + c.toNat % 64 < 256 by omega)
    simp only [List.cons_append, List.nil_append, readCharacter, lead, second, third]
    rw [if_neg (by omega), if_neg (by omega), if_pos (by omega), toUInt16_eq (c := c) (by omega)]

theorem readCharacter_utf8Pair {c d : UInt16} (hc : isHighSurrogate c) (hd : isLowSurrogate d)
    (s : List UInt8) : readCharacter (utf8Pair c d ++ s) = some ([c, d], s) := by
  obtain ⟨lowc, highc⟩ := isHighSurrogate_iff.mp hc
  obtain ⟨lowd, highd⟩ := isLowSurrogate_iff.mp hd
  unfold utf8Pair
  dsimp only
  generalize hn : 0x10000 + (c.toNat - 0xd800) * 1024 + (d.toNat - 0xdc00) = n
  have first := toNat_toUInt8 (show 0xf0 + n / 262144 < 256 by omega)
  have second := toNat_toUInt8 (show 0x80 + n / 4096 % 64 < 256 by omega)
  have third := toNat_toUInt8 (show 0x80 + n / 64 % 64 < 256 by omega)
  have fourth := toNat_toUInt8 (show 0x80 + n % 64 < 256 by omega)
  simp only [List.cons_append, List.nil_append, readCharacter, first, second, third, fourth]
  rw [if_neg (by omega), if_neg (by omega), if_neg (by omega), toUInt16_eq (c := c) (by omega),
    toUInt16_eq (c := d) (by omega)]

theorem readCharacter_utf8_unit {c : UInt16} (hc : isSurrogate c = false) (s : Text) :
    readCharacter (utf8 (c :: s)) = some ([c], utf8 s) := by
  rw [utf8_unit hc, readCharacter_utf8Unit hc]

theorem readCharacter_utf8_pair {c d : UInt16} (hc : isHighSurrogate c) (hd : isLowSurrogate d)
    (s : Text) : readCharacter (utf8 (c :: d :: s)) = some ([c, d], utf8 s) := by
  rw [utf8_pair hc hd, readCharacter_utf8Pair hc hd]

/-- A well-formed text is the only one with its bytes. -/
theorem utf8_injective {s t : Text} (hs : Paired s) (ht : Paired t)
    (h : utf8 s = utf8 t) : s = t := by
  induction hs generalizing t with
  | nil =>
    cases ht with
    | nil => rfl
    | unit hc _ =>
      have := readCharacter_utf8_unit hc _ |>.symm.trans (congrArg readCharacter h.symm)
      cases this
    | pair hc hd _ =>
      have := readCharacter_utf8_pair hc hd _ |>.symm.trans (congrArg readCharacter h.symm)
      cases this
  | unit hc _ ih =>
    have first := readCharacter_utf8_unit hc _ |>.symm.trans (congrArg readCharacter h)
    cases ht with
    | nil => cases first
    | unit hd ht =>
      rw [readCharacter_utf8_unit hd] at first
      obtain ⟨same, rest⟩ := Prod.ext_iff.mp (Option.some.inj first)
      rw [List.cons_eq_cons.mp same |>.1, ih ht rest]
    | pair hd he ht =>
      rw [readCharacter_utf8_pair hd he] at first
      cases Prod.ext_iff.mp (Option.some.inj first) |>.1
  | pair hc hd _ ih =>
    have first := readCharacter_utf8_pair hc hd _ |>.symm.trans (congrArg readCharacter h)
    cases ht with
    | nil => cases first
    | unit he ht =>
      rw [readCharacter_utf8_unit he] at first
      cases Prod.ext_iff.mp (Option.some.inj first) |>.1
    | pair he hf ht =>
      rw [readCharacter_utf8_pair he hf] at first
      obtain ⟨same, rest⟩ := Prod.ext_iff.mp (Option.some.inj first)
      obtain ⟨high, same⟩ := List.cons_eq_cons.mp same
      rw [high, List.cons_eq_cons.mp same |>.1, ih ht rest]

end Bytes

section JsonTexts

instance : DecidablePred Ascii := fun s => inferInstanceAs (Decidable (∀ c ∈ s, c.toNat < 0x80))

theorem ascii_append {s t : Text} (hs : Ascii s) (ht : Ascii t) : Ascii (s ++ t) :=
  List.forall_mem_append.mpr ⟨hs, ht⟩

theorem ascii_escapeCode (c : UInt16) : Ascii (escapeCode c) := by
  have size : c.toNat < 65536 := c.toNat_lt
  have first := toNat_hexDigit_lt (show c.toNat / 4096 < 16 by omega)
  have second := toNat_hexDigit_lt (show c.toNat / 256 % 16 < 16 by omega)
  have third := toNat_hexDigit_lt (show c.toNat / 16 % 16 < 16 by omega)
  have fourth := toNat_hexDigit_lt (show c.toNat % 16 < 16 by omega)
  refine ascii_append (by decide) ?_
  simp [Ascii, first, second, third, fourth]

theorem paired_escapeUnit (c : UInt16) : Paired (escapeUnit c) := by
  unfold escapeUnit
  split_ifs with h₁ h₂ h₃ h₄ h₅ h₆ h₇ h₈
  · exact .of_ascii (by decide)
  · exact .of_ascii (by decide)
  · exact .of_ascii (by decide)
  · exact .of_ascii (by decide)
  · exact .of_ascii (by decide)
  · exact .of_ascii (by decide)
  · exact .of_ascii (by decide)
  · exact .of_ascii (ascii_escapeCode c)
  · refine .unit ?_ .nil
    simpa [isSurrogate, not_or] using fun hc => h₈ (Or.inr hc)

theorem paired_escape (s : Text) : Paired (escape s) := by
  induction s using escape.induct with
  | case1 => exact .nil
  | case2 c => exact paired_escapeUnit c
  | case3 c d s pair ih =>
    rw [escape, if_pos pair]
    exact .pair pair.1 pair.2 ih
  | case4 c d s pair ih =>
    rw [escape, if_neg pair]
    exact (paired_escapeUnit c).append ih

theorem paired_quote (s : Text) : Paired (quote s) :=
  .unit (by decide) ((paired_escape s).append (.of_ascii (by decide)))

theorem ascii_of_isNumeral {s : Text} (h : isNumeral s) : Ascii s := by
  intro c hc
  have numeric := all_isNumeric_of_isNumeral h c hc
  simp only [isNumeric, isDigit, Bool.or_eq_true, decide_eq_true_eq] at numeric
  rcases numeric with ⟨-, high⟩ | other
  · exact Nat.lt_of_le_of_lt (UInt16.le_iff_toNat_le.mp high) (by decide)
  · have all : Ascii (lit "+-.eE") := by decide
    exact all c other

theorem Paired.of_cons {c : UInt16} {s : Text} (h : Paired (c :: s))
    (hc : isSurrogate c = false) : Paired s := by
  cases h with
  | unit _ hs => exact hs
  | pair high =>
    exact absurd (isHighSurrogate_eq_false hc) (Bool.not_eq_false _ |>.mpr high)

theorem paired_tail_separated {α : Type} {write : α → Text} {xs : List α}
    (h : ∀ x ∈ xs, Paired (write x)) : Paired (separated write xs).tail := by
  have all : Paired (separated write xs) := by
    induction xs with
    | nil => exact .nil
    | cons x xs ih =>
      obtain ⟨hx, hxs⟩ := List.forall_mem_cons.mp h
      exact .unit (by decide) (hx.append (ih hxs))
  cases xs with
  | nil => exact .nil
  | cons x xs => exact Paired.of_cons (c := unit ',') all (by decide)

variable {ν : Type} {N : Numerals ν}

theorem paired_stringify {v : Value ν} (hv : v.Numeric N) : Paired (stringify N v) := by
  induction hv with
  | null => exact .of_ascii (show Ascii (lit "null") by decide)
  | bool b =>
    cases b with
    | true => exact .of_ascii (show Ascii (lit "true") by decide)
    | false => exact .of_ascii (show Ascii (lit "false") by decide)
  | number h => exact .of_ascii (ascii_of_isNumeral h)
  | string s => exact paired_quote s
  | array _ ih =>
    rw [stringify, stringifyItems_eq]
    exact .unit (by decide) ((paired_tail_separated ih).append (.of_ascii (by decide)))
  | object _ _ ih =>
    rw [stringify, stringifyFields_eq]
    refine .unit (by decide) ((paired_tail_separated ?_).append (.of_ascii (by decide)))
    rintro ⟨name, v⟩ hf
    have colon : isSurrogate (unit ':') = false := by decide
    rw [stringifyField]
    exact (paired_quote name).append (.unit colon (ih (name, v) hf))

end JsonTexts

end Kyc.Encoding
