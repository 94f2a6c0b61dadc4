import Kyc.Json.Shield

/-! # String literals of a script

What a double-quoted literal in a script evaluates to. A JSON string is such a literal,
and evaluates to what it parses as, unless a line separator stands in it: these are
allowed in JSON, and end a line in a script.
-/

namespace Kyc.Json

def lineEnds : List UInt16 := [10, 13, 0x2028, 0x2029]

/-- The unit that `\c` stands for. Octal escapes and line continuations are left out. -/
def literalEscape (c : UInt16) : Option UInt16 :=
  if c = unit 'b' then some 8
  else if c = unit 't' then some 9
  else if c = unit 'n' then some 10
  else if c = unit 'v' then some 11
  else if c = unit 'f' then some 12
  else if c = unit 'r' then some 13
  else if isDigit c ∨ c ∈ lineEnds then none
  else some c

/-- The value of a literal up to its closing quote, and the script behind it. Code points in
braces are left out. -/
def readLiteral : Text → Option (Text × Text)
  | [] => none
  | c :: rest =>
    if c = unit '"' then some ([], rest)
    else if c = unit '\\' then
      match rest with
      | [] => none
      | e :: rest =>
        if e = unit 'u' then
          match rest with
          | a :: b :: c :: d :: rest =>
            (readCode a b c d).bind fun x => (readLiteral rest).map (prepend x)
          | _ => none
        else if e = unit 'x' then
          match rest with
          | a :: b :: rest =>
            (readCode (unit '0') (unit '0') a b).bind fun x => (readLiteral rest).map (prepend x)
          | _ => none
        else (literalEscape e).bind fun x => (readLiteral rest).map (prepend x)
    else if c ∈ lineEnds then none
    else (readLiteral rest).map (prepend c)

def evalLiteral : Text → Option (Text × Text)
  | c :: rest => if c = unit '"' then readLiteral rest else none
  | [] => none

theorem literalEscape_of_readEscape {e x : UInt16} (h : readEscape e = some x) :
    e ≠ unit 'x' ∧ literalEscape e = some x := by
  rw [readEscape] at h
  split_ifs at h with hself hb ht hn hf hr
  · obtain rfl := Option.some.inj h
    rcases hself with rfl | rfl | rfl <;> decide
  all_goals
    obtain rfl := Option.some.inj h
    subst_vars
    decide

/-- What JSON reads, a script does, where no line separator stands. -/
theorem readLiteral_of_readString {s x rest : Text} (hs : 0x2028 ∉ s ∧ 0x2029 ∉ s)
    (h : readString s = some (x, rest)) : readLiteral s = some (x, rest) := by
  have later {c : UInt16} {s : Text} (hs : 0x2028 ∉ c :: s ∧ 0x2029 ∉ c :: s) :
      0x2028 ∉ s ∧ 0x2029 ∉ s :=
    ⟨fun h => hs.1 (List.mem_cons_of_mem c h), fun h => hs.2 (List.mem_cons_of_mem c h)⟩
  replace h := stringText_of_readString h
  induction h with
  | quote rest =>
    rw [readLiteral.eq_def]
    simp
  | code hx _ ih =>
    have read := ih (later (later (later (later (later (later hs))))))
    rw [readLiteral.eq_def]
    dsimp only
    rw [if_neg (by decide), if_pos rfl, if_pos rfl, hx, read]
    rfl
  | escape hu hx _ ih =>
    obtain ⟨other, hescape⟩ := literalEscape_of_readEscape hx
    rw [readLiteral.eq_def]
    dsimp only
    rw [if_neg (by decide), if_pos rfl, if_neg hu, if_neg other, hescape, ih (later (later hs))]
    rfl
  | @plain c s t rest hquote hslash hcontrol _ ih =>
    have hline : c ∉ lineEnds := by
      intro hc
      simp only [lineEnds, List.mem_cons, List.not_mem_nil, or_false] at hc
      rcases hc with rfl | rfl | rfl | rfl
      · exact hcontrol (by decide)
      · exact hcontrol (by decide)
      · exact hs.1 List.mem_cons_self
      · exact hs.2 List.mem_cons_self
    rw [readLiteral.eq_def]
    dsimp only
    rw [if_neg hquote, if_neg hslash, if_neg hline, ih (later hs)]
    rfl

theorem evalLiteral_shield_quote {units : List UInt16} (ordinary : ∀ c ∈ units, Ordinary c)
    (separators : 0x2028 ∈ units ∧ 0x2029 ∈ units) (s : Text) {rest : Text}
    (hrest : ∀ c ∈ rest, c ∉ units) :
    evalLiteral (shield units (quote s) ++ rest) = some (s, rest) := by
  have text : shield units (quote s) ++ rest =
      unit '"' :: shield units (escape s ++ unit '"' :: rest) := by
    have whole : quote s ++ rest = unit '"' :: (escape s ++ unit '"' :: rest) := by simp [quote]
    rw [← shield_cons ordinary (by decide), ← whole, shield_append, shield_eq_self hrest]
  have read := shields_readString ordinary _ _ _ (readString_escape s rest)
  rw [shield_eq_self hrest] at read
  rw [text, evalLiteral, if_pos rfl]
  exact readLiteral_of_readString ⟨not_mem_shield ordinary separators.1 _,
    not_mem_shield ordinary separators.2 _⟩ read

end Kyc.Json
