import Kyc.Encoding.Scalars

/-! # Components of paths

How a text is written as a component of a URL, and the path that is requested for a written one.
A component stands for its text alone; a path is requested as it is written unless one of its
segments is made of dots.
-/

namespace Kyc.Encoding

open Json

section Components

def isUnreserved (c : UInt16) : Bool :=
  isDigit c || (unit 'a' ≤ c && c ≤ unit 'z') || (unit 'A' ≤ c && c ≤ unit 'Z') ||
    c ∈ lit "-_.!~*'()"

def upperHexDigit (n : ℕ) : UInt16 := if n < 10 then (48 + n).toUInt16 else (55 + n).toUInt16

/-- `%XX`. -/
def percentByte (b : UInt8) : Text :=
  [unit '%', upperHexDigit (b.toNat / 16), upperHexDigit (b.toNat % 16)]

/-- A unit that is not half of a pair, in a component; a surrogate cannot be encoded. -/
def encodeUnit (c : UInt16) : Option Text :=
  if isUnreserved c then some [c]
  else if isSurrogate c then none
  else some ((utf8Unit c).flatMap percentByte)

/-- `encodeURIComponent(s)`: `none` is a `URIError`. -/
def encodeURIComponent : Text → Option Text
  | [] => some []
  | [c] => encodeUnit c
  | c :: d :: rest =>
    if isHighSurrogate c ∧ isLowSurrogate d then
      (encodeURIComponent rest).map ((utf8Pair c d).flatMap percentByte ++ ·)
    else do
      let head ← encodeUnit c
      let rest ← encodeURIComponent (d :: rest)
      return head ++ rest

def percentDecode : Text → List UInt8
  | [] => []
  | c :: a :: b :: rest =>
    match if c = unit '%' then (hexValue a).bind fun h => (hexValue b).map (h * 16 + ·)
      else none with
    | some n => n.toUInt8 :: percentDecode rest
    | none => c.toNat.toUInt8 :: percentDecode (a :: b :: rest)
  | c :: rest => c.toNat.toUInt8 :: percentDecode rest

theorem hexValue_upperHexDigit {n : ℕ} (hn : n < 16) : hexValue (upperHexDigit n) = some n := by
  have all : ∀ m < 16, hexValue (upperHexDigit m) = some m := by decide
  exact all n hn

theorem percentDecode_percentByte (b : UInt8) (s : Text) :
    percentDecode (percentByte b ++ s) = b :: percentDecode s := by
  have size := b.toNat_lt
  have high := hexValue_upperHexDigit (show b.toNat / 16 < 16 by omega)
  have low := hexValue_upperHexDigit (show b.toNat % 16 < 16 by omega)
  have whole : b.toNat / 16 * 16 + b.toNat % 16 = b.toNat := by omega
  simp only [percentByte, List.cons_append, List.nil_append, percentDecode, if_true, high, low,
    Option.bind_some, Option.map_some, whole]
  rw [Nat.toUInt8, UInt8.ofNat_toNat]

theorem percentDecode_bytes (bytes : List UInt8) (s : Text) :
    percentDecode (bytes.flatMap percentByte ++ s) = bytes ++ percentDecode s := by
  induction bytes with
  | nil => rfl
  | cons b bytes ih =>
    rw [List.flatMap_cons, List.append_assoc, percentDecode_percentByte, ih, List.cons_append]

theorem percentDecode_unit {c : UInt16} (hc : c ≠ unit '%') (s : Text) :
    percentDecode (c :: s) = c.toNat.toUInt8 :: percentDecode s := by
  match s with
  | [] => rfl
  | [_] => rfl
  | _ :: _ :: _ => rw [percentDecode, if_neg hc]

theorem isUnreserved_plain {c : UInt16} (h : isUnreserved c) : c.toNat < 0x80 ∧ c ≠ unit '%' := by
  have all : ∀ n < 128, isUnreserved (UInt16.ofNat n) → UInt16.ofNat n ≠ unit '%' := by decide
  have small : c.toNat < 0x80 := by
    simp only [isUnreserved, isDigit, Bool.or_eq_true, Bool.and_eq_true, decide_eq_true_eq,
      UInt16.le_iff_toNat_le] at h
    rcases h with ((⟨-, high⟩ | ⟨-, high⟩) | ⟨-, high⟩) | other
    · exact Nat.lt_of_le_of_lt high (by decide)
    · exact Nat.lt_of_le_of_lt high (by decide)
    · exact Nat.lt_of_le_of_lt high (by decide)
    · have marks : Ascii (lit "-_.!~*'()") := by decide
      exact marks c other
  refine ⟨small, ?_⟩
  have := all c.toNat small
  rw [UInt16.ofNat_toNat] at this
  exact this h

theorem percentDecode_encodeUnit {c : UInt16} {e : Text} (h : encodeUnit c = some e) (s : Text) :
    isSurrogate c = false ∧ percentDecode (e ++ s) = utf8Unit c ++ percentDecode s := by
  unfold encodeUnit at h
  split_ifs at h with unreserved surrogate
  · obtain ⟨small, plain⟩ := isUnreserved_plain unreserved
    obtain rfl := Option.some.inj h
    refine ⟨isSurrogate_of_lt small, ?_⟩
    rw [List.singleton_append, percentDecode_unit plain, utf8Unit_of_lt small,
      List.singleton_append]
  · obtain rfl := Option.some.inj h
    exact ⟨Bool.eq_false_iff.mpr surrogate, percentDecode_bytes _ s⟩

/-- A component is read back as the bytes of its text, which is well-formed. -/
theorem percentDecode_encodeURIComponent {s e : Text} (h : encodeURIComponent s = some e) :
    Paired s ∧ percentDecode e = utf8 s := by
  induction s using encodeURIComponent.induct generalizing e with
  | case1 =>
    obtain rfl := Option.some.inj h
    exact ⟨.nil, rfl⟩
  | case2 c =>
    obtain ⟨plain, decoded⟩ := percentDecode_encodeUnit h []
    rw [List.append_nil] at decoded
    exact ⟨.unit plain .nil, decoded.trans (List.append_nil _)⟩
  | case3 c d rest pair ih =>
    rw [encodeURIComponent, if_pos pair] at h
    obtain ⟨e, he, rfl⟩ := Option.map_eq_some_iff.mp h
    obtain ⟨paired, decoded⟩ := ih he
    refine ⟨.pair pair.1 pair.2 paired, ?_⟩
    rw [percentDecode_bytes, decoded, utf8_pair pair.1 pair.2]
  | case4 c d rest pair ih =>
    rw [encodeURIComponent, if_neg pair] at h
    obtain ⟨head, hc, h⟩ := Option.bind_eq_some_iff.mp h
    obtain ⟨e, he, h⟩ := Option.bind_eq_some_iff.mp h
    obtain rfl := Option.some.inj h
    obtain ⟨paired, decoded⟩ := ih he
    obtain ⟨plain, first⟩ := percentDecode_encodeUnit hc e
    refine ⟨.unit plain paired, ?_⟩
    rw [first, decoded, utf8_unit plain]

theorem exists_encodeUnit {c : UInt16} (hc : isSurrogate c = false) :
    ∃ e, encodeUnit c = some e := by
  unfold encodeUnit
  split_ifs with unreserved surrogate
  · exact ⟨_, rfl⟩
  · exact absurd surrogate (Bool.eq_false_iff.mp hc)
  · exact ⟨_, rfl⟩

theorem exists_encodeURIComponent {s : Text} (hs : Paired s) :
    ∃ e, encodeURIComponent s = some e := by
  induction hs with
  | nil => exact ⟨_, rfl⟩
  | @unit c s hc _ ih =>
    obtain ⟨head, hhead⟩ := exists_encodeUnit hc
    cases s with
    | nil => exact ⟨head, hhead⟩
    | cons d rest =>
      obtain ⟨e, he⟩ := ih
      refine ⟨head ++ e, ?_⟩
      rw [encodeURIComponent, if_neg, hhead, he]
      · rfl
      · rintro ⟨high, -⟩
        exact Bool.false_ne_true ((isHighSurrogate_eq_false hc).symm.trans high)
  | pair hc hd _ ih =>
    obtain ⟨e, he⟩ := ih
    rw [encodeURIComponent, if_pos ⟨hc, hd⟩, he]
    exact ⟨_, rfl⟩

/-- A component is that of one text alone. -/
theorem encodeURIComponent_injective {s t e : Text} (hs : encodeURIComponent s = some e)
    (ht : encodeURIComponent t = some e) : s = t := by
  obtain ⟨hs, bytes⟩ := percentDecode_encodeURIComponent hs
  obtain ⟨ht, bytes'⟩ := percentDecode_encodeURIComponent ht
  exact utf8_injective hs ht (bytes.symm.trans bytes')

def isComponentUnit (c : UInt16) : Bool := isUnreserved c || c = unit '%'

theorem isComponentUnit_upperHexDigit {n : ℕ} (hn : n < 16) :
    isComponentUnit (upperHexDigit n) := by
  have all : ∀ m < 16, isComponentUnit (upperHexDigit m) := by decide
  exact all n hn

theorem isComponentUnit_bytes {bytes : List UInt8} :
    ∀ c ∈ bytes.flatMap percentByte, isComponentUnit c := by
  intro c hc
  obtain ⟨b, -, hc⟩ := List.mem_flatMap.mp hc
  have size := b.toNat_lt
  simp only [percentByte, List.mem_cons, List.not_mem_nil, or_false] at hc
  rcases hc with rfl | rfl | rfl
  · decide
  · exact isComponentUnit_upperHexDigit (by omega)
  · exact isComponentUnit_upperHexDigit (by omega)

theorem isComponentUnit_encodeUnit {c : UInt16} {e : Text} (h : encodeUnit c = some e) :
    ∀ d ∈ e, isComponentUnit d := by
  unfold encodeUnit at h
  split_ifs at h with unreserved
  · obtain rfl := Option.some.inj h
    intro d hd
    obtain rfl := List.mem_singleton.mp hd
    exact Bool.or_eq_true _ _ |>.mpr (Or.inl unreserved)
  · obtain rfl := Option.some.inj h
    exact isComponentUnit_bytes

theorem isComponentUnit_of_encoded {s e : Text} (h : encodeURIComponent s = some e) :
    ∀ c ∈ e, isComponentUnit c := by
  induction s using encodeURIComponent.induct generalizing e with
  | case1 =>
    obtain rfl := Option.some.inj h
    exact fun c hc => absurd hc List.not_mem_nil
  | case2 c => exact isComponentUnit_encodeUnit h
  | case3 c d rest pair ih =>
    rw [encodeURIComponent, if_pos pair] at h
    obtain ⟨e, he, rfl⟩ := Option.map_eq_some_iff.mp h
    exact List.forall_mem_append.mpr ⟨isComponentUnit_bytes, ih he⟩
  | case4 c d rest pair ih =>
    rw [encodeURIComponent, if_neg pair] at h
    obtain ⟨head, hc, h⟩ := Option.bind_eq_some_iff.mp h
    obtain ⟨e, he, h⟩ := Option.bind_eq_some_iff.mp h
    obtain rfl := Option.some.inj h
    exact List.forall_mem_append.mpr ⟨isComponentUnit_encodeUnit hc, ih he⟩

end Components

section Paths

/-- A unit that the parser of URLs takes over into a path as it is. -/
def isPathUnit (c : UInt16) : Bool := 0x20 < c && c < 0x7f && c ∉ lit "\"#<>?\\^\x60\x7b\x7d"

/-- How a dot is written in a segment. -/
def dots : List Text := [lit ".", lit "%2e", lit "%2E"]

def isSingleDot (s : Text) : Bool := dots.contains s

def isDoubleDot (s : Text) : Bool := (dots.flatMap fun dot => dots.map (dot ++ ·)).contains s

def joined (segments : List Text) : Text := segments.flatMap (unit '/' :: ·)

/-- The segments of a path, the last one first, after those in front and the given ones. -/
def resolve : List Text → List Text → List Text
  | path, [] => path
  | path, s :: rest =>
    if isDoubleDot s then resolve (if rest = [] then [] :: path.tail else path.tail) rest
    else if isSingleDot s then resolve (if rest = [] then [] :: path else path) rest
    else resolve (s :: path) rest

/-- The path that is requested for a written one, which has units of paths alone. -/
def requestedPath (path : Text) : Text :=
  joined (resolve [] (path.tail.splitOn (unit '/'))).reverse

theorem isPathUnit_of_component {c : UInt16} (h : isComponentUnit c) : isPathUnit c := by
  have small : c.toNat < 0x80 := by
    rcases Bool.or_eq_true _ _ |>.mp h with plain | percent
    · exact (isUnreserved_plain plain).1
    · rw [of_decide_eq_true percent]
      decide
  have all : ∀ n < 128, isComponentUnit (UInt16.ofNat n) → isPathUnit (UInt16.ofNat n) := by
    decide +kernel
  have here := all c.toNat small
  rw [UInt16.ofNat_toNat] at here
  exact here h

def isDotSegment (s : Text) : Bool := isSingleDot s || isDoubleDot s

theorem joined_append (a b : List Text) : joined (a ++ b) = joined a ++ joined b :=
  List.flatMap_append

theorem joined_splitOn (s : Text) : joined (s.splitOn (unit '/')) = unit '/' :: s := by
  induction s with
  | nil => rfl
  | cons c s ih =>
    rw [List.splitOn_cons_eq_if_modifyHead]
    split_ifs with slash
    · obtain rfl := LawfulBEq.eq_of_beq slash
      rw [← ih]
      rfl
    · obtain ⟨first, rest, split⟩ := List.exists_cons_of_ne_nil (List.splitOn_ne_nil (unit '/') s)
      rw [split] at ih ⊢
      simp only [joined, List.flatMap_cons, List.cons_append, List.modifyHead_cons] at ih ⊢
      rw [(List.cons_eq_cons.mp ih).2]

def extent (segments : List Text) : ℕ := (joined segments).length

theorem extent_cons (s : Text) (segments : List Text) :
    extent (s :: segments) = s.length + 1 + extent segments := by
  rw [extent, joined, List.flatMap_cons, List.length_append]
  rfl

theorem extent_reverse (segments : List Text) : extent segments.reverse = extent segments := by
  induction segments with
  | nil => rfl
  | cons s segments ih =>
    have split : extent (segments.reverse ++ [s]) = extent segments.reverse + extent [s] := by
      rw [extent, joined_append, List.length_append]
      rfl
    rw [List.reverse_cons, split, ih, extent_cons, extent_cons, Nat.add_comm]
    rfl

theorem extent_tail_le (segments : List Text) : extent segments.tail ≤ extent segments := by
  cases segments with
  | nil => exact Nat.le_refl _
  | cons s segments =>
    rw [extent_cons]
    exact Nat.le_add_left _ _

theorem length_of_isSingleDot {s : Text} (h : isSingleDot s) : 1 ≤ s.length := by
  rcases s with - | ⟨c, s⟩
  · exact absurd h (by decide)
  · exact Nat.succ_le_succ (Nat.zero_le _)

theorem length_of_isDoubleDot {s : Text} (h : isDoubleDot s) : 1 ≤ s.length := by
  rcases s with - | ⟨c, s⟩
  · exact absurd h (by decide)
  · exact Nat.succ_le_succ (Nat.zero_le _)

theorem extent_close (path rest : List Text) :
    extent (if rest = [] then [] :: path else path) ≤ extent path + 1 := by
  split_ifs
  · rw [extent_cons]
    exact Nat.le_of_eq (Nat.add_comm _ _)
  · exact Nat.le_succ _

theorem extent_resolve_le (path segments : List Text) :
    extent (resolve path segments) ≤ extent path + extent segments := by
  induction segments generalizing path with
  | nil => exact Nat.le_refl _
  | cons s rest ih =>
    rw [resolve, extent_cons]
    by_cases double : isDoubleDot s
    · rw [if_pos double]
      have := ih (if rest = [] then [] :: path.tail else path.tail)
      have := extent_close path.tail rest
      have := extent_tail_le path
      have := length_of_isDoubleDot double
      omega
    rw [if_neg double]
    by_cases single : isSingleDot s
    · rw [if_pos single]
      have := ih (if rest = [] then [] :: path else path)
      have := extent_close path rest
      have := length_of_isSingleDot single
      omega
    · rw [if_neg single]
      have := ih (s :: path)
      rw [extent_cons] at this
      omega

/-- A segment of dots makes the path shorter. -/
theorem extent_resolve_lt (path : List Text) {segments : List Text} {s : Text}
    (hs : s ∈ segments) (dots : isDotSegment s) :
    extent (resolve path segments) < extent path + extent segments := by
  induction segments generalizing path with
  | nil => exact absurd hs List.not_mem_nil
  | cons t rest ih =>
    rw [resolve, extent_cons]
    by_cases double : isDoubleDot t
    · rw [if_pos double]
      have := extent_resolve_le (if rest = [] then [] :: path.tail else path.tail) rest
      have := extent_close path.tail rest
      have := extent_tail_le path
      have := length_of_isDoubleDot double
      omega
    rw [if_neg double]
    by_cases single : isSingleDot t
    · rw [if_pos single]
      have := extent_resolve_le (if rest = [] then [] :: path else path) rest
      have := extent_close path rest
      have := length_of_isSingleDot single
      omega
    · rw [if_neg single]
      have later : s ∈ rest := by
        rcases List.mem_cons.mp hs with rfl | later
        · exact absurd dots (by simp [isDotSegment, double, single])
        · exact later
      have := ih (t :: path) later
      rw [extent_cons] at this
      omega

theorem resolve_of_forall {path segments : List Text}
    (h : ∀ s ∈ segments, isDotSegment s = false) :
    resolve path segments = segments.reverse ++ path := by
  induction segments generalizing path with
  | nil => rfl
  | cons s rest ih =>
    obtain ⟨hs, hrest⟩ := List.forall_mem_cons.mp h
    obtain ⟨single, double⟩ := Bool.or_eq_false_iff.mp hs
    rw [resolve, if_neg (Bool.eq_false_iff.mp double), if_neg (Bool.eq_false_iff.mp single),
      ih hrest, List.reverse_cons, List.append_assoc, List.singleton_append]

theorem dots_of_encoded {s e : Text} (h : encodeURIComponent s = some e) :
    isDotSegment e = true ↔ s = lit "." ∨ s = lit ".." := by
  constructor
  · intro segment
    have singles : ∀ t ∈ dots, percentDecode t = utf8 (lit ".") := by decide
    have doubles : ∀ t ∈ dots.flatMap fun dot => dots.map (dot ++ ·),
        percentDecode t = utf8 (lit "..") := by decide
    obtain ⟨-, decoded⟩ := percentDecode_encodeURIComponent h
    rcases Bool.or_eq_true _ _ |>.mp segment with single | double
    · left
      have bytes := singles e (List.contains_iff_mem.mp single)
      exact eq_of_utf8_eq (by decide) (decoded.symm.trans bytes)
    · right
      have bytes := doubles e (List.contains_iff_mem.mp double)
      exact eq_of_utf8_eq (by decide) (decoded.symm.trans bytes)
  · rintro (rfl | rfl)
    · obtain rfl : lit "." = e := Option.some.inj h
      decide
    · obtain rfl : lit ".." = e := Option.some.inj h
      decide

/-- A path is requested as it is written unless one of its segments is made of dots. -/
theorem requestedPath_eq_iff {s : Text} :
    requestedPath (unit '/' :: s) = unit '/' :: s ↔
      ∀ segment ∈ s.splitOn (unit '/'), isDotSegment segment = false := by
  rw [requestedPath, List.tail_cons]
  constructor
  · intro h segment hm
    by_contra dots
    have shorter := extent_resolve_lt [] hm (Bool.not_eq_false _ ▸ dots)
    rw [← extent_reverse, extent, h, ← joined_splitOn, ← extent] at shorter
    exact absurd shorter (by simp [extent, joined])
  · intro h
    rw [resolve_of_forall h, List.append_nil, List.reverse_reverse, joined_splitOn]

end Paths

end Kyc.Encoding
