import Kyc.Json.Syntax

/-! # Bytes of texts

The UTF-8 bytes of a text, in which a surrogate on its own becomes the replacement
character, and hexadecimal digits of bytes. Different texts may have the same bytes, but no
other text has those of an ASCII one.
-/

namespace Kyc.Encoding

open Json

def utf8Unit (c : UInt16) : List UInt8 :=
  let n := c.toNat
  if n < 0x80 then [n.toUInt8]
  else if n < 0x800 then [(0xc0 + n / 64).toUInt8, (0x80 + n % 64).toUInt8]
  else if isHighSurrogate c ∨ isLowSurrogate c then [0xef, 0xbf, 0xbd]
  else [(0xe0 + n / 4096).toUInt8, (0x80 + n / 64 % 64).toUInt8, (0x80 + n % 64).toUInt8]

def utf8Pair (c d : UInt16) : List UInt8 :=
  let n := 0x10000 + (c.toNat - 0xd800) * 1024 + (d.toNat - 0xdc00)
  [(0xf0 + n / 262144).toUInt8, (0x80 + n / 4096 % 64).toUInt8, (0x80 + n / 64 % 64).toUInt8,
    (0x80 + n % 64).toUInt8]

/-- `Buffer.from(s)`. -/
def utf8 : Text → List UInt8
  | [] => []
  | [c] => utf8Unit c
  | c :: d :: rest =>
    if isHighSurrogate c ∧ isLowSurrogate d then utf8Pair c d ++ utf8 rest
    else utf8Unit c ++ utf8 (d :: rest)

/-- `buffer.toString('hex')`. -/
def hex (bytes : List UInt8) : Text :=
  bytes.flatMap fun b => [hexDigit (b.toNat / 16), hexDigit (b.toNat % 16)]

def Ascii (s : Text) : Prop := ∀ c ∈ s, c.toNat < 0x80

theorem ascii_cons {c : UInt16} {s : Text} : Ascii (c :: s) ↔ c.toNat < 0x80 ∧ Ascii s :=
  List.forall_mem_cons

theorem lt_of_utf8Unit {c : UInt16} (h : ∀ b ∈ utf8Unit c, b.toNat < 0x80) : c.toNat < 0x80 := by
  have hc : c.toNat < 65536 := c.toNat_lt
  by_contra hge
  unfold utf8Unit at h
  dsimp only at h
  rw [if_neg hge] at h
  split_ifs at h with h₁ h₂
  · have := h _ List.mem_cons_self
    simp at this
    omega
  · have := h _ List.mem_cons_self
    simp at this
  · have := h _ List.mem_cons_self
    simp at this
    omega

theorem utf8Unit_of_lt {c : UInt16} (h : c.toNat < 0x80) : utf8Unit c = [c.toNat.toUInt8] :=
  if_pos h

theorem exists_mem_utf8Pair (c d : UInt16) : ∃ b ∈ utf8Pair c d, 0x80 ≤ b.toNat := by
  refine ⟨_, List.mem_cons_of_mem _ List.mem_cons_self, ?_⟩
  simp
  omega

theorem ascii_of_utf8 {s : Text} (h : ∀ b ∈ utf8 s, b.toNat < 0x80) : Ascii s := by
  induction s using utf8.induct with
  | case1 => simp [Ascii]
  | case2 c => simpa [Ascii] using lt_of_utf8Unit h
  | case3 c d s pair ih =>
    rw [utf8, if_pos pair] at h
    obtain ⟨b, hb, large⟩ := exists_mem_utf8Pair c d
    exact absurd (h b (List.mem_append_left _ hb)) (by omega)
  | case4 c d s pair ih =>
    rw [utf8, if_neg pair] at h
    exact ascii_cons.mpr ⟨lt_of_utf8Unit fun b hb => h b (List.mem_append_left _ hb),
      ih fun b hb => h b (List.mem_append_right _ hb)⟩

theorem utf8_of_ascii {s : Text} (h : Ascii s) : utf8 s = s.map fun c => c.toNat.toUInt8 := by
  induction s using utf8.induct with
  | case1 => rfl
  | case2 c => exact utf8Unit_of_lt (h c List.mem_cons_self)
  | case3 c d s pair ih =>
    have small := h c List.mem_cons_self
    have large : 0xd800 ≤ c := by
      have := pair.1
      simp only [isHighSurrogate, decide_eq_true_eq] at this
      exact this.1
    rw [UInt16.le_iff_toNat_le] at large
    exact absurd (Nat.lt_of_le_of_lt large small) (by decide)
  | case4 c d s pair ih =>
    obtain ⟨hc, hs⟩ := ascii_cons.mp h
    rw [utf8, if_neg pair, utf8Unit_of_lt hc, ih hs]
    rfl

/-- Only an ASCII text itself has its bytes. -/
theorem eq_of_utf8_eq {s t : Text} (ht : Ascii t) (h : utf8 s = utf8 t) : s = t := by
  have bytes := utf8_of_ascii ht
  have hs : Ascii s := by
    refine ascii_of_utf8 fun b hb => ?_
    rw [h, bytes] at hb
    obtain ⟨c, hc, rfl⟩ := List.mem_map.mp hb
    have := ht c hc
    simp
    omega
  rw [bytes, utf8_of_ascii hs] at h
  clear bytes
  induction s generalizing t with
  | nil => exact (List.map_eq_nil_iff.mp h.symm).symm
  | cons c s ih =>
    cases t with
    | nil => cases h
    | cons d t =>
      obtain ⟨hc, hs⟩ := ascii_cons.mp hs
      obtain ⟨hd, ht⟩ := ascii_cons.mp ht
      obtain ⟨head, tail⟩ := List.cons_eq_cons.mp h
      have same : c.toNat = d.toNat := by
        have := congrArg UInt8.toNat head
        simp at this
        omega
      rw [UInt16.toNat_inj.mp same, ih ht tail hs]

theorem toNat_hexDigit_lt {n : ℕ} (hn : n < 16) : (hexDigit n).toNat < 0x80 := by
  have all : ∀ m < 16, (hexDigit m).toNat < 0x80 := by decide
  exact all n hn

theorem ascii_hex (bytes : List UInt8) : Ascii (hex bytes) := by
  rintro c hc
  obtain ⟨b, -, hc⟩ := List.mem_flatMap.mp hc
  have := b.toNat_lt
  rcases List.mem_pair.mp hc with rfl | rfl
  · exact toNat_hexDigit_lt (by omega)
  · exact toNat_hexDigit_lt (by omega)

end Kyc.Encoding
