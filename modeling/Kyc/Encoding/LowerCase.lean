import Kyc.Encoding.Scan
import Kyc.Encoding.Utf8

/-! # Lower case

Texts in lower case, as far as scanners depend on it. The table itself stays a parameter:
letters outside ASCII may become several units, and may look at the letters around them, but
never across a delimiter of a URL.
-/

namespace Kyc.Encoding

open Json

def asciiLower (c : UInt16) : UInt16 := if unit 'A' ≤ c ∧ c ≤ unit 'Z' then c + 32 else c

def delimiters : Text := lit "/\\?#@"

/-- A conversion to lower case. -/
structure LowerCase where
  lower : Text → Text
  lower_lower : ∀ s, lower (lower s) = lower s
  lower_ascii : ∀ s, Ascii s → lower s = s.map asciiLower
  lower_eq_nil : ∀ s, lower s = [] → s = []
  not_mem_lower : ∀ c ∈ delimiters, ∀ s, c ∉ s → c ∉ lower s
  lower_split : ∀ c ∈ delimiters, ∀ s t, lower (s ++ c :: t) = lower s ++ c :: lower t
  lower_right : ∀ s t, lower (s ++ t) = s ++ t → lower t = t

theorem asciiLower_toNat (c : UInt16) :
    (asciiLower c).toNat = if 65 ≤ c.toNat ∧ c.toNat ≤ 90 then c.toNat + 32 else c.toNat := by
  have letters : (unit 'A' ≤ c ∧ c ≤ unit 'Z') ↔ 65 ≤ c.toNat ∧ c.toNat ≤ 90 := by
    rw [UInt16.le_iff_toNat_le, UInt16.le_iff_toNat_le]
    rfl
  unfold asciiLower
  simp only [letters]
  split_ifs with h
  · rw [UInt16.toNat_add, show (32 : UInt16).toNat = 32 from rfl]
    omega
  · rfl

theorem asciiLower_asciiLower (c : UInt16) : asciiLower (asciiLower c) = asciiLower c := by
  refine UInt16.toNat_inj.mp ?_
  rw [asciiLower_toNat, asciiLower_toNat]
  split_ifs <;> omega

theorem asciiLower_lt {c : UInt16} : (asciiLower c).toNat < 0x80 ↔ c.toNat < 0x80 := by
  rw [asciiLower_toNat]
  split_ifs <;> omega

theorem asciiLower_eq_iff {c d : UInt16} (hd : d.toNat < 65) : asciiLower c = d ↔ c = d := by
  rw [← UInt16.toNat_inj, asciiLower_toNat, ← UInt16.toNat_inj]
  split_ifs <;> omega

theorem ascii_of_map_asciiLower {s : Text} (h : Ascii (s.map asciiLower)) : Ascii s := by
  rintro c hc
  exact asciiLower_lt.mp (h _ (List.mem_map_of_mem hc))

def asciiCase : LowerCase where
  lower s := s.map asciiLower
  lower_lower s := by simp [asciiLower_asciiLower, Function.comp_def]
  lower_ascii _ _ := rfl
  lower_eq_nil s h := List.map_eq_nil_iff.mp h
  not_mem_lower c hc s hs := by
    have fixed : ∀ c ∈ delimiters, ∀ d, asciiLower d = c → d = c := by
      rintro c hc d hd
      have small : ∀ c ∈ delimiters, c.toNat < 65 ∨ c = unit '\\' := by decide
      rcases small c hc with h | rfl
      · exact (asciiLower_eq_iff h).mp hd
      · rw [← UInt16.toNat_inj, asciiLower_toNat] at hd
        rw [← UInt16.toNat_inj]
        have : (unit '\\').toNat = 92 := by decide
        split_ifs at hd <;> omega
    rintro mem
    obtain ⟨d, hd, same⟩ := List.mem_map.mp mem
    exact hs (fixed c hc d same ▸ hd)
  lower_split c hc s t := by
    have fixed : ∀ c ∈ delimiters, asciiLower c = c := by decide
    simp [fixed c hc]
  lower_right s t h := by
    rw [List.map_append] at h
    exact (List.append_inj h (by simp)).2

namespace LowerCase

variable (L : LowerCase) {D : List UInt16}

theorem lower_nil : L.lower [] = [] := L.lower_ascii [] (by simp [Ascii])

theorem lower_eq_nil_iff {s : Text} : L.lower s = [] ↔ s = [] :=
  ⟨L.lower_eq_nil s, fun h => h ▸ L.lower_nil⟩

theorem upTo_lower (hD : D ⊆ delimiters) (s : Text) :
    upTo D (L.lower s) = L.lower (upTo D s) := by
  have free {a : Text} (h : ∀ c ∈ a, c ∉ D) : ∀ c ∈ L.lower a, c ∉ D := fun c hc mem =>
    L.not_mem_lower c (hD mem) a (fun ha => h c ha mem) hc
  rcases exists_split s with h | ⟨a, c, t, rfl, h, hc⟩
  · rw [upTo_of_free h, upTo_of_free (free h)]
  · rw [L.lower_split c (hD hc), upTo_append h hc, upTo_append (free h) hc]

theorem afterLast_lower {c : UInt16} (hc : c ∈ delimiters) (s : Text) :
    afterLast c (L.lower s) = L.lower (afterLast c s) := by
  rcases exists_split_last c s with h | ⟨a, t, rfl, h⟩
  · rw [afterLast_of_not_mem h, afterLast_of_not_mem (L.not_mem_lower c hc s h)]
  · rw [L.lower_split c hc, afterLast_append h, afterLast_append (L.not_mem_lower c hc t h)]

end LowerCase

end Kyc.Encoding
