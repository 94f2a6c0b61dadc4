import Kyc.Numbers.Numerals
import Kyc.Sumsub.Signature
import Mathlib.Data.List.DropRight

/-! # Texts to numbers and back

What `Number` makes of a text that may be missing, and what a number is written as: with the
fewest digits that tell it from the other doubles. A text of digits alone is read as the
double nearest to it.
-/

namespace Kyc.Numbers

open Json Sumsub

def trimmed (s : Text) : Text := (s.dropWhile isTrimmedUnit).rdropWhile isTrimmedUnit

/-- `Number(value)`: what is not set is no number. -/
def numberOf : Option Text → Number
  | none => .nan
  | some s => number (trimmed s)

/-- `number + 1`. -/
def Number.addOne : Number → Number
  | finite x => (Doubles.toDouble (x + 1)).elim (infinite false) finite
  | number => number

section Print

def candidate (x : ℚ) (j : ℤ) : Option ℕ :=
  let low := ⌊x / 10 ^ j⌋₊
  let high := low + 1
  if Doubles.rounded (low * 10 ^ j) = x then
    if Doubles.rounded (high * 10 ^ j) = x ∧
        (low + 1 / 2 < x / 10 ^ j ∨ low + 1 / 2 = x / 10 ^ j ∧ low % 2 = 1) then some high
    else some low
  else if Doubles.rounded (high * 10 ^ j) = x then some high
  else none

def shortestFrom (x : ℚ) : ℕ → ℤ → ℕ × ℤ
  | 0, j => (0, j)
  | fuel + 1, j => (candidate x j).elim (shortestFrom x fuel (j - 1)) fun m => (m, j)

/-- The digits that a double is written with, and the power of ten that they count; every double
is a multiple of the 1074th power of a tenth. -/
def shortest (x : ℚ) : ℕ × ℤ :=
  shortestFrom x (Int.log 10 x + 1076).toNat (Int.log 10 x + 1)

def pointed : Text → Text
  | d :: c :: digits => d :: unit '.' :: c :: digits
  | digits => digits

def scientific (digits : Text) (point : ℤ) : Text :=
  pointed digits ++ unit 'e' :: unit (if point < 1 then '-' else '+') ::
    decimal.print (point - 1).natAbs

def unsignedText (x : ℚ) : Text :=
  let (m, j) := shortest x
  let digits := decimal.print m
  let point := digits.length + j
  if 21 < point then scientific digits point
  else if 0 ≤ j then decimal.print (m * 10 ^ j.toNat)
  else if 0 < point then digits.take point.toNat ++ unit '.' :: digits.drop point.toNat
  else if -6 < point then lit "0." ++ List.replicate (-point).toNat (unit '0') ++ digits
  else scientific digits point

/-- `String(number)`. -/
def Number.text : Number → Text
  | nan => lit "NaN"
  | infinite true => lit "-Infinity"
  | infinite false => lit "Infinity"
  | finite x => if x < 0 then unit '-' :: unsignedText (-x) else unsignedText x

/-- The natural number whose digits alone a number is written with. -/
def Number.written : Number → Option ℕ
  | finite x =>
    let (m, j) := shortest x
    if 0 ≤ x ∧ 0 ≤ j ∧ (decimal.print m).length + j ≤ 21 then some (m * 10 ^ j.toNat) else none
  | _ => none

end Print

/-! ## Natural numbers as texts -/

section Written

theorem rounded_of_candidate {x : ℚ} {j : ℤ} {m : ℕ} (h : candidate x j = some m) :
    Doubles.rounded (m * 10 ^ j) = x := by
  rw [candidate] at h
  split_ifs at h with low high high
  · exact Option.some.inj h ▸ high.1
  · exact Option.some.inj h ▸ low
  · exact Option.some.inj h ▸ high

theorem candidate_zero {y : ℕ} (hy : Doubles.rounded y = y) : candidate y 0 = some y := by
  have floor : ⌊(y : ℚ) / 10 ^ (0 : ℤ)⌋₊ = y := by rw [zpow_zero, div_one, Nat.floor_natCast]
  rw [candidate, floor]
  simp only [zpow_zero, div_one, mul_one, if_pos hy]
  refine if_neg ?_
  rintro ⟨-, half | ⟨half, -⟩⟩ <;> linarith

theorem shortestFrom_spec {x : ℚ} {m : ℕ} (h : candidate x 0 = some m) {fuel : ℕ} {j : ℤ}
    (hj : 0 ≤ j) (fueled : j < fuel) :
    0 ≤ (shortestFrom x fuel j).2 ∧
      candidate x (shortestFrom x fuel j).2 = some (shortestFrom x fuel j).1 := by
  induction fuel generalizing j with
  | zero => omega
  | succ fuel ih =>
    rw [shortestFrom]
    cases hc : candidate x j with
    | some _ => exact ⟨hj, hc⟩
    | none =>
      have pos : j ≠ 0 := by
        rintro rfl
        rw [h] at hc
        cases hc
      exact ih (by omega) (by omega)

theorem shortest_natCast {y : ℕ} (hy : Doubles.rounded y = y) :
    0 ≤ (shortest y).2 ∧ candidate y (shortest y).2 = some (shortest y).1 := by
  have log : 0 ≤ Int.log 10 (y : ℚ) := by
    rw [Int.log_natCast]
    exact Int.natCast_nonneg _
  exact shortestFrom_spec (candidate_zero hy) (by omega) (by omega)

theorem length_print_le {n k : ℕ} (hk : 0 < k) (h : n < 10 ^ k) : (decimal.print n).length ≤ k := by
  have length : (decimal.print n).length = (Nat.toDigits 10 n).length := List.length_map _
  rw [length]
  exact (Nat.length_toDigits_le_iff (by decide) hk).mpr h

theorem length_print_add_le {m k n : ℕ} (hm : 0 < m) (h : m * 10 ^ k < 10 ^ n) :
    (decimal.print m).length + k ≤ n := by
  have less : k < n := by
    refine (Nat.pow_lt_pow_iff_right (by decide)).mp (Nat.lt_of_le_of_lt ?_ h)
    exact Nat.le_mul_of_pos_left _ hm
  have split : 10 ^ n = 10 ^ (n - k) * 10 ^ k := by rw [← pow_add, Nat.sub_add_cancel less.le]
  rw [split] at h
  have few := length_print_le (by omega) (Nat.lt_of_mul_lt_mul_right h)
  omega

theorem eq_of_rounded_eq_spaced {y c : ℕ} (h : Doubles.Spaced y) (hc : Doubles.rounded c = y)
    (ten : 10 ∣ c) (hy : y ≠ 2 ^ 54) : c = y := by
  rcases h with small | ⟨most, four⟩
  · exact Doubles.eq_of_rounded_eq small hc
  · rcases Nat.lt_or_ge c (2 ^ 53) with low | low
    · rw [Doubles.rounded_natCast_of_lt low] at hc
      exact_mod_cast hc
    · rcases Nat.lt_or_ge c (2 ^ 54) with high | high
      · rw [Doubles.rounded_natCast_of_between low high] at hc
        have value : (c + c / 2 % 2) / 2 * 2 = y := by exact_mod_cast hc
        omega
      · have le := Doubles.two_pow_le_rounded (x := c) (n := 54) (by exact_mod_cast high)
        rw [hc] at le
        have le' : 2 ^ 54 ≤ y := by exact_mod_cast le
        omega

/-- Such a number is written with its own digits. -/
theorem written_of_spaced {y : ℕ} (h : Doubles.Spaced y) : (Number.finite y).written = some y := by
  rcases eq_or_ne y (2 ^ 54) with rfl | hy
  · decide +kernel
  rcases Nat.eq_zero_or_pos y with rfl | pos
  · decide +kernel
  · have double := Doubles.rounded_of_spaced h
    have spec := shortest_natCast double
    rw [Number.written]
    generalize shortest (y : ℚ) = digits at spec
    obtain ⟨m, j⟩ := digits
    obtain ⟨nonneg, hm⟩ := spec
    obtain ⟨k, rfl⟩ := Int.eq_ofNat_of_zero_le nonneg
    have value : m * 10 ^ k = y := by
      cases k with
      | zero =>
        rw [pow_zero, mul_one]
        exact Option.some.inj (hm.symm.trans (candidate_zero double))
      | succ k =>
        have near := rounded_of_candidate hm
        refine eq_of_rounded_eq_spaced h ?_ ?_ hy
        · rw [← near]
          push_cast
          rfl
        · exact Dvd.intro_left (m * 10 ^ k) (by ring)
    have few : (decimal.print m).length + k ≤ 21 := by
      have large : y < 10 ^ 21 := by rcases h with small | ⟨most, -⟩ <;> omega
      refine length_print_add_le ?_ (value ▸ large)
      exact Nat.pos_of_mul_pos_right (value ▸ pos)
    simp only [Int.toNat_natCast, value]
    exact if_pos ⟨Nat.cast_nonneg y, nonneg, by exact_mod_cast few⟩

theorem toNumber_natCast (n : ℕ) :
    Numeral.toNumber (.finite n) = .infinite false ∨
      ∃ y : ℕ, Numeral.toNumber (.finite n) = .finite y ∧ Doubles.rounded n = y := by
  obtain ⟨y, hy⟩ := Doubles.exists_rounded_natCast n
  rw [Numeral.toNumber, Doubles.toDouble, hy]
  split_ifs
  · exact Or.inr ⟨y, rfl, rfl⟩
  · left
    have nonneg : ¬ (n : ℚ) < 0 := not_lt.mpr (Nat.cast_nonneg n)
    simp [nonneg]

/-- A whole number that is not written with digits alone is written with another unit behind
digits, or without any. -/
theorem text_of_not_written {n : ℕ} (h : (Numeral.toNumber (.finite n)).written = none) :
    ∃ digits c rest, (Numeral.toNumber (.finite n)).text = digits ++ c :: rest ∧
      (∀ d ∈ digits, isDigit d) ∧ isDigit c = false ∧ c ∉ lit "-+" := by
  rcases toNumber_natCast n with infinite | ⟨y, finite, hy⟩
  · rw [infinite]
    exact ⟨[], unit 'I', lit "nfinity", by decide, by simp, by decide, by decide⟩
  · have spec := shortest_natCast (Doubles.rounded_of_rounded_natCast hy)
    rw [finite] at h ⊢
    rw [Number.written] at h
    rw [Number.text, if_neg (not_lt.mpr (Nat.cast_nonneg y)), unsignedText]
    generalize shortest (y : ℚ) = shortest at spec h
    obtain ⟨m, j⟩ := shortest
    have many : 21 < ((decimal.print m).length : ℤ) + j := by
      by_contra few
      have all : 0 ≤ (y : ℚ) ∧ 0 ≤ j ∧ ((decimal.print m).length : ℤ) + j ≤ 21 :=
        ⟨Nat.cast_nonneg y, spec.1, not_lt.mp few⟩
      simp only [if_pos all] at h
      cases h
    simp only [if_pos many]
    have digits : ∀ c ∈ decimal.print m, isDigit c := fun _ hc => isDigit_of_mem_print hc
    cases hm : decimal.print m with
    | nil => exact absurd (List.map_eq_nil_iff.mp hm) Nat.toDigits_ne_nil
    | cons d more =>
      rw [hm] at digits
      have first : ∀ c ∈ [d], isDigit c := by simpa using digits d List.mem_cons_self
      cases more with
      | nil => exact ⟨[d], unit 'e', _, rfl, first, by decide, by decide⟩
      | cons c more => exact ⟨[d], unit '.', _, rfl, first, by decide, by decide⟩

theorem text_of_written {number : Number} {n : ℕ} (h : number.written = some n) :
    number.text = decimal.print n := by
  cases number with
  | nan => cases h
  | infinite => cases h
  | finite x =>
    rw [Number.written] at h
    simp only [Option.ite_none_right_eq_some] at h
    obtain ⟨⟨nonneg, whole, few⟩, hn⟩ := h
    rw [Number.text, if_neg (not_lt.mpr nonneg), unsignedText]
    simp only [if_neg (not_lt.mpr few), if_pos whole]
    rw [Option.some.inj hn]

end Written

/-! ## Digits as numbers -/

section Digits

variable {s : Text} {c : UInt16}

theorem mem_of_isDigit (h : isDigit c) : c ∈ lit "0123456789" := by
  simp only [isDigit, decide_eq_true_eq, UInt16.le_iff_toNat_le] at h
  obtain ⟨low, high⟩ := h
  have value : c = c.toNat.toUInt16 := UInt16.ofNat_toNat.symm
  have low' : 48 ≤ c.toNat := low
  have high' : c.toNat ≤ 57 := high
  have all : ∀ n < 10, (48 + n).toUInt16 ∈ lit "0123456789" := by decide
  have member := all (c.toNat - 48) (by omega)
  rwa [Nat.add_sub_cancel' low', ← value] at member

theorem forall_digit (p : UInt16 → Prop) (h : ∀ d ∈ lit "0123456789", p d) (hc : isDigit c) : p c :=
  h c (mem_of_isDigit hc)

theorem trimmed_of_digits (h : ∀ c ∈ s, isDigit c) : trimmed s = s := by
  have kept : ∀ c ∈ s, isTrimmedUnit c = false := fun c hc =>
    forall_digit (isTrimmedUnit · = false) (by decide) (h c hc)
  have front : s.dropWhile isTrimmedUnit = s := by
    cases s with
    | nil => rfl
    | cons c s => exact List.dropWhile_cons_of_neg (by simp [kept c List.mem_cons_self])
  rw [trimmed, front, List.rdropWhile_eq_self_iff]
  intro ne
  simp [kept _ (List.getLast_mem ne)]

theorem foldlM_digits (h : ∀ c ∈ s, isDigit c) (n : ℕ) :
    s.foldlM (fun n c => do
      let d ← hexValue c
      if d < 10 then some (10 * n + d) else none) n =
    some (s.foldl (fun n c => 10 * n + (c.toNat - 48)) n) := by
  induction s generalizing n with
  | nil => rfl
  | cons c s ih =>
    obtain ⟨hc, hs⟩ := List.forall_mem_cons.mp h
    have value : hexValue c = some (c.toNat - 48) := if_pos hc
    have small : c.toNat - 48 < 10 := forall_digit (fun c => c.toNat - 48 < 10) (by decide) hc
    rw [List.foldlM_cons, List.foldl_cons, ← ih hs, value]
    simp [small]

theorem digitsIn_of_digits (hs : s ≠ []) (h : ∀ c ∈ s, isDigit c) :
    digitsIn 10 s = some (decimal.read s) := by
  cases s with
  | nil => exact absurd rfl hs
  | cons c s => exact foldlM_digits h 0

theorem unsignedDecimal_of_digits (hs : s ≠ []) (h : ∀ c ∈ s, isDigit c) :
    unsignedDecimal s = some (decimal.read s : ℚ) := by
  rw [unsignedDecimal, List.takeWhile_eq_self_iff.mpr h, List.dropWhile_eq_nil_iff.mpr h]
  simp [fractionPart, exponentPart, digitsIn_of_digits hs h]

/-- Digits are read as the number that they stand for. -/
theorem numeral_of_digits (hs : s ≠ []) (h : ∀ c ∈ s, isDigit c) :
    numeral s = some (.finite (decimal.read s)) := by
  have unsigned : unsignedNumeral false s = some (.finite (decimal.read s)) := by
    have word : s ≠ lit "Infinity" := by
      rintro rfl
      exact absurd (h (unit 'I') (by decide)) (by decide)
    rw [unsignedNumeral, if_neg word, unsignedDecimal_of_digits hs h]
    rfl
  have decimal' : decimalNumeral s = some (.finite (decimal.read s)) := by
    cases s with
    | nil => exact absurd rfl hs
    | cons c s =>
      have sign : c ≠ unit '-' ∧ c ≠ unit '+' :=
        forall_digit (fun c => c ≠ unit '-' ∧ c ≠ unit '+') (by decide) (h c List.mem_cons_self)
      rw [decimalNumeral, if_neg sign.1, if_neg sign.2, unsigned]
  match s with
  | [] => exact absurd rfl hs
  | [_] => exact decimal'
  | zero :: c :: _ =>
    have base : baseOf c = none := forall_digit (baseOf · = none) (by decide) (h c (by simp))
    rw [numeral, base, ite_self]
    exact decimal'

theorem numberOf_digits (hs : s ≠ []) (h : ∀ c ∈ s, isDigit c) :
    numberOf (some s) = Numeral.toNumber (.finite (decimal.read s)) := by
  rw [numberOf, trimmed_of_digits h, number, if_neg hs, numeral_of_digits hs h]
  rfl

end Digits

/-! ## One more than a whole number -/

section AddOne

theorem toDouble_of_rounded {x : ℚ} {y : ℕ} (h : Doubles.rounded x = y) (hy : y ≤ 2 ^ 54) :
    Doubles.toDouble x = some (y : ℚ) := by
  have bound : (y : ℚ) ≤ 2 ^ 54 := by exact_mod_cast hy
  rw [Doubles.toDouble, h, abs_of_nonneg (Nat.cast_nonneg y)]
  exact if_pos (Doubles.lt_overflow_of_le bound)

theorem addOne_of_rounded {n x y : ℕ} (hx : Doubles.rounded n = x) (hx' : x ≤ 2 ^ 54)
    (hy : Doubles.rounded (x + 1) = y) (hy' : y ≤ 2 ^ 54) :
    (Numeral.toNumber (.finite n)).addOne = .finite y := by
  rw [Numeral.toNumber, toDouble_of_rounded hx hx', Option.elim_some, Number.addOne,
    toDouble_of_rounded hy hy', Option.elim_some]

theorem addOne_of_lt {n : ℕ} (h : n < 2 ^ 53) :
    (Numeral.toNumber (.finite n)).addOne = .finite (n + 1 : ℕ) := by
  refine addOne_of_rounded (Doubles.rounded_natCast_of_lt h) (by omega) ?_ (by omega)
  rw [← Nat.cast_succ]
  refine Doubles.rounded_of_spaced ?_
  rcases Nat.lt_or_ge (n + 1) (2 ^ 53) with less | top
  · exact Or.inl less
  · exact Or.inr ⟨by omega, by omega⟩

theorem addOne_of_between {n : ℕ} (low : 2 ^ 53 ≤ n) (high : n < 2 ^ 54) :
    (Numeral.toNumber (.finite n)).addOne = .finite ((n + 2) / 4 * 4 : ℕ) := by
  have step := Doubles.rounded_add_one_of_between low high
  have first := Doubles.rounded_natCast_of_between low high
  rw [first] at step
  exact addOne_of_rounded first (by omega) step (by omega)

theorem addOne_of_ge {n : ℕ} (h : 2 ^ 54 ≤ n) :
    (Numeral.toNumber (.finite n)).addOne = Numeral.toNumber (.finite n) := by
  have step : Doubles.rounded (Doubles.rounded n + 1) = Doubles.rounded n :=
    Doubles.rounded_rounded_add_one (by exact_mod_cast h)
  rw [Numeral.toNumber, Doubles.toDouble]
  split_ifs with finite
  · rw [Option.elim_some, Number.addOne, Doubles.toDouble, step, if_pos finite, Option.elim_some]
  · rfl

theorem written_addOne_of_digits {s : Text} (hs : s ≠ []) (h : ∀ c ∈ s, isDigit c) :
    (numberOf (some s)).addOne.written =
      if decimal.read s < 2 ^ 53 then some (decimal.read s + 1)
      else if decimal.read s < 2 ^ 54 then some ((decimal.read s + 2) / 4 * 4)
      else (numberOf (some s)).written := by
  rw [numberOf_digits hs h]
  split_ifs with small between
  · rw [addOne_of_lt small]
    refine written_of_spaced ?_
    rcases Nat.lt_or_ge (decimal.read s + 1) (2 ^ 53) with less | top
    · exact Or.inl less
    · exact Or.inr ⟨by omega, by omega⟩
  · rw [addOne_of_between (not_lt.mp small) between]
    exact written_of_spaced (Or.inr ⟨by omega, Dvd.intro_left _ rfl⟩)
  · rw [addOne_of_ge (not_lt.mp between)]

theorem text_addOne_of_digits {s : Text} (hs : s ≠ []) (h : ∀ c ∈ s, isDigit c)
    (other : (numberOf (some s)).addOne.written = none) :
    ∃ digits c rest, (numberOf (some s)).addOne.text = digits ++ c :: rest ∧
      (∀ d ∈ digits, isDigit d) ∧ isDigit c = false ∧ c ∉ lit "-+" := by
  have value := written_addOne_of_digits hs h
  rw [other] at value
  split_ifs at value with small between
  rw [numberOf_digits hs h] at value ⊢
  rw [addOne_of_ge (not_lt.mp between)]
  exact text_of_not_written value.symm

end AddOne

end Kyc.Numbers
