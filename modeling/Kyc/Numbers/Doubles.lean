import Mathlib.Algebra.Order.Round
import Mathlib.Data.Int.Log
import Mathlib.Data.Rat.Floor
import Mathlib.Tactic.Linarith
import Mathlib.Tactic.NormNum

/-! # Rounding to binary64

A rational number is rounded to the nearest double, and to the even one of two that are as
near. What is rounded to zero, and what to one or more, can be told from the number.
-/

namespace Kyc.Doubles

/-- The nearest integer, of two the even one. -/
def nearestEven (x : ℚ) : ℤ :=
  if x - ⌊x⌋ < 1 / 2 then ⌊x⌋
  else if 1 / 2 < x - ⌊x⌋ then ⌊x⌋ + 1
  else if ⌊x⌋ % 2 = 0 then ⌊x⌋
  else ⌊x⌋ + 1

theorem floor_le_nearestEven (x : ℚ) : ⌊x⌋ ≤ nearestEven x := by
  rw [nearestEven]
  split_ifs <;> omega

theorem nearestEven_le (x : ℚ) : nearestEven x ≤ ⌊x⌋ + 1 := by
  rw [nearestEven]
  split_ifs <;> omega

theorem floor_lt_nearestEven_iff (x : ℚ) :
    ⌊x⌋ < nearestEven x ↔ ⌊x⌋ + 1 / 2 < x ∨ ⌊x⌋ + 1 / 2 = x ∧ (⌊x⌋ + 1) % 2 = 0 := by
  rw [nearestEven]
  split_ifs with below above even
  · refine iff_of_false (lt_irrefl _) ?_
    rintro (h | ⟨h, -⟩) <;> linarith
  · exact iff_of_true (Int.lt_succ _) (Or.inl (by linarith))
  · refine iff_of_false (lt_irrefl _) ?_
    rintro (h | ⟨-, odd⟩)
    · linarith
    · omega
  · refine iff_of_true (Int.lt_succ _) (Or.inr ⟨by linarith, by omega⟩)

theorem le_nearestEven_iff (n : ℤ) (x : ℚ) :
    n ≤ nearestEven x ↔ (n : ℚ) - 1 / 2 < x ∨ (n : ℚ) - 1 / 2 = x ∧ n % 2 = 0 := by
  have low := Int.floor_le x
  have high := Int.lt_floor_add_one x
  rcases lt_trichotomy n (⌊x⌋ + 1) with less | equal | more
  · have le : (n : ℚ) ≤ ⌊x⌋ := by exact_mod_cast Int.lt_add_one_iff.mp less
    exact iff_of_true ((Int.lt_add_one_iff.mp less).trans (floor_le_nearestEven x))
      (Or.inl (by linarith))
  · have half : ((⌊x⌋ + 1 : ℤ) : ℚ) - 1 / 2 = ⌊x⌋ + 1 / 2 := by
      push_cast
      ring
    rw [equal, half, Int.add_one_le_iff]
    exact floor_lt_nearestEven_iff x
  · have lt : (⌊x⌋ : ℚ) + 2 ≤ n := by
      have two : ⌊x⌋ + 2 ≤ n := by omega
      exact_mod_cast two
    refine iff_of_false (not_le.mpr ((nearestEven_le x).trans_lt more)) ?_
    rintro (h | ⟨h, -⟩) <;> linarith

theorem nearestEven_nonneg_iff (x : ℚ) : 0 ≤ nearestEven x ↔ -(1 / 2) ≤ x := by
  rw [le_nearestEven_iff, le_iff_lt_or_eq]
  norm_num

theorem nearestEven_pos_iff (x : ℚ) : 0 < nearestEven x ↔ 1 / 2 < x := by
  have one : (1 : ℤ) ≤ nearestEven x ↔ 1 / 2 < x := by
    rw [le_nearestEven_iff]
    norm_num
  exact one

theorem nearestEven_le_add (x : ℚ) : (nearestEven x : ℚ) ≤ x + 1 / 2 := by
  rcases (le_nearestEven_iff (nearestEven x) x).mp le_rfl with h | ⟨h, -⟩ <;> linarith

theorem le_nearestEven_of_le {n : ℤ} {x : ℚ} (h : (n : ℚ) ≤ x) : n ≤ nearestEven x :=
  (le_nearestEven_iff n x).mpr (Or.inl (by linarith))

theorem nearestEven_intCast (n : ℤ) : nearestEven n = n := by
  rw [nearestEven, Int.floor_intCast, sub_self]
  exact if_pos (by norm_num)

/-- The distance between two doubles near a number. -/
def quantum (x : ℚ) : ℚ := 2 ^ max (Int.log 2 |x| - 52) (-1074)

/-- The nearest double, if there were no largest one. -/
def rounded (x : ℚ) : ℚ := nearestEven (x / quantum x) * quantum x

/-- What is rounded to this or more is infinite. -/
def overflow : ℚ := 2 ^ 1024

/-- The nearest double; `none` is an infinity. -/
def toDouble (x : ℚ) : Option ℚ := if |rounded x| < overflow then some (rounded x) else none

theorem one_le_overflow : 1 ≤ overflow := one_le_pow₀ (by norm_num)

theorem quantum_pos (x : ℚ) : 0 < quantum x := zpow_pos (by norm_num) _

theorem quantum_le {x : ℚ} (h : (2 : ℚ) ^ (-1074 : ℤ) ≤ |x|) : quantum x ≤ |x| := by
  have pos : 0 < |x| := lt_of_lt_of_le (zpow_pos (by norm_num) _) h
  have log : (-1074 : ℤ) ≤ Int.log 2 |x| :=
    (Int.zpow_le_iff_le_log (by norm_num) pos).mp (by exact_mod_cast h)
  calc quantum x ≤ 2 ^ Int.log 2 |x| := zpow_le_zpow_right₀ (by norm_num) (by omega)
    _ ≤ |x| := by exact_mod_cast Int.zpow_log_le_self (by norm_num) pos

theorem quantum_of_lt {x : ℚ} (hx : x ≠ 0) (h : |x| < (2 : ℚ) ^ (-1074 : ℤ)) :
    quantum x = (2 : ℚ) ^ (-1074 : ℤ) := by
  have log : Int.log 2 |x| < -1074 :=
    (Int.lt_zpow_iff_log_lt (by norm_num) (abs_pos.mpr hx)).mp (by exact_mod_cast h)
  rw [quantum, max_eq_right (by omega)]

theorem half_quantum_lt_iff (x : ℚ) : quantum x / 2 < |x| ↔ (2 : ℚ) ^ (-1075 : ℤ) < |x| := by
  have half : (2 : ℚ) ^ (-1075 : ℤ) = 2 ^ (-1074 : ℤ) / 2 := by
    rw [show (-1075 : ℤ) = -1074 - 1 by norm_num, zpow_sub_one₀ (by norm_num), div_eq_mul_inv]
  have pos : (0 : ℚ) < 2 ^ (-1074 : ℤ) := zpow_pos (by norm_num) _
  have qpos := quantum_pos x
  rw [half]
  rcases eq_or_ne x 0 with rfl | hx
  · rw [abs_zero]
    exact iff_of_false (by linarith) (by linarith)
  · rcases lt_or_ge |x| ((2 : ℚ) ^ (-1074 : ℤ)) with small | large
    · rw [quantum_of_lt hx small]
    · have le := quantum_le large
      exact iff_of_true (by linarith) (by linarith)

theorem rounded_pos_iff (x : ℚ) : 0 < rounded x ↔ (2 : ℚ) ^ (-1075 : ℤ) < x := by
  have up : 0 < rounded x ↔ quantum x / 2 < x := by
    rw [rounded, mul_pos_iff_of_pos_right (quantum_pos x), Int.cast_pos, nearestEven_pos_iff,
      lt_div_iff₀ (quantum_pos x), div_mul_eq_mul_div, one_mul]
  have pos : (0 : ℚ) < 2 ^ (-1075 : ℤ) := zpow_pos (by norm_num) _
  rw [up]
  rcases le_or_gt x 0 with hx | hx
  · have qpos := quantum_pos x
    exact iff_of_false (by linarith) (by linarith)
  · have half := half_quantum_lt_iff x
    rwa [abs_of_pos hx] at half

theorem rounded_nonneg_iff (x : ℚ) : 0 ≤ rounded x ↔ -(2 : ℚ) ^ (-1075 : ℤ) ≤ x := by
  have down : 0 ≤ rounded x ↔ -(quantum x / 2) ≤ x := by
    rw [rounded, mul_nonneg_iff_of_pos_right (quantum_pos x), Int.cast_nonneg_iff,
      nearestEven_nonneg_iff, le_div_iff₀ (quantum_pos x), neg_mul, div_mul_eq_mul_div, one_mul]
  have pos : (0 : ℚ) < 2 ^ (-1075 : ℤ) := zpow_pos (by norm_num) _
  rw [down]
  rcases le_or_gt 0 x with hx | hx
  · have qpos := quantum_pos x
    exact iff_of_true (by linarith) (by linarith)
  · have half := half_quantum_lt_iff x
    rw [abs_of_neg hx] at half
    have above : x < -(quantum x / 2) ↔ x < -(2 : ℚ) ^ (-1075 : ℤ) := by
      rw [lt_neg, half, lt_neg]
    rw [← not_lt, above, not_lt]

theorem rounded_eq_zero_iff (x : ℚ) :
    rounded x = 0 ↔ -(2 : ℚ) ^ (-1075 : ℤ) ≤ x ∧ x ≤ (2 : ℚ) ^ (-1075 : ℤ) := by
  rw [le_antisymm_iff, ← not_lt, rounded_pos_iff, rounded_nonneg_iff, not_lt]
  exact and_comm

theorem quantum_of_log {x : ℚ} (hx : 0 < x) (h : -1022 ≤ Int.log 2 x) :
    quantum x = 2 ^ Int.log 2 x / 2 ^ 52 := by
  rw [quantum, abs_of_pos hx, max_eq_left (by omega), zpow_sub₀ (by norm_num)]
  norm_num

theorem log_neg_of_lt_one {x : ℚ} (hx : 0 < x) (h : x < 1) : Int.log 2 x < 0 := by
  have power : x < ((2 : ℕ) : ℚ) ^ (0 : ℤ) := by simpa using h
  exact (Int.lt_zpow_iff_log_lt (by norm_num) hx).mp power

theorem rounded_lt_one_of_lt_half {x : ℚ} (h : x < 1 / 2) : rounded x < 1 := by
  rcases le_or_gt x 0 with hx | hx
  · have bound : (0 : ℚ) < 2 ^ (-1075 : ℤ) := zpow_pos (by norm_num) _
    have low := (rounded_pos_iff x).not.mpr (by linarith)
    linarith
  · have log := log_neg_of_lt_one hx (by linarith)
    have fine : quantum x ≤ 1 := by
      have exponent : max (Int.log 2 |x| - 52) (-1074) ≤ 0 := by
        rw [abs_of_pos hx]
        omega
      calc quantum x ≤ 2 ^ (0 : ℤ) := zpow_le_zpow_right₀ (by norm_num) exponent
        _ = 1 := zpow_zero 2
    have up : rounded x ≤ x + quantum x / 2 := by
      have le := mul_le_mul_of_nonneg_right (nearestEven_le_add (x / quantum x)) (quantum_pos x).le
      rw [add_mul, div_mul_cancel₀ _ (quantum_pos x).ne'] at le
      rw [rounded]
      linarith
    linarith

theorem pow_log_le_rounded {x : ℚ} (hx : 0 < x) (h : -1022 ≤ Int.log 2 x) :
    (2 : ℚ) ^ Int.log 2 x ≤ rounded x := by
  have hq := quantum_of_log hx h
  have power : (2 : ℚ) ^ Int.log 2 x ≤ x := by
    exact_mod_cast Int.zpow_log_le_self (by norm_num) hx
  have whole : (((2 : ℤ) ^ 52 : ℤ) : ℚ) ≤ x / quantum x := by
    rw [le_div_iff₀ (quantum_pos x), hq]
    push_cast
    linarith
  have le : (2 : ℚ) ^ 52 ≤ nearestEven (x / quantum x) := by
    exact_mod_cast le_nearestEven_of_le whole
  calc (2 : ℚ) ^ Int.log 2 x = 2 ^ 52 * quantum x := by rw [hq]; ring
    _ ≤ rounded x := mul_le_mul_of_nonneg_right le (quantum_pos x).le

theorem two_pow_le_rounded {x : ℚ} {n : ℕ} (h : (2 : ℚ) ^ n ≤ x) : (2 : ℚ) ^ n ≤ rounded x := by
  have pos : 0 < x := lt_of_lt_of_le (by positivity) h
  have log : (n : ℤ) ≤ Int.log 2 x :=
    (Int.zpow_le_iff_le_log (by norm_num) pos).mp (by exact_mod_cast h)
  calc (2 : ℚ) ^ n = 2 ^ (n : ℤ) := (zpow_natCast 2 n).symm
    _ ≤ 2 ^ Int.log 2 x := zpow_le_zpow_right₀ (by norm_num) log
    _ ≤ rounded x := pow_log_le_rounded pos (by omega)

theorem one_le_rounded_of_one_le {x : ℚ} (h : 1 ≤ x) : 1 ≤ rounded x := by
  have two_pow : (2 : ℚ) ^ 0 ≤ x := by rwa [pow_zero]
  simpa using two_pow_le_rounded two_pow

/-- The numbers that are rounded to one or more. -/
theorem one_le_rounded_iff (x : ℚ) : 1 ≤ rounded x ↔ 1 - (2 : ℚ) ^ (-54 : ℤ) ≤ x := by
  rcases lt_or_ge x (1 / 2) with small | half
  · have lt := rounded_lt_one_of_lt_half small
    exact iff_of_false (by linarith) (by norm_num; linarith)
  rcases le_or_gt 1 x with above | below
  · exact iff_of_true (one_le_rounded_of_one_le above) (by norm_num; linarith)
  · have pos : 0 < x := by linarith
    have hlog : Int.log 2 x = -1 := by
      apply le_antisymm
      · have neg := log_neg_of_lt_one pos below
        omega
      · rw [← Int.zpow_le_iff_le_log (by norm_num) pos]
        norm_num
        linarith
    have hq : quantum x = 1 / 2 ^ 53 := by
      rw [quantum_of_log pos (by omega), hlog]
      norm_num
    have scaled : 1 ≤ rounded x ↔ (2 : ℤ) ^ 53 ≤ nearestEven (x / quantum x) := by
      rw [rounded, hq, mul_one_div, le_div_iff₀ (by norm_num), one_mul]
      exact_mod_cast Iff.rfl
    rw [scaled, le_nearestEven_iff, hq]
    norm_num
    rw [← le_iff_lt_or_eq]
    constructor <;> intro h <;> linarith

/-! ## Natural numbers -/

theorem rounded_of_multiple {x : ℚ} {k : ℤ} (h : x = k * quantum x) : rounded x = x := by
  have quotient : x / quantum x = k := (div_eq_iff (quantum_pos x).ne').mpr h
  rw [rounded, quotient, nearestEven_intCast, ← h]

theorem log_natCast_nonneg (n : ℕ) : 0 ≤ Int.log 2 (n : ℚ) := by
  rw [Int.log_natCast]
  exact Int.natCast_nonneg _

theorem quantum_natCast {n : ℕ} (hn : 0 < n) :
    quantum (n : ℚ) = 2 ^ Int.log 2 (n : ℚ) / 2 ^ 52 := by
  have nonneg := log_natCast_nonneg n
  exact quantum_of_log (Nat.cast_pos.mpr hn) (by omega)

/-- The natural numbers up to two to the 53 are doubles. -/
theorem rounded_natCast_of_lt {n : ℕ} (h : n < 2 ^ 53) : rounded n = n := by
  rcases Nat.eq_zero_or_pos n with rfl | pos
  · rw [Nat.cast_zero, rounded_eq_zero_iff]
    have nonneg : (0 : ℚ) ≤ 2 ^ (-1075 : ℤ) := zpow_nonneg (by norm_num) _
    exact ⟨by linarith, nonneg⟩
  · have log : Nat.log 2 n ≤ 52 := Nat.lt_succ_iff.mp (Nat.log_lt_of_lt_pow pos.ne' h)
    have split : (2 : ℚ) ^ 52 = 2 ^ Nat.log 2 n * 2 ^ (52 - Nat.log 2 n) := by
      rw [← pow_add, Nat.add_sub_cancel' log]
    refine rounded_of_multiple (k := (n * 2 ^ (52 - Nat.log 2 n) : ℕ)) ?_
    rw [quantum_natCast pos, Int.log_natCast, zpow_natCast, split]
    push_cast
    field_simp

theorem exists_rounded_natCast (n : ℕ) : ∃ m : ℕ, rounded n = m := by
  rcases Nat.lt_or_ge n (2 ^ 53) with small | large
  · exact ⟨n, rounded_natCast_of_lt small⟩
  · have pos : 0 < n := lt_of_lt_of_le (by norm_num) large
    have log : 53 ≤ Nat.log 2 n := Nat.le_log_of_pow_le (by norm_num) large
    have whole : quantum (n : ℚ) = ((2 ^ (Nat.log 2 n - 52) : ℕ) : ℚ) := by
      rw [quantum_natCast pos, Int.log_natCast, zpow_natCast, div_eq_iff (by norm_num)]
      push_cast
      rw [← pow_add, Nat.sub_add_cancel (by omega)]
    obtain ⟨k, hk⟩ : ∃ k : ℕ, nearestEven ((n : ℚ) / quantum n) = k := by
      refine Int.eq_ofNat_of_zero_le (le_nearestEven_of_le ?_)
      have nonneg := (quantum_pos (n : ℚ)).le
      rw [Int.cast_zero]
      positivity
    refine ⟨k * 2 ^ (Nat.log 2 n - 52), ?_⟩
    rw [rounded, hk, whole]
    push_cast
    ring

theorem eq_of_rounded_eq {x c : ℕ} (hx : x < 2 ^ 53) (h : rounded c = x) : c = x := by
  rcases Nat.lt_or_ge c (2 ^ 53) with small | large
  · rw [rounded_natCast_of_lt small] at h
    exact_mod_cast h
  · have le : ((2 : ℚ)) ^ 53 ≤ rounded c := two_pow_le_rounded (by exact_mod_cast large)
    rw [h] at le
    have le' : 2 ^ 53 ≤ x := by exact_mod_cast le
    omega

theorem lt_overflow_of_le {x : ℚ} (h : x ≤ 2 ^ 54) : x < overflow :=
  h.trans_lt (pow_lt_pow_right₀ (by norm_num) (by norm_num))

/-! ## Doubles with 53 binary digits -/

theorem nearestEven_le_of_le {n : ℤ} {x : ℚ} (h : x ≤ n) : nearestEven x ≤ n := by
  have half := nearestEven_le_add x
  have less : (nearestEven x : ℚ) < n + 1 := by linarith
  exact Int.lt_add_one_iff.mp (by exact_mod_cast less)

section Binade

variable {x : ℚ} {e : ℤ}

theorem quantum_of_between (he : -1074 ≤ e) (low : 2 ^ 52 * 2 ^ e ≤ x) (high : x < 2 ^ 53 * 2 ^ e) :
    quantum x = 2 ^ e := by
  have power : (0 : ℚ) < 2 ^ e := zpow_pos (by norm_num) _
  have pos : 0 < x := lt_of_lt_of_le (by positivity) low
  have split (k : ℕ) : (2 : ℚ) ^ k * 2 ^ e = ((2 : ℕ) : ℚ) ^ (k + e) := by
    rw [Nat.cast_ofNat, zpow_add₀ (by norm_num), zpow_natCast]
  have hlog : Int.log 2 x = 52 + e := by
    apply le_antisymm
    · rw [split] at high
      have less := (Int.lt_zpow_iff_log_lt (by norm_num) pos).mp high
      omega
    · rw [split] at low
      exact (Int.zpow_le_iff_le_log (by norm_num) pos).mp low
  rw [quantum, abs_of_pos pos, hlog, max_eq_left (by omega), add_sub_cancel_left]

theorem rounded_of_between (he : -1074 ≤ e) (low : 2 ^ 52 * 2 ^ e ≤ x) (high : x < 2 ^ 53 * 2 ^ e) :
    rounded x = nearestEven (x / 2 ^ e) * 2 ^ e := by
  rw [rounded, quantum_of_between he low high]

/-- What a number is rounded to has 53 binary digits. -/
theorem exists_rounded_eq_mul {n : ℤ} (hn : -1022 ≤ n) (h : (2 : ℚ) ^ n ≤ x) :
    ∃ (k : ℤ) (e : ℤ), 2 ^ 52 ≤ k ∧ k < 2 ^ 53 ∧ n ≤ 52 + e ∧ rounded x = k * 2 ^ e := by
  have pos : 0 < x := lt_of_lt_of_le (zpow_pos (by norm_num) _) h
  have log : n ≤ Int.log 2 x := (Int.zpow_le_iff_le_log (by norm_num) pos).mp (by exact_mod_cast h)
  obtain ⟨e, he⟩ : ∃ e, Int.log 2 x = 52 + e := ⟨Int.log 2 x - 52, by omega⟩
  have power : (0 : ℚ) < 2 ^ e := zpow_pos (by norm_num) _
  have low : (2 : ℚ) ^ 52 * 2 ^ e ≤ x := by
    have le : (2 : ℚ) ^ Int.log 2 x ≤ x := by
      exact_mod_cast Int.zpow_log_le_self (by norm_num) pos
    rwa [he, zpow_add₀ (by norm_num), zpow_ofNat] at le
  have high : x < 2 ^ 53 * 2 ^ e := by
    have lt : x < (2 : ℚ) ^ (Int.log 2 x + 1) := by
      exact_mod_cast Int.lt_zpow_succ_log_self (by norm_num) x
    rwa [he, add_right_comm, zpow_add₀ (by norm_num), show (52 + 1 : ℤ) = 53 by norm_num,
      zpow_ofNat] at lt
  have least : 2 ^ 52 ≤ nearestEven (x / 2 ^ e) := by
    refine le_nearestEven_of_le ((le_div_iff₀ power).mpr ?_)
    exact_mod_cast low
  have most : nearestEven (x / 2 ^ e) ≤ 2 ^ 53 := by
    refine nearestEven_le_of_le ((div_le_iff₀ power).mpr ?_)
    exact_mod_cast high.le
  have value := rounded_of_between (by omega) low high
  rcases lt_or_eq_of_le most with less | top
  · exact ⟨_, e, least, less, by omega, value⟩
  · refine ⟨2 ^ 52, e + 1, le_rfl, by norm_num, by omega, ?_⟩
    rw [value, top, zpow_add_one₀ (by norm_num)]
    push_cast
    ring

theorem rounded_rounded (h : 1 ≤ x) : rounded (rounded x) = rounded x := by
  have least : (2 : ℚ) ^ (0 : ℤ) ≤ x := by rwa [zpow_zero]
  obtain ⟨k, e, low, high, he, heq⟩ := exists_rounded_eq_mul (by norm_num) least
  have power : (0 : ℚ) < 2 ^ e := zpow_pos (by norm_num) _
  have low' : (2 : ℚ) ^ 52 ≤ k := by exact_mod_cast low
  have high' : (k : ℚ) < 2 ^ 53 := by exact_mod_cast high
  rw [heq, rounded_of_between (e := e) (by omega) (mul_le_mul_of_nonneg_right low' power.le)
    (mul_lt_mul_of_pos_right high' power), mul_div_cancel_right₀ _ power.ne', nearestEven_intCast]

theorem rounded_rounded_add_one (h : 2 ^ 54 ≤ x) : rounded (rounded x + 1) = rounded x := by
  have least : (2 : ℚ) ^ (54 : ℤ) ≤ x := by exact_mod_cast h
  obtain ⟨k, e, low, high, he, heq⟩ := exists_rounded_eq_mul (by norm_num) least
  have four : (4 : ℚ) ≤ 2 ^ e := by
    calc (4 : ℚ) = 2 ^ (2 : ℤ) := by norm_num
      _ ≤ 2 ^ e := zpow_le_zpow_right₀ (by norm_num) (by omega)
  have power : (0 : ℚ) < 2 ^ e := by linarith
  have low' : (2 : ℚ) ^ 52 ≤ k := by exact_mod_cast low
  have high' : (k : ℚ) + 1 ≤ 2 ^ 53 := by exact_mod_cast high
  have least' : (2 : ℚ) ^ 52 * 2 ^ e ≤ k * 2 ^ e := mul_le_mul_of_nonneg_right low' power.le
  have most' : ((k : ℚ) + 1) * 2 ^ e ≤ 2 ^ 53 * 2 ^ e := mul_le_mul_of_nonneg_right high' power.le
  rw [heq, rounded_of_between (e := e) (by omega) (by linarith) (by linarith), add_div,
    mul_div_cancel_right₀ _ power.ne']
  have fraction : 1 / (2 : ℚ) ^ e ≤ 1 / 4 := one_div_le_one_div_of_le (by norm_num) four
  have nonneg : (0 : ℚ) ≤ 1 / 2 ^ e := by positivity
  have floor : ⌊(k : ℚ) + 1 / 2 ^ e⌋ = k := by
    rw [Int.floor_eq_iff]
    constructor <;> linarith
  rw [nearestEven, floor, if_pos (by linarith)]

end Binade

theorem nearestEven_half (n : ℕ) : nearestEven ((n : ℚ) / 2) = ((n + n / 2 % 2) / 2 : ℕ) := by
  have floor : ⌊(n : ℚ) / 2⌋ = ((n / 2 : ℕ) : ℤ) := by
    exact_mod_cast Rat.floor_natCast_div_natCast n 2
  have cast : (n : ℚ) = 2 * (n / 2 : ℕ) + (n % 2 : ℕ) := by
    exact_mod_cast (Nat.div_add_mod n 2).symm
  rw [nearestEven, floor, Int.cast_natCast]
  rcases Nat.mod_two_eq_zero_or_one n with even | odd
  · rw [even, Nat.cast_zero] at cast
    rw [if_pos (by linarith)]
    omega
  · rw [odd, Nat.cast_one] at cast
    have half : (n : ℚ) / 2 - (n / 2 : ℕ) = 1 / 2 := by linarith
    rw [half, if_neg (lt_irrefl _), if_neg (lt_irrefl _)]
    split_ifs <;> omega

theorem rounded_natCast_of_between {n : ℕ} (low : 2 ^ 53 ≤ n) (high : n < 2 ^ 54) :
    rounded n = ((n + n / 2 % 2) / 2 * 2 : ℕ) := by
  have low' : (2 : ℚ) ^ 53 ≤ n := by exact_mod_cast low
  have high' : (n : ℚ) < 2 ^ 54 := by exact_mod_cast high
  have h := rounded_of_between (x := n) (e := 1) (by norm_num) (by rw [zpow_one]; linarith)
    (by rw [zpow_one]; linarith)
  rw [h, zpow_one, nearestEven_half, Nat.cast_mul, Int.cast_natCast, Nat.cast_ofNat]

theorem rounded_of_rounded_natCast {n y : ℕ} (h : rounded n = y) : rounded y = y := by
  rcases Nat.eq_zero_or_pos n with rfl | pos
  · rw [rounded_natCast_of_lt (by decide)] at h
    rw [← h]
    exact rounded_natCast_of_lt (by decide)
  · rw [← h]
    exact rounded_rounded (by exact_mod_cast pos)

/-- The natural numbers that are certain to be written with their own digits. -/
def Spaced (n : ℕ) : Prop := n < 2 ^ 53 ∨ n ≤ 2 ^ 54 ∧ 4 ∣ n

theorem rounded_of_spaced {n : ℕ} (h : Spaced n) : rounded n = n := by
  rcases Nat.lt_or_ge n (2 ^ 53) with small | large
  · exact rounded_natCast_of_lt small
  · have less := h.resolve_left (Nat.not_lt.mpr large)
    rcases less.1.lt_or_eq with between | rfl
    · rw [rounded_natCast_of_between large between]
      congr 1
      omega
    · decide +kernel

theorem rounded_add_one_of_between {n : ℕ} (low : 2 ^ 53 ≤ n) (high : n < 2 ^ 54) :
    rounded (rounded n + 1) = ((n + 2) / 4 * 4 : ℕ) := by
  rw [rounded_natCast_of_between low high, ← Nat.cast_succ]
  generalize hm : (n + n / 2 % 2) / 2 * 2 = m
  rcases Nat.lt_or_ge m.succ (2 ^ 54) with less | more
  · rw [rounded_natCast_of_between (by omega) less]
    congr 1
    have cases : n % 4 = 0 ∨ n % 4 = 1 ∨ n % 4 = 2 ∨ n % 4 = 3 := by omega
    rcases cases with h | h | h | h <;> omega
  · have top : m = 2 ^ 54 := by omega
    have next : (n + 2) / 4 * 4 = 2 ^ 54 := by omega
    rw [top, next]
    decide +kernel

end Kyc.Doubles
