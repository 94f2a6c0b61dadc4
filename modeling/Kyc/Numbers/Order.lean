import Kyc.Numbers.Doubles

/-! # Rounding keeps the order

A number that is not larger than another is not rounded to a larger double. Whole numbers of
up to 53 binary digits are doubles themselves, so that sums and differences of small ones are
exact.
-/

namespace Kyc.Doubles

theorem nearestEven_mono {x y : ℚ} (h : x ≤ y) : nearestEven x ≤ nearestEven y := by
  rw [le_nearestEven_iff]
  rcases (le_nearestEven_iff (nearestEven x) x).mp le_rfl with less | ⟨half, even⟩
  · exact Or.inl (less.trans_le h)
  · rcases (half.trans_le h).lt_or_eq with less | equal
    · exact Or.inl less
    · exact Or.inr ⟨equal, even⟩

theorem nearestEven_le_iff (n : ℤ) (x : ℚ) :
    nearestEven x ≤ n ↔ x < (n : ℚ) + 1 / 2 ∨ x = (n : ℚ) + 1 / 2 ∧ n % 2 = 0 := by
  have half : ((n + 1 : ℤ) : ℚ) - 1 / 2 = n + 1 / 2 := by
    push_cast
    ring
  rw [← Int.lt_add_one_iff, ← not_le, le_nearestEven_iff, half, not_or, not_and, not_lt]
  constructor
  · rintro ⟨le, odd⟩
    rcases le.lt_or_eq with less | equal
    · exact Or.inl less
    · have := odd equal.symm
      exact Or.inr ⟨equal, by omega⟩
  · rintro (less | ⟨equal, even⟩)
    · exact ⟨less.le, fun equal => absurd equal less.ne'⟩
    · exact ⟨equal.le, fun _ => by omega⟩

theorem nearestEven_neg (x : ℚ) : nearestEven (-x) = -nearestEven x := by
  have below (n : ℤ) : n ≤ nearestEven (-x) ↔ nearestEven x ≤ -n := by
    rw [le_nearestEven_iff, nearestEven_le_iff]
    push_cast
    constructor
    · rintro (less | ⟨equal, even⟩)
      · exact Or.inl (by linarith)
      · exact Or.inr ⟨by linarith, by omega⟩
    · rintro (less | ⟨equal, even⟩)
      · exact Or.inl (by linarith)
      · exact Or.inr ⟨by linarith, by omega⟩
  apply le_antisymm
  · have := (below _).mp le_rfl
    omega
  · exact (below _).mpr (neg_neg _).ge

theorem quantum_neg (x : ℚ) : quantum (-x) = quantum x := by
  rw [quantum, quantum, abs_neg]

theorem rounded_neg (x : ℚ) : rounded (-x) = -rounded x := by
  rw [rounded, rounded, quantum_neg, neg_div, nearestEven_neg, Int.cast_neg, neg_mul]

theorem rounded_le_two_zpow {x : ℚ} {n : ℤ} (hn : -1022 ≤ n) (hx : 0 < x) (h : x < 2 ^ n) :
    rounded x ≤ 2 ^ n := by
  have log : Int.log 2 x < n :=
    (Int.lt_zpow_iff_log_lt (by norm_num) hx).mp (by exact_mod_cast h)
  obtain ⟨k, hk⟩ : ∃ k : ℕ, max (Int.log 2 |x| - 52) (-1074) + k = n := by
    rw [abs_of_pos hx]
    exact ⟨(n - max (Int.log 2 x - 52) (-1074)).toNat, by omega⟩
  have whole : ((2 ^ k : ℤ) : ℚ) * quantum x = 2 ^ n := by
    rw [← hk, quantum, zpow_add₀ (by norm_num), zpow_natCast, mul_comm]
    push_cast
    rfl
  have le : nearestEven (x / quantum x) ≤ 2 ^ k := by
    refine nearestEven_le_of_le ((div_le_iff₀ (quantum_pos x)).mpr ?_)
    exact h.le.trans_eq whole.symm
  calc rounded x ≤ ((2 ^ k : ℤ) : ℚ) * quantum x :=
        mul_le_mul_of_nonneg_right (by exact_mod_cast le) (quantum_pos x).le
    _ = 2 ^ n := whole

/-- Two positive numbers are rounded to multiples of one distance, or there is a power of two
between them. -/
theorem rounded_mono_of_pos {x y : ℚ} (hx : 0 < x) (h : x ≤ y) : rounded x ≤ rounded y := by
  have hy : 0 < y := hx.trans_le h
  have log : Int.log 2 x ≤ Int.log 2 y := Int.log_mono_right hx h
  by_cases same : quantum x = quantum y
  · have le := nearestEven_mono (div_le_div_of_nonneg_right h (quantum_pos y).le)
    rw [rounded, rounded, same]
    exact mul_le_mul_of_nonneg_right (by exact_mod_cast le) (quantum_pos y).le
  · have apart : Int.log 2 x < Int.log 2 y ∧ -1022 ≤ Int.log 2 y := by
      by_contra close
      apply same
      rw [quantum, quantum, abs_of_pos hx, abs_of_pos hy]
      congr 1
      omega
    have between : x < 2 ^ Int.log 2 y := by
      exact_mod_cast (Int.lt_zpow_iff_log_lt (by norm_num) hx).mpr apart.1
    exact (rounded_le_two_zpow apart.2 hx between).trans (pow_log_le_rounded hy apart.2)

theorem rounded_nonneg {x : ℚ} (h : 0 ≤ x) : 0 ≤ rounded x := by
  have bound : (0 : ℚ) ≤ 2 ^ (-1075 : ℤ) := zpow_nonneg (by norm_num) _
  exact (rounded_nonneg_iff x).mpr (by linarith)

theorem rounded_mono : Monotone rounded := by
  intro x y h
  rcases lt_or_ge 0 x with hx | hx
  · exact rounded_mono_of_pos hx h
  · rcases lt_or_ge y 0 with hy | hy
    · have neg := rounded_mono_of_pos (neg_pos.mpr hy) (neg_le_neg h)
      rwa [rounded_neg, rounded_neg, neg_le_neg_iff] at neg
    · have low := rounded_nonneg (neg_nonneg.mpr hx)
      rw [rounded_neg, neg_nonneg] at low
      exact low.trans (rounded_nonneg hy)

theorem rounded_intCast {n : ℤ} (h : |n| < 2 ^ 53) : rounded n = n := by
  obtain ⟨low, high⟩ := abs_lt.mp h
  obtain ⟨k, rfl | rfl⟩ := n.eq_nat_or_neg
  · rw [Int.cast_natCast, rounded_natCast_of_lt (by omega)]
  · rw [Int.cast_neg, rounded_neg, Int.cast_natCast, rounded_natCast_of_lt (by omega)]

theorem rounded_one : rounded 1 = 1 := by
  exact_mod_cast rounded_natCast_of_lt (n := 1) (by norm_num)

theorem rounded_rounded_of_one_le {x : ℚ} (h : 1 ≤ rounded x) :
    rounded (rounded x) = rounded x := by
  rcases le_total 1 x with large | small
  · exact rounded_rounded large
  · have one : rounded x = 1 := le_antisymm ((rounded_mono small).trans_eq rounded_one) h
    rw [one, rounded_one]

theorem sub_half_quantum_le_rounded (x : ℚ) : x - quantum x / 2 ≤ rounded x := by
  have near : x / quantum x - 1 / 2 ≤ nearestEven (x / quantum x) := by
    rcases (nearestEven_le_iff _ (x / quantum x)).mp le_rfl with less | ⟨equal, -⟩ <;> linarith
  have le := mul_le_mul_of_nonneg_right near (quantum_pos x).le
  rw [sub_mul, div_mul_cancel₀ _ (quantum_pos x).ne'] at le
  rw [rounded]
  linarith

/-- The number of seconds that a number of milliseconds begins is the same after rounding. -/
theorem ceil_rounded_div_thousand {d : ℕ} (h : d ≤ 60000) :
    ⌈rounded ((d : ℚ) / 1000)⌉ = ⌈(d : ℚ) / 1000⌉ := by
  have most : (d : ℚ) ≤ 60000 := by exact_mod_cast h
  have nonneg : (0 : ℚ) ≤ (d : ℚ) / 1000 := by positivity
  have low : 0 ≤ ⌈(d : ℚ) / 1000⌉ := Int.ceil_nonneg nonneg
  have high : ⌈(d : ℚ) / 1000⌉ ≤ 60 := Int.ceil_le.mpr (by push_cast; linarith)
  have exact_ceil : rounded (⌈(d : ℚ) / 1000⌉ : ℤ) = (⌈(d : ℚ) / 1000⌉ : ℤ) := by
    refine rounded_intCast ?_
    rw [abs_of_nonneg low]
    omega
  rw [Int.ceil_eq_iff]
  refine ⟨?_, (rounded_mono (Int.le_ceil _)).trans_eq exact_ceil⟩
  rcases Nat.eq_zero_or_pos d with rfl | pos
  · have zero : rounded ((0 : ℕ) / 1000 : ℚ) = 0 := by
      rw [rounded_eq_zero_iff]
      have bound : (0 : ℚ) ≤ 2 ^ (-1075 : ℤ) := zpow_nonneg (by norm_num) _
      constructor <;> simp
    rw [zero]
    simp
  · have above : (⌈(d : ℚ) / 1000⌉ : ℚ) - 1 + 1 / 1000 ≤ (d : ℚ) / 1000 := by
      have less : ((⌈(d : ℚ) / 1000⌉ - 1 : ℤ) : ℚ) < (d : ℚ) / 1000 :=
        Int.lt_ceil.mp (sub_one_lt _)
      have steps : 1000 * (⌈(d : ℚ) / 1000⌉ - 1) + 1 ≤ (d : ℤ) := by
        rw [Int.add_one_le_iff]
        have scaled := (lt_div_iff₀ (by norm_num : (0 : ℚ) < 1000)).mp less
        have : (((⌈(d : ℚ) / 1000⌉ - 1) * 1000 : ℤ) : ℚ) < ((d : ℤ) : ℚ) := by
          push_cast at scaled ⊢
          linarith
        have := Int.cast_lt.mp this
        omega
      have steps' : 1000 * ((⌈(d : ℚ) / 1000⌉ : ℚ) - 1) + 1 ≤ d := by exact_mod_cast steps
      rw [le_div_iff₀ (by norm_num)]
      linarith
    have fine : quantum ((d : ℚ) / 1000) ≤ 1 / 1000 := by
      have positive : (0 : ℚ) < (d : ℚ) / 1000 := by positivity
      have log : Int.log 2 ((d : ℚ) / 1000) < 6 := by
        refine (Int.lt_zpow_iff_log_lt (by norm_num) positive).mp ?_
        norm_num
        linarith
      calc quantum ((d : ℚ) / 1000) ≤ 2 ^ (-46 : ℤ) := by
            refine zpow_le_zpow_right₀ (by norm_num) ?_
            rw [abs_of_pos positive]
            omega
        _ ≤ 1 / 1000 := by norm_num
    have near := sub_half_quantum_le_rounded ((d : ℚ) / 1000)
    linarith

end Kyc.Doubles
