import Mathlib.Algebra.Order.Floor.Semifield
import Mathlib.Data.Rat.Floor
import ShaderGraph.Proofs.Numeric.Shortest

/-!
# Floats as numbers

A float is a rational number with a sign. Sizes grow with bit patterns, and the ends of the interval of
a float lie halfway to the sizes next to its own. So a number in that interval is at least as near to
the float as to any other.
-/

namespace ShaderGraph

/-- A number with a sign. -/
def signed (negative : Bool) (r : ℚ) : ℚ :=
  if negative then -r else r

theorem signed_zero (negative : Bool) : signed negative 0 = 0 := by
  cases negative <;> simp [signed]

theorem abs_signed_sub (negative : Bool) (r s : ℚ) :
    |signed negative r - signed negative s| = |r - s| := by
  cases negative with
  | false => rfl
  | true =>
    calc |-r - -s| = |s - r| := by ring_nf
      _ = |r - s| := abs_sub_comm s r

theorem abs_signed_sub_of_ne {a b : Bool} (h : a ≠ b) (r s : ℚ) :
    |signed a r - signed b s| = |r + s| := by
  obtain ⟨rfl, rfl⟩ | ⟨rfl, rfl⟩ : (a = false ∧ b = true) ∨ (a = true ∧ b = false) := by
    revert h
    cases a <;> cases b <;> decide
  · exact congrArg abs (sub_neg_eq_add r s)
  · calc |-r - s| = |-(r + s)| := by ring_nf
      _ = |r + s| := abs_neg _

/-- The number that a decimal is. -/
def Decimal.value (d : Decimal) : ℚ :=
  signed d.negative d.size

namespace Binary32

variable {x y : Binary32} {r : ℚ}

/-- The absolute value. An infinity is as large as the number that would follow the largest one. -/
def size (x : Binary32) : ℚ :=
  x.mantissa * 2 ^ x.exponent

/-- The number that a float is; both zeros are the number zero. -/
def value (x : Binary32) : ℚ :=
  signed x.isNegative x.size

theorem size_nonneg (x : Binary32) : 0 ≤ x.size := by
  unfold size
  positivity

theorem size_zero : zero.size = 0 := by
  rw [size, show zero.mantissa = 0 from rfl, Nat.cast_zero, zero_mul]

theorem size_eq_quarters (x : Binary32) : x.size = 4 * x.mantissa * 2 ^ (x.exponent - 2) := by
  rw [quarters, size]
  ring

theorem size_congr (h : x.magnitude = y.magnitude) : x.size = y.size := by
  rw [size, size, mantissa, mantissa, exponent, exponent, h]

/-! ## Neighbours -/

/-- A smaller float lies at least as far below the lower end as the float lies above it. -/
theorem size_add_size_le (h : y.magnitude < x.magnitude) :
    y.size + x.size ≤ 2 * x.interval.lower * 2 ^ (x.exponent - 2) := by
  obtain ⟨hx, hbitsx⟩ := x.mantissa_bounds
  obtain ⟨hy, hbitsy⟩ := y.mantissa_bounds
  have hunit : (0 : ℚ) < 2 ^ (x.exponent - 2) := by positivity
  -- The size of the smaller float in quarters of a place of the larger one.
  obtain ⟨k, hk, hsize⟩ : ∃ k : Nat, k + 4 * x.mantissa ≤ 2 * x.interval.lower ∧
      y.size ≤ k * 2 ^ (x.exponent - 2) := by
    obtain hexponent | hexponent := (show y.exponent = x.exponent ∨ y.exponent < x.exponent by omega)
    · refine ⟨4 * y.mantissa, ?_, ?_⟩
      · simp only [interval]
        split <;> omega
      · rw [size_eq_quarters, hexponent]
        push_cast
        exact le_rfl
    · refine ⟨2 * (2 ^ 24 - 1), ?_, ?_⟩
      · simp only [interval]
        split <;> omega
      · have hmantissa : (y.mantissa : ℚ) ≤ 2 ^ 24 - 1 := by
          have hle : y.mantissa + 1 ≤ 2 ^ 24 := by omega
          have hcast : (y.mantissa : ℚ) + 1 ≤ 2 ^ 24 := by exact_mod_cast hle
          linarith
        calc y.size ≤ (2 ^ 24 - 1) * 2 ^ (x.exponent - 2 + 1) := by
              unfold size
              gcongr
              · norm_num
              · omega
          _ = (2 * (2 ^ 24 - 1) : Nat) * 2 ^ (x.exponent - 2) := by
              rw [zpow_add_one₀ two_ne_zero]
              push_cast
              norm_num
              ring
  calc y.size + x.size ≤ (k + 4 * x.mantissa) * 2 ^ (x.exponent - 2) := by
        rw [x.size_eq_quarters, add_mul]
        linarith
    _ ≤ 2 * x.interval.lower * 2 ^ (x.exponent - 2) := by
        gcongr
        exact_mod_cast hk

theorem size_le_size (h : y.magnitude ≤ x.magnitude) : y.size ≤ x.size := by
  obtain hlt | heq := h.lt_or_eq
  · have hsizes := size_add_size_le hlt
    have hlower : x.interval.lower * (2 : ℚ) ^ (x.exponent - 2) ≤ x.size := by
      rw [size_eq_quarters]
      gcongr
      simp only [interval]
      exact_mod_cast Nat.sub_le _ _
    linarith
  · exact (size_congr heq).le

/-- A larger float lies at least as far above the upper end as the float lies below it. -/
theorem le_size_add_size (h : x.magnitude < y.magnitude) :
    2 * x.interval.upper * 2 ^ (x.exponent - 2) ≤ y.size + x.size := by
  obtain ⟨hx, hbitsx⟩ := x.mantissa_bounds
  obtain ⟨hy, hbitsy⟩ := y.mantissa_bounds
  have hunit : (0 : ℚ) < 2 ^ (x.exponent - 2) := by positivity
  have hupper : x.interval.upper = 4 * x.mantissa + 2 := rfl
  have hsize : (4 * x.mantissa + 4 : ℚ) * 2 ^ (x.exponent - 2) ≤ y.size := by
    obtain hexponent | hexponent := (show y.exponent = x.exponent ∨ x.exponent < y.exponent by omega)
    · rw [y.size_eq_quarters, hexponent]
      have hle : 4 * x.mantissa + 4 ≤ 4 * y.mantissa := by omega
      gcongr
      exact_mod_cast hle
    · have hle : 4 * x.mantissa + 4 ≤ 2 * 2 ^ 23 * 4 := by omega
      have hle' : 2 ^ 23 ≤ y.mantissa := by omega
      calc (4 * x.mantissa + 4 : ℚ) * 2 ^ (x.exponent - 2)
          ≤ 2 * 2 ^ 23 * 4 * 2 ^ (x.exponent - 2) := by
            gcongr
            exact_mod_cast hle
        _ = 2 ^ 23 * 2 ^ (x.exponent - 2 + 3) := by
            rw [zpow_add₀ two_ne_zero]
            norm_num
            ring
        _ ≤ y.size := by
            unfold size
            gcongr
            · exact_mod_cast hle'
            · norm_num
            · omega
  calc 2 * x.interval.upper * 2 ^ (x.exponent - 2)
      = (4 * x.mantissa + 4 : ℚ) * 2 ^ (x.exponent - 2) + x.size := by
        rw [hupper, x.size_eq_quarters]
        push_cast
        ring
    _ ≤ y.size + x.size := by linarith

/-- No float is nearer to a number than the one in whose interval it lies, and one of another size is
as near only if the mantissa is even. -/
theorem Rounds.size_least (h : x.Rounds r) (y : Binary32) :
    |r - x.size| ≤ |r - y.size| ∧
      (|r - y.size| = |r - x.size| → y.size = x.size ∨ x.mantissa % 2 = 0) := by
  obtain ⟨hlower, hupper, hclosed⟩ := h
  obtain hlt | heq | hgt := lt_trichotomy y.magnitude x.magnitude
  · have hsizes := size_add_size_le hlt
    have hle : y.size ≤ x.size := size_le_size hlt.le
    have hfar : r - y.size ≤ |r - y.size| := le_abs_self _
    refine ⟨(abs_le.mpr ⟨by linarith, by linarith⟩).trans hfar, fun htie ↦ ?_⟩
    refine or_iff_not_imp_left.mpr fun hne ↦ hclosed.resolve_right fun ⟨hstrict, _⟩ ↦ ?_
    have hlt : y.size < x.size := lt_of_le_of_ne hle hne
    have hnear : |r - x.size| < r - y.size := abs_lt.mpr ⟨by linarith, by linarith⟩
    linarith
  · rw [size_congr heq]
    exact ⟨le_rfl, fun _ ↦ .inl rfl⟩
  · have hsizes := le_size_add_size hgt
    have hle : x.size ≤ y.size := size_le_size hgt.le
    have hfar : y.size - r ≤ |r - y.size| := (le_abs_self _).trans (abs_sub_comm _ _).le
    refine ⟨(abs_le.mpr ⟨by linarith, by linarith⟩).trans hfar, fun htie ↦ ?_⟩
    refine or_iff_not_imp_left.mpr fun hne ↦ hclosed.resolve_right fun ⟨_, hstrict⟩ ↦ ?_
    have hlt : x.size < y.size := lt_of_le_of_ne hle (Ne.symm hne)
    have hnear : |r - x.size| < y.size - r := abs_lt.mpr ⟨by linarith, by linarith⟩
    linarith

/-! ## Rounding to the nearest float -/

/-- The float is a nearest one to the number, and its mantissa is even if one of another value is as
near. An infinity competes as the number that would follow the largest float. -/
def IsNearest (x : Binary32) (r : ℚ) : Prop :=
  ∀ y : Binary32, y.isNaN = false → |r - x.value| ≤ |r - y.value| ∧
    (|r - y.value| = |r - x.value| → y.value = x.value ∨ x.mantissa % 2 = 0)

theorem isNearest_of_rounds {d : Decimal} (hnegative : d.negative = x.isNegative)
    (h : x.Rounds d.size) : x.IsNearest d.value := by
  intro y _
  have hnonneg : 0 ≤ d.size := by
    unfold Decimal.size
    positivity
  have hnear : |d.value - x.value| = |d.size - x.size| := by
    rw [Decimal.value, value, hnegative, abs_signed_sub]
  rw [hnear]
  by_cases hsign : y.isNegative = x.isNegative
  · have hfar : |d.value - y.value| = |d.size - y.size| := by
      rw [Decimal.value, value, hnegative, hsign, abs_signed_sub]
    obtain ⟨hle, htie⟩ := h.size_least y
    rw [hfar]
    refine ⟨hle, fun heq ↦ (htie heq).imp_left fun hsize ↦ ?_⟩
    rw [value, value, hsign, hsize]
  · -- On the other side of zero a float is at least as far away as zero itself.
    have hfar : |d.value - y.value| = d.size + y.size := by
      rw [Decimal.value, value, hnegative, abs_signed_sub_of_ne (Ne.symm hsign),
        abs_of_nonneg (add_nonneg hnonneg y.size_nonneg)]
    obtain ⟨hle, htie⟩ := h.size_least zero
    have hy := y.size_nonneg
    rw [hfar]
    rw [size_zero, sub_zero, abs_of_nonneg hnonneg] at hle htie
    refine ⟨by linarith, fun heq ↦ ?_⟩
    have hysize : y.size = 0 := by linarith
    refine (htie (by linarith)).imp_left fun hxsize ↦ ?_
    rw [value, value, hysize, ← hxsize, signed_zero, signed_zero]

/-- The shortest decimal of a finite float has its sign, and the float is the nearest one to it. -/
theorem isNearest_shortest (tie : TieRule) (hx : x.isFinite) : x.IsNearest (x.shortest tie).value := by
  refine isNearest_of_rounds (shortest_negative tie hx) ?_
  cases hzero : x.isZero with
  | false => exact shortest_rounds tie hx hzero
  | true =>
    have hmagnitude : x.magnitude = 0 := of_decide_eq_true hzero
    obtain ⟨hcases, hbits⟩ := x.mantissa_bounds
    have hmantissa : x.mantissa = 0 := by omega
    have hlower : x.interval.lower = 0 := by
      simp only [interval, hmantissa]
      rfl
    rw [shortest_of_isZero hzero, Decimal.size, Nat.cast_zero, zero_mul]
    refine ⟨?_, by positivity, .inl ?_⟩
    · rw [hlower, Nat.cast_zero, zero_mul]
    · rw [hmantissa]

/-! ## Integer parts -/

theorem size_pos (h : x.magnitude ≠ 0) : 0 < x.size := by
  obtain ⟨hcases, hbits⟩ := x.mantissa_bounds
  have hmantissa : 0 < x.mantissa := by omega
  unfold size
  positivity

/-- The test of a sign agrees with the comparison of the number with zero. -/
theorem isNonNegative_iff : x.isNonNegative = true ↔ x.isNaN = false ∧ 0 ≤ x.value := by
  have hsize := x.size_nonneg
  cases hnan : x.isNaN with
  | true => simp [isNonNegative, hnan]
  | false =>
    cases hnegative : x.isNegative with
    | false => simp [isNonNegative, hnan, hnegative, value, signed, hsize]
    | true =>
      have hvalue : 0 ≤ x.value ↔ x.magnitude = 0 := by
        rw [value, hnegative, signed, if_pos rfl, neg_nonneg]
        constructor
        · intro hle
          by_contra hne
          exact absurd (size_pos hne) (not_lt.mpr hle)
        · intro hzero
          rw [← size_zero]
          exact (size_congr (x := x) (y := zero) hzero).le
      simp [isNonNegative, hnan, hnegative, hvalue, isZero]

/-- The size in integer arithmetic. -/
theorem size_eq_ratio (x : Binary32) :
    x.size = (x.mantissa * naturalPower 2 x.exponent : Nat) / (naturalPower 2 (-x.exponent) : Nat) := by
  rw [size, Nat.cast_mul, mul_div_assoc, naturalPower_ratio]
  rfl

/-- The integer part of a non-negative float, up to the greatest one. -/
theorem truncate_eq (hfinite : x.isFinite) (hnonneg : 0 ≤ x.value) :
    x.truncate = min 0xffffffff ⌊x.value⌋₊ := by
  have hmagnitude : x.magnitude < BinaryFormat.binary32.infinity := of_decide_eq_true hfinite
  have hnan : x.isNaN = false := decide_eq_false (by omega)
  have hinfinite : x.isInfinite = false := decide_eq_false (by omega)
  have hsize := x.size_nonneg
  cases hnegative : x.isNegative with
  | true =>
    have hzero : x.value = 0 := by
      rw [value, hnegative, signed, if_pos rfl] at hnonneg ⊢
      linarith
    rw [hzero]
    simp [truncate, hnegative]
  | false =>
    have hfloor : ⌊x.value⌋₊ =
        x.mantissa * naturalPower 2 x.exponent / naturalPower 2 (-x.exponent) := by
      rw [value, hnegative, signed, if_neg Bool.false_ne_true, size_eq_ratio, Nat.floor_div_eq_div]
    rw [hfloor]
    simp [truncate, hnan, hnegative, hinfinite]

/-- The test of a subscript, for a length that is a 32-bit number, agrees with the comparison of
numbers. An infinity fails it, and so does a NaN. -/
theorem isNonNegative_and_truncate_lt_iff (x : Binary32) (length : UInt32) :
    (x.isNonNegative && x.truncate < length.toNat) = true ↔
      x.isFinite ∧ 0 ≤ x.value ∧ x.value < length.toNat := by
  have hlength : length.toNat < 2 ^ 32 := length.toNat_lt
  rw [Bool.and_eq_true, decide_eq_true_eq, isNonNegative_iff]
  cases hfinite : x.isFinite with
  | true =>
    have hmagnitude : x.magnitude < BinaryFormat.binary32.infinity := of_decide_eq_true hfinite
    have hnan : x.isNaN = false := decide_eq_false (by omega)
    constructor
    · rintro ⟨⟨-, hnonneg⟩, hlt⟩
      rw [truncate_eq hfinite hnonneg] at hlt
      exact ⟨rfl, hnonneg, (Nat.floor_lt hnonneg).mp (by omega)⟩
    · rintro ⟨-, hnonneg, hlt⟩
      have hfloor := (Nat.floor_lt hnonneg).mpr hlt
      rw [truncate_eq hfinite hnonneg]
      exact ⟨⟨hnan, hnonneg⟩, by omega⟩
  | false =>
    have hmagnitude : ¬ x.magnitude < BinaryFormat.binary32.infinity := of_decide_eq_false hfinite
    simp only [Bool.false_eq_true, false_and, iff_false, not_and]
    rintro ⟨hnan, hnonneg⟩ hlt
    -- What is neither finite nor a NaN is an infinity, and its integer part is the greatest one.
    have hinfinite : x.isInfinite = true := by
      have hle := of_decide_eq_false hnan
      exact decide_eq_true (by omega)
    have hnegative : x.isNegative = false := by
      by_contra htrue
      rw [Bool.not_eq_false] at htrue
      have hmagnitude' : x.magnitude ≠ 0 := fun hzero ↦ hmagnitude (hzero ▸ by decide)
      have hpositive := size_pos hmagnitude'
      rw [value, htrue, signed, if_pos rfl] at hnonneg
      linarith
    have htruncate : x.truncate = 0xffffffff := by
      simp [truncate, hnan, hnegative, hinfinite]
    omega

end Binary32

end ShaderGraph
