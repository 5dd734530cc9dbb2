import Mathlib.Algebra.Order.Field.Power
import Mathlib.Data.Rat.Cast.Order
import Mathlib.Tactic.FieldSimp
import Mathlib.Tactic.Linarith
import Mathlib.Tactic.Positivity
import Mathlib.Tactic.Ring
import ShaderGraph.Numeric.Shortest

/-!
# Shortest decimals round back

The search for the shortest decimal of a float succeeds, and what it finds lies between the midpoints
to the neighbours of the float. So every decimal of that size rounds to the float.
-/

namespace ShaderGraph

/-! ## Rounding

A fraction that lies between the midpoints to the neighbours of a float rounds to that float. The
midpoints themselves do if the mantissa is even.
-/

/-! ### Fractions -/

theorem naturalPower_pos {b : Nat} (hb : 0 < b) (k : Int) : 0 < naturalPower b k :=
  Nat.pow_pos hb

/-- A power with an integer exponent is the ratio of its two natural parts. -/
theorem naturalPower_ratio (b : Nat) (k : Int) :
    (naturalPower b k : ℚ) / naturalPower b (-k) = (b : ℚ) ^ k := by
  obtain ⟨n, rfl | rfl⟩ := k.eq_nat_or_neg
  · simp [naturalPower]
  · simp [naturalPower]

theorem naturalPower_eq {b : Nat} (hb : 0 < b) (k : Int) :
    (naturalPower b k : ℚ) = (b : ℚ) ^ k * naturalPower b (-k) := by
  have hpositive : (0 : ℚ) < naturalPower b (-k) := by exact_mod_cast naturalPower_pos hb (-k)
  rw [← naturalPower_ratio, div_mul_cancel₀ _ hpositive.ne']

/-- A fraction of which numerator and denominator are multiplied by the parts of a power. -/
theorem scaled_ratio (b : Nat) (k : Int) (num den : ℚ) :
    num * naturalPower b k / (den * naturalPower b (-k)) = num / den * (b : ℚ) ^ k := by
  rw [← naturalPower_ratio b k, div_mul_div_comm]

/-- The fraction is rounded to `k` if it is no further away than a half. A half is near enough if `k`
is even. -/
theorem nearestEven_eq {num den k : Nat} (hden : 0 < den) (hlow : (k : ℚ) - 1 / 2 ≤ num / den)
    (hhigh : (num : ℚ) / den ≤ k + 1 / 2)
    (htie : k % 2 = 0 ∨ ((k : ℚ) - 1 / 2 < num / den ∧ (num : ℚ) / den < k + 1 / 2)) :
    nearestEven num den = k := by
  have hden' : (0 : ℚ) < den := by exact_mod_cast hden
  rw [le_div_iff₀ hden'] at hlow
  rw [div_le_iff₀ hden'] at hhigh
  rw [lt_div_iff₀ hden', div_lt_iff₀ hden'] at htie
  -- The same bounds among natural numbers.
  have hlow' : 2 * k * den ≤ 2 * num + den := by
    have h : (2 * k * den : ℚ) ≤ 2 * num + den := by linarith
    exact_mod_cast h
  have hhigh' : 2 * num ≤ 2 * k * den + den := by
    have h : (2 * num : ℚ) ≤ 2 * k * den + den := by linarith
    exact_mod_cast h
  have htie' : k % 2 = 0 ∨ (2 * k * den < 2 * num + den ∧ 2 * num < 2 * k * den + den) := by
    refine htie.imp_right fun ⟨hl, hh⟩ ↦ ⟨?_, ?_⟩
    · have h : (2 * k * den : ℚ) < 2 * num + den := by linarith
      exact_mod_cast h
    · have h : (2 * num : ℚ) < 2 * k * den + den := by linarith
      exact_mod_cast h
  have hdivision := Nat.div_add_mod num den
  have hremainder := Nat.mod_lt num hden
  unfold nearestEven
  dsimp only
  generalize num / den = q at *
  generalize num % den = r at *
  subst hdivision
  have hle : q ≤ k := by
    by_contra! hlt
    have hmul : den * (k + 1) ≤ den * q := Nat.mul_le_mul_left den hlt
    nlinarith
  have hge : k ≤ q + 1 := by
    by_contra! hlt
    have hmul : den * (q + 2) ≤ den * k := Nat.mul_le_mul_left den hlt
    nlinarith
  obtain rfl | rfl : k = q ∨ k = q + 1 := by omega
  · have hcommute : 2 * k * den = 2 * (den * k) := by ring
    simp only [hcommute] at hlow' hhigh' htie'
    split_ifs <;> omega
  · have hcommute : 2 * (q + 1) * den = 2 * (den * q) + 2 * den := by ring
    simp only [hcommute] at hlow' hhigh' htie'
    split_ifs <;> omega

/-- Rounding in units of a power of two. -/
theorem nearestEven_scaled {num den k : Nat} {e : Int} (hden : 0 < den)
    (hlow : (k : ℚ) - 1 / 2 ≤ num / den * 2 ^ (-e)) (hhigh : (num : ℚ) / den * 2 ^ (-e) ≤ k + 1 / 2)
    (htie : k % 2 = 0 ∨ ((k : ℚ) - 1 / 2 < num / den * 2 ^ (-e) ∧
      (num : ℚ) / den * 2 ^ (-e) < k + 1 / 2)) :
    nearestEven (num * naturalPower 2 (-e)) (den * naturalPower 2 e) = k := by
  have hratio : (num : ℚ) / den * 2 ^ (-e) =
      (num * naturalPower 2 (-e) : Nat) / (den * naturalPower 2 e : Nat) := by
    have hscaled := scaled_ratio 2 (-e) num den
    rw [neg_neg] at hscaled
    push_cast at hscaled ⊢
    exact hscaled.symm
  rw [hratio] at hlow hhigh htie
  exact nearestEven_eq (Nat.mul_pos hden (naturalPower_pos two_pos e)) hlow hhigh htie

/-- The binary logarithm of a fraction, rounded down. -/
theorem floorLog2_spec {num den : Nat} (hnum : 0 < num) (hden : 0 < den) :
    (2 : ℚ) ^ floorLog2 num den ≤ num / den ∧ (num : ℚ) / den < 2 ^ (floorLog2 num den + 1) := by
  have hden' : (0 : ℚ) < den := by exact_mod_cast hden
  have hnumLog : (2 : ℚ) ^ (num.log2 : Int) ≤ num ∧ (num : ℚ) < 2 ^ ((num.log2 : Int) + 1) := by
    constructor
    · exact_mod_cast Nat.log2_self_le hnum.ne'
    · exact_mod_cast Nat.lt_log2_self
  have hdenLog : (2 : ℚ) ^ (den.log2 : Int) ≤ den ∧ (den : ℚ) < 2 ^ ((den.log2 : Int) + 1) := by
    constructor
    · exact_mod_cast Nat.log2_self_le hden.ne'
    · exact_mod_cast Nat.lt_log2_self
  set k : Int := (num.log2 : Int) - den.log2 with hk
  have hupper : (num : ℚ) / den < 2 ^ (k + 1) := by
    rw [div_lt_iff₀ hden']
    calc (num : ℚ) < 2 ^ (k + 1) * 2 ^ (den.log2 : Int) := by
          rw [← zpow_add₀ two_ne_zero]
          convert hnumLog.2 using 2
          omega
      _ ≤ 2 ^ (k + 1) * den := by gcongr; exact hdenLog.1
  have hlower : (2 : ℚ) ^ (k - 1) ≤ num / den := by
    rw [le_div_iff₀ hden']
    calc (2 : ℚ) ^ (k - 1) * den ≤ 2 ^ (k - 1) * 2 ^ ((den.log2 : Int) + 1) := by
          gcongr; exact hdenLog.2.le
      _ ≤ num := by
          rw [← zpow_add₀ two_ne_zero]
          convert hnumLog.1 using 2
          omega
  -- The comparison tells whether the fraction reaches the greater of two candidates.
  have htest : den * naturalPower 2 k ≤ num * naturalPower 2 (-k) ↔ (2 : ℚ) ^ k ≤ num / den := by
    have hpositive : (0 : ℚ) < naturalPower 2 (-k) := by
      exact_mod_cast naturalPower_pos two_pos (-k)
    rw [show (2 : ℚ) = ((2 : Nat) : ℚ) from rfl, ← naturalPower_ratio 2 k,
      div_le_div_iff₀ hpositive hden']
    constructor
    · intro h
      have h' : (den * naturalPower 2 k : ℚ) ≤ num * naturalPower 2 (-k) := by exact_mod_cast h
      linarith
    · intro h
      have h' : (den * naturalPower 2 k : ℚ) ≤ num * naturalPower 2 (-k) := by linarith
      exact_mod_cast h'
  unfold floorLog2
  simp only [← hk]
  split
  · next h => exact ⟨htest.mp h, hupper⟩
  · next h =>
    refine ⟨hlower, ?_⟩
    rw [sub_add_cancel]
    exact lt_of_not_ge fun hle ↦ h (htest.mpr hle)

/-! ### Finite floats -/

namespace Binary32

variable {x : Binary32} {r : ℚ}

/-- The mantissa and the exponent of a bit pattern without its sign, and how it is made up of them. -/
theorem mantissa_bounds (x : Binary32) :
    ((x.mantissa < 2 ^ 23 ∧ x.exponent = -149) ∨
      (2 ^ 23 ≤ x.mantissa ∧ x.mantissa < 2 ^ 24 ∧ -149 ≤ x.exponent)) ∧
      x.magnitude = x.mantissa + (x.exponent + 149).toNat * 2 ^ 23 := by
  have hbit : BinaryFormat.binary32.leadingBit = 2 ^ 23 := rfl
  have hleast : BinaryFormat.binary32.minExponent = -149 := rfl
  unfold mantissa exponent BinaryFormat.mantissa BinaryFormat.exponent
  rw [hbit, hleast]
  generalize x.magnitude = bits at *
  by_cases hfield : bits / 2 ^ 23 = 0
  · rw [if_pos hfield, if_pos hfield]
    omega
  · rw [if_neg hfield, if_neg hfield]
    omega

/-- The mantissa and the exponent of a finite float, and how its bit pattern is made up of them. -/
theorem mantissa_cases (hx : x.isFinite) :
    ((x.mantissa < 2 ^ 23 ∧ x.exponent = -149) ∨
      (2 ^ 23 ≤ x.mantissa ∧ x.mantissa < 2 ^ 24 ∧ -149 ≤ x.exponent ∧ x.exponent ≤ 104)) ∧
      x.magnitude = x.mantissa + (x.exponent + 149).toNat * 2 ^ 23 := by
  obtain ⟨hcases, hbits⟩ := x.mantissa_bounds
  have hbound : x.magnitude < 255 * 2 ^ 23 := of_decide_eq_true hx
  omega

/-- The number lies between the midpoints to the neighbours of a float. -/
structure Rounds (x : Binary32) (r : ℚ) : Prop where
  lower : (x.interval.lower : ℚ) * 2 ^ (x.exponent - 2) ≤ r
  upper : r ≤ x.interval.upper * 2 ^ (x.exponent - 2)
  closed : x.mantissa % 2 = 0 ∨ ((x.interval.lower : ℚ) * 2 ^ (x.exponent - 2) < r ∧
    r < x.interval.upper * 2 ^ (x.exponent - 2))

theorem quarters (a : ℚ) (e : Int) : a * 2 ^ (e - 2) = a / 4 * 2 ^ e := by
  rw [zpow_sub₀ two_ne_zero]
  ring

/-- The distance to the mantissa in units of the last place. -/
theorem Rounds.scaled (h : x.Rounds r) :
    (x.interval.lower : ℚ) / 4 ≤ r * 2 ^ (-x.exponent) ∧
      r * 2 ^ (-x.exponent) ≤ x.mantissa + 1 / 2 ∧
      (x.mantissa % 2 = 0 ∨ ((x.interval.lower : ℚ) / 4 < r * 2 ^ (-x.exponent) ∧
        r * 2 ^ (-x.exponent) < x.mantissa + 1 / 2)) := by
  have hpositive : (0 : ℚ) < 2 ^ x.exponent := by positivity
  have hupper : (x.interval.upper : ℚ) / 4 = x.mantissa + 1 / 2 := by
    simp only [interval]
    push_cast
    ring
  obtain ⟨hl, hu, hc⟩ := h
  rw [quarters] at hl hu
  simp only [quarters] at hc
  rw [zpow_neg, ← div_eq_mul_inv, ← hupper, le_div_iff₀ hpositive, div_le_iff₀ hpositive,
    lt_div_iff₀ hpositive, div_lt_iff₀ hpositive]
  exact ⟨hl, hu, hc⟩

/-- The lower end is half a place away, or a quarter below a power of two. -/
theorem lower_cases (hmantissa : 0 < x.mantissa) :
    (x.interval.lower : ℚ) / 4 = x.mantissa - 1 / 2 ∨
      (x.mantissa = 2 ^ 23 ∧ (x.interval.lower : ℚ) / 4 = 2 ^ 23 - 1 / 4) := by
  simp only [interval]
  split
  · next h =>
    refine .inr ⟨h.1, ?_⟩
    rw [h.1]
    norm_num
  · refine .inl ?_
    rw [Nat.cast_sub (by omega)]
    push_cast
    ring

theorem half_le_lower (hmantissa : 0 < x.mantissa) :
    (x.mantissa : ℚ) - 1 / 2 ≤ (x.interval.lower : ℚ) / 4 := by
  obtain hl | ⟨hm, hl⟩ := lower_cases hmantissa
  · exact hl.ge
  · rw [hl, hm]
    norm_num

theorem lower_of_power (hmantissa : x.mantissa = 2 ^ 23) (hexponent : x.exponent ≠ -149) :
    (x.interval.lower : ℚ) / 4 = 2 ^ 23 - 1 / 4 := by
  simp only [interval]
  rw [if_pos ⟨hmantissa, hexponent⟩, hmantissa]
  norm_num

theorem round_eq (hx : x.isFinite) (hzero : x.isZero = false) {num den : Nat} (hnum : 0 < num)
    (hden : 0 < den) (h : x.Rounds (num / den)) :
    BinaryFormat.binary32.round num den = x.magnitude := by
  obtain ⟨hcases, hbits⟩ := mantissa_cases hx
  have hfinite : x.magnitude < 0x7f800000 := of_decide_eq_true hx
  have hnonzero : x.magnitude ≠ 0 := of_decide_eq_false hzero
  have hmantissa : 0 < x.mantissa := by
    omega
  obtain ⟨hlow, hhigh, htie⟩ := h.scaled
  obtain ⟨hfloor, hfloor'⟩ := floorLog2_spec hnum hden
  have hlower := half_le_lower hmantissa
  have hpower := lower_of_power (x := x)
  -- The fraction in units of the last place.
  set s : ℚ := (num : ℚ) / den * 2 ^ (-x.exponent) with hs
  have hvalue : (num : ℚ) / den = s * 2 ^ x.exponent := by
    rw [hs, mul_assoc, ← zpow_add₀ two_ne_zero, neg_add_cancel, zpow_zero, mul_one]
  have hposition (k : Int) : (2 : ℚ) ^ (x.exponent + k) = 2 ^ k * 2 ^ x.exponent := by
    rw [add_comm, zpow_add₀ two_ne_zero]
  have hunit : (0 : ℚ) < 2 ^ x.exponent := by positivity
  have hmantissaLt : (x.mantissa : ℚ) + 1 ≤ 2 ^ 24 := by
    have hlt : x.mantissa + 1 ≤ 2 ^ 24 := by omega
    exact_mod_cast hlt
  have hbelow : floorLog2 num den < x.exponent + 24 := by
    rw [← zpow_lt_zpow_iff_right₀ (one_lt_two (α := ℚ)), hposition]
    refine lt_of_le_of_lt hfloor ?_
    rw [hvalue]
    exact mul_lt_mul_of_pos_right (by norm_num; linarith) hunit
  unfold BinaryFormat.round
  rw [if_neg hnum.ne']
  dsimp only [BinaryFormat.binary32]
  by_cases hexponent : max (floorLog2 num den - ((24 : Nat) - 1)) (-149) = x.exponent
  · -- The fraction is rounded in units of the last place.
    rw [hexponent, nearestEven_scaled hden (k := x.mantissa)]
    · have hbit : BinaryFormat.leadingBit ⟨24, -149, 2139095040, 39, -46⟩ = 2 ^ 23 := rfl
      rw [hbit]
      omega
    · exact hlower.trans hlow
    · exact hhigh
    · exact htie.imp_right fun ⟨hl, hu⟩ ↦ ⟨hlower.trans_lt hl, hu⟩
  · -- The fraction is below the power of two that the float is, so its units are half as large.
    have hleast : -149 < x.exponent ∧ floorLog2 num den < x.exponent + 23 := by omega
    have hsmall : s < 2 ^ 23 := by
      have hlt : (2 : ℚ) ^ (floorLog2 num den + 1) ≤ 2 ^ (x.exponent + 23) :=
        zpow_le_zpow_right₀ one_le_two (by omega)
      have hproduct := hfloor'.trans_le hlt
      rw [hvalue, hposition] at hproduct
      exact lt_of_mul_lt_mul_right hproduct hunit.le
    have hmantissaEq : x.mantissa = 2 ^ 23 := by
      have hle : (x.mantissa : ℚ) < 2 ^ 23 + 1 := by linarith
      have hle' : x.mantissa < 2 ^ 23 + 1 := by exact_mod_cast hle
      omega
    have hlarge : (2 : ℚ) ^ 23 - 1 / 4 ≤ s := (hpower hmantissaEq (by omega)).ge.trans hlow
    have habove : x.exponent + 22 < floorLog2 num den + 1 := by
      rw [← zpow_lt_zpow_iff_right₀ (one_lt_two (α := ℚ)), hposition]
      refine lt_of_le_of_lt ?_ hfloor'
      rw [hvalue]
      exact mul_le_mul_of_nonneg_right (by norm_num at hlarge ⊢; linarith) hunit.le
    have hdouble : (num : ℚ) / den * 2 ^ (-(x.exponent - 1)) = 2 * s := by
      rw [hs, neg_sub, sub_eq_add_neg, zpow_add₀ two_ne_zero, zpow_one]
      ring
    rw [show max (floorLog2 num den - ((24 : Nat) - 1)) (-149) = x.exponent - 1 by omega,
      nearestEven_scaled hden (k := 2 ^ 24)]
    · have hbit : BinaryFormat.leadingBit ⟨24, -149, 2139095040, 39, -46⟩ = 2 ^ 23 := rfl
      rw [hbit]
      omega
    · rw [hdouble]
      push_cast
      linarith
    · rw [hdouble]
      push_cast
      linarith
    · exact .inl rfl

end Binary32

/-! ## The shortest decimal -/

namespace Binary32

variable {x : Binary32} {i : Interval} {tie : TieRule}

/-! ### The search -/

/-- A multiple that is found lies in the interval. -/
theorem Interval.multiple?_spec {scale step d : Nat} (hstep : 0 < step)
    (hlower : i.lower * scale < i.center * scale) (hupper : i.center * scale < i.upper * scale)
    (h : i.multiple? tie scale step = some d) :
    i.lower * scale ≤ d * step ∧ d * step ≤ i.upper * scale ∧
      (i.closed = true ∨ (i.lower * scale < d * step ∧ d * step < i.upper * scale)) := by
  have hdivision := Nat.div_add_mod' (i.center * scale) step
  have hremainder := Nat.mod_lt (i.center * scale) hstep
  unfold multiple? at h
  dsimp only at h
  generalize i.center * scale / step = k at *
  simp only [Bool.and_eq_true, Bool.or_eq_true, decide_eq_true_eq, beq_iff_eq] at h
  split_ifs at h with habove hbelow
  · obtain rfl := Option.some.inj h
    rw [Nat.succ_mul]
    grind
  · obtain rfl := Option.some.inj h
    grind

/-- A step that is no longer than a quarter of a place leaves no gap. -/
theorem Interval.isSome_multiple? (tie : TieRule) {scale step : Nat} (hstep : step ≤ scale) (hpositive : 0 < step)
    (hlower : i.lower < i.center) : (i.multiple? tie scale step).isSome := by
  have hdivision := Nat.div_add_mod' (i.center * scale) step
  have hremainder := Nat.mod_lt (i.center * scale) hpositive
  have hquarter : i.lower * scale + scale ≤ i.center * scale := by
    rw [← Nat.succ_mul]
    exact Nat.mul_le_mul_right scale hlower
  unfold multiple?
  dsimp only
  generalize i.center * scale / step = k at *
  have hfits : i.lower * scale < k * step := by omega
  simp only [hfits]
  split_ifs <;> simp_all

/-- The decimal lies in the interval of a float that has the given exponent. -/
def Interval.Holds (i : Interval) (exponent : Int) (d : Nat) (p : Int) : Prop :=
  (i.lower : ℚ) * 2 ^ (exponent - 2) ≤ d * 10 ^ p ∧
    (d : ℚ) * 10 ^ p ≤ i.upper * 2 ^ (exponent - 2) ∧
    (i.closed = true ∨ ((i.lower : ℚ) * 2 ^ (exponent - 2) < d * 10 ^ p ∧
      (d : ℚ) * 10 ^ p < i.upper * 2 ^ (exponent - 2)))

/-- The scale and the step of the search are a power of two and one of ten in a common unit. -/
theorem scale_and_step (q p : Int) :
    ∃ unit : ℚ, 0 < unit ∧
      ((naturalPower 2 q * naturalPower 10 (-p) : Nat) : ℚ) = 2 ^ q * unit ∧
      ((naturalPower 2 (-q) * naturalPower 10 p : Nat) : ℚ) = 10 ^ p * unit := by
  have htwo := naturalPower_pos two_pos (-q)
  have hten := naturalPower_pos (b := 10) (by decide) (-p)
  refine ⟨naturalPower 2 (-q) * naturalPower 10 (-p), by exact_mod_cast Nat.mul_pos htwo hten,
    ?_, ?_⟩
  · rw [Nat.cast_mul, naturalPower_eq two_pos q]
    push_cast
    ring
  · rw [Nat.cast_mul, naturalPower_eq (b := 10) (by decide) p]
    push_cast
    ring

section Unit

variable {scale step : Nat} {s t unit : ℚ}

theorem multiples_le_iff (hunit : 0 < unit) (hscale : (scale : ℚ) = s * unit)
    (hstep : (step : ℚ) = t * unit) (a d : Nat) : a * scale ≤ d * step ↔ (a : ℚ) * s ≤ d * t := by
  rw [← Nat.cast_le (α := ℚ), Nat.cast_mul, Nat.cast_mul, hscale, hstep, ← mul_assoc, ← mul_assoc,
    mul_le_mul_iff_left₀ hunit]

theorem multiples_lt_iff (hunit : 0 < unit) (hscale : (scale : ℚ) = s * unit)
    (hstep : (step : ℚ) = t * unit) (a d : Nat) : a * scale < d * step ↔ (a : ℚ) * s < d * t := by
  rw [← not_le, multiples_le_iff hunit hstep hscale, not_le]

end Unit

theorem Interval.multiple?_holds {exponent p : Int} {d : Nat} (hlower : i.lower < i.center)
    (hupper : i.center < i.upper)
    (h : i.multiple? tie (naturalPower 2 (exponent - 2) * naturalPower 10 (-p))
      (naturalPower 2 (-(exponent - 2)) * naturalPower 10 p) = some d) :
    i.Holds exponent d p := by
  have hscale := Nat.mul_pos (naturalPower_pos two_pos (exponent - 2))
    (naturalPower_pos (b := 10) (by decide) (-p))
  have hstep := Nat.mul_pos (naturalPower_pos two_pos (-(exponent - 2)))
    (naturalPower_pos (b := 10) (by decide) p)
  obtain ⟨unit, hunit, hs, ht⟩ := scale_and_step (exponent - 2) p
  obtain ⟨hl, hu, hc⟩ := multiple?_spec hstep (Nat.mul_lt_mul_of_pos_right hlower hscale)
    (Nat.mul_lt_mul_of_pos_right hupper hscale) h
  refine ⟨(multiples_le_iff hunit hs ht ..).mp hl, (multiples_le_iff hunit ht hs ..).mp hu,
    hc.imp_right fun ⟨hl, hu⟩ ↦ ?_⟩
  exact ⟨(multiples_lt_iff hunit hs ht ..).mp hl, (multiples_lt_iff hunit ht hs ..).mp hu⟩

/-- With the exponents of floats, the finest power of ten that is tried leaves no gap. -/
theorem finest_step {exponent : Int} (hexponent : -149 ≤ exponent) :
    naturalPower 2 (-(exponent - 2)) * naturalPower 10 (-60) ≤
      naturalPower 2 (exponent - 2) * naturalPower 10 (-(-60)) := by
  have htwo : naturalPower 2 (-(exponent - 2)) ≤ 2 ^ 151 :=
    Nat.pow_le_pow_right two_pos (by omega)
  have hone : naturalPower 10 (-60) = 1 := rfl
  have hten : (2 : Nat) ^ 151 ≤ naturalPower 10 (-(-60)) := by
    rw [show naturalPower 10 (-(-60)) = 10 ^ 60 from rfl]
    norm_num
  rw [hone, mul_one]
  exact (htwo.trans hten).trans (Nat.le_mul_of_pos_left _ (naturalPower_pos two_pos _))

theorem Interval.search_succ (exponent : Int) (limit : Nat) :
    i.search tie exponent (limit + 1) =
      match i.multiple? tie
        (naturalPower 2 (exponent - 2) * naturalPower 10 (-((limit : Int) - 60)))
        (naturalPower 2 (-(exponent - 2)) * naturalPower 10 ((limit : Int) - 60)) with
      | some d => (d, (limit : Int) - 60)
      | none => i.search tie exponent limit :=
  rfl

/-- The search ends with a decimal in the interval, at the latest on the finest power of ten. -/
theorem Interval.search_holds (tie : TieRule) {exponent : Int} (hexponent : -149 ≤ exponent)
    (hlower : i.lower < i.center) (hupper : i.center < i.upper) (limit : Nat) (hlimit : 0 < limit) :
    i.Holds exponent (i.search tie exponent limit).1 (i.search tie exponent limit).2 := by
  induction limit, hlimit using Nat.le_induction with
  | base =>
    have hstep := Nat.mul_pos (naturalPower_pos two_pos (-(exponent - 2)))
      (naturalPower_pos (b := 10) (by decide) (-60))
    obtain ⟨d, hd⟩ := Option.isSome_iff_exists.mp
      (isSome_multiple? tie (finest_step hexponent) hstep hlower)
    rw [search_succ]
    simp only [Nat.cast_zero, zero_sub, hd]
    exact multiple?_holds hlower hupper hd
  | succ limit _ ih =>
    rw [search_succ]
    split
    · next d hd => exact multiple?_holds hlower hupper hd
    · exact ih

theorem shortest_of_isZero (hzero : x.isZero = true) :
    x.shortest tie = ⟨x.isNegative, 0, 0⟩ := by
  rw [shortest, if_pos hzero]

theorem shortest_of_search (hzero : x.isZero = false) {d : Nat} {p : Int}
    (h : x.interval.search tie x.exponent 100 = (d, p)) :
    x.shortest tie = ⟨x.isNegative, d, p⟩ := by
  rw [shortest, h, hzero, if_neg Bool.false_ne_true]

theorem shortest_holds (tie : TieRule) (hx : x.isFinite) (hzero : x.isZero = false) :
    ∃ d p, x.shortest tie = ⟨x.isNegative, d, p⟩ ∧ x.interval.Holds x.exponent d p := by
  obtain ⟨hcases, hbits⟩ := x.mantissa_cases hx
  have hnonzero : x.magnitude ≠ 0 := of_decide_eq_false hzero
  have hlower : x.interval.lower < x.interval.center := by
    simp only [interval]
    split <;> omega
  have hupper : x.interval.center < x.interval.upper := by
    simp only [interval]
    omega
  have hexponent : -149 ≤ x.exponent := by omega
  have hholds := Interval.search_holds tie hexponent hlower hupper 100 (by decide)
  rcases hsearch : x.interval.search tie x.exponent 100 with ⟨d, p⟩
  rw [hsearch] at hholds
  exact ⟨d, p, shortest_of_search hzero hsearch, hholds⟩

theorem shortest_negative (tie : TieRule) (hx : x.isFinite) : (x.shortest tie).negative = x.isNegative := by
  cases hzero : x.isZero with
  | true => rw [shortest_of_isZero hzero]
  | false =>
    obtain ⟨d, p, hshortest, -⟩ := shortest_holds tie hx hzero
    rw [hshortest]

end Binary32

/-! ### Rounding decimals -/

namespace Decimal

variable {d : Decimal} {x : Binary32} {tie : TieRule}

/-- The absolute value. -/
def size (d : Decimal) : ℚ :=
  d.coefficient * 10 ^ d.exponent

theorem size_eq_ratio (d : Decimal) :
    d.size = (d.coefficient * naturalPower 10 d.exponent : Nat) /
      (naturalPower 10 (-d.exponent) : Nat) := by
  rw [size, Nat.cast_mul, mul_div_assoc, naturalPower_ratio]
  rfl

/-- The leading power of ten bounds a positive decimal from both sides. -/
theorem leadingPower_spec (hd : d.coefficient ≠ 0) :
    (10 : ℚ) ^ d.leadingPower ≤ d.size ∧ d.size < 10 ^ (d.leadingPower + 1) := by
  have hlength : 0 < d.digits.length := Nat.length_toDigits_pos
  have hpositive : (0 : ℚ) < 10 ^ d.exponent := by positivity
  have hupper : d.coefficient < 10 ^ d.digits.length :=
    (Nat.length_toDigits_le_iff (by decide) hlength).mp le_rfl
  have hlower : 10 ^ (d.digits.length - 1) ≤ d.coefficient := by
    by_contra! hlt
    obtain hone | hone := Nat.eq_zero_or_pos (d.digits.length - 1)
    · rw [hone, pow_zero] at hlt
      omega
    · have hle := (Nat.length_toDigits_le_iff (by decide) hone).mpr hlt
      change d.digits.length ≤ d.digits.length - 1 at hle
      omega
  constructor
  · calc (10 : ℚ) ^ d.leadingPower
        = 10 ^ (d.digits.length - 1) * 10 ^ d.exponent := by
          rw [← zpow_natCast, ← zpow_add₀ (by norm_num), leadingPower]
          congr 1
          omega
      _ ≤ d.coefficient * 10 ^ d.exponent := by
          gcongr
          exact_mod_cast hlower
  · calc d.size < 10 ^ d.digits.length * 10 ^ d.exponent := by
          rw [size]
          gcongr
          exact_mod_cast hupper
      _ = 10 ^ (d.leadingPower + 1) := by
          rw [← zpow_natCast, ← zpow_add₀ (by norm_num), leadingPower]
          congr 1
          omega

/-- A decimal that lies next to a finite float is within the range of the format. -/
theorem size_range (hx : x.isFinite) (hzero : x.isZero = false) (h : x.Rounds d.size) :
    (10 : ℚ) ^ (-46 : Int) < d.size ∧ d.size < 10 ^ (39 : Int) := by
  obtain ⟨hcases, hbits⟩ := x.mantissa_cases hx
  have hnonzero : x.magnitude ≠ 0 := of_decide_eq_false hzero
  have hlower : (2 : ℚ) ≤ x.interval.lower := by
    have hle : 2 ≤ x.interval.lower := by
      simp only [Binary32.interval]
      split <;> omega
    exact_mod_cast hle
  have hupper : (x.interval.upper : ℚ) ≤ 2 ^ 27 := by
    have hle : x.interval.upper ≤ 2 ^ 27 := by
      simp only [Binary32.interval]
      omega
    exact_mod_cast hle
  constructor
  · calc (10 : ℚ) ^ (-46 : Int) < 2 * 2 ^ (-151 : Int) := by norm_num
      _ ≤ x.interval.lower * 2 ^ (x.exponent - 2) := by
          gcongr
          · norm_num
          · omega
      _ ≤ d.size := h.lower
  · calc d.size ≤ x.interval.upper * 2 ^ (x.exponent - 2) := h.upper
      _ ≤ 2 ^ 27 * 2 ^ (102 : Int) := by
          gcongr
          · norm_num
          · omega
      _ < 10 ^ (39 : Int) := by norm_num

theorem coefficient_ne_zero (hx : x.isFinite) (hzero : x.isZero = false) (h : x.Rounds d.size) :
    d.coefficient ≠ 0 := by
  have hpositive : (0 : ℚ) < d.size := lt_trans (by positivity) (size_range hx hzero h).1
  intro heq
  rw [size, heq, Nat.cast_zero, zero_mul] at hpositive
  exact lt_irrefl 0 hpositive

theorem round_eq_magnitude (hx : x.isFinite) (hzero : x.isZero = false) (h : x.Rounds d.size) :
    d.round .binary32 = x.magnitude := by
  obtain ⟨hsmall, hlarge⟩ := size_range hx hzero h
  have hcoefficient : d.coefficient ≠ 0 := coefficient_ne_zero hx hzero h
  obtain ⟨hleading, hleading'⟩ := leadingPower_spec hcoefficient
  have hoverflow : d.leadingPower < 39 :=
    (zpow_lt_zpow_iff_right₀ (by norm_num)).mp (hleading.trans_lt hlarge)
  have hunderflow : -46 < d.leadingPower + 1 :=
    (zpow_lt_zpow_iff_right₀ (by norm_num)).mp (hsmall.trans hleading')
  rw [round, if_neg hcoefficient, if_neg (by exact not_le.mpr hoverflow),
    if_neg (by exact not_lt.mpr (Int.lt_add_one_iff.mp hunderflow))]
  rw [size_eq_ratio] at h
  exact Binary32.round_eq hx hzero
    (Nat.mul_pos (Nat.pos_of_ne_zero hcoefficient) (naturalPower_pos (by decide) _))
    (naturalPower_pos (by decide) _) h

end Decimal

namespace Binary32

variable {x : Binary32} {tie : TieRule}

/-- The shortest decimal of a finite float lies next to it. -/
theorem shortest_rounds (tie : TieRule) (hx : x.isFinite) (hzero : x.isZero = false) :
    x.Rounds (x.shortest tie).size := by
  obtain ⟨d, p, hshortest, hl, hu, hc⟩ := shortest_holds tie hx hzero
  rw [hshortest]
  exact ⟨hl, hu, hc.imp_left of_decide_eq_true⟩

theorem toNat_ofMagnitude (negative : Bool) {m : Nat} (hm : m < signBit) :
    (ofMagnitude negative m).bits.toNat = if negative then signBit + m else m := by
  unfold signBit at hm ⊢
  cases negative <;> simp only [ofMagnitude, signBit, Bool.false_eq_true, if_false, if_true] <;>
    exact UInt32.toNat_ofNat_of_lt' (by change _ < 2 ^ 32; omega)

theorem isNegative_ofMagnitude (negative : Bool) {m : Nat} (hm : m < signBit) :
    (ofMagnitude negative m).isNegative = negative := by
  rw [isNegative, toNat_ofMagnitude negative hm]
  cases negative with
  | false => exact decide_eq_false (not_le.mpr hm)
  | true => exact decide_eq_true (Nat.le_add_right _ _)

theorem magnitude_ofMagnitude (negative : Bool) {m : Nat} (hm : m < signBit) :
    (ofMagnitude negative m).magnitude = m := by
  rw [magnitude, toNat_ofMagnitude negative hm]
  cases negative with
  | false => exact Nat.mod_eq_of_lt hm
  | true => exact (Nat.add_mod_left _ _).trans (Nat.mod_eq_of_lt hm)

theorem ofMagnitude_magnitude (x : Binary32) : ofMagnitude x.isNegative x.magnitude = x := by
  obtain ⟨bits⟩ := x
  have hbits : bits.toNat < 2 ^ 32 := bits.toNat_lt
  have hparts : (if signBit ≤ bits.toNat then signBit + bits.toNat % signBit
      else bits.toNat % signBit) = bits.toNat := by
    unfold signBit
    split <;> omega
  simp only [ofMagnitude, isNegative, magnitude, decide_eq_true_eq, hparts, UInt32.ofNat_toNat]

/-- A finite float has the size to which decimals as large as its shortest one are rounded. -/
theorem round_of_size (tie : TieRule) (hx : x.isFinite) {d : Decimal}
    (hsize : d.size = (x.shortest tie).size) : d.round .binary32 = x.magnitude := by
  cases hzero : x.isZero with
  | true =>
    have hcoefficient : d.coefficient = 0 := by
      have hpower : (10 : ℚ) ^ d.exponent ≠ 0 := by positivity
      rw [shortest_of_isZero hzero, Decimal.size, Decimal.size, Nat.cast_zero, zero_mul] at hsize
      exact_mod_cast (mul_eq_zero.mp hsize).resolve_right hpower
    rw [Decimal.round, if_pos hcoefficient]
    exact (of_decide_eq_true hzero).symm
  | false => exact Decimal.round_eq_magnitude hx hzero (hsize ▸ shortest_rounds tie hx hzero)

/-- A finite float is the nearest one to all decimals that are as large as its shortest one. -/
theorem ofDecimal_of_size (tie : TieRule) (hx : x.isFinite) {d : Decimal} (hnegative : d.negative = x.isNegative)
    (hsize : d.size = (x.shortest tie).size) : ofDecimal d = x := by
  rw [ofDecimal, round_of_size tie hx hsize, hnegative, ofMagnitude_magnitude]

end Binary32

end ShaderGraph
