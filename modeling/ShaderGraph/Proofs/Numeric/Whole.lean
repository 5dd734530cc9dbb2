import ShaderGraph.Proofs.Numeric.Literal

/-!
# Whole numbers as floats

A mantissa has twenty-four bits, so all whole numbers up to `2 ^ 24` are floats. The literal of such a
float is the number itself, and counting up by one is exact among them. It ends at `2 ^ 24`: the number
behind it is halfway between two floats, and the even one of them is `2 ^ 24` again.
-/

namespace ShaderGraph

namespace Binary32

variable {x y : Binary32} {n : Nat} {b : Int} {r : ℚ}

/-! ## Whole numbers are floats -/

theorem exists_of_parts {m : Nat} {e : Int} (hm : 2 ^ 23 ≤ m) (hm' : m < 2 ^ 24) (he : -149 ≤ e)
    (he' : e ≤ 104) :
    ∃ x : Binary32, x.isFinite ∧ x.isNegative = false ∧ x.mantissa = m ∧ x.exponent = e := by
  obtain ⟨k, hk⟩ : ∃ k : Nat, e = k - 149 := ⟨(e + 149).toNat, by omega⟩
  have hsign : m + k * 2 ^ 23 < signBit := by
    unfold signBit
    omega
  have hfinite : m + k * 2 ^ 23 < BinaryFormat.binary32.infinity := by
    change _ < 255 * 2 ^ 23
    omega
  have hbit : BinaryFormat.binary32.leadingBit = 2 ^ 23 := rfl
  have hleast : BinaryFormat.binary32.minExponent = -149 := rfl
  have hfield : (m + k * 2 ^ 23) / 2 ^ 23 = k + 1 := by omega
  have hrest : (m + k * 2 ^ 23) % 2 ^ 23 = m - 2 ^ 23 := by omega
  refine ⟨ofMagnitude false (m + k * 2 ^ 23), ?_, isNegative_ofMagnitude false hsign, ?_, ?_⟩
  · rw [isFinite, magnitude_ofMagnitude false hsign]
    exact decide_eq_true hfinite
  · rw [mantissa, magnitude_ofMagnitude false hsign, BinaryFormat.mantissa, hbit, hfield, hrest,
      if_neg (Nat.succ_ne_zero k)]
    omega
  · rw [exponent, magnitude_ofMagnitude false hsign, BinaryFormat.exponent, hbit, hfield, hleast,
      if_neg (Nat.succ_ne_zero k)]
    omega

theorem exists_size_eq (hn : n ≤ 2 ^ 24) :
    ∃ x : Binary32, x.isFinite ∧ x.isNegative = false ∧ x.size = n := by
  obtain rfl | hpos := Nat.eq_zero_or_pos n
  · exact ⟨zero, by decide, by decide, by rw [size_zero, Nat.cast_zero]⟩
  -- The number is moved to the left until its leading bit is the twenty-fourth one.
  obtain ⟨m, e, hm, hm', he, he', hsize⟩ : ∃ (m : Nat) (e : Int), 2 ^ 23 ≤ m ∧ m < 2 ^ 24 ∧
      -149 ≤ e ∧ e ≤ 104 ∧ (m : ℚ) * 2 ^ e = n := by
    obtain rfl | hlt := hn.eq_or_lt
    · exact ⟨2 ^ 23, 1, le_rfl, by norm_num, by norm_num, by norm_num, by norm_num⟩
    · have hlog : n.log2 ≤ 23 := Nat.lt_succ_iff.mp ((Nat.log2_lt hpos.ne').mpr hlt)
      obtain ⟨k, hk⟩ : ∃ k, n.log2 + k = 23 := ⟨23 - n.log2, by omega⟩
      have hlow : 2 ^ n.log2 ≤ n := Nat.log2_self_le hpos.ne'
      have hhigh : n < 2 ^ (n.log2 + 1) := Nat.lt_log2_self
      refine ⟨n * 2 ^ k, -k, ?_, ?_, by omega, by omega, ?_⟩
      · calc 2 ^ 23 = 2 ^ n.log2 * 2 ^ k := by rw [← pow_add, hk]
          _ ≤ n * 2 ^ k := Nat.mul_le_mul_right _ hlow
      · calc n * 2 ^ k < 2 ^ (n.log2 + 1) * 2 ^ k := Nat.mul_lt_mul_of_pos_right hhigh (by positivity)
          _ = 2 ^ 24 := by rw [← pow_add, Nat.add_right_comm, hk]
      · rw [zpow_neg, zpow_natCast]
        push_cast
        field_simp
  obtain ⟨x, hfinite, hnegative, rfl, rfl⟩ := exists_of_parts hm hm' he he'
  exact ⟨x, hfinite, hnegative, hsize⟩

theorem rounds_size (hzero : x.isZero = false) : x.Rounds x.size := by
  obtain ⟨hcases, hbits⟩ := x.mantissa_bounds
  have hmagnitude : x.magnitude ≠ 0 := of_decide_eq_false hzero
  have hunit : (0 : ℚ) < 2 ^ (x.exponent - 2) := by positivity
  have hlower : (x.interval.lower : ℚ) < 4 * x.mantissa := by
    have hlt : x.interval.lower < 4 * x.mantissa := by
      simp only [interval]
      split <;> omega
    exact_mod_cast hlt
  have hupper : (4 * x.mantissa : ℚ) < x.interval.upper := by
    simp only [interval]
    push_cast
    linarith
  have hlow := mul_lt_mul_of_pos_right hlower hunit
  have hhigh := mul_lt_mul_of_pos_right hupper hunit
  rw [← size_eq_quarters] at hlow hhigh
  exact ⟨hlow.le, hhigh.le, .inr ⟨hlow, hhigh⟩⟩

theorem round_of_size_eq (hx : x.isFinite) (hsize : x.size = n) :
    BinaryFormat.binary32.round n 1 = x.magnitude := by
  cases hzero : x.isZero with
  | true =>
    have hmagnitude : x.magnitude = 0 := of_decide_eq_true hzero
    have hn : n = 0 := by
      have hsame : x.size = zero.size := size_congr hmagnitude
      rw [hsize, size_zero] at hsame
      exact_mod_cast hsame
    rw [hn, hmagnitude]
    rfl
  | false =>
    have hpos : 0 < n := by
      have hsome := size_pos (of_decide_eq_false hzero)
      rw [hsize] at hsome
      exact_mod_cast hsome
    refine round_eq hx hzero hpos one_pos ?_
    rw [Nat.cast_one, div_one, ← hsize]
    exact rounds_size hzero

/-- A whole number of at most twenty-four bits, or `2 ^ 24`, is converted without loss. -/
theorem ofInt_spec (hb : b.natAbs ≤ 2 ^ 24) :
    (ofInt b).isFinite ∧ (ofInt b).isNegative = decide (b < 0) ∧ (ofInt b).size = b.natAbs ∧
      (ofInt b).value = b := by
  obtain ⟨x, hfinite, -, hsize⟩ := exists_size_eq hb
  have hbound : x.magnitude < BinaryFormat.binary32.infinity := of_decide_eq_true hfinite
  have hsign : x.magnitude < signBit := hbound.trans (by decide)
  have hmagnitude : (ofInt b).magnitude = x.magnitude := by
    rw [ofInt, round_of_size_eq hfinite hsize, magnitude_ofMagnitude _ hsign]
  have hnegative : (ofInt b).isNegative = decide (b < 0) := by
    rw [ofInt, round_of_size_eq hfinite hsize, isNegative_ofMagnitude _ hsign]
  have hsame : (ofInt b).size = b.natAbs := (size_congr hmagnitude).trans hsize
  refine ⟨by rw [isFinite, hmagnitude]; exact hfinite, hnegative, hsame, ?_⟩
  rw [value, hnegative, hsame, signed]
  by_cases hb : b < 0
  · have habs : (b.natAbs : ℤ) = -b := by omega
    rw [decide_eq_true hb, if_pos rfl, ← Int.cast_natCast, habs, Int.cast_neg, neg_neg]
  · have habs : (b.natAbs : ℤ) = b := by omega
    rw [decide_eq_false hb, if_neg Bool.false_ne_true, ← Int.cast_natCast, habs]

/-! ## Their literals -/

/-- Once a power of ten is fine enough for the search, the result is not on a finer one. -/
theorem Interval.search_le {i : Interval} {tie : TieRule} {exponent : Int} {found limit : Nat}
    (hfound : (i.multiple? tie
      (naturalPower 2 (exponent - 2) * naturalPower 10 (-((found : Int) - 60)))
      (naturalPower 2 (-(exponent - 2)) * naturalPower 10 ((found : Int) - 60))).isSome)
    (hlimit : found < limit) : (found : Int) - 60 ≤ (i.search tie exponent limit).2 := by
  induction limit with
  | zero => exact absurd hlimit (Nat.not_lt_zero found)
  | succ limit ih =>
    rw [search_succ]
    split
    · exact Int.sub_le_sub_right (by omega) 60
    · next hnone =>
      refine ih (lt_of_le_of_ne (Nat.lt_succ_iff.mp hlimit) ?_)
      rintro rfl
      rw [hnone] at hfound
      cases hfound

/-- A step that divides the center fits. -/
theorem Interval.isSome_multiple?_of_dvd {i : Interval} (tie : TieRule) {scale step : Nat}
    (hscale : 0 < scale) (hlower : i.lower < i.center) (hdvd : step ∣ i.center * scale) :
    (i.multiple? tie scale step).isSome := by
  have hbelow : i.center * scale / step * step = i.center * scale := Nat.div_mul_cancel hdvd
  have hfits : i.lower * scale < i.center * scale := Nat.mul_lt_mul_of_pos_right hlower hscale
  unfold multiple?
  dsimp only
  rw [hbelow]
  simp only [hfits]
  split_ifs <;> simp_all

section Literals

variable (hx : x.isFinite) (hn' : n < 2 ^ 24) (hsize : x.size = n)

include hx hn' hsize

/-- The last place of the mantissa is worth one at most. -/
theorem exists_exponent : ∃ k : Nat, x.exponent = -k ∧ n * 2 ^ k = x.mantissa := by
  obtain ⟨hcases, hbits⟩ := mantissa_cases hx
  have hexponent : x.exponent ≤ 0 := by
    by_contra hpos
    have hlarge : (2 ^ 23 : ℚ) * 2 ^ (1 : Int) ≤ x.size := by
      have hle : 2 ^ 23 ≤ x.mantissa := by omega
      unfold size
      gcongr
      · exact_mod_cast hle
      · norm_num
      · omega
    have hlt : (n : ℚ) < 2 ^ 24 := by exact_mod_cast hn'
    rw [hsize] at hlarge
    norm_num at hlarge hlt
    linarith
  refine ⟨(-x.exponent).toNat, by omega, ?_⟩
  generalize hk : (-x.exponent).toNat = k
  rw [size, show x.exponent = -(k : Int) by omega, zpow_neg, zpow_natCast, ← div_eq_mul_inv,
    div_eq_iff (by positivity)] at hsize
  exact_mod_cast hsize.symm

/-- The only whole number in the interval is the float itself. -/
theorem eq_of_holds {d p : Nat} (h : x.interval.Holds x.exponent d p) : d * 10 ^ p = n := by
  obtain ⟨k, hk, -⟩ := exists_exponent hx hn' hsize
  obtain ⟨hlow, hhigh, -⟩ := h
  have hunit : (2 : ℚ) ^ x.exponent ≤ 1 := zpow_le_one_of_nonpos₀ one_le_two (by omega)
  have hlower : (4 * x.mantissa : ℚ) - 2 ≤ x.interval.lower := by
    have hle : 4 * x.mantissa ≤ x.interval.lower + 2 := by
      simp only [interval]
      split <;> omega
    have hcast : (4 * x.mantissa : ℚ) ≤ x.interval.lower + 2 := by exact_mod_cast hle
    linarith
  have hupper : (x.interval.upper : ℚ) = 4 * x.mantissa + 2 := by
    simp only [interval]
    push_cast
    rfl
  have hfar := mul_le_mul_of_nonneg_right hlower (by positivity : (0 : ℚ) ≤ 2 ^ x.exponent)
  rw [zpow_natCast, quarters] at hlow hhigh
  rw [hupper] at hhigh
  rw [size] at hsize
  have hge : (n : ℚ) < (d * 10 ^ p : Nat) + 1 := by
    push_cast
    linarith
  have hle : ((d * 10 ^ p : Nat) : ℚ) < n + 1 := by
    push_cast
    linarith
  have hge' : n < d * 10 ^ p + 1 := by exact_mod_cast hge
  have hle' : d * 10 ^ p < n + 1 := by exact_mod_cast hle
  omega

/-- The shortest decimal of a whole number has no places behind the point and is the number. -/
theorem shortest_of_size_eq (hn : 0 < n) (tie : TieRule) :
    ∃ d p : Nat, x.shortest tie = ⟨x.isNegative, d, p⟩ ∧ d * 10 ^ p = n := by
  obtain ⟨k, hk, hparts⟩ := exists_exponent hx hn' hsize
  obtain ⟨hcases, hbits⟩ := mantissa_cases hx
  have hmantissa : 0 < x.mantissa := by
    rw [← hparts]
    positivity
  have hzero : x.isZero = false := decide_eq_false (by omega)
  have hlower : x.interval.lower < x.interval.center := by
    simp only [interval]
    split <;> omega
  have hone : (x.interval.multiple? tie
      (naturalPower 2 (x.exponent - 2) * naturalPower 10 (-(((60 : Nat) : Int) - 60)))
      (naturalPower 2 (-(x.exponent - 2)) * naturalPower 10 (((60 : Nat) : Int) - 60))).isSome := by
    have hscale : naturalPower 2 (x.exponent - 2) = 1 := by
      rw [naturalPower, Int.toNat_of_nonpos (by omega)]
    have hstep : naturalPower 2 (-(x.exponent - 2)) = 2 ^ (k + 2) := by
      rw [naturalPower, show (-(x.exponent - 2)).toNat = k + 2 by omega]
      rfl
    rw [hscale, hstep]
    refine Interval.isSome_multiple?_of_dvd tie (by decide) hlower ⟨n, ?_⟩
    change 4 * x.mantissa * 1 = 2 ^ (k + 2) * 1 * n
    rw [← hparts]
    ring
  have hfine := Interval.search_le hone (by decide : 60 < 100)
  obtain ⟨d, p, hshortest, hholds⟩ := shortest_holds tie hx hzero
  obtain ⟨q, rfl⟩ : ∃ q : Nat, p = q := by
    refine Int.eq_ofNat_of_zero_le ?_
    rcases hsearch : x.interval.search tie x.exponent 100 with ⟨d', p'⟩
    rw [shortest_of_search hzero hsearch] at hshortest
    rw [hsearch] at hfine
    obtain ⟨-, rfl⟩ := Decimal.mk.inj hshortest |>.2
    exact hfine
  exact ⟨d, q, hshortest, eq_of_holds hx hn' hsize hholds⟩

end Literals

theorem toDigits_mul_pow {d : Nat} (hd : 0 < d) (p : Nat) :
    Nat.toDigits 10 (d * 10 ^ p) = Nat.toDigits 10 d ++ List.replicate p '0' := by
  induction p with
  | zero => simp
  | succ p ih =>
    have hpos : 0 < d * 10 ^ p := by positivity
    have hstep := Nat.toDigits_append_toDigits (b := 10) (d := 0) (by decide) hpos (by decide)
    rw [show d * 10 ^ (p + 1) = 10 * (d * 10 ^ p) + 0 by ring, ← hstep, ih, List.append_assoc,
      List.replicate_succ']
    rfl

/-- The literal of a whole number is the number with a zero behind the point. -/
theorem literal_ofInt (hb : b.natAbs ≤ 2 ^ 24) : (ofInt b).literal = s!"{b}.0" := by
  obtain ⟨hfinite, hnegative, hsize, -⟩ := ofInt_spec hb
  obtain hedge | hlt := hb.eq_or_lt
  · obtain rfl | rfl : b = 2 ^ 24 ∨ b = -2 ^ 24 := by omega
    · decide +kernel
    · decide +kernel
  obtain hzero | hpos := Nat.eq_zero_or_pos b.natAbs
  · obtain rfl : b = 0 := Int.natAbs_eq_zero.mp hzero
    decide +kernel
  obtain ⟨d, p, hshortest, hproduct⟩ := shortest_of_size_eq hfinite hlt hsize hpos .upper
  have hd : 0 < d := Nat.pos_of_ne_zero (by rintro rfl; omega)
  have hdigits : Nat.toDigits 10 b.natAbs = Nat.toDigits 10 d ++ List.replicate p '0' := by
    rw [← hproduct, toDigits_mul_pow hd]
  rw [literal, if_pos hfinite, hshortest, Decimal.pointed, if_pos (Int.natCast_nonneg p),
    Decimal.positional, if_pos (Int.natCast_nonneg p), ← String.toList_inj]
  simp only [String.toList_append, String.toList_ofList, Decimal.toList_sign_append, Int.toNat_natCast,
    toString_text, toList_toString_int, hdigits, hnegative, Decimal.digits]

end Binary32

end ShaderGraph
