import ShaderGraph.Proofs.Numeric.Whole

/-!
# Counting with floats

A counter starts at a float and is raised by one, with rounding, as long as it is at most some other
float. Between whole numbers up to `2 ^ 24` it takes the whole numbers one after another. It never gets
past `2 ^ 24`: one more is halfway to the next float, and the tie goes back.
-/

namespace ShaderGraph

namespace Binary32

variable {x y last : Binary32} {a b : Int} {r : ℚ} {xs : List Binary32}

/-! ## Sums that are floats and one that is not -/

theorem isNearest_of_value_eq (h : x.value = r) : x.IsNearest r := by
  intro y _
  rw [h, sub_self, abs_zero]
  refine ⟨abs_nonneg _, fun htie ↦ .inl ?_⟩
  linarith [abs_eq_zero.mp htie]

theorem IsNearest.value_eq (h : y.IsNearest r) (hx : x.isNaN = false) (hvalue : x.value = r) :
    y.value = r := by
  obtain ⟨hle, -⟩ := h x hx
  rw [hvalue, sub_self, abs_zero] at hle
  linarith [abs_nonpos_iff.mp hle]

theorem isNaN_of_isFinite (h : x.isFinite) : x.isNaN = false := by
  have hlt : x.magnitude < BinaryFormat.binary32.infinity := of_decide_eq_true h
  exact decide_eq_false (by omega)

/-- The float that is `2 ^ 24`. -/
def limit : Binary32 := ⟨0x4b800000⟩

theorem size_limit : limit.size = 2 ^ 24 := by
  have hmantissa : limit.mantissa = 2 ^ 23 := by decide
  have hexponent : limit.exponent = 1 := by decide
  rw [size, hmantissa, hexponent]
  norm_num

theorem value_limit : limit.value = 2 ^ 24 := size_limit

/-- The float behind `2 ^ 24` is two greater, and its mantissa is odd. -/
theorem size_cases (y : Binary32) :
    y.size < 2 ^ 24 ∨ y.size = 2 ^ 24 ∨ (y.size = 2 ^ 24 + 2 ∧ y.mantissa % 2 = 1) ∨
      2 ^ 24 + 2 < y.size := by
  obtain ⟨next, hbits, hmantissa, hexponent⟩ : ∃ next : Binary32,
      next.magnitude = limit.magnitude + 1 ∧ next.mantissa = 2 ^ 23 + 1 ∧ next.exponent = 1 :=
    ⟨⟨0x4b800001⟩, by decide⟩
  have hlower : limit.interval.lower = 2 ^ 25 - 1 := by decide
  have hlimit : limit.exponent = 1 := by decide
  have hsize : next.size = 2 ^ 24 + 2 := by
    rw [size, hmantissa, hexponent]
    norm_num
  obtain hlt | heq | hgt := lt_trichotomy y.magnitude limit.magnitude
  · have hsizes := size_add_size_le hlt
    rw [size_limit, hlower, hlimit] at hsizes
    norm_num at hsizes ⊢
    exact .inl (by linarith)
  · exact .inr (.inl ((size_congr heq).trans size_limit))
  · obtain heq | hgt := (show next.magnitude ≤ y.magnitude by omega).eq_or_lt
    · refine .inr (.inr (.inl ⟨(size_congr heq.symm).trans hsize, ?_⟩))
      rw [mantissa, ← heq, ← mantissa, hmantissa]
      rfl
    · have hsizes := le_size_add_size hgt
      rw [hsize, interval, hmantissa, hexponent] at hsizes
      norm_num at hsizes ⊢
      exact .inr (.inr (.inr (by linarith)))

/-- The number behind `2 ^ 24` is rounded down to it. -/
theorem IsNearest.value_eq_limit (h : y.IsNearest (2 ^ 24 + 1)) : y.value = 2 ^ 24 := by
  obtain ⟨hle, htie⟩ := h limit rfl
  have hone : |(2 ^ 24 + 1 : ℚ) - limit.value| = 1 := by
    rw [value_limit]
    norm_num
  rw [hone] at hle htie
  obtain ⟨hlow, hhigh⟩ := abs_le.mp hle
  have hpositive : y.value = y.size := by
    rw [value, signed]
    split
    · next hnegative =>
      rw [value, signed, if_pos hnegative] at hhigh
      linarith [y.size_nonneg]
    · rfl
  rw [hpositive] at hlow hhigh htie ⊢
  obtain hlt | heq | ⟨heq, hodd⟩ | hgt := y.size_cases
  · linarith
  · exact heq
  · -- The tie between the two neighbours is broken in favour of the even one.
    obtain hsame | heven := htie (by rw [heq]; norm_num)
    · rw [← hsame, value_limit]
    · omega
  · linarith

/-! ## Counters -/

/-- The comparison of numbers; a NaN is neither smaller nor greater than anything. -/
def AtMost (x y : Binary32) : Prop :=
  x.isNaN = false ∧ y.isNaN = false ∧ x.value ≤ y.value

/-- The values with which a counter passes, from the first one on: it goes on as long as it is at most
the last value and is raised by one, with rounding, after each pass. -/
inductive CountsTo (last : Binary32) : Binary32 → List Binary32 → Prop
  | stop {x : Binary32} (h : ¬ x.AtMost last) : CountsTo last x []
  | pass {x y : Binary32} {xs : List Binary32} (h : x.AtMost last) (hnumber : y.isNaN = false)
    (hnext : y.IsNearest (x.value + 1)) (hrest : CountsTo last y xs) : CountsTo last x (x :: xs)

/-- The whole numbers between two ends, both included. -/
def wholeNumbers (a b : Int) : List ℚ :=
  (List.range (b - a + 1).toNat).map fun k : Nat ↦ (a : ℚ) + k

theorem length_wholeNumbers (a b : Int) : (wholeNumbers a b).length = (b - a + 1).toNat := by
  rw [wholeNumbers, List.length_map, List.length_range]

theorem wholeNumbers_of_lt (h : b < a) : wholeNumbers a b = [] := by
  rw [wholeNumbers, Int.toNat_of_nonpos (by omega)]
  rfl

theorem wholeNumbers_of_le (h : a ≤ b) : wholeNumbers a b = (a : ℚ) :: wholeNumbers (a + 1) b := by
  have hcount : (b - a + 1).toNat = (b - (a + 1) + 1).toNat + 1 := by omega
  rw [wholeNumbers, wholeNumbers, hcount, List.range_succ_eq_map, List.map_cons, List.map_map,
    Nat.cast_zero, add_zero]
  refine congrArg _ (List.map_congr_left fun k _ ↦ ?_)
  simp only [Function.comp_apply, Nat.cast_succ, Int.cast_add, Int.cast_one]
  ring

theorem value_next (ha : x.value = a) (hlow : -2 ^ 24 ≤ a) (hhigh : a < 2 ^ 24)
    (h : y.IsNearest (x.value + 1)) : y.value = (a + 1 : Int) := by
  obtain ⟨hfinite, -, -, hvalue⟩ := ofInt_spec (b := a + 1) (by omega)
  rw [ha, ← Int.cast_one, ← Int.cast_add] at h
  exact h.value_eq (isNaN_of_isFinite hfinite) hvalue

theorem value_next_limit (ha : x.value = (2 ^ 24 : Int)) (h : y.IsNearest (x.value + 1)) :
    y.value = (2 ^ 24 : Int) := by
  rw [ha] at h
  push_cast at h ⊢
  exact h.value_eq_limit

section Counters

variable (hlast : last.isNaN = false) (hb : last.value = b)

include hlast hb

theorem atMost_iff (hx : x.isNaN = false) (ha : x.value = a) : x.AtMost last ↔ a ≤ b := by
  rw [AtMost, ha, hb]
  simp [hx, hlast]

/-- A counter that ends has passed its last value, which is below `2 ^ 24`. -/
theorem CountsTo.lt_limit (h : CountsTo last x xs) (hx : x.isNaN = false) (ha : x.value = a)
    (hlow : -2 ^ 24 ≤ a) (hhigh : a ≤ 2 ^ 24) (hab : a ≤ b) : b < 2 ^ 24 := by
  induction h generalizing a with
  | stop hstop => exact absurd ((atMost_iff hlast hb hx ha).mpr hab) hstop
  | pass hmost hnumber hnext _ ih =>
    obtain rfl | hlt := hhigh.eq_or_lt
    · exact ih hnumber (value_next_limit ha hnext) (by norm_num) le_rfl hab
    · by_cases hend : a + 1 ≤ b
      · exact ih hnumber (value_next ha hlow hlt hnext) (by omega) (by omega) hend
      · omega

/-- Between its ends a counter takes all whole numbers, each of them once. -/
theorem CountsTo.map_value (h : CountsTo last x xs) (hx : x.isNaN = false) (ha : x.value = a)
    (hlow : -2 ^ 24 ≤ a) (hhigh : a ≤ 2 ^ 24) : xs.map value = wholeNumbers a b := by
  induction h generalizing a with
  | stop hstop =>
    rw [atMost_iff hlast hb hx ha, not_le] at hstop
    exact (wholeNumbers_of_lt hstop).symm
  | pass hmost hnumber hnext hrest ih =>
    have hab : a ≤ b := (atMost_iff hlast hb hx ha).mp hmost
    have hlt : b < 2 ^ 24 := lt_limit hlast hb (.pass hmost hnumber hnext hrest) hx ha hlow hhigh hab
    rw [List.map_cons, ha, wholeNumbers_of_le hab,
      ih hnumber (value_next ha hlow (by omega) hnext) (by omega) (by omega)]

theorem exists_countsTo (hx : x.isNaN = false) (ha : x.value = a) (hlow : -2 ^ 24 ≤ a)
    (hhigh : a ≤ 2 ^ 24) (hend : b < 2 ^ 24 ∨ b < a) : ∃ xs, CountsTo last x xs := by
  induction hcount : (b - a + 1).toNat generalizing x a with
  | zero =>
    have hba : ¬ a ≤ b := by omega
    exact ⟨[], .stop (mt (atMost_iff hlast hb hx ha).mp hba)⟩
  | succ count ih =>
    have hab : a ≤ b := by omega
    obtain ⟨hfinite, -, -, hvalue⟩ := ofInt_spec (b := a + 1) (by omega)
    have hnumber := isNaN_of_isFinite hfinite
    obtain ⟨xs, hxs⟩ := ih hnumber hvalue (by omega) (by omega) (by omega) (by omega)
    refine ⟨x :: xs, .pass ((atMost_iff hlast hb hx ha).mpr hab) hnumber ?_ hxs⟩
    refine isNearest_of_value_eq ?_
    rw [hvalue, ha]
    push_cast
    rfl

end Counters

/-- A counter between two whole numbers of at most `2 ^ 24` ends unless the last one is `2 ^ 24` itself
and not below the first one. -/
theorem exists_countsTo_iff (ha : a.natAbs ≤ 2 ^ 24) (hb : b.natAbs ≤ 2 ^ 24) :
    (∃ xs, CountsTo (ofInt b) (ofInt a) xs) ↔ b < 2 ^ 24 ∨ b < a := by
  obtain ⟨hfirst, -, -, hfirst'⟩ := ofInt_spec ha
  obtain ⟨hlast, -, -, hlast'⟩ := ofInt_spec hb
  constructor
  · rintro ⟨xs, hxs⟩
    by_contra! hend
    have hlt := hxs.lt_limit (isNaN_of_isFinite hlast) hlast' (isNaN_of_isFinite hfirst) hfirst'
      (by omega) (by omega) hend.2
    omega
  · exact exists_countsTo (isNaN_of_isFinite hlast) hlast' (isNaN_of_isFinite hfirst) hfirst'
      (by omega) (by omega)

end Binary32

end ShaderGraph
