import Mathlib.Data.List.TakeWhile
import ShaderGraph.Proofs.Numeric.Shortest
import ShaderGraph.Text.Ascii

/-!
# Numbers in decimal text

The digits of a number denote it, and a sign in front of them negates it. The text of a decimal has
digits on both sides of a point, and they make up its size.
-/

namespace ShaderGraph

/-! ## Digits -/

theorem digitsValue_toDigits (n : Nat) : digitsValue (Nat.toDigits 10 n) = n :=
  Nat.ofDigitChars_ten_toDigits

theorem isDigit_of_mem_toDigits {n : Nat} {c : Char} (hc : c ∈ Nat.toDigits 10 n) :
    c.isDigit = true :=
  Nat.isDigit_of_mem_toDigits (by decide) le_rfl hc

theorem toDigits_eq_cons (n : Nat) :
    ∃ c cs, Nat.toDigits 10 n = c :: cs ∧ c.isDigit = true := by
  rcases h : Nat.toDigits 10 n with _ | ⟨c, cs⟩
  · exact absurd h Nat.toDigits_ne_nil
  · exact ⟨c, cs, rfl, isDigit_of_mem_toDigits (h ▸ List.mem_cons_self)⟩

/-- The digits of a positive number do not start with a zero. -/
theorem head?_toDigits {n : Nat} (hn : n ≠ 0) : (Nat.toDigits 10 n).head? ≠ some '0' := by
  induction n using Nat.strongRecOn with
  | ind n ih =>
    obtain hlt | hge := Nat.lt_or_ge n 10
    · have hdigit : ∀ k < 10, k ≠ 0 → Nat.digitChar k ≠ '0' := by decide
      rw [Nat.toDigits_of_lt_base hlt, List.head?_cons]
      exact fun heq ↦ hdigit n hlt hn (Option.some.inj heq)
    · rw [Nat.toDigits_of_base_le (by decide) hge, List.head?_append_of_ne_nil _ Nat.toDigits_ne_nil]
      exact ih (n / 10) (Nat.div_lt_self (by omega) (by decide)) (by omega)

section Digit

variable {c : Char} (hc : c.isDigit = true)

include hc

theorem digit_bounds : 48 ≤ c.toNat ∧ c.toNat ≤ 57 := by
  simp only [Char.isDigit, Bool.and_eq_true, decide_eq_true_eq, ge_iff_le, UInt32.le_iff_toNat_le]
    at hc
  exact hc

/-- A digit is no other character that readers look for. -/
theorem digit_ne (other : Char) (hother : other.isDigit = false) : c ≠ other := by
  rintro rfl
  exact Bool.false_ne_true (hother.symm.trans hc)

theorem hexValue?_digit : hexValue? c = some (c.toNat - 48) := by
  have hbounds := digit_bounds hc
  have hrange : '0' ≤ c ∧ c ≤ '9' := hbounds
  rw [hexValue?, if_pos hrange]
  rfl

end Digit

theorem splitDigits_append {ds : List Char} (hds : ∀ c ∈ ds, c.isDigit = true) {rest : List Char}
    (hrest : ∀ c ∈ rest.head?, c.isDigit = false) : splitDigits (ds ++ rest) = (ds, rest) := by
  have hnone : rest.takeWhile Char.isDigit = [] ∧ rest.dropWhile Char.isDigit = rest := by
    cases rest with
    | nil => exact ⟨rfl, rfl⟩
    | cons c cs => simp [hrest c rfl]
  rw [splitDigits, List.takeWhile_append_of_pos hds, List.dropWhile_append_of_pos hds, hnone.1,
    hnone.2, List.append_nil]

/-- Digits with a minus in front of them if they denote a negative number. -/
def signedText (negative : Bool) (cs : List Char) : List Char :=
  if negative then '-' :: cs else cs

theorem mem_signedText {negative : Bool} {c : Char} {cs : List Char}
    (hc : c ∈ signedText negative cs) : c = '-' ∨ c ∈ cs := by
  cases negative with
  | true => exact List.mem_cons.mp hc
  | false => exact .inr hc

theorem splitSign_signedText (negative : Bool) {c : Char} {cs : List Char} (hc : c.isDigit = true) :
    splitSign (signedText negative (c :: cs)) = (negative, c :: cs) := by
  have hminus : c ≠ '-' := digit_ne hc '-' rfl
  have hplus : c ≠ '+' := digit_ne hc '+' rfl
  cases negative with
  | true => rfl
  | false =>
    change splitSign (c :: cs) = (false, c :: cs)
    unfold splitSign
    split <;> simp_all

theorem toList_toString_int (n : Int) :
    (toString n).toList = signedText (decide (n < 0)) (Nat.toDigits 10 n.natAbs) := by
  rw [Int.toString_eq_repr, Int.repr_eq_if, signedText]
  by_cases h : 0 ≤ n
  · rw [if_pos h, if_neg (by simpa using h), Nat.toList_repr]
    congr 1
    omega
  · rw [if_neg h, if_pos (by simpa using h), String.toList_append, Nat.toList_repr,
      show (-n).toNat = n.natAbs by omega]
    rfl

/-! ## Decimals -/

theorem isDigit_replicate {n : Nat} {c : Char} (hc : c ∈ List.replicate n '0') :
    c.isDigit = true := by
  rw [List.eq_of_mem_replicate hc]
  rfl

/-- The text of a decimal: digits on both sides of a point that together make up its size. -/
structure Decimal.Pointed (d : Decimal) (whole fraction : List Char) : Prop where
  text : d.pointed.toList = signedText d.negative (whole ++ '.' :: fraction)
  left : ∀ c ∈ whole, c.isDigit = true
  right : ∀ c ∈ fraction, c.isDigit = true
  left_nonempty : whole ≠ []
  right_nonempty : fraction ≠ []
  /-- Several digits in front of the point do not start with a zero. -/
  leading : d.coefficient ≠ 0 ∨ d.exponent ≤ 0 → 1 < whole.length → whole.head? ≠ some '0'
  size : (digitsValue (whole ++ fraction) : ℚ) * 10 ^ (-(fraction.length : Int)) = d.size

theorem Decimal.toList_sign_append (d : Decimal) (cs : List Char) :
    d.sign.toList ++ cs = signedText d.negative cs := by
  unfold sign signedText
  split <;> rfl

theorem signedText_append (negative : Bool) (cs more : List Char) :
    signedText negative cs ++ more = signedText negative (cs ++ more) := by
  cases negative <;> rfl

theorem Decimal.exists_pointed (d : Decimal) : ∃ whole fraction, d.Pointed whole fraction := by
  have hdigits : ∀ c ∈ d.digits, c.isDigit = true := fun c hc ↦ isDigit_of_mem_toDigits hc
  have hvalue : digitsValue d.digits = d.coefficient := digitsValue_toDigits _
  have hne : d.digits ≠ [] := Nat.toDigits_ne_nil
  have hhead : d.coefficient ≠ 0 → d.digits.head? ≠ some '0' := head?_toDigits
  have hzero : d.coefficient = 0 → d.digits.length = 1 := fun h ↦ by rw [digits, h]; rfl
  by_cases hexponent : 0 ≤ d.exponent
  · -- Zeros fill up the places to the left of the point, and one stands to its right.
    refine ⟨d.digits ++ List.replicate d.exponent.toNat '0', ['0'], ?_, ?_, ?_, ?_, ?_, ?_, ?_⟩
    · simp only [pointed, positional, if_pos hexponent, String.toList_append, String.toList_ofList,
        toList_sign_append, signedText_append, List.append_assoc]
      rfl
    · exact List.forall_mem_append.mpr ⟨hdigits, fun c ↦ isDigit_replicate⟩
    · exact fun c hc ↦ isDigit_replicate (n := 1) hc
    · exact List.append_ne_nil_of_left_ne_nil hne _
    · exact List.cons_ne_nil _ _
    · intro hlead hlength
      rw [List.head?_append_of_ne_nil _ hne]
      refine hhead fun hcoefficient ↦ ?_
      rw [List.length_append, hzero hcoefficient, List.length_replicate] at hlength
      omega
    · obtain ⟨n, hn⟩ := Int.eq_ofNat_of_zero_le hexponent
      have hzeros : digitsValue ((d.digits ++ List.replicate n '0') ++ ['0']) =
          10 * (10 ^ n * d.coefficient) := by
        change Nat.ofDigitChars 10 _ 0 = _
        rw [Nat.ofDigitChars_append, Nat.ofDigitChars_append, Nat.ofDigitChars_replicate_zero]
        change 10 * (10 ^ n * digitsValue d.digits) + 0 = _
        rw [hvalue, add_zero]
      rw [hn, Int.toNat_natCast, hzeros, size, hn, zpow_natCast, List.length_singleton]
      push_cast
      rw [zpow_neg, zpow_one]
      field_simp
  · obtain ⟨k, hk⟩ : ∃ k : Nat, d.exponent = -k := ⟨(-d.exponent).toNat, by omega⟩
    have hplaces : (-d.exponent).toNat = k := by omega
    by_cases hlength : k < d.digits.length
    · -- The point stands among the digits.
      refine ⟨d.digits.take (d.digits.length - k), d.digits.drop (d.digits.length - k),
        ?_, ?_, ?_, ?_, ?_, ?_, ?_⟩
      · simp only [pointed, positional, if_neg hexponent, hplaces, if_pos hlength,
          String.toList_append, String.toList_ofList, toList_sign_append, signedText_append,
          List.append_assoc]
        rfl
      · exact fun c hc ↦ hdigits c (List.mem_of_mem_take hc)
      · exact fun c hc ↦ hdigits c (List.mem_of_mem_drop hc)
      · rw [Ne, List.take_eq_nil_iff]
        exact not_or.mpr ⟨by omega, hne⟩
      · rw [Ne, List.drop_eq_nil_iff]
        omega
      · intro hlead _
        rw [List.head?_take, if_neg (by omega)]
        refine hhead fun hcoefficient ↦ ?_
        rw [hzero hcoefficient] at hlength
        omega
      · rw [List.take_append_drop, hvalue, List.length_drop, size, hk]
        congr 3
        omega
    · -- Zeros stand between the point and the digits.
      refine ⟨['0'], List.replicate (k - d.digits.length) '0' ++ d.digits, ?_, ?_, ?_, ?_, ?_,
        ?_, ?_⟩
      · simp only [pointed, positional, if_neg hexponent, hplaces, if_neg hlength,
          String.toList_append, String.toList_ofList, toList_sign_append, signedText_append]
        rfl
      · exact fun c hc ↦ isDigit_replicate (n := 1) hc
      · exact List.forall_mem_append.mpr ⟨fun c ↦ isDigit_replicate, hdigits⟩
      · exact List.cons_ne_nil _ _
      · exact List.append_ne_nil_of_right_ne_nil _ hne
      · exact fun _ hlength ↦ absurd hlength (by decide)
      · have hzeros : digitsValue (['0'] ++ (List.replicate (k - d.digits.length) '0' ++ d.digits)) =
            d.coefficient := by
          change Nat.ofDigitChars 10 (List.replicate (k - d.digits.length + 1) '0' ++ d.digits) 0 = _
          rw [Nat.ofDigitChars_append, Nat.ofDigitChars_replicate_zero, Nat.mul_zero]
          exact hvalue
        rw [hzeros, List.length_append, List.length_replicate, size, hk]
        congr 3
        omega

end ShaderGraph
