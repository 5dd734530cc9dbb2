import ShaderGraph.Json.Value
import ShaderGraph.Proofs.Numeric.Decimal

/-!
# Printed JSON numbers are read back

Integers are read back from their texts. The text of a finite float, with or without an exponent, is
read as a decimal of the size of the shortest one.
-/

namespace ShaderGraph.Json

/-- What follows a value: nothing, a comma or a line end. -/
def Ends (rest : List Char) : Prop :=
  ∀ c ∈ rest.head?, c = ',' ∨ c = '\n'

theorem ends_cons {c : Char} (hc : c = ',' ∨ c = '\n') (rest : List Char) : Ends (c :: rest) := by
  rintro c' hc'
  obtain rfl := Option.some.inj hc'
  exact hc

variable {whole fraction tail middle rest ds : List Char} {e : Int}

theorem Ends.isDigit (h : Ends rest) : ∀ c ∈ rest.head?, c.isDigit = false := by
  intro c hc
  obtain rfl | rfl := h c hc <;> rfl

/-! ## Parts of numbers -/

/-- Digits that can stand in front of a point: several of them do not start with a zero. -/
structure IsWhole (whole : List Char) : Prop where
  digits : ∀ c ∈ whole, c.isDigit = true
  nonempty : whole ≠ []
  leading : 1 < whole.length → whole.head? ≠ some '0'

theorem isWhole_toDigits (n : Nat) : IsWhole (Nat.toDigits 10 n) := by
  refine ⟨fun c hc ↦ isDigit_of_mem_toDigits hc, Nat.toDigits_ne_nil, fun hlength ↦ ?_⟩
  apply head?_toDigits
  rintro rfl
  exact absurd hlength (by decide)

theorem isWhole_singleton {c : Char} (hc : c.isDigit = true) : IsWhole [c] :=
  ⟨by simpa using hc, List.cons_ne_nil _ _, fun hlength ↦ absurd hlength (by simp)⟩

theorem readNumber_eq (negative : Bool) (hwhole : IsWhole whole)
    (htail : ∀ c ∈ tail.head?, c.isDigit = false)
    (hfraction : readFraction tail = some (fraction, middle))
    (hexponent : readExponent middle = some (e, rest)) :
    readNumber (signedText negative (whole ++ tail)) =
      some (⟨⟨negative, digitsValue (whole ++ fraction), e - fraction.length⟩,
        tail.length = rest.length⟩, rest) := by
  obtain ⟨hdigits, hne, hleading⟩ := hwhole
  have hsplit : splitDigits (whole ++ tail) = (whole, tail) := splitDigits_append hdigits htail
  have hsign : (if (signedText negative (whole ++ tail)).head? = some '-' then
      (true, (signedText negative (whole ++ tail)).tail)
      else (false, signedText negative (whole ++ tail))) = (negative, whole ++ tail) := by
    obtain _ | ⟨c, cs⟩ := whole
    · exact absurd rfl hne
    · have hminus : c ≠ '-' := digit_ne (hdigits c List.mem_cons_self) '-' rfl
      cases negative <;> simp [signedText, hminus]
  have hplain : (whole.isEmpty || (decide (1 < whole.length) && decide (whole.head? = some '0'))) =
      false := by
    simpa [hne] using hleading
  simp only [readNumber, hsign, hsplit, hplain, hfraction, hexponent, Bool.false_eq_true, if_false,
    Option.bind_eq_bind, Option.bind_some, Option.pure_def]

theorem readFraction_of_ne (h : rest.head? ≠ some '.') : readFraction rest = some ([], rest) := by
  unfold readFraction
  split
  · exact absurd rfl h
  · rfl

theorem readFraction_digits (hds : ∀ c ∈ ds, c.isDigit = true) (hne : ds ≠ [])
    (hrest : ∀ c ∈ rest.head?, c.isDigit = false) :
    readFraction ('.' :: (ds ++ rest)) = some (ds, rest) := by
  simp [readFraction, splitDigits_append hds hrest, hne]

theorem Ends.readExponent (h : Ends rest) : Json.readExponent rest = some (0, rest) := by
  cases rest with
  | nil => rfl
  | cons c rest =>
    have hc : ¬ (c = 'e' ∨ c = 'E') := by
      obtain rfl | rfl := h c rfl <;> decide
    rw [Json.readExponent, if_neg hc]

theorem Ends.readFraction (h : Ends rest) : Json.readFraction rest = some ([], rest) := by
  refine readFraction_of_ne fun hhead ↦ ?_
  obtain heq | heq := h '.' hhead <;> exact absurd heq (by decide)

/-- Digits after the mark of an exponent and a sign. -/
theorem readExponent_digits (minus : Bool) (hds : ∀ c ∈ ds, c.isDigit = true) (hne : ds ≠ [])
    (hrest : ∀ c ∈ rest.head?, c.isDigit = false) :
    readExponent ('e' :: (if minus then '-' else '+') :: (ds ++ rest)) =
      some (signedValue minus (digitsValue ds), rest) := by
  cases minus <;> simp [readExponent, splitSign, splitDigits_append hds hrest, hne]

/-- A number starts with a digit or a minus. -/
theorem exists_of_readNumber {cs : List Char} {p : Numeral × List Char} (h : readNumber cs = some p) :
    ∃ c more, cs = c :: more ∧ (c.isDigit = true ∨ c = '-') := by
  obtain _ | ⟨c, more⟩ := cs
  · cases h
  · refine ⟨c, more, rfl, ?_⟩
    by_contra! hc
    have hempty : splitDigits (c :: more) = ([], c :: more) := by
      simp [splitDigits, hc.1]
    simp [readNumber, hc.2, hempty] at h

/-! ## Integers -/

theorem readNumber_digits (negative : Bool) (n : Nat) (hrest : Ends rest) :
    readNumber (signedText negative (Nat.toDigits 10 n) ++ rest) =
      some (⟨⟨negative, n, 0⟩, true⟩, rest) := by
  rw [signedText_append, readNumber_eq negative (isWhole_toDigits n) hrest.isDigit hrest.readFraction
    hrest.readExponent]
  simp [digitsValue_toDigits]

theorem readNumber_nat (n : Nat) (hrest : Ends rest) :
    readNumber ((toString n).toList ++ rest) = some (⟨⟨false, n, 0⟩, true⟩, rest) := by
  rw [Nat.toString_eq_repr, Nat.toList_repr]
  exact readNumber_digits false n hrest

theorem readNumber_int (n : Int) (hrest : Ends rest) :
    readNumber ((toString n).toList ++ rest) =
      some (⟨⟨decide (n < 0), n.natAbs, 0⟩, true⟩, rest) := by
  rw [toList_toString_int]
  exact readNumber_digits _ _ hrest

/-! ## Floats -/

/-- The text is read as a number with this value wherever a value ends. -/
def ReadsNumber (text : String) (n : Numeral) : Prop :=
  ∀ ⦃rest : List Char⦄, Ends rest → readNumber (text.toList ++ rest) = some (n, rest)

variable {d : Decimal}

theorem readsNumber_pointed (hd : d.coefficient ≠ 0 ∨ d.exponent ≤ 0) :
    ∃ n, ReadsNumber d.pointed n ∧ n.value.negative = d.negative ∧ n.value.size = d.size := by
  obtain ⟨whole, fraction, htext, hwhole, hfraction, hne, hne', hleading, hsize⟩ := d.exists_pointed
  refine ⟨⟨⟨d.negative, digitsValue (whole ++ fraction), 0 - fraction.length⟩, false⟩, ?_, rfl, ?_⟩
  · intro rest hrest
    have htail : ∀ c ∈ ('.' :: (fraction ++ rest)).head?, c.isDigit = false := by
      simp [Char.isDigit]
    have hlength : ('.' :: (fraction ++ rest)).length ≠ rest.length := by
      rw [List.length_cons, List.length_append]
      omega
    rw [htext, signedText_append, List.append_assoc, List.cons_append,
      readNumber_eq d.negative ⟨hwhole, hne, hleading hd⟩ htail
        (readFraction_digits hfraction hne' hrest.isDigit) hrest.readExponent,
      decide_eq_false hlength]
  · rw [← hsize, Decimal.size, zero_sub]

/-- The fraction after a leading digit, if more digits follow. -/
def fractionText (cs : List Char) : List Char :=
  if cs.isEmpty then [] else '.' :: cs

def exponentText (power : Int) : List Char :=
  'e' :: (if decide (power < 0) then '-' else '+') :: Nat.toDigits 10 power.natAbs

theorem readFraction_text {cs : List Char} (hcs : ∀ c ∈ cs, c.isDigit = true) (power : Int)
    (rest : List Char) : readFraction (fractionText cs ++ (exponentText power ++ rest)) =
      some (cs, exponentText power ++ rest) := by
  unfold fractionText
  cases cs with
  | nil => exact readFraction_of_ne (by simp [exponentText])
  | cons c cs =>
    exact readFraction_digits hcs (List.cons_ne_nil _ _) (by simp [exponentText, Char.isDigit])

theorem readExponent_text (power : Int) (hrest : Ends rest) :
    readExponent (exponentText power ++ rest) = some (power, rest) := by
  have hvalue : signedValue (decide (power < 0)) power.natAbs = power := by
    simp only [signedValue, decide_eq_true_eq]
    omega
  have hdigits := readExponent_digits (decide (power < 0))
    (fun c hc ↦ isDigit_of_mem_toDigits (n := power.natAbs) hc) Nat.toDigits_ne_nil hrest.isDigit
  rw [digitsValue_toDigits, hvalue] at hdigits
  exact hdigits

theorem toList_scientific {c : Char} {cs : List Char} (hdigits : d.digits = c :: cs) :
    (scientific d).toList =
      signedText d.negative (c :: (fractionText cs ++ exponentText d.leadingPower)) := by
  have hsign : (if d.leadingPower < 0 then "-" else "+").toList =
      [if decide (d.leadingPower < 0) then '-' else '+'] := by
    by_cases hpower : d.leadingPower < 0 <;> simp [hpower]
  simp only [scientific, hdigits, String.toList_append, hsign, List.append_assoc,
    Decimal.toList_sign_append, String.toList_ofList, Nat.toString_eq_repr, Nat.toList_repr,
    signedText_append]
  cases cs <;> simp [fractionText, exponentText]

theorem readsNumber_scientific (d : Decimal) : ReadsNumber (scientific d) ⟨d, false⟩ := by
  intro rest hrest
  obtain ⟨c, cs, hdigits, hc⟩ := toDigits_eq_cons d.coefficient
  have hcs : ∀ c' ∈ cs, c'.isDigit = true := fun c' hc' ↦
    isDigit_of_mem_toDigits (n := d.coefficient) (hdigits ▸ List.mem_cons_of_mem c hc')
  have htail : ∀ c' ∈ (fractionText cs ++ (exponentText d.leadingPower ++ rest)).head?,
      c'.isDigit = false := by
    cases cs <;> simp [fractionText, exponentText, Char.isDigit]
  have hlength : (fractionText cs ++ (exponentText d.leadingPower ++ rest)).length ≠ rest.length := by
    simp only [exponentText, List.length_append, List.length_cons]
    omega
  have hvalue : digitsValue ([c] ++ cs) = d.coefficient := by
    rw [List.singleton_append, ← hdigits, digitsValue_toDigits]
  have hexponent : d.leadingPower - cs.length = d.exponent := by
    have hdigits' : d.digits = c :: cs := hdigits
    rw [Decimal.leadingPower, hdigits', List.length_cons]
    omega
  rw [toList_scientific hdigits, signedText_append, List.cons_append, List.append_assoc,
    ← List.singleton_append, readNumber_eq d.negative (isWhole_singleton hc) htail
      (readFraction_text hcs _ _) (readExponent_text _ hrest), decide_eq_false hlength, hvalue,
    hexponent]

theorem withoutTrailingZeros_spec (limit : Nat) (d : Decimal) :
    (withoutTrailingZeros limit d).negative = d.negative ∧
      (withoutTrailingZeros limit d).size = d.size := by
  induction limit generalizing d with
  | zero => exact ⟨rfl, rfl⟩
  | succ limit ih =>
    rw [withoutTrailingZeros]
    split
    · next hzero =>
      obtain ⟨hnegative, hsize⟩ := ih ⟨d.negative, d.coefficient / 10, d.exponent + 1⟩
      refine ⟨hnegative, hsize.trans ?_⟩
      have hdiv : d.coefficient / 10 * 10 = d.coefficient := by
        simp only [Bool.and_eq_true, decide_eq_true_eq] at hzero
        omega
      have hcast : (d.coefficient : ℚ) = (d.coefficient / 10 : Nat) * 10 := by
        exact_mod_cast hdiv.symm
      rw [Decimal.size, Decimal.size, hcast, zpow_add₀ (by norm_num), zpow_one]
      ring
    · exact ⟨rfl, rfl⟩

/-- The text of a finite float is read as a decimal of the size of the shortest one. -/
theorem exists_readsNumber {x : Binary32} (hx : x.isFinite = true) :
    ∃ n, ReadsNumber (floatText x) n ∧ n.value.negative = x.isNegative ∧
      n.value.size = (x.shortest .even).size := by
  have hnegative := Binary32.shortest_negative .even hx
  simp only [floatText]
  split
  · have hd : (x.shortest .even).coefficient ≠ 0 ∨ (x.shortest .even).exponent ≤ 0 := by
      cases hzero : x.isZero with
      | true =>
        rw [Binary32.shortest_of_isZero hzero]
        exact .inr le_rfl
      | false =>
        exact .inl (Decimal.coefficient_ne_zero hx hzero (Binary32.shortest_rounds .even hx hzero))
    obtain ⟨n, hn, hsign, hsize⟩ := readsNumber_pointed hd
    exact ⟨n, hn, hsign.trans hnegative, hsize⟩
  · obtain ⟨hsign, hsize⟩ :=
      withoutTrailingZeros_spec (x.shortest .even).digits.length (x.shortest .even)
    exact ⟨_, readsNumber_scientific _, hsign.trans hnegative, hsize⟩

end ShaderGraph.Json
