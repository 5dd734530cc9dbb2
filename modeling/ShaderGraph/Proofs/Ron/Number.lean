import ShaderGraph.Proofs.Numeric.Decimal
import ShaderGraph.Ron.Number

/-!
# Printed numbers are read back

Integers and finite floats are read back from their texts. The text of a float is a decimal of the size
of its shortest one.
-/

namespace ShaderGraph

namespace Ron

/-! ## Integers -/

theorem foldlM_appendDigit? {ds : List Char} (hds : ∀ c ∈ ds, c.isDigit = true) (n : Nat) :
    ds.foldlM (appendDigit? 10) n = some (Nat.ofDigitChars 10 ds n) := by
  induction ds generalizing n with
  | nil => rfl
  | cons c ds ih =>
    obtain ⟨hc, hds⟩ := List.forall_mem_cons.mp hds
    have hdigit : appendDigit? 10 n c = some (10 * n + (c.toNat - 48)) := by
      have hbounds := digit_bounds hc
      have hsmall : c.toNat - 48 < 10 := by omega
      simp only [appendDigit?, if_neg (digit_ne hc '_' rfl), hexValue?_digit hc,
        if_pos hsmall]
    rw [List.foldlM_cons, hdigit]
    exact ih hds _

theorem ofBasedDigits?_digits {c : Char} {ds : List Char}
    (hds : ∀ d ∈ c :: ds, d.isDigit = true) : ofBasedDigits? (c :: ds) = some (digitsValue (c :: ds)) := by
  have hbase : splitBase (c :: ds) = (10, c :: ds) := by
    unfold splitBase
    split <;> simp_all [Char.isDigit]
  have hunderscore : c ≠ '_' := digit_ne (hds c List.mem_cons_self) '_' rfl
  unfold ofBasedDigits?
  rw [hbase]
  split
  · next h => cases h
  · next h =>
    cases h
    exact absurd rfl hunderscore
  · next h =>
    cases h
    exact foldlM_appendDigit? hds 0

/-- Digits after a sign are an integer without a type. -/
theorem readInteger?_signedText (negative : Bool) (n : Nat) :
    readInteger? (signedText negative (Nat.toDigits 10 n)) =
      some (signedValue negative n, none) := by
  obtain ⟨c, cs, hdigits, hc⟩ := toDigits_eq_cons n
  have hall : ∀ d ∈ c :: cs, d.isDigit = true := fun d hd ↦
    isDigit_of_mem_toDigits (n := n) (hdigits ▸ hd)
  have hpart : (c :: cs).takeWhile isIntegerPart = c :: cs := by
    rw [List.takeWhile_eq_self_iff]
    intro d hd
    rw [isIntegerPart, hexValue?_digit (hall d hd)]
    rfl
  have htyped : (IntegerType.all.any fun t ↦ decide (t.name = String.ofList [])) = false := by
    decide
  rw [hdigits, readInteger?, splitSign_signedText negative hc]
  simp only [hpart, List.drop_length, htyped, Bool.false_eq_true, if_false,
    ofBasedDigits?_digits hall]
  rw [← hdigits, digitsValue_toDigits]
  rfl

theorem integerOf?_signedText {t : IntegerType} (negative : Bool) {n : Nat}
    (h : t.contains (signedValue negative n) = true) :
    integerOf? t (signedText negative (Nat.toDigits 10 n)) = some (signedValue negative n) := by
  rw [integerOf?, readInteger?_signedText]
  simp [h]

theorem integerOf?_natural {t : IntegerType} {n : Nat} (h : t.contains n = true) :
    integerOf? t (toString n).toList = some (n : Int) := by
  rw [Nat.toString_eq_repr, Nat.toList_repr]
  exact integerOf?_signedText false h

theorem integerOf?_int {t : IntegerType} {n : Int} (h : t.contains n = true) :
    integerOf? t (toString n).toList = some n := by
  have hvalue : signedValue (decide (n < 0)) n.natAbs = n := by
    by_cases hn : n < 0
    · rw [decide_eq_true hn, signedValue, if_pos rfl]
      omega
    · rw [decide_eq_false hn, signedValue, if_neg Bool.false_ne_true]
      omega
  rw [toList_toString_int, integerOf?_signedText _ (hvalue.symm ▸ h), hvalue]

/-! ## Floats -/

theorem underscoresFit_of_notMem {allowed : Bool} {cs : List Char} (h : '_' ∉ cs) :
    underscoresFit allowed cs = true := by
  fun_induction underscoresFit allowed cs <;> simp_all

variable {whole fraction : List Char}

theorem decimalOf?_pointed (negative : Bool) (hne : whole ≠ [])
    (hwhole : ∀ c ∈ whole, c.isDigit = true) (hfraction : ∀ c ∈ fraction, c.isDigit = true) :
    decimalOf? (signedText negative (whole ++ '.' :: fraction)) =
      some ⟨negative, digitsValue (whole ++ fraction), -fraction.length⟩ := by
  have hsign : splitSign (signedText negative (whole ++ '.' :: fraction)) =
      (negative, whole ++ '.' :: fraction) := by
    obtain _ | ⟨c, cs⟩ := whole
    · exact absurd rfl hne
    · exact splitSign_signedText negative (hwhole c List.mem_cons_self)
  have hleft : splitDigits (whole ++ '.' :: fraction) = (whole, '.' :: fraction) :=
    splitDigits_append hwhole (by simp [Char.isDigit])
  have hright : splitDigits fraction = (fraction, []) := by
    have happend : splitDigits (fraction ++ []) = (fraction, []) :=
      splitDigits_append hfraction (by simp)
    rwa [List.append_nil] at happend
  have hempty : whole.isEmpty = false := List.isEmpty_eq_false_iff.mpr hne
  simp [decimalOf?, hsign, hleft, hright, hempty, exponentOf?]

theorem readDecimal?_pointed (suffixes : List String) (negative : Bool) (hne : whole ≠ [])
    (hwhole : ∀ c ∈ whole, c.isDigit = true) (hfraction : ∀ c ∈ fraction, c.isDigit = true) :
    readDecimal? suffixes (signedText negative (whole ++ '.' :: fraction)) =
      some ⟨negative, digitsValue (whole ++ fraction), -fraction.length⟩ := by
  -- Digits, the point and the sign are all that stands in the text.
  have hmem : ∀ c ∈ signedText negative (whole ++ '.' :: fraction),
      c.isDigit = true ∨ c = '.' ∨ c = '-' := by
    intro c hc
    obtain h | h := mem_signedText hc
    · exact .inr (.inr h)
    obtain h | h := List.mem_append.mp h
    · exact .inl (hwhole c h)
    obtain h | h := List.mem_cons.mp h
    · exact .inr (.inl h)
    · exact .inl (hfraction c h)
  have hpart : (signedText negative (whole ++ '.' :: fraction)).takeWhile isFloatPart =
      signedText negative (whole ++ '.' :: fraction) := by
    rw [List.takeWhile_eq_self_iff]
    intro c hc
    obtain h | rfl | rfl := hmem c hc
    · simp [isFloatPart, h]
    · rfl
    · rfl
  have hunderscore : '_' ∉ signedText negative (whole ++ '.' :: fraction) := by
    intro h
    simpa [Char.isDigit] using hmem _ h
  have hfilter : (signedText negative (whole ++ '.' :: fraction)).filter (· ≠ '_') =
      signedText negative (whole ++ '.' :: fraction) := by
    rw [List.filter_eq_self]
    intro c hc
    exact decide_eq_true fun h ↦ hunderscore (h ▸ hc)
  simp only [readDecimal?, hpart, List.drop_length, String.ofList_nil, hfilter,
    underscoresFit_of_notMem hunderscore, decimalOf?_pointed negative hne hwhole hfraction,
    decide_true, Bool.true_or, Bool.and_self, if_true]

theorem specialFloat?_digit (negative : Bool) {c : Char} (hc : c.isDigit = true) (cs : List Char) :
    specialFloat? ["f32"] negative (String.ofList (c :: cs)) = none := by
  have hi : c ≠ 'i' := digit_ne hc 'i' rfl
  have hn : c ≠ 'N' := digit_ne hc 'N' rfl
  simp [specialFloat?, ← String.toList_inj, hi, hn]

/-- The text of a finite float denotes it. -/
theorem floatOf?_literal {x : Binary32} (hx : x.isFinite = true) :
    floatOf? x.literal.toList = some x := by
  obtain ⟨whole, fraction, htext, hwhole, hfraction, hne, -, -, hsize⟩ :=
    (x.shortest .upper).exists_pointed
  rw [Binary32.shortest_negative .upper hx] at htext
  have hsplit : splitSign (signedText x.isNegative (whole ++ '.' :: fraction)) =
      (x.isNegative, whole ++ '.' :: fraction) := by
    obtain _ | ⟨c, cs⟩ := whole
    · exact absurd rfl hne
    · exact splitSign_signedText _ (hwhole c List.mem_cons_self)
  have hspecial : specialFloat? ["f32"] x.isNegative (String.ofList (whole ++ '.' :: fraction)) =
      none := by
    obtain _ | ⟨c, cs⟩ := whole
    · exact absurd rfl hne
    · exact specialFloat?_digit _ (hwhole c List.mem_cons_self) _
  rw [Binary32.literal, if_pos hx, htext, floatOf?, hsplit]
  simp only [hspecial, readDecimal?_pointed _ _ hne hwhole hfraction, Option.none_or,
    Option.map_some]
  exact congrArg some (Binary32.ofDecimal_of_size .upper hx rfl hsize)

end Ron

end ShaderGraph
