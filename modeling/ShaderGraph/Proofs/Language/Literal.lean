import ShaderGraph.Proofs.Language.Reading
import ShaderGraph.Proofs.Numeric.Literal
import ShaderGraph.Proofs.Scope.Names
import ShaderGraph.Proofs.Scope.Reading

/-!
# Values and literals of a target language

Identifiers are names, and the literals of the dialects denote the floats from which they were made: an
unsigned number, a negated one, or the constructor of a vector type around such.
-/

namespace ShaderGraph

/-! ## Values of expressions

The components of the scalar or vector that an expression of a target language denotes. A vector has as
many components as the arguments of its constructor have together, in their order. A selection takes
components of a vector by their letters. A conversion, which only some targets have, repeats a scalar
and cuts off a vector.
-/

/-- The names of types that a target takes for conversions if they stand in parentheses. -/
def Dialect.conversionTypes (d : Dialect) : List String :=
  match d.splatSyntax with
  | .constructor => []
  | .cast => d.typeWords

/-- The expression of the target language that a text is. -/
def Dialect.expression? (d : Dialect) (text : String) : Option Expression :=
  ShaderGraph.expression? d.conversionTypes text

/-- The number of components of the scalar or vector type with a name. -/
def Dialect.width? (d : Dialect) (type : String) : Option Nat :=
  ([ValueType.scalar, .vec2, .vec3, .vec4].find? fun t ↦ d.typeName? t = some type).bind
    ValueType.components?

/-- The components of a vector that a field selects. Scalars have none to select. -/
def selectComponents? (xs : List Binary32) (field : String) : Option (List Binary32) :=
  if 2 ≤ xs.length ∧ 1 ≤ field.length ∧ field.length ≤ 4 then
    field.toList.mapM fun c ↦ (componentNames.idxOf? c).bind fun i ↦ xs[i]?
  else none

/-- A value as one of a type of another width. -/
def convertComponents? (width : Nat) : List Binary32 → Option (List Binary32)
  | [x] => some (List.replicate width x)
  | xs => if width ≤ xs.length then some (xs.take width) else none

def Binary32.negate (x : Binary32) : Binary32 :=
  ofMagnitude (!x.isNegative) x.magnitude

/-- Values of names. A name without a value is a struct, and the values of its members are found under
their paths. -/
abbrev Valuation := String → Option (List Binary32)

namespace Expression

mutual

def components? (d : Dialect) (ρ : Valuation) : Expression → Option (List Binary32)
  | name text => ρ text
  | number text => (Binary32.ofText? text.toList).map ([·])
  | select (name text) field =>
    match ρ text with
    | some xs => selectComponents? xs field
    | none => ρ s!"{text}.{field}"
  | select e field => do selectComponents? (← components? d ρ e) field
  | call (name type) args => do
    let xs ← allComponents? d ρ args
    if d.width? type = some xs.length then some xs else none
  | negative e => (components? d ρ e).map fun xs ↦ xs.map Binary32.negate
  | conversion type e => do
    convertComponents? (← d.width? type) (← components? d ρ e)
  | element .. | call .. => none

/-- The components of several expressions one after another. -/
def allComponents? (d : Dialect) (ρ : Valuation) : List Expression → Option (List Binary32)
  | [] => some []
  | e :: es => do return (← components? d ρ e) ++ (← allComponents? d ρ es)

end

end Expression

example : (Dialect.glsl.expression? "vec3(v0.yx, 1.0)").bind
    (·.components? .glsl fun _ ↦ some [.half, .zero]) = some [.zero, .half, .one] := by
  decide +kernel

/-! ## Literals -/

/-! ### Opposite floats -/

theorem Decimal.round_lt_signBit (d : Decimal) : d.round .binary32 < Binary32.signBit := by
  have hinfinity : BinaryFormat.binary32.infinity < Binary32.signBit := by decide
  have hzero : 0 < Binary32.signBit := by decide
  unfold Decimal.round BinaryFormat.round
  split_ifs
  · exact hzero
  · exact hinfinity
  · exact hzero
  · exact hzero
  · exact (Nat.min_le_left _ _).trans_lt hinfinity

namespace Binary32

variable {m : Nat}

theorem negate_ofMagnitude (negative : Bool) (hm : m < signBit) :
    (ofMagnitude negative m).negate = ofMagnitude (!negative) m := by
  rw [negate, isNegative_ofMagnitude negative hm, magnitude_ofMagnitude negative hm]

/-- Decimals of one size and opposite signs are rounded to opposite floats. -/
theorem negate_ofDecimal (negative : Bool) (coefficient : Nat) (exponent : Int) :
    (ofDecimal ⟨negative, coefficient, exponent⟩).negate =
      ofDecimal ⟨!negative, coefficient, exponent⟩ :=
  negate_ofMagnitude negative (Decimal.round_lt_signBit _)

end Binary32

/-! ### Names and numbers -/

variable {types : List String} {d : Dialect} {ρ : Valuation}

theorem glyphOf_eq_letter_iff {c : Char} : glyphOf c = .letter ↔ isWordCharacter c = true := by
  unfold glyphOf isWordCharacter
  split_ifs with hletter <;> simp [hletter]

theorem IsWord.isWordCharacter {s : String} (h : IsWord s) : ∀ c ∈ s.toList, isWordCharacter c = true :=
  fun c hc ↦ glyphOf_eq_letter_iff.mp (h c hc)

/-- A word that starts with no digit. -/
structure IsIdentifier (s : String) : Prop where
  isWord : IsWord s
  head : ∃ c ∈ s.toList.head?, c.isDigit = false

instance (s : String) : Decidable (IsIdentifier s) :=
  decidable_of_iff (IsWord s ∧ s.toList.head?.any (fun c ↦ !c.isDigit) = true)
    ⟨fun h ↦ ⟨h.1, by simpa [Option.any_eq_true] using h.2⟩,
      fun h ↦ ⟨h.isWord, by simpa [Option.any_eq_true] using h.head⟩⟩

theorem IsIdentifier.append {a b : String} (ha : IsIdentifier a) (hb : IsWord b) :
    IsIdentifier (a ++ b) := by
  obtain ⟨hword, c, hc, hdigit⟩ := ha
  refine ⟨isWord_append hword hb, c, ?_, hdigit⟩
  rw [String.toList_append, List.head?_append, Option.mem_def.mp hc]
  rfl

theorem IsIdentifier.ne_empty {s : String} (h : IsIdentifier s) : s ≠ "" := by
  rintro rfl
  obtain ⟨-, c, hc, -⟩ := h
  cases hc

/-- A text that is one atom. -/
theorem expression?_atom {s : String} {e : Expression} (h : splitAtom? s.toList = some (e, [])) :
    expression? types s = some e :=
  expression?_eq_some_iff.mpr ⟨2, readExpression_succ_iff.mpr (.inr (.inr ⟨e, [], h, rfl⟩))⟩

theorem expression?_name {s : String} (h : IsIdentifier s) : expression? types s = some (.name s) := by
  obtain ⟨hword, c, hc, hdigit⟩ := h
  have hword := hword.isWordCharacter
  have hcword : isWordCharacter c = true := hword c (List.mem_of_mem_head? hc)
  refine expression?_atom ?_
  rw [splitAtom?, Option.mem_def.mp hc]
  dsimp only
  rw [if_neg (by simp [hdigit]), if_pos hcword, splitWord, List.takeWhile_eq_self_iff.mpr hword,
    List.dropWhile_eq_nil_iff.mpr hword, String.ofList_toList]

/-- Digits on both sides of a point. -/
theorem expression?_number {whole fraction : List Char} (hne : whole ≠ [])
    (hwhole : ∀ c ∈ whole, c.isDigit = true) (hfraction : ∀ c ∈ fraction, c.isDigit = true) :
    expression? types (String.ofList (whole ++ '.' :: fraction)) =
      some (.number (String.ofList (whole ++ '.' :: fraction))) := by
  have hsplit : splitNumber (whole ++ '.' :: fraction) =
      (String.ofList (whole ++ '.' :: fraction), []) := by
    have hleft : splitDigits (whole ++ '.' :: fraction) = (whole, '.' :: fraction) :=
      splitDigits_append hwhole (by simp [Char.isDigit])
    have hright : splitDigits fraction = (fraction, []) := by
      have happend : splitDigits (fraction ++ []) = (fraction, []) :=
        splitDigits_append hfraction (by simp)
      rwa [List.append_nil] at happend
    simp only [splitNumber, hleft, List.head?_cons, List.tail_cons, if_true, hright]
  refine expression?_atom ?_
  obtain _ | ⟨c, whole⟩ := whole
  · exact absurd rfl hne
  · rw [String.toList_ofList, splitAtom?, List.cons_append, List.head?_cons, ← List.cons_append]
    dsimp only
    rw [if_pos (hwhole c List.mem_cons_self), hsplit]

/-- The literal of a finite float is an unsigned number, or a negated one if the float is negative, and
it denotes the float. -/
theorem expression?_literal (types : List String) (d : Dialect) (ρ : Valuation) {x : Binary32}
    (hx : x.isFinite) :
    ∃ digits e, expression? types x.literal = some e ∧
      e = (if x.isNegative then .negative (.number digits) else .number digits) ∧
      e.components? d ρ = some [x] := by
  obtain ⟨⟨_, _, _⟩, whole, fraction, ⟨htext, hwhole, hfraction, hleft, -, rfl, rfl⟩, rfl, -, hround⟩ :=
    Binary32.isDenotedBy_literal hx
  have hnumber : expression? types (String.ofList (whole ++ '.' :: fraction)) = _ :=
    expression?_number hleft hwhole hfraction
  have htoList := String.toList_ofList (l := whole ++ '.' :: fraction)
  generalize String.ofList (whole ++ '.' :: fraction) = digits at hnumber htoList
  have hdigits : (Expression.number digits).components? d ρ =
      some [Binary32.ofDecimal ⟨false, digitsValue (whole ++ fraction), -fraction.length⟩] := by
    have hread := Ron.decimalOf?_pointed false hleft hwhole hfraction
    change Ron.decimalOf? (whole ++ '.' :: fraction) = _ at hread
    rw [Expression.components?, htoList, Binary32.ofText?, hread]
    rfl
  dsimp only at htext hround
  refine ⟨digits, _, ?_, rfl, ?_⟩
  · cases hnegative : x.isNegative with
    | false =>
      have hliteral : x.literal = digits := by
        rw [← String.toList_inj, htext, hnegative, htoList]
        simp
      rw [hliteral]
      exact hnumber
    | true =>
      have hliteral : x.literal = s!"-{digits}" := by
        rw [← String.toList_inj, htext, hnegative, toString_text, String.toList_append, toString_text,
          htoList]
        simp
      rw [hliteral]
      exact expression?_negative hnumber (head?_ne_minus hnumber fun f h ↦ by cases h)
  · cases hnegative : x.isNegative with
    | false =>
      rw [if_neg Bool.false_ne_true, hdigits, ← hnegative, hround]
    | true =>
      rw [if_pos rfl, Expression.components?, hdigits, Option.map_some, List.map_singleton,
        Binary32.negate_ofDecimal, Bool.not_false, ← hnegative, hround]

/-! ### Constructors -/

theorem expression?_call_name {type list : String} {texts : List String} {es : List Expression}
    (htype : IsIdentifier type)
    (h : List.Forall₂ (fun text e ↦ expression? types text = some e) texts es) (hne : texts ≠ [])
    (hlist : list = ", ".intercalate texts) :
    expression? types s!"{type}({list})" = some (.call (.name type) es) :=
  expression?_call (expression?_name htype) rfl h hne hlist

theorem isIdentifier_typeNameOrVoid (b : Backend) (t : ValueType) :
    IsIdentifier (b.dialect.typeNameOrVoid t) := by
  cases b <;> cases t <;> decide

/-- A constructor of a type of the dialect. -/
theorem expression?_construct (b : Backend) (t : ValueType) {texts : List String}
    {es : List Expression}
    (h : List.Forall₂ (fun text e ↦ b.dialect.expression? text = some e) texts es)
    (hne : texts ≠ []) : b.dialect.expression? (b.dialect.construct t texts) =
      some (.call (.name (b.dialect.typeNameOrVoid t)) es) :=
  expression?_call_name (isIdentifier_typeNameOrVoid b t) h hne rfl

theorem width?_typeNameOrVoid (b : Backend) {t : ValueType} {width : Nat}
    (h : ValueType.ofComponents? width = some t) :
    b.dialect.width? (b.dialect.typeNameOrVoid t) = some width := by
  unfold ValueType.ofComponents? at h
  split at h <;> cases h <;> cases b <;> decide

/-- A constructor denotes the components of its arguments one after another. -/
theorem components?_construct (b : Backend) {t : ValueType} {es : List Expression}
    {xs : List Binary32} (ht : ValueType.ofComponents? xs.length = some t)
    (hes : Expression.allComponents? b.dialect ρ es = some xs) :
    (Expression.call (.name (b.dialect.typeNameOrVoid t)) es).components? b.dialect ρ = some xs := by
  rw [Expression.components?, hes]
  exact if_pos (width?_typeNameOrVoid b ht)

end ShaderGraph
