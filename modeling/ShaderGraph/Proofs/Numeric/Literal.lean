import ShaderGraph.Proofs.Numeric.Nearest
import ShaderGraph.Proofs.Ron.Number
import ShaderGraph.Proofs.Text.Syntax
import ShaderGraph.Target.Tables
import ShaderGraph.Value.Literal

/-!
# Literals of the target languages

The literal of a finite float is a decimal that rounds back to the float. A literal of a vector is the
constructor of its type around the literals of its components, so all of them can be read off.
-/

namespace ShaderGraph

/-! ## Decimals without an exponent part -/

/-- The text is the decimal in digits: a minus if it is negative, digits, a point and digits. -/
structure Decimal.IsSpelled (d : Decimal) (text : String) (whole fraction : List Char) : Prop where
  spelling : text.toList = (if d.negative then ['-'] else []) ++ whole ++ ['.'] ++ fraction
  left : ∀ c ∈ whole, c.isDigit = true
  right : ∀ c ∈ fraction, c.isDigit = true
  left_nonempty : whole ≠ []
  right_nonempty : fraction ≠ []
  coefficient : d.coefficient = digitsValue (whole ++ fraction)
  exponent : d.exponent = -fraction.length

namespace Binary32

variable {x y : Binary32}

/-- The text is a decimal of the sign of the float, and the float is the nearest one to it. -/
def IsDenotedBy (x : Binary32) (text : String) : Prop :=
  ∃ d whole fraction, Decimal.IsSpelled d text whole fraction ∧ d.negative = x.isNegative ∧
    x.IsNearest d.value ∧ ofDecimal d = x

theorem isDenotedBy_literal (hx : x.isFinite) : x.IsDenotedBy x.literal := by
  obtain ⟨whole, fraction, htext, hwhole, hfraction, hleft, hright, -, hsize⟩ :=
    (x.shortest .upper).exists_pointed
  have hnegative := shortest_negative .upper hx
  refine ⟨⟨x.isNegative, digitsValue (whole ++ fraction), -fraction.length⟩, whole, fraction,
    ⟨?_, hwhole, hfraction, hleft, hright, rfl, rfl⟩, rfl, ?_, ofDecimal_of_size .upper hx rfl hsize⟩
  · rw [literal, if_pos hx, htext, hnegative]
    cases x.isNegative <;> simp [signedText]
  · have hvalue : (⟨x.isNegative, digitsValue (whole ++ fraction), -fraction.length⟩ : Decimal).value =
        (x.shortest .upper).value := by
      rw [Decimal.value, Decimal.value, hnegative, ← hsize]
      rfl
    rw [hvalue]
    exact isNearest_shortest .upper hx

/-- The float that a decimal in digits denotes. -/
def ofText? (cs : List Char) : Option Binary32 :=
  (Ron.decimalOf? cs).map ofDecimal

theorem ofText?_literal (hx : x.isFinite) : ofText? x.literal.toList = some x := by
  obtain ⟨d, whole, fraction, hspelled, hnegative, -, hround⟩ := isDenotedBy_literal hx
  have htext : x.literal.toList = signedText d.negative (whole ++ '.' :: fraction) := by
    rw [hspelled.spelling]
    cases d.negative <;> simp [signedText]
  have hd : d = ⟨d.negative, digitsValue (whole ++ fraction), -fraction.length⟩ := by
    rw [← hspelled.coefficient, ← hspelled.exponent]
  rw [ofText?, htext, Ron.decimalOf?_pointed _ hspelled.left_nonempty hspelled.left hspelled.right,
    ← hd, Option.map_some, hround]

/-- Finite floats with the same literal have the same bits. -/
theorem literal_injective (hx : x.isFinite) (hy : y.isFinite) (h : x.literal = y.literal) : x = y := by
  have htexts := ofText?_literal hx
  rw [h, ofText?_literal hy] at htexts
  exact (Option.some.inj htexts).symm

theorem head?_literal (hx : x.isFinite) (hnegative : x.isNegative) :
    x.literal.toList.head? = some '-' := by
  obtain ⟨d, whole, fraction, hspelled, hsign, -⟩ := isDenotedBy_literal hx
  rw [hspelled.spelling, hsign, hnegative]
  rfl

/-- A literal holds no character but digits, a point and a minus. -/
theorem mem_literal (hx : x.isFinite) {c : Char} (hc : c ∈ x.literal.toList) :
    c.isDigit = true ∨ c = '.' ∨ c = '-' := by
  obtain ⟨d, whole, fraction, hspelled, -⟩ := isDenotedBy_literal hx
  rw [hspelled.spelling] at hc
  simp only [List.mem_append, List.mem_singleton] at hc
  obtain ((hc | hc) | hc) | hc := hc
  · cases hnegative : d.negative <;> simp_all
  · exact .inl (hspelled.left c hc)
  · exact .inr (.inl hc)
  · exact .inl (hspelled.right c hc)

theorem notMem_literal (hx : x.isFinite) {c : Char} (hdigit : c.isDigit = false) (hpoint : c ≠ '.')
    (hminus : c ≠ '-') : c ∉ x.literal.toList := by
  intro hc
  obtain h | h | h := mem_literal hx hc
  · exact Bool.false_ne_true (hdigit.symm.trans h)
  · exact hpoint h
  · exact hminus h

end Binary32

/-! ## Literals of scalars and vectors -/

/-- What stands between the parentheses of a constructor call, or all of a text without any. -/
def argumentText (cs : List Char) : List Char :=
  if '(' ∈ cs then (cs.dropWhile (· ≠ '(')).tail.takeWhile (· ≠ ')') else cs

/-- The components of a literal, a number or a constructor call of numbers. -/
def literalComponents? (text : String) : Option (List Binary32) :=
  (((argumentText text.toList).filter (· ≠ ' ')).splitOn ',').mapM Binary32.ofText?

theorem filter_intercalate {ls : List (List Char)} (h : ∀ l ∈ ls, ' ' ∉ l) :
    ([',', ' '].intercalate ls).filter (· ≠ ' ') = [','].intercalate ls := by
  induction ls with
  | nil => rfl
  | cons l ls ih =>
    obtain ⟨hl, hls⟩ := List.forall_mem_cons.mp h
    have hfilter : l.filter (· ≠ ' ') = l := by
      rw [List.filter_eq_self]
      exact fun c hc ↦ decide_eq_true fun heq ↦ hl (heq ▸ hc)
    cases ls with
    | nil => rw [List.intercalate_singleton, List.intercalate_singleton, hfilter]
    | cons l' ls =>
      rw [List.intercalate_cons_cons, List.intercalate_cons_cons, List.filter_append,
        List.filter_append, ih hls, hfilter]
      rfl

theorem notMem_intercalate {c : Char} {sep : List Char} {ls : List (List Char)} (hsep : c ∉ sep)
    (h : ∀ l ∈ ls, c ∉ l) : c ∉ sep.intercalate ls := by
  induction ls with
  | nil => exact List.not_mem_nil
  | cons l ls ih =>
    obtain ⟨hl, hls⟩ := List.forall_mem_cons.mp h
    cases ls with
    | nil => rwa [List.intercalate_singleton]
    | cons l' ls =>
      rw [List.intercalate_cons_cons]
      simp only [List.mem_append, not_or]
      exact ⟨⟨hl, hsep⟩, ih hls⟩

variable {cs : List Binary32}

theorem mapM_ofText?_literal (h : ∀ c ∈ cs, c.isFinite) :
    (cs.map fun c ↦ c.literal.toList).mapM Binary32.ofText? = some cs := by
  induction cs with
  | nil => rfl
  | cons c cs ih =>
    obtain ⟨hc, hcs⟩ := List.forall_mem_cons.mp h
    rw [List.map_cons, List.mapM_cons, Binary32.ofText?_literal hc, ih hcs]
    rfl

/-- The components of a list of literals with commas between them. -/
theorem mapM_splitOn_literals (hne : cs ≠ []) (h : ∀ c ∈ cs, c.isFinite) :
    ((([',', ' '].intercalate (cs.map fun c ↦ c.literal.toList)).filter (· ≠ ' ')).splitOn ',').mapM
      Binary32.ofText? = some cs := by
  have hspace : ∀ l ∈ cs.map fun c ↦ c.literal.toList, ' ' ∉ l := by
    intro l hl
    obtain ⟨c, hc, rfl⟩ := List.mem_map.mp hl
    exact Binary32.notMem_literal (h c hc) rfl (by decide) (by decide)
  have hcomma : ∀ l ∈ cs.map fun c ↦ c.literal.toList, ',' ∉ l := by
    intro l hl
    obtain ⟨c, hc, rfl⟩ := List.mem_map.mp hl
    exact Binary32.notMem_literal (h c hc) rfl (by decide) (by decide)
  rw [filter_intercalate hspace, List.splitOn_intercalate _ hcomma (by simpa using hne),
    mapM_ofText?_literal h]

/-- Names of types hold no parenthesis. -/
theorem notMem_typeNameOrVoid (b : Backend) (t : ValueType) :
    '(' ∉ (b.dialect.typeNameOrVoid t).toList := by
  cases b <;> cases t <;> decide

theorem argumentText_call {name args : List Char} (hname : '(' ∉ name) (hargs : ')' ∉ args) :
    argumentText (name ++ '(' :: (args ++ [')'])) = args := by
  have hopen : ∀ c ∈ name, decide (c ≠ '(') = true := fun c hc ↦
    decide_eq_true fun heq ↦ hname (heq ▸ hc)
  have hclose : ∀ c ∈ args, decide (c ≠ ')') = true := fun c hc ↦
    decide_eq_true fun heq ↦ hargs (heq ▸ hc)
  rw [argumentText, if_pos (by simp), List.dropWhile_append_of_pos hopen,
    List.dropWhile_cons_of_neg (by simp), List.tail_cons, List.takeWhile_append_of_pos hclose]
  simp

theorem literalComponents?_construct (b : Backend) (t : ValueType) (hne : cs ≠ [])
    (h : ∀ c ∈ cs, c.isFinite) :
    literalComponents? (b.dialect.construct t (cs.map Binary32.literal)) = some cs := by
  have hargs : ')' ∉ [',', ' '].intercalate (cs.map fun c ↦ c.literal.toList) := by
    refine notMem_intercalate (by decide) fun l hl ↦ ?_
    obtain ⟨c, hc, rfl⟩ := List.mem_map.mp hl
    exact Binary32.notMem_literal (h c hc) rfl (by decide) (by decide)
  have htext : (b.dialect.construct t (cs.map Binary32.literal)).toList =
      (b.dialect.typeNameOrVoid t).toList ++
        '(' :: ([',', ' '].intercalate (cs.map fun c ↦ c.literal.toList) ++ [')']) := by
    simp only [Dialect.construct, toString_text, String.toList_append, String.toList_intercalate,
      List.map_map, List.append_assoc]
    rfl
  rw [literalComponents?, htext, argumentText_call (notMem_typeNameOrVoid b t) hargs,
    mapM_splitOn_literals hne h]

/-- A literal of one float is all of its text. -/
theorem literalComponents?_literal {x : Binary32} (hx : x.isFinite) :
    literalComponents? x.literal = some [x] := by
  have hopen : '(' ∉ x.literal.toList := Binary32.notMem_literal hx rfl (by decide) (by decide)
  have hsplit := mapM_splitOn_literals (List.cons_ne_nil x []) (by simpa using hx)
  rw [List.map_singleton, List.intercalate_singleton] at hsplit
  rw [literalComponents?, argumentText, if_neg hopen, hsplit]

/-- All components are read off the literal of a vector or scalar. -/
theorem literalComponents?_vectorLiteral (b : Backend) (hne : cs ≠ []) (hlength : cs.length ≤ 4)
    (h : ∀ c ∈ cs, c.isFinite) : literalComponents? (b.dialect.vectorLiteral cs) = some cs := by
  have hpositive : 0 < cs.length := List.length_pos_of_ne_nil hne
  obtain hone | hmore : cs.length = 1 ∨ 1 < cs.length := by omega
  · obtain ⟨x, rfl⟩ := List.length_eq_one_iff.mp hone
    exact literalComponents?_literal (h x List.mem_cons_self)
  · obtain ⟨t, ht, hvector⟩ : ∃ t, ValueType.ofComponents? cs.length = some t ∧ t ≠ .scalar := by
      obtain htwo | hthree | hfour : cs.length = 2 ∨ cs.length = 3 ∨ cs.length = 4 := by omega
      · exact ⟨.vec2, by rw [htwo]; rfl, by decide⟩
      · exact ⟨.vec3, by rw [hthree]; rfl, by decide⟩
      · exact ⟨.vec4, by rw [hfour]; rfl, by decide⟩
    have hconstruct : b.dialect.vectorLiteral cs =
        b.dialect.construct t (cs.map Binary32.literal) := by
      rw [Dialect.vectorLiteral, ht]
      split <;> simp_all
    rw [hconstruct, literalComponents?_construct b t hne h]

end ShaderGraph
