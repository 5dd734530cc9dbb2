import ShaderGraph.Proofs.Emission.Inputs
import ShaderGraph.Proofs.Language.Literal

/-!
# Operands

The values that emitters compute with are written without parentheses around them. A selection of
components, a row of a matrix or a negation applies to all of such a text if it is a primary
expression, which only literals of negative floats are not. Conversions of operands are operands again,
except that a target may write the conversion of a scalar to a vector as a cast.
-/

namespace ShaderGraph

variable {d : Dialect} {v w : Variable} {t : ValueType} {text : String} {x : Binary32}

/-- The variable is the literal of a finite float. -/
structure Variable.IsLiteral (v : Variable) (x : Binary32) : Prop where
  scalar : v.type = .scalar
  finite : x.isFinite
  name : v.name = x.literal

/-- The text of the variable is an expression to which selections can be appended. Scalars may be
literals instead, and textures are names. -/
structure Variable.IsOperand (d : Dialect) (v : Variable) : Prop where
  unit : (∃ o, d.expression? v.name = some o ∧ o.takesSuffixes) ∨ ∃ x, v.IsLiteral x
  texture : v.type.isTexture → IsIdentifier v.name

/-- The expression in which the operator applies to all of its operand. -/
def Operator.expression : Operator → Expression → Expression
  | negation, e => .negative e
  | selection field, e => .select e field
  | axis index, e => .element e (.number (toString index))

/-! ## Texts of operands -/

namespace Variable.IsOperand

theorem of_expression {o : Expression} (hread : d.expression? v.name = some o) (ho : o.takesSuffixes)
    (htexture : v.type.isTexture → IsIdentifier v.name) : v.IsOperand d :=
  ⟨.inl ⟨o, hread, ho⟩, htexture⟩

theorem of_isIdentifier (h : IsIdentifier v.name) : v.IsOperand d :=
  of_expression (expression?_name h) rfl fun _ ↦ h

/-- Only the text counts for values of which components can be selected. -/
theorem exists_expression (h : v.IsOperand d) (hne : v.type ≠ .scalar) :
    ∃ o, d.expression? v.name = some o ∧ o.takesSuffixes :=
  h.unit.resolve_right fun ⟨_, hliteral⟩ ↦ hne hliteral.scalar

/-- Every operand is an expression, which is primary unless it is a negative literal. -/
theorem expression_cases (h : v.IsOperand d) :
    ∃ o, d.expression? v.name = some o ∧
      ((o.isPrimary ∧ v.name.toList.head? ≠ some '-') ∨
        ((∃ x, v.IsLiteral x ∧ x.isNegative) ∧ v.name.toList.head? = some '-')) := by
  obtain ⟨o, hread, ho⟩ | ⟨x, hliteral⟩ := h.unit
  · have hprimary : o.isPrimary := (Bool.and_eq_true_iff.mp ho).1
    refine ⟨o, hread, .inl ⟨hprimary, head?_ne_minus hread ?_⟩⟩
    rintro f rfl
    cases hprimary
  · obtain ⟨digits, e, hread, he, -⟩ :=
      expression?_literal d.conversionTypes d (fun _ ↦ none) hliteral.finite
    rw [← hliteral.name] at hread
    refine ⟨e, hread, ?_⟩
    cases hnegative : x.isNegative with
    | false =>
      rw [hnegative, if_neg Bool.false_ne_true] at he
      exact .inl ⟨by rw [he]; rfl, head?_ne_minus hread fun f ↦ by rw [he]; exact nofun⟩
    | true =>
      refine .inr ⟨⟨x, hliteral, hnegative⟩, ?_⟩
      rw [hliteral.name]
      exact Binary32.head?_literal hliteral.finite hnegative

end Variable.IsOperand

/-! ## Sources of operands -/

theorem isIdentifier_temporary (k : Nat) : IsIdentifier (temporary k) :=
  ⟨isWord_temporary k, 'v', by rw [toList_temporary]; rfl, rfl⟩

theorem isIdentifier_interpolatorName (slot : Nat) : IsIdentifier (interpolatorName slot) :=
  ⟨isWord_interpolatorName slot, 'A', by rw [toList_interpolatorName]; rfl, rfl⟩

theorem Backend.isIdentifier_vertexAttribute (b : Backend) (usage : AttributeUsage) (index : UInt32) :
    IsIdentifier (b.dialect.vertexAttribute usage index).1 := by
  have hindex : IsWord (toString index) := (isPlainWord_toString index.toNat).1
  obtain ⟨base, hname, hbase⟩ : ∃ base : String,
      (b.dialect.vertexAttribute usage index).1 = base ++ toString index ∧ IsIdentifier base := by
    cases b
    · exact ⟨_, rfl, by cases usage <;> decide⟩
    · exact ⟨_, rfl, by cases usage <;> decide⟩
    · exact ⟨_, rfl, by cases usage <;> decide⟩
  rw [hname]
  exact hbase.append hindex

theorem Backend.isIdentifier_reserved (b : Backend) {name : String} (h : IsWord name) :
    IsIdentifier s!"{b.dialect.reservedPrefix}{name}" := by
  have hreserved : IsIdentifier b.dialect.reservedPrefix := by cases b <;> decide
  exact hreserved.append h

theorem Variable.nameTexture_of_isNumeric (h : t.isNumeric) :
    (⟨text, t⟩ : Variable).type.isTexture → IsIdentifier text := fun htexture ↦ by
  cases (ValueType.isTexture_of_isNumeric h).symm.trans htexture

/-- An input of a stage, which may be a member of a struct. -/
theorem Variable.IsOperand.inputReference {name : String} (hname : IsIdentifier name)
    (ht : t.isVector) : (⟨d.inputReference name, t⟩ : Variable).IsOperand d := by
  unfold Dialect.inputReference
  split
  · exact of_isIdentifier hname
  · have hstruct : d.expression? "i" = some (.name "i") := expression?_name (by decide)
    have hselect := expression?_select hstruct rfl hname.ne_empty hname.isWord.isWordCharacter
    exact of_expression hselect rfl (nameTexture_of_isNumeric (ValueType.isNumeric_of_isVector ht))

theorem Variable.IsOperand.component (h : w.IsOperand d) (hv : v.IsComponentOf w) : v.IsOperand d := by
  obtain ⟨c, hc, hselection, rfl⟩ := hv
  obtain ⟨-, hwide, -⟩ := hselection.1
  obtain ⟨o, hread, ho⟩ := h.exists_expression hwide
  have hcomponents : ∀ c ∈ ["x", "y", "z", "w"], c ≠ "" ∧ c.toList.all isWordCharacter := by decide
  obtain ⟨hne, hword⟩ := hcomponents c hc
  exact of_expression (expression?_select hread ho hne (List.all_eq_true.mp hword)) rfl nofun

theorem exists_expressions_literals (types : List String) {xs : List Binary32}
    (h : ∀ x ∈ xs, x.isFinite) :
    ∃ es, List.Forall₂ (fun text e ↦ expression? types text = some e) (xs.map Binary32.literal) es := by
  induction xs with
  | nil => exact ⟨[], .nil⟩
  | cons x xs ih =>
    obtain ⟨hx, hxs⟩ := List.forall_mem_cons.mp h
    obtain ⟨-, e, hread, -⟩ := expression?_literal types .glsl (fun _ ↦ none) hx
    obtain ⟨es, hreads⟩ := ih hxs
    rw [List.map_cons]
    exact ⟨e :: es, .cons hread hreads⟩

/-- The literal of a default. -/
theorem Variable.IsOperand.vectorLiteral (b : Backend) (l : Literal)
    (hfinite : ∀ x ∈ l.components, x.isFinite) :
    (⟨b.dialect.vectorLiteral l.components, l.type⟩ : Variable).IsOperand b.dialect := by
  obtain ⟨es, hreads⟩ := exists_expressions_literals b.dialect.conversionTypes hfinite
  cases l with
  | scalar x => exact ⟨.inr ⟨x, rfl, hfinite x (by simp [Literal.components]), rfl⟩, nofun⟩
  | vector2 | vector3 | vector4 =>
    exact of_expression (expression?_construct b _ hreads (by simp [Literal.components])) rfl nofun

/-! ## Operators -/

theorem isWordCharacter_of_mem_componentNames {c : Char} (h : c ∈ componentNames) :
    isWordCharacter c = true :=
  have hall : componentNames.all isWordCharacter := by decide
  List.all_eq_true.mp hall c h

theorem expression?_index {types : List String} {index : Nat} (h : index < 4) :
    expression? types (toString index) = some (.number (toString index)) := by
  match index with
  | 0 | 1 | 2 | 3 => rfl
  | _ + 4 => omega

/-- The text of the variable is a primary expression, and an operator at the text applies to all of
it. -/
def Operator.AppliesTo (d : Dialect) (op : Operator) (v : Variable) : Prop :=
  ∃ o, d.expression? v.name = some o ∧ o.isPrimary ∧
    d.expression? (op.apply v.name) = some (op.expression o)

/-- A minus in front of a negative literal, which is no expression. -/
structure Operator.IsDecrementOf (d : Dialect) (op : Operator) (v : Variable) : Prop where
  negation : op = .negation
  literal : ∃ x, v.IsLiteral x ∧ x.isNegative
  unreadable : d.expression? (op.apply v.name) = none

theorem Variable.IsOperand.apply_cases (h : v.IsOperand d) {op : Operator}
    (hop : op.IsMeantFor v.type) : op.AppliesTo d v ∨ op.IsDecrementOf d v := by
  cases op with
  | negation =>
    obtain ⟨o, hread, ⟨hprimary, hhead⟩ | ⟨hliteral, hhead⟩⟩ := h.expression_cases
    · exact .inl ⟨o, hread, hprimary, expression?_negative hread hhead⟩
    · exact .inr ⟨rfl, hliteral, expression?_decrement hhead⟩
  | selection field =>
    obtain ⟨-, hscalar, hne, hletters⟩ := hop
    obtain ⟨o, hread, ho⟩ := h.exists_expression hscalar
    refine .inl ⟨o, hread, (Bool.and_eq_true_iff.mp ho).1, expression?_select hread ho hne ?_⟩
    exact fun c hc ↦ isWordCharacter_of_mem_componentNames (hletters c hc)
  | axis index =>
    obtain ⟨htype, hindex⟩ := hop
    have hscalar : v.type ≠ .scalar := by
      rw [htype]
      exact nofun
    obtain ⟨o, hread, ho⟩ := h.exists_expression hscalar
    have hnumber : d.expression? (toString index) = _ := expression?_index hindex
    have helement := expression?_element hread ho hnumber
    exact .inl ⟨o, hread, (Bool.and_eq_true_iff.mp ho).1, helement⟩

/-! ## Conversions -/

theorem ValueType.eq_scalar_of_components? (h : t.components? = some 1) : t = .scalar := by
  cases t <;> first | rfl | cases h

theorem Variable.mem_of_mem_firstComponents {width : Nat} {c : Char}
    (h : c ∈ (firstComponents width).toList) : c ∈ componentNames := by
  rw [firstComponents, String.toList_ofList] at h
  exact List.mem_of_mem_take h

theorem Variable.firstComponents_ne_empty {width : Nat} (ht : t.isVector)
    (hwidth : t.components? = some width) : firstComponents width ≠ "" := by
  cases t <;> cases ht <;> cases hwidth <;> decide

/-- A vector type that a scalar is broadcast to, as a constructor or as a cast. -/
theorem expression?_splat (b : Backend) (ht : t.isVector) {o : Expression}
    (h : b.dialect.expression? text = some o) :
    (b.dialect.splatSyntax = .constructor ∧ b.dialect.expression? (b.dialect.splat t text) =
      some (.call (.name (b.dialect.typeNameOrVoid t)) [o])) ∨
    (b.dialect.splatSyntax = .cast ∧ b.dialect.expression? (b.dialect.splat t text) =
      some (.conversion (b.dialect.typeNameOrVoid t) o)) := by
  unfold Dialect.splat
  cases hstyle : b.dialect.splatSyntax with
  | constructor =>
    refine .inl ⟨rfl, ?_⟩
    exact expression?_call_name (isIdentifier_typeNameOrVoid b t) (.cons h .nil) (by simp) rfl
  | cast =>
    refine .inr ⟨rfl, expression?_conversion ?_ (isIdentifier_typeNameOrVoid b t).isWord.isWordCharacter h⟩
    rw [Dialect.conversionTypes, hstyle]
    cases b <;> cases hstyle
    cases t <;> first | decide | cases ht

theorem forall₂_pad {types : List String} {o : Expression} (h : expression? types text = some o)
    (k : Nat) :
    List.Forall₂ (fun text e ↦ expression? types text = some e) (text :: List.replicate k "0.0")
      (o :: List.replicate k (.number "0.0")) := by
  refine .cons h ?_
  induction k with
  | zero => exact .nil
  | succ k ih => exact .cons rfl ih

/-- The variable is the conversion of a scalar that the target writes as a cast. -/
structure Variable.IsCastOf (d : Dialect) (v w : Variable) : Prop where
  casts : d.splatSyntax = .cast
  scalar : w.type = .scalar
  vector : v.type.isVector
  name : v.name = d.splat v.type w.name

/-- A cast is a conversion of all that follows, selections included. -/
theorem Variable.IsCastOf.expression? {b : Backend} (h : v.IsCastOf b.dialect w) {o : Expression}
    (hread : b.dialect.expression? w.name = some o) :
    b.dialect.expression? v.name = some (.conversion (b.dialect.typeNameOrVoid v.type) o) := by
  obtain ⟨hstyle, -⟩ | ⟨-, hsplat⟩ := expression?_splat b h.vector hread
  · cases hstyle.symm.trans h.casts
  · rwa [h.name]

theorem Variable.IsCastOf.select {b : Backend} (h : v.IsCastOf b.dialect w) {field : String}
    {o : Expression} (hread : b.dialect.expression? s!"{w.name}.{field}" = some o) :
    b.dialect.expression? s!"{v.name}.{field}" =
      some (.conversion (b.dialect.typeNameOrVoid v.type) o) := by
  have hselected : (⟨s!"{v.name}.{field}", v.type⟩ : Variable).IsCastOf b.dialect
      ⟨s!"{w.name}.{field}", .scalar⟩ := by
    refine ⟨h.casts, rfl, h.vector, ?_⟩
    simp only [h.name, Dialect.splat, h.casts, toString_text, String.append_assoc]
  exact hselected.expression? hread

/-- The conversion of an operand is an operand, unless it is a cast of a scalar. -/
theorem Variable.IsOperand.cast_cases (b : Backend) (h : v.IsOperand b.dialect)
    (hcast : v.cast t b.dialect = .ok text) :
    (⟨text, t⟩ : Variable).IsOperand b.dialect ∨ (⟨text, t⟩ : Variable).IsCastOf b.dialect v := by
  unfold Variable.cast at hcast
  split at hcast
  · next hsame =>
    cases hcast
    obtain rfl | ⟨hvoid, hnumeric⟩ := hsame
    · exact .inl h
    · obtain ⟨o, hread, ho⟩ := h.exists_expression (by rw [hvoid]; exact nofun)
      exact .inl (of_expression hread ho (nameTexture_of_isNumeric hnumeric))
  · split at hcast
    · next source width hsource hwidth =>
      split at hcast
      · cases hcast
      · next hvectors =>
        obtain ⟨hvector, htarget⟩ : v.type.isVector ∧ t.isVector := by simpa using hvectors
        have htexture : (⟨text, t⟩ : Variable).type.isTexture → IsIdentifier text :=
          nameTexture_of_isNumeric (ValueType.isNumeric_of_isVector htarget)
        split at hcast
        · next hone =>
          cases hcast
          have hscalar : v.type = .scalar := ValueType.eq_scalar_of_components? (hone ▸ hsource)
          obtain ⟨o, hread, -⟩ := h.expression_cases
          obtain ⟨-, hsplat⟩ | ⟨hcasts, -⟩ := expression?_splat b htarget hread
          · exact .inl (of_expression hsplat rfl htexture)
          · exact .inr ⟨hcasts, hscalar, htarget, rfl⟩
        · next hone =>
          obtain ⟨o, hread, ho⟩ := h.exists_expression fun hscalar ↦ hone (by
            rw [hscalar] at hsource
            exact (Option.some.inj hsource).symm)
          split at hcast
          · cases hcast
            refine .inl (of_expression (expression?_select hread ho
              (firstComponents_ne_empty htarget hwidth) fun c hc ↦ ?_) rfl htexture)
            exact isWordCharacter_of_mem_componentNames (mem_of_mem_firstComponents hc)
          · cases hcast
            exact .inl (of_expression
              (expression?_construct b t (forall₂_pad hread _) (by simp)) rfl htexture)
    · cases hcast

end ShaderGraph
