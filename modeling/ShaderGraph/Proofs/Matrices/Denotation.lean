import ShaderGraph.Proofs.Language.Operand
import ShaderGraph.Proofs.Matrices.Meaning
import ShaderGraph.Proofs.Scope.Lines

/-!
# Operands that denote vectors and matrices

Which text of a program denotes a quantity that a graph carries: a name or a literal whose value is what
the shading language stores for the quantity. Negations, sums, products, calls and columns that are
written with such operands are formulas that denote what they should.
-/

open scoped Matrix

namespace ShaderGraph

open Emitter

/-! ## Values of variables -/

def Quantity.type : Quantity → ValueType
  | scalar _ => .scalar
  | vector _ => .vec4
  | matrix _ => .matrix4

theorem Quantity.type_negate (q : Quantity) : q.negate.type = q.type := by
  cases q <;> rfl

theorem Quantity.type_vector_ne (v : Vector4) : (vector v).type ≠ .scalar := by
  simp [type]

theorem Quantity.type_matrix_ne (m : Matrix4) : (matrix m).type ≠ .scalar := by
  simp [type]

theorem Quantity.exists_vector {q : Quantity} (hvector : q.type = .vec4) : ∃ v, q = .vector v := by
  cases q <;> cases hvector
  exact ⟨_, rfl⟩

theorem Quantity.exists_matrix {q : Quantity} (hmatrix : q.type = .matrix4) : ∃ m, q = .matrix m := by
  cases q <;> cases hmatrix
  exact ⟨_, rfl⟩

theorem Backend.typeName?_type (b : Backend) (q : Quantity) :
    b.dialect.typeName? q.type = some (b.language.typeOf q) := by
  cases b <;> cases q <;> rfl

/-- Names keep the values that they have. -/
def KeepsValues (ρ ρ' : String → Option Quantity) : Prop :=
  ∀ name q, ρ name = some q → ρ' name = some q

theorem KeepsValues.refl (ρ : String → Option Quantity) : KeepsValues ρ ρ := fun _ _ h ↦ h

theorem KeepsValues.trans {ρ ρ' ρ'' : String → Option Quantity} (h : KeepsValues ρ ρ')
    (h' : KeepsValues ρ' ρ'') : KeepsValues ρ ρ'' := fun name q hq ↦ h' name q (h name q hq)

theorem KeepsValues.update {ρ : String → Option Quantity} {name : String} (h : ρ name = none)
    (q? : Option Quantity) : KeepsValues ρ (Function.update ρ name q?) := by
  intro other q hq
  have hne : other ≠ name := by
    rintro rfl
    cases h.symm.trans hq
  rwa [Function.update_of_ne hne]

/-- The text is an operand that denotes what is stored for a quantity, also after further
declarations. -/
structure Denotes (L : ShadingLanguage) (ρ : String → Option Quantity) (text : String)
    (q : Quantity) : Prop where
  isLine : IsLine text
  isBraceFree : IsBraceFree text.toList
  reading : ∃ e, expression? [] text = some e ∧ e.takesSuffixes ∧
    ∀ ρ', KeepsValues ρ ρ' → e.quantity? L ρ' = some (L.stored q)

namespace Denotes

variable {L : ShadingLanguage} {ρ ρ' : String → Option Quantity} {text : String} {q : Quantity}

theorem mono (h : Denotes L ρ text q) (hρ : KeepsValues ρ ρ') : Denotes L ρ' text q where
  isLine := h.isLine
  isBraceFree := h.isBraceFree
  reading := by
    obtain ⟨e, hread, he, hq⟩ := h.reading
    exact ⟨e, hread, he, fun ρ'' hρ' ↦ hq ρ'' (hρ.trans hρ')⟩

theorem of_name (hname : IsIdentifier text) (h : ρ text = some (L.stored q)) :
    Denotes L ρ text q where
  isLine := hname.isWord.isLine
  isBraceFree := by
    constructor <;> intro hc <;> cases hname.isWord _ hc
  reading := ⟨.name text, expression?_name hname, rfl, fun _ hρ' ↦ hρ' text _ h⟩

theorem of_literal (b : Backend) (ρ : String → Option Quantity) {l : Literal} (htype : l.type = .vec4)
    (hfinite : ∀ x ∈ l.components, x.isFinite) :
    ∃ q, l.quantity? = some q ∧ q.type = .vec4 ∧
      Denotes b.language ρ (b.dialect.vectorLiteral l.components) q := by
  cases l <;> cases htype
  obtain ⟨e, hread, he, hq⟩ := expression?_vector b hfinite
  have hquiet (xs : List Binary32) : Quiet [] (b.dialect.vectorLiteral xs) := b.quiet_vectorLiteral xs
  exact ⟨_, rfl, rfl, (hquiet _).isLine, (hquiet _).isBraceFree, e, hread, he, fun ρ' _ ↦ hq ρ'⟩

end Denotes

/-- The variable denotes a vector or a matrix of its type. -/
structure Variable.StandsFor (L : ShadingLanguage) (ρ : String → Option Quantity) (v : Variable)
    (q : Quantity) : Prop where
  type : v.type = q.type
  wide : q.type ≠ .scalar
  text : Denotes L ρ v.name q

theorem Variable.StandsFor.mono {L : ShadingLanguage} {ρ ρ' : String → Option Quantity} {v : Variable}
    {q : Quantity} (h : v.StandsFor L ρ q) (hρ : KeepsValues ρ ρ') : v.StandsFor L ρ' q :=
  ⟨h.type, h.wide, h.text.mono hρ⟩

/-- A value that has its type already is not converted. -/
theorem Variable.StandsFor.cast {L : ShadingLanguage} {ρ : String → Option Quantity} {v : Variable}
    {q : Quantity} {d : Dialect} {text : String} (h : v.StandsFor L ρ q)
    (hcast : v.cast q.type d = .ok text) : text = v.name := by
  rw [Variable.cast, if_pos (.inl h.type)] at hcast
  exact (Except.ok.inj hcast).symm

/-! ## Formulas over operands -/

/-- The text is a formula with a value. -/
structure Evaluates (L : ShadingLanguage) (ρ : String → Option Quantity) (text : String)
    (q : Quantity) : Prop where
  isLine : IsLine text
  reading : ∃ φ, formula? text = some φ ∧ φ.quantity? L ρ = some q

namespace Denotes

variable {L : ShadingLanguage} {ρ : String → Option Quantity} {text left right : String}
  {q r u : Quantity}

theorem evaluates (h : Denotes L ρ text q) : Evaluates L ρ text (L.stored q) := by
  obtain ⟨e, hread, -, he⟩ := h.reading
  exact ⟨h.isLine, _, formula?_operand hread, he ρ (.refl ρ)⟩

theorem negative (h : Denotes L ρ text q) : Evaluates L ρ s!"-{text}" (L.stored q.negate) := by
  obtain ⟨e, hread, he, hq⟩ := h.reading
  have hhead : text.toList.head? ≠ some '-' := head?_ne_minus hread fun f hf ↦ by
    rw [hf] at he
    cases he
  have hminus : IsLine "-" := by decide
  refine ⟨hminus.append h.isLine, _, formula?_operand (expression?_negative hread hhead), ?_⟩
  rw [Formula.quantity?, Expression.quantity?, hq ρ (.refl ρ), ← L.negate_stored]
  rfl

theorem combination (op : BinaryOperator) (hl : Denotes L ρ left q) (hr : Denotes L ρ right r)
    (hu : L.combine? op (L.stored q) (L.stored r) = some u) :
    Evaluates L ρ (left ++ (String.ofList [' ', op.symbol, ' '] ++ right)) u := by
  obtain ⟨e, hleft, -, he⟩ := hl.reading
  obtain ⟨f, hright, -, hf⟩ := hr.reading
  have hoperator : IsLine (String.ofList [' ', op.symbol, ' ']) := by cases op <;> decide
  refine ⟨hl.isLine.append (hoperator.append hr.isLine), _, formula?_combination op hleft hright, ?_⟩
  rw [Formula.quantity?, he ρ (.refl ρ), hf ρ (.refl ρ)]
  exact hu

theorem exists_expressions {texts : List String} {qs : List Quantity}
    (h : List.Forall₂ (Denotes L ρ) texts qs) :
    ∃ es, List.Forall₂ (fun text e ↦ expression? [] text = some e) texts es ∧
      List.Forall₂ (fun (e : Expression) q ↦ e.quantity? L ρ = some q) es (qs.map L.stored) := by
  induction h with
  | nil => exact ⟨[], .nil, .nil⟩
  | cons htext _ ih =>
    obtain ⟨e, hread, -, he⟩ := htext.reading
    obtain ⟨es, hreads, hes⟩ := ih
    exact ⟨e :: es, .cons hread hreads, .cons (he ρ (.refl ρ)) hes⟩

/-- A call of a function or of a constructor. -/
theorem call {f list : String} {texts : List String} {qs : List Quantity} (hf : IsIdentifier f)
    (h : List.Forall₂ (Denotes L ρ) texts qs) (hne : texts ≠ [])
    (hu : L.call? f (qs.map L.stored) = some u) (hlist : list = ", ".intercalate texts) :
    Evaluates L ρ s!"{f}({list})" u := by
  obtain ⟨es, hreads, hes⟩ := exists_expressions h
  have hlines : ∀ l ∈ texts.map String.toList, '\n' ∉ l ∧ '\r' ∉ l := by
    intro l hl
    obtain ⟨text, htext, rfl⟩ := List.mem_map.mp hl
    obtain ⟨q, -, hdenotes⟩ := exists_of_mem_left h htext
    exact ⟨fun hc ↦ (hdenotes.isLine _ hc).1 rfl, fun hc ↦ (hdenotes.isLine _ hc).2 rfl⟩
  have hline : IsLine list := by
    intro c hc
    rw [hlist, String.toList_intercalate] at hc
    constructor <;> rintro rfl
    · exact notMem_intercalate (by decide) (fun l hl ↦ (hlines l hl).1) hc
    · exact notMem_intercalate (by decide) (fun l hl ↦ (hlines l hl).2) hc
  have hopen : IsLine "(" := by decide
  have hclose : IsLine ")" := by decide
  exact ⟨((hf.isWord.isLine.append hopen).append hline).append hclose, _,
    formula?_operand (expression?_call_name hf hreads hne hlist), Expression.quantity?_call hes hu⟩

theorem element (h : Denotes L ρ text q) {k : Fin 4} (hu : L.element? (L.stored q) k = some u) :
    Evaluates L ρ s!"{text}[{k.val}]" u := by
  obtain ⟨e, hread, he, hq⟩ := h.reading
  have hindex : expression? [] (toString k.val) = _ := expression?_index k.isLt
  have hopen : IsLine "[" := by decide
  have hnumber : IsLine (toString k.val) := (isPlainWord_toString k.val).1.isLine
  have hclose : IsLine "]" := by decide
  refine ⟨((h.isLine.append hopen).append hnumber).append hclose, _,
    formula?_operand (expression?_element hread he hindex), ?_⟩
  rw [Formula.quantity?, Expression.quantity?, hq ρ (.refl ρ), axisIndex?_val]
  exact hu

end Denotes

/-! ## Products and other combinations -/

section Products

open Template

variable {ρ : String → Option Quantity} {template x y : String} {l m : Matrix4} {v : Vector4}
  {q r : Quantity}

theorem Template.fill_eq (pieces : List Piece) (text : String) {args : List (String × String)}
    (htemplate : template = String.ofList (render pieces)) (hpieces : ∀ p ∈ pieces, p.isBraceFree)
    (hargs : ∀ a ∈ args, IsBraceFree a.1.toList ∧ IsBraceFree a.2.toList)
    (htext : render (pieces.map (Piece.fill args)) = text.toList) : fill template args = text := by
  rw [htemplate, fill_render hpieces hargs, htext, String.ofList_toList]

/-- A matrix in front of a vector, or a call in which the vector comes first. -/
theorem evaluates_transform (b : Backend) (hx : Denotes b.language ρ x (.matrix l))
    (hy : Denotes b.language ρ y (.vector v)) :
    Evaluates b.language ρ (fill b.dialect.transform [("matrix", x), ("vector", y)])
      (.vector (l *ᵥ v)) := by
  have hargs : ∀ a ∈ [("matrix", x), ("vector", y)],
      IsBraceFree a.1.toList ∧ IsBraceFree a.2.toList := by
    simpa using ⟨⟨by decide, hx.isBraceFree⟩, by decide, hy.isBraceFree⟩
  cases b with
  | glsl | glslEs =>
    have hfill : fill Dialect.glsl.transform [("matrix", x), ("vector", y)] = _ :=
      fill_eq [.hole "matrix", .text " * ", .hole "vector"] (x ++ (String.ofList [' ', '*', ' '] ++ y))
        (by decide +kernel) (by decide) hargs
        (by simp [Piece.fill, Piece.subst, render, Piece.chars, String.toList_append])
    exact hfill ▸ hx.combination .product hy (ShadingLanguage.combine?_product_stored l v)
  | hlsl =>
    have hfill : fill Dialect.hlsl.transform [("matrix", x), ("vector", y)] = _ :=
      fill_eq [.text "mul(", .hole "vector", .text ", ", .hole "matrix", .text ")"]
        ("mul(" ++ ", ".intercalate [y, x] ++ ")") (by decide +kernel) (by decide) hargs
        (by simp [Piece.fill, Piece.subst, render, Piece.chars, String.toList_append])
    have hcall := Denotes.call (f := "mul") (by decide) (.cons hy (.cons hx .nil)) (by simp)
      (ShadingLanguage.call?_mul_vector l v) rfl
    exact hfill ▸ hcall

/-- The operands stand in their order on every target. -/
theorem evaluates_matrixMultiply (b : Backend) (hx : Denotes b.language ρ x (.matrix l))
    (hy : Denotes b.language ρ y (.matrix m)) :
    Evaluates b.language ρ (fill b.dialect.matrixMultiply [("left", x), ("right", y)])
      (b.language.stored (.matrix (b.language.product l m))) := by
  have hargs : ∀ a ∈ [("left", x), ("right", y)],
      IsBraceFree a.1.toList ∧ IsBraceFree a.2.toList := by
    simpa using ⟨⟨by decide, hx.isBraceFree⟩, by decide, hy.isBraceFree⟩
  cases b with
  | glsl | glslEs =>
    have hfill : fill Dialect.glsl.matrixMultiply [("left", x), ("right", y)] = _ :=
      fill_eq [.hole "left", .text " * ", .hole "right"] (x ++ (String.ofList [' ', '*', ' '] ++ y))
        (by decide +kernel) (by decide) hargs
        (by simp [Piece.fill, Piece.subst, render, Piece.chars, String.toList_append])
    exact hfill ▸ hx.combination .product hy (ShadingLanguage.combine?_product_matrix l m)
  | hlsl =>
    have hfill : fill Dialect.hlsl.matrixMultiply [("left", x), ("right", y)] = _ :=
      fill_eq [.text "mul(", .hole "left", .text ", ", .hole "right", .text ")"]
        ("mul(" ++ ", ".intercalate [x, y] ++ ")") (by decide +kernel) (by decide) hargs
        (by simp [Piece.fill, Piece.subst, render, Piece.chars, String.toList_append])
    have hcall := Denotes.call (f := "mul") (by decide) (.cons hx (.cons hy .nil)) (by simp)
      (ShadingLanguage.call?_mul_matrix l m) rfl
    exact hfill ▸ hcall

theorem exists_zipWith? (f : ℚ → ℚ → ℚ) (h : r.type = q.type) :
    ∃ u, q.zipWith? f r = some u ∧ u.type = q.type := by
  cases q <;> cases r <;> cases h <;> exact ⟨_, rfl, rfl⟩

/-- An operator that acts on each component. -/
theorem evaluates_zipWith {L : ShadingLanguage} {f : ℚ → ℚ → ℚ} {token : String} {u : Quantity}
    (op : BinaryOperator) (htoken : token = String.ofList [op.symbol]) (hx : Denotes L ρ x q)
    (hy : Denotes L ρ y r) (hu : q.zipWith? f r = some u)
    (hop : L.combine? op (L.stored q) (L.stored r) = (L.stored q).zipWith? f (L.stored r)) :
    Evaluates L ρ s!"{x} {token} {y}" (L.stored u) := by
  have htext : s!"{x} {token} {y}" = x ++ (String.ofList [' ', op.symbol, ' '] ++ y) := by
    rw [← String.toList_inj]
    simp [String.toList_append, htoken]
  rw [htext]
  refine hx.combination op hy ?_
  rw [hop, L.zipWith?_stored, hu]
  rfl

/-- What is written for an arithmetic operator. -/
theorem evaluates_arithmetic (b : Backend) {op : ArithmeticOperator} (hop : op ≠ .div)
    (hx : Denotes b.language ρ x q) (hy : Denotes b.language ρ y r) (hwide : q.type ≠ .scalar)
    (htype : r.type = q.type) :
    ∃ u, op.quantity? b.language.product q r = some u ∧ u.type = q.type ∧
      Evaluates b.language ρ
        (if op = .mul ∧ q.type = .matrix4 then
          fill b.dialect.matrixMultiply [("left", x), ("right", y)]
        else s!"{x} {operatorToken op} {y}") (b.language.stored u) := by
  cases op with
  | add =>
    obtain ⟨u, hu, hutype⟩ := exists_zipWith? (· + ·) htype
    rw [if_neg (by simp)]
    exact ⟨u, hu, hutype, evaluates_zipWith .sum rfl hx hy hu rfl⟩
  | sub =>
    obtain ⟨u, hu, hutype⟩ := exists_zipWith? (· - ·) htype
    rw [if_neg (by simp)]
    exact ⟨u, hu, hutype, evaluates_zipWith .difference rfl hx hy hu rfl⟩
  | mul =>
    cases q with
    | scalar => exact absurd rfl hwide
    | vector v =>
      obtain ⟨w, rfl⟩ := Quantity.exists_vector htype
      rw [if_neg (by simp [Quantity.type])]
      exact ⟨_, rfl, rfl, evaluates_zipWith (f := (· * ·)) .product rfl hx hy rfl
        (b.language.combine?_product_vector v w)⟩
    | matrix l =>
      obtain ⟨m, rfl⟩ := Quantity.exists_matrix htype
      rw [if_pos ⟨rfl, rfl⟩]
      exact ⟨_, rfl, rfl, evaluates_matrixMultiply b hx hy⟩
  | div => exact absurd rfl hop

end Products

end ShaderGraph
