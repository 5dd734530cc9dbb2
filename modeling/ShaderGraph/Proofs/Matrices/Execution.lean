import Mathlib.Data.Matrix.Mul
import Mathlib.LinearAlgebra.Matrix.Notation
import ShaderGraph.Proofs.Matrices.Statement
import ShaderGraph.Proofs.Numeric.Nearest

/-!
# Matrices in the shading languages

What statements without blocks compute in exact arithmetic, by the rules of the two families of target
languages. In GLSL the arguments of a matrix constructor are columns, an element of a matrix is a column,
and an asterisk between matrices and vectors is a product. In HLSL the arguments are rows, an element is a
row, products are calls of `mul`, and an asterisk multiplies componentwise. So the variables of an HLSL
program hold the transposed matrices.
-/

open scoped Matrix

namespace ShaderGraph

abbrev Vector4 := Fin 4 → ℚ

abbrev Matrix4 := Matrix (Fin 4) (Fin 4) ℚ

/-- The value of an expression. -/
inductive Quantity
  | scalar (x : ℚ)
  | vector (v : Vector4)
  | matrix (m : Matrix4)

namespace Quantity

-- The derived instance does not compute: equal functions need not be equal by evaluation.
instance : DecidableEq Quantity
  | scalar x, scalar y => decidable_of_iff (x = y) (scalar.injEq x y ▸ .rfl)
  | vector v, vector w => decidable_of_iff (v = w) (vector.injEq v w ▸ .rfl)
  | matrix l, matrix r => decidable_of_iff (l = r) (matrix.injEq l r ▸ .rfl)
  | scalar _, vector _ | scalar _, matrix _ | vector _, scalar _ | vector _, matrix _ | matrix _, scalar _
  | matrix _, vector _ => isFalse (by simp)

def negate : Quantity → Quantity
  | scalar x => scalar (-x)
  | vector v => vector (-v)
  | matrix m => matrix (-m)

/-- A function of two numbers, applied to the components of two quantities of one type. -/
def zipWith? (f : ℚ → ℚ → ℚ) : Quantity → Quantity → Option Quantity
  | scalar x, scalar y => some (scalar (f x y))
  | vector v, vector w => some (vector fun i ↦ f (v i) (w i))
  | matrix l, matrix r => some (matrix (.of fun i j ↦ f (l i j) (r i j)))
  | _, _ => none

/-- The products of linear algebra. A vector is a row in front of a matrix and a column behind it. -/
def multiply? : Quantity → Quantity → Option Quantity
  | matrix l, matrix r => some (matrix (l * r))
  | matrix m, vector v => some (vector (m *ᵥ v))
  | vector v, matrix m => some (vector (v ᵥ* m))
  | _, _ => none

end Quantity

/-! ## Rules of the languages -/

inductive ShadingLanguage
  | glsl
  | hlsl
deriving DecidableEq, Repr

def Backend.language : Backend → ShadingLanguage
  | .glsl | .glslEs => .glsl
  | .hlsl => .hlsl

namespace ShadingLanguage

def vectorType : ShadingLanguage → String
  | glsl => "vec4"
  | hlsl => "float4"

def matrixType : ShadingLanguage → String
  | glsl => "mat4"
  | hlsl => "float4x4"

def typeOf (L : ShadingLanguage) : Quantity → String
  | .scalar _ => "float"
  | .vector _ => L.vectorType
  | .matrix _ => L.matrixType

/-- The matrix that a constructor makes of four vectors. -/
def matrixOf (L : ShadingLanguage) (a b c d : Vector4) : Matrix4 :=
  match L with
  | glsl => (.of ![a, b, c, d])ᵀ
  | hlsl => .of ![a, b, c, d]

def construct? (L : ShadingLanguage) (type : String) : List Quantity → Option Quantity
  | [.scalar x, .scalar y, .scalar z, .scalar w] =>
    if type = L.vectorType then some (.vector ![x, y, z, w]) else none
  | [.vector a, .vector b, .vector c, .vector d] =>
    if type = L.matrixType then some (.matrix (L.matrixOf a b c d)) else none
  | _ => none

/-- A call of a function or of a constructor. -/
def call? (L : ShadingLanguage) (f : String) (args : List Quantity) : Option Quantity :=
  match L, f, args with
  | _, "transpose", [.matrix m] => some (.matrix mᵀ)
  | hlsl, "mul", [q, r] => q.multiply? r
  | _, _, _ => L.construct? f args

/-- The element of a matrix under an index. -/
def element? (L : ShadingLanguage) : Quantity → Fin 4 → Option Quantity
  | .matrix m, k =>
    match L with
    | glsl => some (.vector (m.col k))
    | hlsl => some (.vector (m.row k))
  | _, _ => none

def combine? (L : ShadingLanguage) : BinaryOperator → Quantity → Quantity → Option Quantity
  | .sum, q, r => q.zipWith? (· + ·) r
  | .difference, q, r => q.zipWith? (· - ·) r
  | .product, q, r =>
    match L with
    | glsl => (q.multiply? r).or (q.zipWith? (· * ·) r)
    | hlsl => q.zipWith? (· * ·) r

end ShadingLanguage

/-! ## Expressions and statements -/

/-- The index that a number stands for. -/
def axisIndex? (text : String) : Option (Fin 4) :=
  (List.finRange 4).find? fun k ↦ toString k.val = text

namespace Expression

mutual

def quantity? (L : ShadingLanguage) (ρ : String → Option Quantity) : Expression → Option Quantity
  | name text => ρ text
  | number text => (Binary32.ofText? text.toList).map fun x ↦ .scalar x.value
  | element e (number text) => do L.element? (← quantity? L ρ e) (← axisIndex? text)
  | call (name f) args => do L.call? f (← quantities? L ρ args)
  | negative e => (quantity? L ρ e).map Quantity.negate
  | select .. | element .. | call .. | conversion .. => none

def quantities? (L : ShadingLanguage) (ρ : String → Option Quantity) :
    List Expression → Option (List Quantity)
  | [] => some []
  | e :: es => do return (← quantity? L ρ e) :: (← quantities? L ρ es)

end

end Expression

def Formula.quantity? (L : ShadingLanguage) (ρ : String → Option Quantity) :
    Formula → Option Quantity
  | operand e => e.quantity? L ρ
  | combination op left right => do L.combine? op (← left.quantity? L ρ) (← right.quantity? L ρ)

/-- What a body has computed. Outputs are kept apart from variables. -/
structure Execution where
  values : String → Option Quantity
  /-- What was written to outputs, the earliest first. -/
  written : List (String × Quantity) := []

namespace Execution

def declare (σ : Execution) (name : String) (q : Quantity) : Execution :=
  { σ with values := Function.update σ.values name (some q) }

def write (σ : Execution) (target : String) (q : Quantity) : Execution :=
  { σ with written := σ.written ++ [(target, q)] }

end Execution

/-- A declaration names the type of its value and a variable that there is not yet. -/
def Statement.run? (L : ShadingLanguage) (s : Statement) (σ : Execution) : Option Execution := do
  let q ← s.value.quantity? L σ.values
  match s.type? with
  | some type =>
    if type = L.typeOf q ∧ (σ.values s.target).isNone then some (σ.declare s.target q) else none
  | none => some (σ.write s.target q)

def execute? (L : ShadingLanguage) (σ : Execution) (lines : List String) : Option Execution :=
  lines.foldlM (fun σ line ↦ do (← statement? line).run? L σ) σ

/-! ## Stored quantities -/

/-- The matrix with four columns. -/
def ofAxes (a b c d : Vector4) : Matrix4 :=
  (Matrix.of ![a, b, c, d])ᵀ

namespace ShadingLanguage

/-- What a variable holds that stands for a quantity. -/
def stored (L : ShadingLanguage) : Quantity → Quantity
  | .matrix m =>
    match L with
    | glsl => .matrix m
    | hlsl => .matrix mᵀ
  | q => q

/-- The matrix that the language computes for a product of two matrices. -/
def product (L : ShadingLanguage) (l r : Matrix4) : Matrix4 :=
  match L with
  | glsl => l * r
  | hlsl => r * l

@[simp]
theorem stored_vector (L : ShadingLanguage) (v : Vector4) : L.stored (.vector v) = .vector v :=
  rfl

@[simp]
theorem typeOf_stored (L : ShadingLanguage) (q : Quantity) : L.typeOf (L.stored q) = L.typeOf q := by
  cases L <;> cases q <;> rfl

theorem negate_stored (L : ShadingLanguage) (q : Quantity) :
    (L.stored q).negate = L.stored q.negate := by
  cases L <;> cases q <;> simp [stored, Quantity.negate]

theorem zipWith?_stored (L : ShadingLanguage) (f : ℚ → ℚ → ℚ) (q r : Quantity) :
    (L.stored q).zipWith? f (L.stored r) = (q.zipWith? f r).map L.stored := by
  cases L <;> cases q <;> cases r <;> rfl

theorem call?_vectorType (L : ShadingLanguage) (x y z w : ℚ) :
    L.call? L.vectorType [.scalar x, .scalar y, .scalar z, .scalar w] =
      some (.vector ![x, y, z, w]) := by
  cases L <;> rfl

theorem call?_matrixType (L : ShadingLanguage) (a b c d : Vector4) :
    L.call? L.matrixType [.vector a, .vector b, .vector c, .vector d] =
      some (L.stored (.matrix (ofAxes a b c d))) := by
  cases L <;> rfl

theorem call?_transpose (L : ShadingLanguage) (m : Matrix4) :
    L.call? "transpose" [L.stored (.matrix m)] = some (L.stored (.matrix mᵀ)) := by
  cases L <;> rfl

theorem element?_stored (L : ShadingLanguage) (m : Matrix4) (k : Fin 4) :
    L.element? (L.stored (.matrix m)) k = some (.vector (m.col k)) := by
  cases L <;> rfl

theorem combine?_product_vector (L : ShadingLanguage) (v w : Vector4) :
    L.combine? .product (.vector v) (.vector w) = some (.vector (v * w)) := by
  cases L <;> rfl

/-- A matrix in front of a vector. -/
theorem combine?_product_stored (m : Matrix4) (v : Vector4) :
    glsl.combine? .product (glsl.stored (.matrix m)) (.vector v) = some (.vector (m *ᵥ v)) :=
  rfl

/-- The vector is a row in front of the transposed matrix. -/
theorem call?_mul_vector (m : Matrix4) (v : Vector4) :
    hlsl.call? "mul" [.vector v, hlsl.stored (.matrix m)] = some (.vector (m *ᵥ v)) := by
  rw [← Matrix.vecMul_transpose]
  rfl

theorem combine?_product_matrix (l r : Matrix4) :
    glsl.combine? .product (glsl.stored (.matrix l)) (glsl.stored (.matrix r)) =
      some (glsl.stored (.matrix (glsl.product l r))) :=
  rfl

/-- The product of the transposed matrices is that of the matrices in the other order. -/
theorem call?_mul_matrix (l r : Matrix4) :
    hlsl.call? "mul" [hlsl.stored (.matrix l), hlsl.stored (.matrix r)] =
      some (hlsl.stored (.matrix (hlsl.product l r))) := by
  have htransposed : hlsl.stored (.matrix (hlsl.product l r)) = .matrix (lᵀ * rᵀ) :=
    congrArg Quantity.matrix (Matrix.transpose_mul r l)
  rw [htransposed]
  rfl

end ShadingLanguage

/-! ## Literals -/

theorem Binary32.value_negate (x : Binary32) : x.negate.value = -x.value := by
  have hm : x.magnitude < signBit := Nat.mod_lt _ (by decide)
  have hsize : x.negate.size = x.size := size_congr (magnitude_ofMagnitude _ hm)
  rw [value, value, hsize, negate, isNegative_ofMagnitude _ hm]
  cases x.isNegative <;> simp [signed]

section Literals

variable {L : ShadingLanguage} {ρ : String → Option Quantity} {es : List Expression}
  {qs : List Quantity}

theorem Expression.quantities?_eq_some
    (h : List.Forall₂ (fun (e : Expression) q ↦ e.quantity? L ρ = some q) es qs) :
    Expression.quantities? L ρ es = some qs := by
  induction h with
  | nil => rfl
  | cons he _ ih =>
    rw [Expression.quantities?, he, ih]
    rfl

theorem Expression.quantity?_call {f : String} {q : Quantity}
    (h : List.Forall₂ (fun (e : Expression) q ↦ e.quantity? L ρ = some q) es qs)
    (hq : L.call? f qs = some q) : (Expression.call (.name f) es).quantity? L ρ = some q := by
  rw [Expression.quantity?, Expression.quantities?_eq_some h]
  exact hq

/-- The literal of a finite float denotes its value. -/
theorem expression?_scalar (types : List String) {x : Binary32} (hx : x.isFinite) :
    ∃ e, expression? types x.literal = some e ∧
      ∀ L ρ, e.quantity? L ρ = some (.scalar x.value) := by
  obtain ⟨digits, e, hread, he, hcomponents⟩ :=
    expression?_literal types .glsl (fun _ ↦ none) hx
  refine ⟨e, hread, fun L ρ ↦ ?_⟩
  cases hnegative : x.isNegative with
  | false =>
    rw [hnegative, if_neg Bool.false_ne_true] at he
    rw [he, Expression.components?] at hcomponents
    obtain ⟨y, hy, heq⟩ := Option.map_eq_some_iff.mp hcomponents
    cases heq
    rw [he, Expression.quantity?, hy]
    rfl
  | true =>
    rw [hnegative, if_pos rfl] at he
    rw [he, Expression.components?, Expression.components?, Option.map_map] at hcomponents
    obtain ⟨y, hy, heq⟩ := Option.map_eq_some_iff.mp hcomponents
    cases heq
    rw [he, Expression.quantity?, Expression.quantity?, hy, Binary32.value_negate]
    rfl

/-- The literal of a vector denotes its components. -/
theorem expression?_vector (b : Backend) {x y z w : Binary32}
    (hfinite : ∀ c ∈ [x, y, z, w], c.isFinite) :
    ∃ e, expression? [] (b.dialect.vectorLiteral [x, y, z, w]) = some e ∧ e.takesSuffixes ∧
      ∀ ρ, e.quantity? b.language ρ =
        some (.vector ![x.value, y.value, z.value, w.value]) := by
  have hread (c : Binary32) (hc : c ∈ [x, y, z, w]) := expression?_scalar [] (hfinite c hc)
  obtain ⟨ex, hx, hxq⟩ := hread x (by simp)
  obtain ⟨ey, hy, hyq⟩ := hread y (by simp)
  obtain ⟨ez, hz, hzq⟩ := hread z (by simp)
  obtain ⟨ew, hw, hwq⟩ := hread w (by simp)
  have htype : b.dialect.typeNameOrVoid .vec4 = b.language.vectorType := by cases b <;> rfl
  refine ⟨_, expression?_call_name (isIdentifier_typeNameOrVoid b .vec4)
    (.cons hx (.cons hy (.cons hz (.cons hw .nil)))) (by simp) rfl, rfl, fun ρ ↦ ?_⟩
  rw [htype]
  exact Expression.quantity?_call
    (.cons (hxq _ ρ) (.cons (hyq _ ρ) (.cons (hzq _ ρ) (.cons (hwq _ ρ) .nil))))
    (b.language.call?_vectorType ..)

theorem axisIndex?_val (k : Fin 4) : axisIndex? (toString k.val) = some k := by
  fin_cases k <;> rfl

end Literals

end ShaderGraph
