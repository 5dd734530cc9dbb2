import ShaderGraph.Emission.Input

/-!
# Scalars and componentwise arithmetic

Emitters of constants, of functions that act on each component, and of polynomials.
-/

namespace ShaderGraph

namespace Emitter

open EmitM

def intrinsicName (d : Dialect) : Intrinsic → String
  | .abs => "abs"
  | .exp => "exp"
  | .fraction => d.fract
  | .normalize => "normalize"
  | .recipSqrt => d.rsqrt
  | .sign => "sign"
  | .sqrt => "sqrt"

def intrinsic (demand : Demand) (n : Node) (f : Intrinsic) : EmitM Unit := do
  let input ← vectorInput demand n "Input"
  assignOutput n input.type s!"{intrinsicName (← dialect) f}({input.name})"

def negate (demand : Demand) (n : Node) : EmitM Unit := do
  let input ← requireInput demand n "Input"
  if !input.type.isNumeric then throw (.expected n "Input" "a vector or matrix" input.type)
  assignOutput n input.type s!"-{input.name}"

def round (demand : Demand) (n : Node) : EmitM Unit := do
  let input ← vectorInput demand n "Input"
  let d ← dialect
  let expr := match d.round? with
    | some f => s!"{f}({input.name})"
    | none => s!"floor({input.name} + {d.scalarLiteral input.type .half})"
  assignOutput n input.type expr

def truncate (demand : Demand) (n : Node) : EmitM Unit := do
  let input ← vectorInput demand n "Input"
  let expr := match (← dialect).trunc? with
    | some f => s!"{f}({input.name})"
    | none => s!"sign({input.name}) * floor(abs({input.name}))"
  assignOutput n input.type expr

def log (demand : Demand) (n : Node) (base : LogBase) : EmitM Unit := do
  let input ← vectorInput demand n "Input"
  let expr := match base, (← dialect).log10? with
    | .two, _ => s!"log2({input.name})"
    | .natural, _ => s!"log({input.name})"
    | .ten, some f => s!"{f}({input.name})"
    | .ten, none => s!"log2({input.name}) * 0.30103"
  assignOutput n input.type expr

def length (demand : Demand) (n : Node) : EmitM Unit := do
  let input ← vectorInput demand n "Input"
  assignOutput n .scalar s!"length({input.name})"

def clamp (demand : Demand) (n : Node) (low high : Binary32) : EmitM Unit := do
  let input ← vectorInput demand n "Input"
  assignOutput n input.type s!"clamp({input.name}, {low.literal}, {high.literal})"

def derivative (demand : Demand) (n : Node) (axis : DerivativeAxis) : EmitM Unit := do
  requireStage .pixel n
  let input ← vectorInput demand n "Input"
  require fun r ↦ { r with derivatives := true }
  let d ← dialect
  let f := match axis with
    | .x => d.ddx
    | .y => d.ddy
  assignOutput n input.type s!"{f}({input.name})"

def angleFunctionName : AngleFunction → String
  | .sin => "sin"
  | .cos => "cos"
  | .tan => "tan"
  | .arcusCos => "acos"

def angle (demand : Demand) (n : Node) (f : AngleFunction) : EmitM Unit := do
  let theta ← scalarInput demand n "Theta"
  assignOutput n .scalar s!"{angleFunctionName f}({theta.name})"

def arcusTan (demand : Demand) (n : Node) : EmitM Unit := do
  let xy ← requireInput demand n "XY"
  if xy.type ≠ .vec2 then throw (.expected n "XY" "a vec2" xy.type)
  assignOutput n .scalar s!"{(← dialect).atan2}({xy.name}.x, {xy.name}.y)"

def operatorToken : ArithmeticOperator → String
  | .add => "+"
  | .sub => "-"
  | .mul => "*"
  | .div => "/"

/-- Operands may be matrices; their product is the only operator that is not componentwise. -/
def arithmetic (demand : Demand) (n : Node) (op : ArithmeticOperator) : EmitM Unit := do
  let a ← requireInput demand n "Input1"
  let b ← requireInput demand n "Input2"
  let t ← commonType n [a, b]
  let left ← cast n a t
  let right ← cast n b t
  let d ← dialect
  let expr :=
    if op = .mul ∧ t = .matrix4 then
      Template.fill d.matrixMultiply [("left", left), ("right", right)]
    else s!"{left} {operatorToken op} {right}"
  assignOutput n t expr

def vectorFunctionName : VectorFunction → String
  | .min => "min"
  | .max => "max"
  | .step => "step"

def vectorFunctionPins : VectorFunction → String × String
  | .min | .max => ("Input1", "Input2")
  | .step => ("X", "Y")

def vectorFunction (demand : Demand) (n : Node) (f : VectorFunction) : EmitM Unit := do
  let (first, second) := vectorFunctionPins f
  let a ← vectorInput demand n first
  let b ← vectorInput demand n second
  let t ← commonType n [a, b]
  let left ← cast n a t
  let right ← cast n b t
  assignOutput n t s!"{vectorFunctionName f}({left}, {right})"

def mulAdd (demand : Demand) (n : Node) : EmitM Unit := do
  let a ← vectorInput demand n "Input1"
  let b ← vectorInput demand n "Input2"
  let c ← vectorInput demand n "Input3"
  let t ← commonType n [a, b, c]
  let x ← cast n a t
  let y ← cast n b t
  let z ← cast n c t
  assignOutput n t s!"{x} * {y} + {z}"

/-- A scalar weight is used as it is. -/
def lerp (demand : Demand) (n : Node) : EmitM Unit := do
  let a ← vectorInput demand n "Input1"
  let b ← vectorInput demand n "Input2"
  let blend ← vectorInput demand n "Blend"
  let t ← commonType n [a, b]
  let weight ← if blend.type = .scalar then pure blend.name else cast n blend t
  let x ← cast n a t
  let y ← cast n b t
  assignOutput n t s!"{(← dialect).lerp}({x}, {y}, {weight})"

/-- The base is cut off at zero, below which targets leave the power undefined. -/
def power (demand : Demand) (n : Node) : EmitM Unit := do
  let exponent ← vectorInput demand n "Exponent"
  let input ← vectorInput demand n "Input"
  let t ← commonType n [exponent, input]
  let zero := (← dialect).scalarLiteral t .zero
  let base ← cast n input t
  let power ← cast n exponent t
  assignOutput n t s!"pow(max({base}, {zero}), {power})"

/-- Horner form of a polynomial with the given coefficients, the constant one first. -/
def horner (x : String) : List String → String
  | [] => ""
  | [c] => c
  | c :: cs => s!"{c} + {x} * ({horner x cs})"

def polynomial (demand : Demand) (n : Node) : EmitM Unit := do
  let x ← vectorInput demand n "X"
  let coefficients ← vectorInput demand n "Coefficients"
  let d ← dialect
  match coefficients.type.components? with
  | none => throw (.expected n "Coefficients" "a vector" coefficients.type)
  | some 1 =>
    let expr :=
      if x.type = .scalar then coefficients.name
      else d.splat x.type coefficients.name
    assignOutput n x.type expr
  | some width =>
    let terms := (["x", "y", "z", "w"].take width).map fun c ↦ s!"{coefficients.name}.{c}"
    assignOutput n x.type (horner x.name terms)

/-- Literals of scalar, vector and color nodes. -/
def constant (n : Node) (components : List Binary32) : EmitM Unit := do
  let t := (ValueType.ofComponents? components.length).getD .scalar
  let literal := (← dialect).vectorLiteral components
  let output ← emitOutput n "Output" t
  let type ← typeName n t
  writeLine s!"const {type} {output.name} = {literal};"

end Emitter

end ShaderGraph
