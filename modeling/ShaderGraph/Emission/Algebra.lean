import ShaderGraph.Emission.Input

/-!
# Vectors and matrices

Emitters that take vectors and matrices apart, put them together and multiply them.
-/

namespace ShaderGraph

namespace Emitter

open EmitM

def dot (demand : Demand) (n : Node) : EmitM Unit := do
  let a ← vectorInput demand n "Input1"
  let b ← vectorInput demand n "Input2"
  let t ← commonType n [a, b]
  let left ← cast n a t
  let right ← cast n b t
  assignOutput n .scalar s!"dot({left}, {right})"

def cross (demand : Demand) (n : Node) : EmitM Unit := do
  let a ← vectorInput demand n "Input1"
  let b ← vectorInput demand n "Input2"
  let left ← cast n a .vec3
  let right ← cast n b .vec3
  assignOutput n .vec3 s!"cross({left}, {right})"

/-- The normal takes the type of the direction. -/
def reflect (demand : Demand) (n : Node) : EmitM Unit := do
  let normal ← vectorInput demand n "Normal"
  let direction ← vectorInput demand n "Direction"
  let axis ← cast n normal direction.type
  assignOutput n direction.type s!"reflect({direction.name}, {axis})"

/-- Position of a component letter. -/
def componentIndex? (c : Char) : Option Nat :=
  ['x', 'y', 'z', 'w'].findIdx? (· = c)

/-- One component of a swizzle of `input`: a constant, or a component that the input has. -/
def swizzleComponent (n : Node) (pattern : String) (input : Variable) (c : Char) :
    Except CompileError String :=
  if c = '0' ∨ c = '1' then .ok s!"{c}.0"
  else
    match componentIndex? c with
    | none => .error (.mismatch n s!"swizzle '{pattern}' has invalid component '{c}'")
    | some index =>
      if (input.type.components?.getD 1) ≤ index then
        .error (.mismatch n s!"swizzle '{pattern}' reads '{c}' from a {input.type.name}")
      else if input.type = .scalar then .ok input.name
      else .ok s!"{input.name}.{c}"

def isConstantComponent (c : Char) : Bool :=
  c = '0' || c = '1'

/-- Selects components by a pattern of the letters `x`, `y`, `z`, `w` and the constants `0` and `1`.
A selection of all components in their order is the input itself. -/
def swizzle (demand : Demand) (n : Node) (pattern : String) : EmitM Unit := do
  let input ← vectorInput demand n "Input"
  let pattern := asciiLower pattern
  let some t := ValueType.ofComponents? pattern.utf8ByteSize
    | throw (.mismatch n s!"swizzle '{pattern}' must have 1 to 4 components")
  let components ← liftExcept (pattern.toList.mapM (swizzleComponent n pattern input))
  if t = input.type ∧ pattern.toList.isPrefixOf ['x', 'y', 'z', 'w'] then forwardOutput n input
  else if pattern.toList.any isConstantComponent ∨ input.type = .scalar then
    if t = .scalar then assignOutput n t (components.headD "")
    else assignOutput n t ((← dialect).construct t components)
  else assignOutput n t s!"{input.name}.{pattern}"

def componentPins : List String := ["X", "Y", "Z", "W"]

/-- The number of values up to the last one that is present. -/
def presentWidth {α : Type} : List (Option α) → Nat
  | [] => 0
  | v :: vs =>
    match presentWidth vs with
    | 0 => if v.isSome then 1 else 0
    | k + 1 => k + 2

/-- The scalar that a component pin contributes; a pin without a value contributes zero. -/
def mixedComponent (n : Node) (pin : String) : Option Variable → EmitM String
  | none => return "0.0"
  | some v =>
    if v.type.isVector then cast n v .scalar else throw (.expected n pin "a scalar" v.type)

/-- Builds a vector as wide as the last component pin that has a value. -/
def mixIn (demand : Demand) (n : Node) : EmitM Unit := do
  let values ← componentPins.mapM (inputValue? demand n)
  let width := presentWidth values
  if width = 0 then throw (.missingInput (.ofNode n) "X")
  let components ← ((componentPins.zip values).take width).mapM fun p ↦ mixedComponent n p.1 p.2
  let t := (ValueType.ofComponents? width).getD .scalar
  let expr ←
    if width = 1 then pure (components.headD "")
    else pure ((← dialect).construct t components)
  assignOutput n t expr

/-- Binds an output to every component of the input. -/
def mixOut (demand : Demand) (n : Node) : EmitM Unit := do
  let input ← vectorInput demand n "Input"
  let width := input.type.components?.getD 1
  if width = 1 then
    let _ ← bindOutput n "X" input
  else
    for (pin, c) in (componentPins.zip ["x", "y", "z", "w"]).take width do
      let _ ← bindOutput n pin ⟨s!"{input.name}.{c}", .scalar⟩

def axisPins : List String := ["XAxis", "YAxis", "ZAxis", "Translate"]

def matrixIn (demand : Demand) (n : Node) : EmitM Unit := do
  let axes ← axisPins.mapM fun pin ↦ do
    let axis ← vectorInput demand n pin
    cast n axis .vec4
  assignOutput n .matrix4 ((← dialect).construct .matrix4 axes)

def matrixOut (demand : Demand) (n : Node) : EmitM Unit := do
  let input ← matrixInput demand n "Input"
  for (pin, i) in axisPins.zipIdx do
    let output ← emitOutput n pin .vec4
    assign n output s!"{input.name}[{i}]"

def transform (demand : Demand) (n : Node) : EmitM Unit := do
  let input ← vectorInput demand n "Input"
  let matrix ← matrixInput demand n "Transform"
  let vector ← cast n input .vec4
  let expr := Template.fill (← dialect).transform [("matrix", matrix.name), ("vector", vector)]
  assignOutput n .vec4 expr

def transpose (demand : Demand) (n : Node) : EmitM Unit := do
  let some f := (← dialect).transpose? | unsupported n "matrix transpose"
  let input ← matrixInput demand n "Input"
  require fun r ↦ { r with transpose := true }
  assignOutput n .matrix4 s!"{f}({input.name})"

end Emitter

end ShaderGraph
