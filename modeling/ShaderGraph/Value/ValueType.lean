import ShaderGraph.Data.Tables

/-!
# Types of values on pins

Scalars and vectors are the promotable types, in the order of their width. Matrices and texture
handles take no part in promotion. `void` is the type of a loop output that is read before the loop
body has fixed it.

Two promotable types have the wider one in common, and a matrix has a type in common with a matrix
only. A `void` operand takes the type of the other one if that is numeric.
-/

namespace ShaderGraph

inductive ValueType
  | void
  | scalar
  | vec2
  | vec3
  | vec4
  | matrix4
  | texture2D
  | texture3D
  | textureCube
deriving DecidableEq, Repr, Inhabited

namespace ValueType

instance : Labelled ValueType where
  all := [void, scalar, vec2, vec3, vec4, matrix4, texture2D, texture3D, textureCube]
  label
    | void => "Void"
    | scalar => "Scalar"
    | vec2 => "Vec2"
    | vec3 => "Vec3"
    | vec4 => "Vec4"
    | matrix4 => "Matrix4"
    | texture2D => "Texture2D"
    | texture3D => "Texture3D"
    | textureCube => "TextureCube"

/-- Name in messages. -/
def name : ValueType → String
  | void => "void"
  | scalar => "scalar"
  | vec2 => "vec2"
  | vec3 => "vec3"
  | vec4 => "vec4"
  | matrix4 => "matrix4"
  | texture2D => "texture2D"
  | texture3D => "texture3D"
  | textureCube => "textureCube"

/-- The scalar or vector type with `n` components. -/
def ofComponents? : Nat → Option ValueType
  | 1 => some scalar
  | 2 => some vec2
  | 3 => some vec3
  | 4 => some vec4
  | _ => none

/-- Number of float components. -/
def components? : ValueType → Option Nat
  | scalar => some 1
  | vec2 => some 2
  | vec3 => some 3
  | vec4 => some 4
  | matrix4 => some 16
  | void | texture2D | texture3D | textureCube => none

/-- Whether this is a scalar or a vector. -/
def isVector : ValueType → Bool
  | scalar | vec2 | vec3 | vec4 => true
  | _ => false

def isTexture : ValueType → Bool
  | texture2D | texture3D | textureCube => true
  | _ => false

/-- Whether values of the type can be computed with: scalars, vectors and matrices. -/
def isNumeric (t : ValueType) : Bool :=
  t.isVector || t = matrix4

/-- The wider of two promotable types. -/
def wider (a b : ValueType) : ValueType :=
  if a.components?.getD 0 ≤ b.components?.getD 0 then b else a

end ValueType

/-! ## Common types of operands -/

inductive TypeError
  | incompatible (a b : ValueType)
  | noConversion (source target : ValueType)
deriving DecidableEq, Repr

def TypeError.message : TypeError → String
  | .incompatible a b => s!"{a.name} and {b.name} have no common type"
  | .noConversion a b => s!"{a.name} cannot be converted to {b.name}"

namespace ValueType

def common (a b : ValueType) : Except TypeError ValueType :=
  if a = void ∧ b.isNumeric then .ok b
  else if b = void ∧ a.isNumeric then .ok a
  else if a.isVector ∧ b.isVector then .ok (a.wider b)
  else if a = matrix4 ∧ b = matrix4 then .ok a
  else .error (.incompatible a b)

/-- The common type of a list of operands, taken from left to right. -/
def commonOf : List ValueType → Except TypeError ValueType
  | [] => .error (.incompatible void void)
  | t :: ts => ts.foldlM common t

end ValueType

end ShaderGraph
