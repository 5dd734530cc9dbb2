import ShaderGraph.Numeric.Shortest
import ShaderGraph.Value.ValueType

/-!
# Literals on unconnected pins
-/

namespace ShaderGraph

inductive Literal
  | scalar (x : Binary32)
  | vector2 (x y : Binary32)
  | vector3 (x y z : Binary32)
  | vector4 (x y z w : Binary32)
deriving DecidableEq, Repr

namespace Literal

def type : Literal → ValueType
  | scalar .. => .scalar
  | vector2 .. => .vec2
  | vector3 .. => .vec3
  | vector4 .. => .vec4

def components : Literal → List Binary32
  | scalar x => [x]
  | vector2 x y => [x, y]
  | vector3 x y z => [x, y, z]
  | vector4 x y z w => [x, y, z, w]

end Literal

end ShaderGraph
