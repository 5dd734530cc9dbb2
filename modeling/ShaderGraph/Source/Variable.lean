import ShaderGraph.Target.Tables
import ShaderGraph.Value.ValueType

/-!
# Variables

A variable is an identifier or an expression that stands for the value of a pin.
-/

namespace ShaderGraph

structure Variable where
  name : String
  type : ValueType
deriving DecidableEq, Repr, Inhabited

namespace Variable

/-- Selection of the first `n` components. -/
def firstComponents (n : Nat) : String :=
  String.ofList (['x', 'y', 'z', 'w'].take n)

/-- Expression for the variable as a value of type `target`. Scalars are broadcast, wider vectors
cut off and narrower ones padded with zeros; matrices and textures only become themselves. A loop
output whose type is not fixed yet is used as it is. -/
def cast (v : Variable) (target : ValueType) (d : Dialect) : Except TypeError String :=
  if v.type = target ∨ (v.type = .void ∧ target.isNumeric) then .ok v.name
  else
    match v.type.components?, target.components? with
    | some source, some width =>
      if !v.type.isVector || !target.isVector then .error (.noConversion v.type target)
      else if source = 1 then .ok (d.splat target v.name)
      else if width < source then .ok s!"{v.name}.{firstComponents width}"
      else .ok (d.construct target (v.name :: List.replicate (width - source) "0.0"))
    | _, _ => .error (.noConversion v.type target)

end Variable

end ShaderGraph
