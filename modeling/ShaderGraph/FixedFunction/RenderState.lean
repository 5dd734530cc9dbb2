import ShaderGraph.Data.Tables

/-!
# Render states

Settings of the fixed-function parts of a graphics pipeline. No shader text expresses them; they
travel from the pixel output of a graph to the compiled program unchanged.
-/

namespace ShaderGraph

inductive CullMode
  | never
  | clockWise
  | counterClockWise
deriving DecidableEq, Repr, Inhabited

instance : Labelled CullMode where
  all := [.never, .clockWise, .counterClockWise]
  label
    | .never => "Never"
    | .clockWise => "ClockWise"
    | .counterClockWise => "CounterClockWise"

inductive BlendOperation
  | add
  | subtract
  | reverseSubtract
  | min
  | max
deriving DecidableEq, Repr, Inhabited

instance : Labelled BlendOperation where
  all := [.add, .subtract, .reverseSubtract, .min, .max]
  label
    | .add => "Add"
    | .subtract => "Subtract"
    | .reverseSubtract => "ReverseSubtract"
    | .min => "Min"
    | .max => "Max"

inductive BlendFactor
  | one
  | zero
  | sourceColor
  | oneMinusSourceColor
  | destinationColor
  | oneMinusDestinationColor
  | sourceAlpha
  | oneMinusSourceAlpha
  | destinationAlpha
  | oneMinusDestinationAlpha
deriving DecidableEq, Repr, Inhabited

instance : Labelled BlendFactor where
  all := [.one, .zero, .sourceColor, .oneMinusSourceColor, .destinationColor,
    .oneMinusDestinationColor, .sourceAlpha, .oneMinusSourceAlpha, .destinationAlpha,
    .oneMinusDestinationAlpha]
  label
    | .one => "One"
    | .zero => "Zero"
    | .sourceColor => "SourceColor"
    | .oneMinusSourceColor => "OneMinusSourceColor"
    | .destinationColor => "DestinationColor"
    | .oneMinusDestinationColor => "OneMinusDestinationColor"
    | .sourceAlpha => "SourceAlpha"
    | .oneMinusSourceAlpha => "OneMinusSourceAlpha"
    | .destinationAlpha => "DestinationAlpha"
    | .oneMinusDestinationAlpha => "OneMinusDestinationAlpha"

/-- Comparison of depth, stencil and alpha tests and of shadow samplers. -/
inductive CompareFunction
  | always
  | never
  | less
  | lessEqual
  | greater
  | greaterEqual
  | equal
  | notEqual
  | noComparison
deriving DecidableEq, Repr, Inhabited

instance : Labelled CompareFunction where
  all := [.always, .never, .less, .lessEqual, .greater, .greaterEqual, .equal, .notEqual,
    .noComparison]
  label
    | .always => "Always"
    | .never => "Never"
    | .less => "Less"
    | .lessEqual => "LessEqual"
    | .greater => "Greater"
    | .greaterEqual => "GreaterEqual"
    | .equal => "Equal"
    | .notEqual => "NotEqual"
    | .noComparison => "None"

inductive StencilOperation
  | keep
  | zero
  | replace
  | incrementSaturate
  | decrementSaturate
  | invert
  | increment
  | decrement
deriving DecidableEq, Repr, Inhabited

instance : Labelled StencilOperation where
  all := [.keep, .zero, .replace, .incrementSaturate, .decrementSaturate, .invert, .increment,
    .decrement]
  label
    | .keep => "Keep"
    | .zero => "Zero"
    | .replace => "Replace"
    | .incrementSaturate => "IncrementSaturate"
    | .decrementSaturate => "DecrementSaturate"
    | .invert => "Invert"
    | .increment => "Increment"
    | .decrement => "Decrement"

/-- A set of color channels: red 1, green 2, blue 4 and alpha 8. -/
structure ColorWriteMask where
  bits : UInt8
deriving DecidableEq, Repr, Inhabited

namespace ColorWriteMask

def rgba : ColorWriteMask := ⟨15⟩

/-- Whether every channel of `other` is in the mask. -/
def contains (mask other : ColorWriteMask) : Bool :=
  mask.bits &&& other.bits = other.bits

end ColorWriteMask

structure RenderState where
  cullMode : CullMode := .counterClockWise
  blendEnable : Bool := false
  blendOperation : BlendOperation := .add
  blendSource : BlendFactor := .one
  blendDestination : BlendFactor := .zero
  colorWriteMask : ColorWriteMask := .rgba
  depthEnable : Bool := true
  depthWriteEnable : Bool := true
  depthFunction : CompareFunction := .lessEqual
  alphaTestEnable : Bool := false
  alphaTestFunction : CompareFunction := .less
  alphaTestReference : UInt8 := 128
  stencilEnable : Bool := false
  stencilFail : StencilOperation := .keep
  stencilZFail : StencilOperation := .keep
  stencilPass : StencilOperation := .keep
  stencilFunction : CompareFunction := .always
  stencilReference : UInt32 := 0
  stencilMask : UInt32 := 0xffffffff
deriving DecidableEq, Repr, Inhabited

end ShaderGraph
