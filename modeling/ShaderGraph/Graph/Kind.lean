import ShaderGraph.FixedFunction.SamplerState
import ShaderGraph.Value.Literal

/-!
# Node kinds

The closed catalog of node kinds with their configuration. Kinds that differ only in the function
they apply share a constructor. A kind that is not in the catalog is kept by name as `external`.
-/

namespace ShaderGraph

/-- Group of a node kind in an editor. -/
inductive NodeCategory
  | input
  | output
  | math
  | vector
  | texture
  | logic
  | stage
  | custom
deriving DecidableEq, Repr, Inhabited

instance : Labelled NodeCategory where
  all := [.input, .output, .math, .vector, .texture, .logic, .stage, .custom]
  label
    | .input => "Input"
    | .output => "Output"
    | .math => "Math"
    | .vector => "Vector"
    | .texture => "Texture"
    | .logic => "Logic"
    | .stage => "Stage"
    | .custom => "Custom"

/-- Comparison operator of conditional and discard nodes. -/
inductive Comparison
  | less
  | lessEqual
  | equal
  | notEqual
  | greater
  | greaterEqual
deriving DecidableEq, Repr, Inhabited

instance : Labelled Comparison where
  all := [.less, .lessEqual, .equal, .notEqual, .greater, .greaterEqual]
  label
    | .less => "Less"
    | .lessEqual => "LessEqual"
    | .equal => "Equal"
    | .notEqual => "NotEqual"
    | .greater => "Greater"
    | .greaterEqual => "GreaterEqual"

def Comparison.token : Comparison → String
  | .less => "<"
  | .lessEqual => "<="
  | .equal => "=="
  | .notEqual => "!="
  | .greater => ">"
  | .greaterEqual => ">="

/-- Hint on how a branch should be compiled; a static branch evaluates both sides. -/
inductive BranchHint
  | auto
  | static
  | dynamic
deriving DecidableEq, Repr, Inhabited

instance : Labelled BranchHint where
  all := [.auto, .static, .dynamic]
  label
    | .auto => "Auto"
    | .static => "Static"
    | .dynamic => "Dynamic"

inductive DerivativeAxis
  | x
  | y
deriving DecidableEq, Repr, Inhabited

instance : Labelled DerivativeAxis where
  all := [.x, .y]
  label
    | .x => "X"
    | .y => "Y"

inductive LogBase
  | two
  | ten
  | natural
deriving DecidableEq, Repr, Inhabited

instance : Labelled LogBase where
  all := [.two, .ten, .natural]
  label
    | .two => "Two"
    | .ten => "Ten"
    | .natural => "Natural"

/-- Meaning of a vertex attribute. -/
inductive AttributeUsage
  | position
  | normal
  | tangent
  | binormal
  | color
  | custom
deriving DecidableEq, Repr, Inhabited

instance : Labelled AttributeUsage where
  all := [.position, .normal, .tangent, .binormal, .color, .custom]
  label
    | .position => "Position"
    | .normal => "Normal"
    | .tangent => "Tangent"
    | .binormal => "Binormal"
    | .color => "Color"
    | .custom => "Custom"

/-- Functions of one vector that keep its width. -/
inductive Intrinsic
  | abs
  | exp
  | fraction
  | normalize
  | recipSqrt
  | sign
  | sqrt
deriving DecidableEq, Repr, Inhabited

instance : Labelled Intrinsic where
  all := [.abs, .exp, .fraction, .normalize, .recipSqrt, .sign, .sqrt]
  label
    | .abs => "Abs"
    | .exp => "Exp"
    | .fraction => "Fraction"
    | .normalize => "Normalize"
    | .recipSqrt => "RecipSqrt"
    | .sign => "Sign"
    | .sqrt => "Sqrt"

/-- Trigonometric functions of a scalar. -/
inductive AngleFunction
  | sin
  | cos
  | tan
  | arcusCos
deriving DecidableEq, Repr, Inhabited

instance : Labelled AngleFunction where
  all := [.sin, .cos, .tan, .arcusCos]
  label
    | .sin => "Sin"
    | .cos => "Cos"
    | .tan => "Tan"
    | .arcusCos => "ArcusCos"

inductive ArithmeticOperator
  | add
  | sub
  | mul
  | div
deriving DecidableEq, Repr, Inhabited

instance : Labelled ArithmeticOperator where
  all := [.add, .sub, .mul, .div]
  label
    | .add => "Add"
    | .sub => "Sub"
    | .mul => "Mul"
    | .div => "Div"

/-- Functions of two vectors of a common type. -/
inductive VectorFunction
  | min
  | max
  | step
deriving DecidableEq, Repr, Inhabited

instance : Labelled VectorFunction where
  all := [.min, .max, .step]
  label
    | .min => "Min"
    | .max => "Max"
    | .step => "Step"

structure ScriptPin where
  name : String
  type : ValueType
deriving DecidableEq, Repr

inductive NodeKind
  | intrinsic (function : Intrinsic)
  | angle (function : AngleFunction)
  | arithmetic (operator : ArithmeticOperator)
  | vectorFunction (function : VectorFunction)
  | negate
  | round
  | truncate
  | log (base : LogBase)
  | length
  | clamp (low high : Binary32)
  | derivative (axis : DerivativeAxis)
  | arcusTan
  | mulAdd
  | lerp
  | power
  | polynomial
  | dot
  | cross
  | reflect
  | swizzle (pattern : String)
  | mixIn
  | mixOut
  | matrixIn
  | matrixOut
  | transform
  | transpose
  | scalar (value : Binary32)
  | vector (x y z w : Binary32)
  | color (r g b a : Binary32)
  | conditional (comparison : Comparison) (hint : BranchHint)
  | switch (cases : List Int32) (hint : BranchHint)
  | discard (comparison : Comparison)
  | iterate (first last : Int32)
  | iterate2d (firstX lastX firstY lastY : Int32)
  | sum (first last : Int32)
  | repeatWhile
  | vertexInput (name : String) (usage : AttributeUsage) (type : ValueType) (index : UInt32)
  | vertexOutput
  | pixelOutput (state : RenderState)
  | interpolator
  | fragmentPosition
  | frontFace
  | instanceIndex
  | targetSize
  | uniform (parameter : String) (type : ValueType)
  | indexedUniform (parameter : String) (type : ValueType) (length : UInt32)
  | sampler (state : SamplerState)
  | textureSize
  | script (name body : String) (inputs outputs : List ScriptPin)
  | external (typeName : String)
deriving Repr

namespace NodeKind

/-- Tag of the kind in messages and in stored graphs. -/
def typeName : NodeKind → String
  | intrinsic f => Labelled.label f
  | angle f => Labelled.label f
  | arithmetic op => Labelled.label op
  | vectorFunction f => Labelled.label f
  | negate => "Neg"
  | round => "Round"
  | truncate => "Truncate"
  | log _ => "Log"
  | length => "Length"
  | clamp .. => "Clamp"
  | derivative _ => "Derivative"
  | arcusTan => "ArcusTan"
  | mulAdd => "MulAdd"
  | lerp => "Lerp"
  | power => "Pow"
  | polynomial => "Polynomial"
  | dot => "Dot"
  | cross => "Cross"
  | reflect => "Reflect"
  | swizzle _ => "Swizzle"
  | mixIn => "MixIn"
  | mixOut => "MixOut"
  | matrixIn => "MatrixIn"
  | matrixOut => "MatrixOut"
  | transform => "Transform"
  | transpose => "Transpose"
  | scalar _ => "Scalar"
  | vector .. => "Vector"
  | color .. => "Color"
  | conditional .. => "Conditional"
  | switch .. => "Switch"
  | discard _ => "Discard"
  | iterate .. => "Iterate"
  | iterate2d .. => "Iterate2d"
  | sum .. => "Sum"
  | repeatWhile => "Repeat"
  | vertexInput .. => "VertexInput"
  | vertexOutput => "VertexOutput"
  | pixelOutput _ => "PixelOutput"
  | interpolator => "Interpolator"
  | fragmentPosition => "FragmentPosition"
  | frontFace => "FrontFace"
  | instanceIndex => "Instance"
  | targetSize => "TargetSize"
  | uniform .. => "Uniform"
  | indexedUniform .. => "IndexedUniform"
  | sampler _ => "Sampler"
  | textureSize => "TextureSize"
  | script .. => "Script"
  | external name => name

def category : NodeKind → NodeCategory
  | color .. | scalar _ | vector .. | uniform .. | indexedUniform .. => .input
  | pixelOutput _ | vertexOutput => .output
  | cross | dot | length | intrinsic .normalize | reflect | matrixIn | matrixOut | mixIn | mixOut
  | swizzle _ | transform | transpose => .vector
  | sampler _ | textureSize => .texture
  | conditional .. | switch .. | discard _ | iterate .. | iterate2d .. | repeatWhile | sum .. =>
    .logic
  | vertexInput .. | interpolator | fragmentPosition | frontFace | instanceIndex | targetSize =>
    .stage
  | script .. | external _ => .custom
  | _ => .math

/-- Whether the kind evaluates its inputs inside a generated loop. -/
def isLoop : NodeKind → Bool
  | iterate .. | iterate2d .. | sum .. | repeatWhile => true
  | _ => false

def isInterpolator : NodeKind → Bool
  | interpolator => true
  | _ => false

def isPixelOutput : NodeKind → Bool
  | pixelOutput _ => true
  | _ => false

def isVertexOutput : NodeKind → Bool
  | vertexOutput => true
  | _ => false

end NodeKind

end ShaderGraph
