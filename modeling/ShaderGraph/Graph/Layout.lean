import ShaderGraph.Graph.Kind

/-!
# Pin layouts

Every kind has a fixed list of input and output pins; only the pins of switches and scripts follow
their configuration. Pins are found by name.
-/

namespace ShaderGraph

/-- A pin as its kind describes it. An input that is not optional needs a connection or a
default. -/
structure PinSpec where
  name : String
  isOptional : Bool := false
  default? : Option Literal := none
deriving DecidableEq, Repr

namespace PinSpec

def required (name : String) : PinSpec :=
  { name }

def optional (name : String) : PinSpec :=
  { name, isOptional := true }

def axis (name : String) (x y z w : Binary32) : PinSpec :=
  { name, default? := some (.vector4 x y z w) }

end PinSpec

/-- Name of the switch input for a case value. -/
def switchCasePin (value : Int32) : String :=
  s!"Case {value.toInt}"

namespace NodeKind

def loopInputs (condition : PinSpec) : List PinSpec :=
  [.required "Input", .optional "Initial", condition]

def inputPins : NodeKind → List PinSpec
  | intrinsic _ | negate | round | truncate | log _ | length | clamp .. | derivative _ | transpose
  | swizzle _ | mixOut | matrixOut | sum .. | interpolator | vertexOutput | textureSize =>
    [.required "Input"]
  | angle _ => [.required "Theta"]
  | arcusTan => [.required "XY"]
  | arithmetic _ | vectorFunction .min | vectorFunction .max | dot | cross =>
    [.required "Input1", .required "Input2"]
  | vectorFunction .step => [.required "X", .required "Y"]
  | mulAdd => [.required "Input1", .required "Input2", .required "Input3"]
  | lerp => [.required "Input1", .required "Input2", .required "Blend"]
  | power => [.required "Exponent", .required "Input"]
  | polynomial => [.required "X", .required "Coefficients"]
  | reflect => [.required "Normal", .required "Direction"]
  | mixIn => [.optional "X", .optional "Y", .optional "Z", .optional "W"]
  | matrixIn =>
    [.axis "XAxis" .one .zero .zero .zero, .axis "YAxis" .zero .one .zero .zero,
      .axis "ZAxis" .zero .zero .one .zero, .axis "Translate" .zero .zero .zero .one]
  | transform => [.required "Input", .required "Transform"]
  | conditional .. =>
    [.required "Input", .required "Reference", .required "CaseTrue", .required "CaseFalse"]
  | switch cases _ =>
    .required "Select" :: .required "Default" :: cases.map fun c ↦ .required (switchCasePin c)
  | discard _ => [.required "Input", .required "Reference", .required "Pass"]
  | iterate .. | iterate2d .. => loopInputs (.optional "Condition")
  | repeatWhile => loopInputs (.required "Condition")
  | pixelOutput _ =>
    [.required "Input", .optional "Input1", .optional "Input2", .optional "Input3"]
  | indexedUniform .. => [.required "Index"]
  | sampler _ => [.required "Texture", .required "TexCoord"]
  | script _ _ inputs _ => inputs.map fun p ↦ .required p.name
  | scalar _ | vector .. | color .. | vertexInput .. | fragmentPosition | frontFace | instanceIndex
  | targetSize | uniform .. | external _ => []

def outputPins : NodeKind → List PinSpec
  | mixOut => [.required "X", .required "Y", .required "Z", .required "W"]
  | matrixOut =>
    [.required "XAxis", .required "YAxis", .required "ZAxis", .required "Translate"]
  | iterate .. | sum .. | repeatWhile => [.required "N", .required "Output"]
  | iterate2d .. => [.required "X", .required "Y", .required "Output"]
  | script _ _ _ outputs => outputs.map fun p ↦ .required p.name
  | vertexOutput | pixelOutput _ | external _ => []
  | _ => [.required "Output"]

end NodeKind

end ShaderGraph
