import ShaderGraph.Graph.Kind
import ShaderGraph.Target.Backend

/-!
# Dialects

A dialect is the table of everything that sets a target language apart: names of types and
functions, optional features, sampling templates and the syntax of declarations. A missing entry
says that the target cannot express the feature or that it is emulated.
-/

namespace ShaderGraph

/-- How an entry point and the inputs and outputs of a stage are declared. -/
inductive SourceLayout
  /-- Global declarations with the keywords of the target. -/
  | globals (vertexInput varyingOut varyingIn : String)
  /-- Members of an input and an output struct, called `i` and `o` in the body. -/
  | structs
deriving DecidableEq, Repr

/-- How a scalar becomes a vector. -/
inductive SplatSyntax
  | constructor
  | cast
deriving DecidableEq, Repr

structure TypeNames where
  scalar : String
  vec2 : String
  vec3 : String
  vec4 : String
  matrix4 : String
  texture2D : String
  texture3D : String
  textureCube : String
deriving DecidableEq, Repr

structure CompareTemplate where
  samplerType : String
  template : String
  coordinate : ValueType
deriving DecidableEq, Repr

/-- Sampling syntax of a texture type, with the placeholders `sampler`, `texture`, `coord` and
`bias`. -/
structure SampleTemplates where
  coordinate : ValueType
  samplerType : String
  sample : String
  sampleBias? : Option String
  sampleLod? : Option String
  sampleCompare? : Option CompareTemplate
deriving DecidableEq, Repr

structure Dialect where
  backend : Backend
  layout : SourceLayout
  types : TypeNames
  splatSyntax : SplatSyntax
  fract : String
  lerp : String
  rsqrt : String
  atan2 : String
  ddx : String
  ddy : String
  /-- Emulated by `log2` if missing. -/
  log10? : Option String
  /-- Emulated by `floor` if missing. -/
  round? : Option String
  /-- Emulated by `sign` and `floor` if missing. -/
  trunc? : Option String
  transpose? : Option String
  /-- Index of the instance as a float. -/
  instanceId? : Option String
  fragCoord : String
  frontFacing : String
  /-- Matrix times vector, with the placeholders `matrix` and `vector`. -/
  transform : String
  /-- Matrix times matrix, with the placeholders `left` and `right`. -/
  matrixMultiply : String
  unrollAttribute? : Option String
  branchAttribute? : Option String
  flattenAttribute? : Option String
  /-- Whether a loop without a bound compiles. -/
  unboundedLoops : Bool
  maxRenderTargets : Nat
  texture2D? : Option SampleTemplates
  texture3D? : Option SampleTemplates
  textureCube? : Option SampleTemplates
  /-- Start of the identifiers that the compiler makes up for declarations. -/
  reservedPrefix : String
  /-- Extension that the pixel stage needs for derivatives. -/
  derivativeExtension? : Option String
deriving DecidableEq, Repr

namespace Dialect

/-- Name of a type; `void` has none. -/
def typeName? (d : Dialect) : ValueType → Option String
  | .void => none
  | .scalar => some d.types.scalar
  | .vec2 => some d.types.vec2
  | .vec3 => some d.types.vec3
  | .vec4 => some d.types.vec4
  | .matrix4 => some d.types.matrix4
  | .texture2D => some d.types.texture2D
  | .texture3D => some d.types.texture3D
  | .textureCube => some d.types.textureCube

def typeNameOrVoid (d : Dialect) (t : ValueType) : String :=
  (d.typeName? t).getD "void"

def construct (d : Dialect) (t : ValueType) (args : List String) : String :=
  let list := ", ".intercalate args
  s!"{d.typeNameOrVoid t}({list})"

/-- A scalar expression as a value of type `t` with equal components. -/
def splat (d : Dialect) (t : ValueType) (expr : String) : String :=
  match d.splatSyntax with
  | .constructor => s!"{d.typeNameOrVoid t}({expr})"
  | .cast => s!"({d.typeNameOrVoid t}){expr}"

/-- Constant of type `t` with equal components. -/
def scalarLiteral (d : Dialect) (t : ValueType) (x : Binary32) : String :=
  if t = .scalar then x.literal else d.splat t x.literal

/-- Constant with the given components. -/
def vectorLiteral (d : Dialect) (components : List Binary32) : String :=
  match ValueType.ofComponents? components.length with
  | none | some .scalar => (components.headD .zero).literal
  | some t => d.construct t (components.map Binary32.literal)

def sampleTemplates? (d : Dialect) : ValueType → Option SampleTemplates
  | .texture2D => d.texture2D?
  | .texture3D => d.texture3D?
  | .textureCube => d.textureCube?
  | _ => none

/-- Declaration of a uniform or of an array of uniforms. With global declarations a texture has
none, because its samplers are declared instead. -/
def uniformDeclaration? (d : Dialect) (t : ValueType) (name : String) (length? : Option UInt32) :
    Option String := do
  let type ← d.typeName? t
  let array := match length? with
    | some n => s!"[{n}]"
    | none => ""
  match d.layout, t.isTexture with
  | .globals .., true => none
  | .structs, true => some s!"{type} {name};"
  | _, false => some s!"uniform {type} {name}{array};"

def samplerDeclaration (d : Dialect) (samplerType name : String) : String :=
  match d.layout with
  | .globals .. => s!"uniform {samplerType} {name};"
  | .structs => s!"{samplerType} {name};"

/-- Identifier and semantic of a vertex attribute. -/
def vertexAttribute (d : Dialect) (usage : AttributeUsage) (index : UInt32) : String × String :=
  let base := Labelled.label usage
  let semantic := match usage with
    | .custom => s!"TEXCOORD{index}"
    | _ => s!"{asciiUpper base}{index}"
  match d.layout with
  | .globals .. => (s!"in_{base}{index}", semantic)
  | .structs => (s!"{base}{index}", semantic)

def attributeDeclaration (d : Dialect) (t : ValueType) (name semantic : String) : String :=
  let type := d.typeNameOrVoid t
  match d.layout with
  | .globals vertexInput _ _ => s!"{vertexInput} {type} {name};"
  | .structs => s!"{type} {name} : {semantic};"

/-- Reference to a stage input. -/
def inputReference (d : Dialect) (name : String) : String :=
  match d.layout with
  | .globals .. => name
  | .structs => s!"i.{name}"

/-- Reference to a stage output. -/
def outputReference (d : Dialect) (name : String) : String :=
  match d.layout with
  | .globals .. => name
  | .structs => s!"o.{name}"

/-- Declarations of an interpolator slot: the vertex output and the pixel input. -/
def interpolatorDeclarations (d : Dialect) (t : ValueType) (name : String) (slot : Nat) :
    String × String :=
  let type := d.typeNameOrVoid t
  match d.layout with
  | .globals _ varyingOut varyingIn =>
    (s!"{varyingOut} {type} {name};", s!"{varyingIn} {type} {name};")
  | .structs =>
    let member := s!"{type} {name} : TEXCOORD{slot};"
    (member, member)

/-- Clip position, as the vertex stage writes it. -/
def positionOutput (d : Dialect) : String :=
  match d.layout with
  | .globals .. => "gl_Position"
  | .structs => "o.Position"

/-- Declaration and reference of a render target. -/
def fragmentOutput (d : Dialect) (index : Nat) : Option String × String :=
  match d.layout, d.backend with
  | .globals .., .glslEs => (none, "gl_FragColor")
  | .globals .., _ =>
    let name := s!"{d.reservedPrefix}FragData_{index}"
    (some s!"layout(location = {index}) out vec4 {name};", name)
  | .structs, _ => (some s!"float4 Color{index} : SV_Target{index};", s!"o.Color{index}")

end Dialect

end ShaderGraph
