import ShaderGraph.Program.Artifact

/-!
# Assembly of sources

The source of a stage has a header, sections of declarations and an entry point. Empty sections are
left out, and a blank line stands between the parts that are present. Targets without global stage
variables declare the inputs and outputs of a stage as two structs.
-/

namespace ShaderGraph

structure Section where
  title : String
  text : String
deriving DecidableEq, Repr

namespace Assembly

/-- The lines that open a source. -/
def header (s : Settings) (r : Requirements) (stage : ShaderStage) : List String :=
  match s.backend with
  | .glsl => [s!"#version {s.glslVersion}"]
  | .glslEs =>
    let extension? :=
      if stage = .pixel && r.derivatives then s.backend.dialect.derivativeExtension? else none
    let extension := extension?.toList.map fun name ↦ s!"#extension {name} : enable"
    "#version 100" :: (extension ++ [s!"precision {s.precision.qualifier} float;"])
  | .hlsl => []

/-- Names of the input and the output struct. -/
def structNames : ShaderStage → String × String
  | .vertex => ("VertexInput", "VertexOutput")
  | .pixel => ("PixelInput", "PixelOutput")

/-- Whether the entry point takes an input struct; that of the pixel stage has the position at
least. -/
def hasInput (shader : StageShader) (r : Requirements) : Bool :=
  match shader.stage with
  | .vertex => !(shader.blockText .inputs).isEmpty || r.instanceId
  | .pixel => true

def positionMember : String := "float4 Position : SV_Position;"

/-- A struct with members around those that a block declares. -/
def struct (name : String) (before : List String) (members : String) (after : List String) :
    String :=
  let b := (({} : CodeBuffer).line s!"struct {name}").openBlock
  let b := (before.foldl CodeBuffer.line b).splice members
  ((after.foldl CodeBuffer.line b).dedent.line "\x7d;").text

def inputStruct (shader : StageShader) (r : Requirements) : String :=
  if hasInput shader r then
    let (before, after) :=
      match shader.stage with
      | .vertex => ([], if r.instanceId then ["uint InstanceId : SV_InstanceID;"] else [])
      | .pixel =>
        ([positionMember], if r.frontFace then ["bool FrontFace : SV_IsFrontFace;"] else [])
    struct (structNames shader.stage).1 before (shader.blockText .inputs) after
  else ""

def outputStruct (shader : StageShader) : String :=
  let before := match shader.stage with
    | .vertex => [positionMember]
    | .pixel => []
  struct (structNames shader.stage).2 before (shader.blockText .outputs) []

def sections (d : Dialect) (r : Requirements) (shader : StageShader) : List Section :=
  let (inputs, outputs) :=
    match d.layout with
    | .globals .. => (shader.blockText .inputs, shader.blockText .outputs)
    | .structs => (inputStruct shader r, outputStruct shader)
  [⟨"Uniforms", shader.blockText .uniforms⟩, ⟨"Samplers", shader.blockText .samplers⟩,
    ⟨"Inputs", inputs⟩, ⟨"Outputs", outputs⟩, ⟨"Subroutines", shader.blockText .scripts⟩]

/-- A blank line unless nothing is written yet. -/
def separate (b : CodeBuffer) : CodeBuffer :=
  if b.isEmpty then b else b.line ""

def writeSection (comments : Bool) (b : CodeBuffer) (s : Section) : CodeBuffer :=
  if s.text.isEmpty then b
  else
    let b := separate b
    (if comments then b.line s!"// {s.title}" else b).splice s.text

def entryPoint (d : Dialect) (r : Requirements) (shader : StageShader) (b : CodeBuffer) :
    CodeBuffer :=
  match d.layout with
  | .globals .. => ((b.line "void main()").openBlock.splice shader.main.text).closeBlock
  | .structs =>
    let (input, output) := structNames shader.stage
    let parameter := if hasInput shader r then s!"{input} i" else ""
    let b := (b.line s!"{output} main({parameter})").openBlock.line s!"{output} o = ({output})0;"
    ((b.splice shader.main.text).line "return o;").closeBlock

/-- The source of a stage. -/
def stageSource (s : Settings) (r : Requirements) (shader : StageShader) : String :=
  let d := s.backend.dialect
  let b := (header s r shader.stage).foldl CodeBuffer.line {}
  let b := (sections d r shader).foldl (writeSection s.emitComments) b
  (entryPoint d r shader (separate b)).text

end Assembly

end ShaderGraph
