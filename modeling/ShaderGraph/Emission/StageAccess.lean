import ShaderGraph.Emission.Input

/-!
# Inputs and outputs of the stages

Emitters of vertex attributes, clip positions, render targets and interpolators, and of the values
that the target provides in one of the stages.
-/

namespace ShaderGraph

namespace Emitter

open EmitM

/-- The attribute of a vertex input. Vertex inputs of one name share an attribute. -/
def vertexAttribute (name : String) (usage : AttributeUsage) (t : ValueType) (index : UInt32) :
    EmitM Variable := do
  let s ← get
  match (s.shader s.stage).attribute? name with
  | some v => return v
  | none =>
    let d ← dialect
    let (identifier, semantic) := d.vertexAttribute usage index
    let v : Variable := ⟨d.inputReference identifier, t⟩
    modifyShader fun shader ↦
      (shader.modifyBlock .inputs fun b ↦ b.line (d.attributeDeclaration t identifier semantic))
        |>.addAttribute name v
    return v

/-- The last component of an attribute that is widened to four components. -/
def fourthComponent? : AttributeUsage → Option String
  | .position => some "1.0"
  | .normal => some "0.0"
  | _ => none

def vertexInput (n : Node) (name : String) (usage : AttributeUsage) (t : ValueType)
    (index : UInt32) : EmitM Unit := do
  requireStage .vertex n
  if !t.isVector then throw (.mismatch n s!"vertex attribute '{name}' cannot be {t.name}")
  let source ← vertexAttribute name usage t index
  let width := source.type.components?.getD 4
  match fourthComponent? usage with
  | none => forwardOutput n source
  | some w =>
    if width = 4 then forwardOutput n source
    else
      let components := source.name :: (List.replicate (3 - width) "0.0" ++ [w])
      assignOutput n .vec4 ((← dialect).construct .vec4 components)

/-- The components that complete a position. -/
def positionTail : ValueType → List String
  | .scalar => ["0.0", "0.0", "1.0"]
  | .vec2 => ["0.0", "1.0"]
  | .vec3 => ["1.0"]
  | _ => []

def vertexOutput (demand : Demand) (n : Node) : EmitM Unit := do
  requireStage .vertex n
  let input ← vectorInput demand n "Input"
  let d ← dialect
  let position :=
    if input.type = .vec4 then input.name
    else d.construct .vec4 (input.name :: positionTail input.type)
  writeLine s!"{d.positionOutput} = {position};"

def targetPins : List String := ["Input", "Input1", "Input2", "Input3"]

/-- Writes a color to a render target. A pin without a value leaves its target alone. -/
def writeTarget (demand : Demand) (n : Node) (pin : String) (index : Nat) : EmitM Unit := do
  let some value ← inputValue? demand n pin | return
  let d ← dialect
  if d.maxRenderTargets ≤ index then unsupported n s!"render target {index}"
  if !value.type.isVector then throw (.expected n pin "a scalar or vector" value.type)
  let color ← cast n value .vec4
  let (declaration?, target) := d.fragmentOutput index
  if declaration?.isSome then declareOnce .outputs target declaration?
  writeLine s!"{target} = {color};"

def pixelOutput (demand : Demand) (n : Node) (state : RenderState) : EmitM Unit := do
  requireStage .pixel n
  setRenderState state
  for (pin, index) in targetPins.zipIdx do
    writeTarget demand n pin index

/-- Evaluates an input in the vertex stage and returns to the pixel stage. -/
def vertexValue (demand : Demand) (n : Node) (pin : String) : EmitM Variable := do
  enter .vertex
  let result ← attempt (requireInput demand n pin)
  enter .pixel
  match result with
  | .ok v => return v
  | .error e => throw e

/-- In the pixel stage the input is evaluated in the vertex stage and carried over in a slot of its
own, outside of all scopes; in the vertex stage it is passed through. -/
def interpolator (demand : Demand) (n : Node) : EmitM Unit := do
  if (← currentStage) = .vertex then
    let input ← requireInput demand n "Input"
    forwardOutput n input
  else
    let value ← vertexValue demand n "Input"
    if !value.type.isVector then
      throw (.mismatch n s!"{value.type.name} cannot be interpolated")
    let slot ← allocateInterpolator
    let name := s!"Attr{slot}"
    let d ← dialect
    let (output, input) := d.interpolatorDeclarations value.type name slot
    modifyStage .vertex fun s ↦
      (s.modifyBlock .outputs fun b ↦ b.line output).modifyBody fun b ↦
        b.line s!"{d.outputReference name} = {value.name};"
    modifyStage .pixel fun s ↦ s.modifyBlock .inputs fun b ↦ b.line input
    bindOuter .pixel n "Output" ⟨d.inputReference name, value.type⟩

def fragmentPosition (n : Node) : EmitM Unit := do
  requireStage .pixel n
  require fun r ↦ { r with fragmentPosition := true }
  assignOutput n .vec2 (← dialect).fragCoord

def frontFace (n : Node) : EmitM Unit := do
  requireStage .pixel n
  require fun r ↦ { r with frontFace := true }
  assignOutput n .scalar s!"{(← dialect).frontFacing} ? 1.0 : 0.0"

def instanceIndex (n : Node) : EmitM Unit := do
  requireStage .vertex n
  let some expr := (← dialect).instanceId? | unsupported n "instancing"
  require fun r ↦ { r with instanceId := true }
  assignOutput n .scalar expr

/-- The size of the render target is a uniform that the renderer provides. -/
def targetSize (n : Node) : EmitM Unit := do
  let name := s!"{(← dialect).reservedPrefix}targetSize"
  declareUniform n name .vec2 none
  require fun r ↦ { r with targetSize := true }
  forwardOutput n ⟨name, .vec2⟩

end Emitter

end ShaderGraph
