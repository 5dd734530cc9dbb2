import ShaderGraph.Emission.Input

/-!
# Uniforms, textures and samplers
-/

namespace ShaderGraph

namespace Emitter

open EmitM

/-- A parameter is its own variable. -/
def uniform (n : Node) (parameter : String) (t : ValueType) : EmitM Unit := do
  if t = .void then throw (.mismatch n s!"uniform '{parameter}' has no type")
  declareUniform n parameter t none
  forwardOutput n ⟨parameter, t⟩

/-- The value of a scalar node that is connected straight to the `Index` pin. -/
def constantIndex? (g : Graph) (n : Node) : Option Binary32 := do
  let p ← n.input? "Index"
  let c ← g.driver? p.id
  let source ← g.node? c.fromNode
  match source.kind with
  | .scalar value => some value
  | _ => none

/-- The subscript of an array element: a number for a constant index, which must be in bounds, and
an expression for any other. -/
def subscript (demand : Demand) (n : Node) (parameter : String) (length : UInt32) :
    EmitM String := do
  match constantIndex? (← read).graph n with
  | some index =>
    if index.isNonNegative && index.truncate < length.toNat then return toString index.truncate
    else
      let place := s!"index {index.display} is outside '{parameter}[{length}]'"
      throw (.invalidGraph s!"{(NodeIdentity.ofNode n).text}: {place}")
  | none =>
    let index ← scalarOperand demand n "Index"
    return s!"int({index})"

def indexedUniform (demand : Demand) (n : Node) (parameter : String) (t : ValueType)
    (length : UInt32) : EmitM Unit := do
  if !t.isNumeric then
    throw (.mismatch n s!"uniform array '{parameter}' cannot hold {t.name}")
  if length = 0 then
    let reason := s!"uniform array '{parameter}' has zero length"
    throw (.invalidGraph s!"{(NodeIdentity.ofNode n).text}: {reason}")
  declareUniform n parameter t (some length)
  let place ← subscript demand n parameter length
  assignOutput n t s!"{parameter}[{place}]"

/-- How a texture is sampled. -/
structure Sampling where
  samplerType : String
  template : String
  coordinate : ValueType
  result : ValueType

/-- Sampling with a comparison gives a scalar. The vertex stage has no derivatives to choose a mip
level by, so it samples the first level, as do states that ignore mips. -/
def sampling (n : Node) (t : SampleTemplates) (state : SamplerState) : EmitM Sampling := do
  if state.compare ≠ .noComparison then
    match t.sampleCompare? with
    | some c => return ⟨c.samplerType, c.template, c.coordinate, .scalar⟩
    | none => unsupported n "depth compare sampling"
  else
    let template? :=
      if (← currentStage) = .vertex || state.ignoreMips then t.sampleLod?
      else if !state.mipBias.sameNumber .zero then t.sampleBias?
      else some t.sample
    match template? with
    | some template => return ⟨t.samplerType, template, t.coordinate, .vec4⟩
    | none => unsupported n "explicit lod sampling"

def sampler (demand : Demand) (n : Node) (state : SamplerState) : EmitM Unit := do
  let texture ← textureInput demand n "Texture"
  let some templates := (← dialect).sampleTemplates? texture.type
    | unsupported n s!"{texture.type.name} sampling"
  let s ← sampling n templates state
  let place ← requireInput demand n "TexCoord"
  let coord ← cast n place s.coordinate
  let name ← declareSampler texture state s.samplerType
  let expr := Template.fill s.template
    [("texture", texture.name), ("sampler", name), ("coord", coord),
      ("bias", state.mipBias.literal)]
  assignOutput n s.result expr

/-- The size of a texture is a uniform that the renderer provides. -/
def textureSize (demand : Demand) (n : Node) : EmitM Unit := do
  let texture ← textureInput demand n "Input"
  let name := s!"{(← dialect).reservedPrefix}textureSize_{texture.name}"
  declareUniform n name .vec4 none
  forwardOutput n ⟨name, .vec4⟩

end Emitter

end ShaderGraph
