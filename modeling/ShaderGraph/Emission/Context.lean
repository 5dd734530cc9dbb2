import ShaderGraph.Emission.Error
import ShaderGraph.Graph.Store
import ShaderGraph.Program.Artifact

/-!
# Emission

Emitters write statements and declarations into the stages of one compilation. They read the graph
and the settings, may fail, and act on a state that survives a failure: both stages, the stage that
is being written, the tables of uniforms and samplers, and the counters of temporaries and
interpolator slots.
-/

namespace ShaderGraph

structure EmitEnv where
  graph : Graph
  settings : Settings

def EmitEnv.dialect (env : EmitEnv) : Dialect :=
  env.settings.backend.dialect

structure EmitState where
  stage : ShaderStage := .pixel
  vertex : StageShader := { stage := .vertex }
  pixel : StageShader := { stage := .pixel }
  /-- The number of temporaries in use. Each is declared in a body, so the bodies are at least as long. -/
  nextVariable : Nat := 0
  uniforms : OrderedMap String UniformDeclaration := .empty
  samplers : OrderedMap String SamplerDeclaration := .empty
  /-- The number of interpolator slots in use. Each is assigned in the body of the vertex stage. -/
  interpolators : Nat := 0
  renderState? : Option RenderState := none
  requirements : Requirements := {}
  /-- Nodes whose emitters are running. -/
  inProgress : List NodeId := []

namespace EmitState

def shader (s : EmitState) : ShaderStage → StageShader
  | .vertex => s.vertex
  | .pixel => s.pixel

def modifyShader (s : EmitState) (stage : ShaderStage) (f : StageShader → StageShader) :
    EmitState :=
  match stage with
  | .vertex => { s with vertex := f s.vertex }
  | .pixel => { s with pixel := f s.pixel }

/-- The variable bound to a pin in the current stage. -/
def binding? (s : EmitState) (pin : PinId) : Option Variable :=
  (s.shader s.stage).binding? pin

end EmitState

abbrev EmitM := ReaderT EmitEnv (ExceptT CompileError (StateM EmitState))

namespace EmitM

/-- Runs an action and returns its failure as a value. -/
def attempt {α : Type} (action : EmitM α) : EmitM (Except CompileError α) :=
  fun env ↦ ExceptT.mk do
    let result ← (action env).run
    return .ok result

def dialect : EmitM Dialect :=
  return (← read).dialect

def currentStage : EmitM ShaderStage :=
  return (← get).stage

def enter (stage : ShaderStage) : EmitM Unit :=
  modify fun s ↦ { s with stage }

def modifyStage (stage : ShaderStage) (f : StageShader → StageShader) : EmitM Unit :=
  modify fun s ↦ s.modifyShader stage f

def modifyShader (f : StageShader → StageShader) : EmitM Unit :=
  modify fun s ↦ s.modifyShader s.stage f

/-- Writes to the active body of the current stage. -/
def modifyBody (f : CodeBuffer → CodeBuffer) : EmitM Unit :=
  modifyShader fun s ↦ s.modifyBody f

def writeLine (text : String) : EmitM Unit :=
  modifyBody fun b ↦ b.line text

def lookup (pin : PinId) : EmitM (Option Variable) :=
  return (← get).binding? pin

def require (f : Requirements → Requirements) : EmitM Unit :=
  modify fun s ↦ { s with requirements := f s.requirements }

/-- A new name of a temporary. No name is used twice in a compilation. -/
def freshName : EmitM String := do
  let s ← get
  set { s with nextVariable := s.nextVariable + 1 }
  return s!"v{s.nextVariable}"

def outputPin (n : Node) (pin : String) : EmitM PinId :=
  match n.output? pin with
  | some p => return p.id
  | none => throw (.invalidGraph s!"{(NodeIdentity.ofNode n).text} has no output pin '{pin}'")

/-- Binds an output pin to a variable in the current scope. -/
def bindOutput (n : Node) (pin : String) (v : Variable) : EmitM Variable := do
  let id ← outputPin n pin
  modifyShader fun s ↦ s.bind id v
  return v

/-- Binds an output pin to a new temporary. -/
def emitOutput (n : Node) (pin : String) (t : ValueType) : EmitM Variable := do
  let name ← freshName
  bindOutput n pin ⟨name, t⟩

/-- Binds an output pin in a stage outside of all scopes. -/
def bindOuter (stage : ShaderStage) (n : Node) (pin : String) (v : Variable) : EmitM Unit := do
  let id ← outputPin n pin
  modifyStage stage fun s ↦ s.bindOuter id v

/-- Changes the type to which an output pin is bound. -/
def retypeOutput (n : Node) (pin : String) (t : ValueType) : EmitM Unit := do
  let id ← outputPin n pin
  modifyShader fun s ↦ s.retype id t

def typeName (n : Node) (t : ValueType) : EmitM String := do
  match (← dialect).typeName? t with
  | some name => return name
  | none => throw (.mismatch n "value has no type")

/-- Declares a variable with its value. -/
def assign (n : Node) (v : Variable) (expr : String) : EmitM Unit := do
  let type ← typeName n v.type
  writeLine s!"{type} {v.name} = {expr};"

def cast (n : Node) (v : Variable) (t : ValueType) : EmitM String := do
  match v.cast t (← dialect) with
  | .ok expr => return expr
  | .error e => throw (.mismatch n e.message)

def commonType (n : Node) (operands : List Variable) : EmitM ValueType :=
  match ValueType.commonOf (operands.map Variable.type) with
  | .ok t => return t
  | .error e => throw (.mismatch n e.message)

/-- Runs an action in a new scope with the body redirected, and returns the captured text as well.
The stage, the scope and the redirection are restored also if the action fails. -/
def capture {α : Type} (action : EmitM α) : EmitM (α × String) := do
  let stage ← currentStage
  modifyStage stage fun s ↦ s.beginCapture.openScope
  let result ← attempt action
  enter stage
  let (text, shader) := ((← get).shader stage).closeScope.endCapture
  modifyStage stage fun _ ↦ shader
  match result with
  | .ok a => return (a, text)
  | .error e => throw e

/-- Declares a name in the current stage, writing its declaration to a block the first time. -/
def declareOnce (block : Block) (name : String) (declaration? : Option String) : EmitM Unit := do
  let s ← get
  unless (s.shader s.stage).isDeclared name do
    modifyShader fun shader ↦ shader.declare name
    if let some declaration := declaration? then
      modifyShader fun shader ↦ shader.modifyBlock block fun b ↦ b.line declaration

/-- Enters a uniform into the table and declares it in the current stage. -/
def declareUniform (n : Node) (name : String) (t : ValueType) (length? : Option UInt32) :
    EmitM Unit := do
  let s ← get
  let entry ←
    match s.uniforms.get? name with
    | none => pure ⟨name, t, length?, [s.stage]⟩
    | some u =>
      if u.type ≠ t ∨ u.length? ≠ length? then
        throw (.mismatch n s!"uniform '{name}' is declared as {u.type.name} elsewhere")
      else pure { u with stages := insertStage s.stage u.stages }
  set { s with uniforms := s.uniforms.insert name entry }
  declareOnce .uniforms name ((← dialect).uniformDeclaration? t name length?)

/-- The `k`-th name of a sampler; the first has no number. -/
def samplerName (base : String) : Nat → String
  | 0 => base
  | k + 1 => s!"{base}_{k + 1}"

/-- The first name of a sampler that is not in the table. -/
def freshSamplerName (samplers : OrderedMap String SamplerDeclaration) (base : String) : String :=
  let names := (List.range (samplers.size + 1)).map (samplerName base)
  (names.find? fun name ↦ !samplers.contains name).getD base

/-- Enters a sampler of a texture into the table, declares it in the current stage and returns its
name. States that agree share the sampler of a texture. -/
def declareSampler (texture : Variable) (state : SamplerState) (samplerType : String) :
    EmitM String := do
  let s ← get
  let d ← dialect
  let existing? := s.samplers.values.find? fun e ↦ e.texture = texture.name && e.state.agrees state
  let entry := match existing? with
    | some e => { e with stages := insertStage s.stage e.stages }
    | none =>
      let base := s!"{d.reservedPrefix}sampler_{texture.name}"
      ⟨freshSamplerName s.samplers base, texture.name, texture.type, state, [s.stage]⟩
  set { s with samplers := s.samplers.insert entry.name entry }
  declareOnce .samplers entry.name (some (d.samplerDeclaration samplerType entry.name))
  return entry.name

def allocateInterpolator : EmitM Nat := do
  let s ← get
  set { s with interpolators := s.interpolators + 1 }
  return s.interpolators

def setRenderState (state : RenderState) : EmitM Unit := do
  if (← get).renderState?.isSome then
    throw (.invalidGraph "render state written more than once")
  modify fun s ↦ { s with renderState? := some state }

/-- The attribute in front of a loop of the current stage. -/
def unrollAttribute : EmitM (Option String) := do
  let d ← dialect
  match (← read).settings.unrollLoops? with
  | some true => return d.unrollAttribute?
  | some false => return none
  | none => return if (← currentStage) = .pixel then d.unrollAttribute? else none

/-- The attribute in front of a branch with a hint. -/
def branchAttribute (hint : BranchHint) : EmitM (Option String) := do
  let d ← dialect
  match hint with
  | .auto => return none
  | .static => return d.flattenAttribute?
  | .dynamic => return d.branchAttribute?

/-- Fails in any other stage. -/
def requireStage (stage : ShaderStage) (n : Node) : EmitM Unit := do
  let current ← currentStage
  if current ≠ stage then throw (.stageViolation (.ofNode n) current)

def unsupported {α : Type} (n : Node) (feature : String) : EmitM α := do
  throw (.unsupported (.ofNode n) (← read).settings.backend feature)

end EmitM

end ShaderGraph
