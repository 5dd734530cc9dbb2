import ShaderGraph.Emission.Node
import ShaderGraph.Graph.Validation
import ShaderGraph.Program.Assembly

/-!
# Compilation

A graph is validated, emitted from its only pixel output and from its vertex outputs, and assembled
into a program.
-/

namespace ShaderGraph

/-- The compile error for a graph that is not valid. -/
def GraphError.toCompileError (g : Graph) : GraphError → CompileError
  | .danglingConnection id =>
    .invalidGraph s!"connection {id.describe} does not join an output to an input"
  | .cycle id =>
    match g.node? id with
    | some n => .cycle (.ofNode n)
    | none => .invalidGraph s!"cycle through missing node {id.describe}"

/-- The only pixel output of a graph. -/
def Graph.terminal (g : Graph) : Except CompileError Node :=
  match g.nodesOfKind NodeKind.isPixelOutput with
  | [] => .error .missingTerminal
  | [n] => .ok n
  | _ :: extra :: _ =>
    .error (.invalidGraph s!"{(NodeIdentity.ofNode extra).text} is a second PixelOutput node")

namespace EmitM

/-- Emits both stages, starting from the given outputs. -/
def emitProgram (pixelOutput : Node) (vertexOutputs : List Node) : EmitM Unit := do
  enter .pixel
  runNode evaluate pixelOutput
  enter .vertex
  vertexOutputs.forM (runNode evaluate)
  enter .pixel

end EmitM

/-- The program of a finished emission. -/
def EmitState.artifact (s : EmitState) (settings : Settings) : Artifact where
  backend := settings.backend
  vertexSource := Assembly.stageSource settings s.requirements s.vertex
  pixelSource := Assembly.stageSource settings s.requirements s.pixel
  uniforms := s.uniforms.values
  samplers := s.samplers.values
  interpolatorCount := UInt32.ofNat s.interpolators
  renderState := s.renderState?.getD {}
  requirements := s.requirements

def compile (settings : Settings) (g : Graph) : Except CompileError Artifact := do
  g.validate.mapError (GraphError.toCompileError g)
  let pixelOutput ← g.terminal
  let emission := EmitM.emitProgram pixelOutput (g.nodesOfKind NodeKind.isVertexOutput)
  let (result, state) := (emission.run ⟨g, settings⟩).run.run {}
  let _ ← result
  return state.artifact settings

end ShaderGraph
