import ShaderGraph.Emission.Algebra
import ShaderGraph.Emission.Arithmetic
import ShaderGraph.Emission.Control
import ShaderGraph.Emission.Resource
import ShaderGraph.Emission.Script
import ShaderGraph.Emission.StageAccess

/-!
# Evaluation of outputs

An output is evaluated the first time that it is demanded: the emitter of its node runs and binds
the outputs of the node. Later demands find the binding as long as its scope is open. A node whose
emitter is running is not entered again.
-/

namespace ShaderGraph

namespace EmitM

/-- Runs the emitter for the kind of a node. -/
def emitKind (demand : Demand) (n : Node) : EmitM Unit :=
  match n.kind with
  | .intrinsic f => Emitter.intrinsic demand n f
  | .angle f => Emitter.angle demand n f
  | .arithmetic op => Emitter.arithmetic demand n op
  | .vectorFunction f => Emitter.vectorFunction demand n f
  | .negate => Emitter.negate demand n
  | .round => Emitter.round demand n
  | .truncate => Emitter.truncate demand n
  | .log base => Emitter.log demand n base
  | .length => Emitter.length demand n
  | .clamp low high => Emitter.clamp demand n low high
  | .derivative axis => Emitter.derivative demand n axis
  | .arcusTan => Emitter.arcusTan demand n
  | .mulAdd => Emitter.mulAdd demand n
  | .lerp => Emitter.lerp demand n
  | .power => Emitter.power demand n
  | .polynomial => Emitter.polynomial demand n
  | .dot => Emitter.dot demand n
  | .cross => Emitter.cross demand n
  | .reflect => Emitter.reflect demand n
  | .swizzle pattern => Emitter.swizzle demand n pattern
  | .mixIn => Emitter.mixIn demand n
  | .mixOut => Emitter.mixOut demand n
  | .matrixIn => Emitter.matrixIn demand n
  | .matrixOut => Emitter.matrixOut demand n
  | .transform => Emitter.transform demand n
  | .transpose => Emitter.transpose demand n
  | .scalar value => Emitter.constant n [value]
  | .vector x y z w => Emitter.constant n [x, y, z, w]
  | .color r g b a => Emitter.constant n [r, g, b, a]
  | .conditional op hint => Emitter.conditional demand n op hint
  | .switch cases hint => Emitter.switch demand n cases hint
  | .discard op => Emitter.discard demand n op
  | .iterate first last =>
    Emitter.emitLoop demand n { counters := [⟨"N", some (first, last)⟩] }
  | .iterate2d firstX lastX firstY lastY =>
    Emitter.emitLoop demand n
      { counters := [⟨"X", some (firstX, lastX)⟩, ⟨"Y", some (firstY, lastY)⟩] }
  | .sum first last =>
    Emitter.emitLoop demand n { counters := [⟨"N", some (first, last)⟩], accumulate := true }
  | .repeatWhile => Emitter.repeatWhile demand n
  | .vertexInput name usage type index => Emitter.vertexInput n name usage type index
  | .vertexOutput => Emitter.vertexOutput demand n
  | .pixelOutput state => Emitter.pixelOutput demand n state
  | .interpolator => Emitter.interpolator demand n
  | .fragmentPosition => Emitter.fragmentPosition n
  | .frontFace => Emitter.frontFace n
  | .instanceIndex => Emitter.instanceIndex n
  | .targetSize => Emitter.targetSize n
  | .uniform parameter type => Emitter.uniform n parameter type
  | .indexedUniform parameter type length => Emitter.indexedUniform demand n parameter type length
  | .sampler state => Emitter.sampler demand n state
  | .textureSize => Emitter.textureSize demand n
  | .script name body inputs outputs => Emitter.script demand n name body inputs outputs
  | .external _ => throw (.unknownNodeKind (.ofNode n))

def beginNode (id : NodeId) : EmitM Unit :=
  modify fun s ↦ { s with inProgress := id :: s.inProgress }

def endNode (id : NodeId) : EmitM Unit :=
  modify fun s ↦ { s with inProgress := s.inProgress.filter (· ≠ id) }

/-- Runs the emitter of a node and marks the node meanwhile, also if the emitter fails. -/
def runNode (demand : Demand) (n : Node) : EmitM Unit := do
  beginNode n.id
  let result ← attempt (emitKind demand n)
  endNode n.id
  match result with
  | .ok _ => return
  | .error e => throw e

/-- Whether an output of the node other than `pin` is bound. An emitter binds all outputs of its
node, so it has left `pin` out in that case. -/
def hasBoundSibling (n : Node) (pin : PinId) : EmitM Bool := do
  let s ← get
  return n.outputs.any fun p ↦ p.id ≠ pin && (s.binding? p.id).isSome

/-- Name of a pin in messages; its identifier if the node has no such pin. -/
def pinName (n : Node) (pin : PinId) : String :=
  ((n.pin? pin).map Pin.name).getD pin.text

/-- Evaluates an output with a bound on the number of emitters that run inside of one another. -/
def evaluateWithin : Nat → Demand
  | depth, id, pin => do
    if let some v ← lookup pin then return v
    let some n := (← read).graph.node? id
      | throw (.invalidGraph s!"unknown node {id.text}")
    if id ∈ (← get).inProgress then throw (.cycle (.ofNode n))
    if !(← hasBoundSibling n pin) then
      match depth with
      | 0 => throw (.cycle (.ofNode n))
      | depth + 1 =>
        runNode (evaluateWithin depth) n
        if let some v ← lookup pin then return v
    throw (.missingOutput (.ofNode n) (pinName n pin))

/-- Emitters that run inside of one another belong to different nodes or to different stages. -/
def emissionDepth (g : Graph) : Nat :=
  2 * g.nodes.size + 2

/-- Evaluates an output. -/
def evaluate : Demand := fun id pin ↦ do
  evaluateWithin (emissionDepth (← read).graph) id pin

end EmitM

end ShaderGraph
