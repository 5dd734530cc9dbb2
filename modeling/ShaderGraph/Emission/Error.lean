import ShaderGraph.Source.Stage

/-!
# Compile errors
-/

namespace ShaderGraph

/-- What messages tell about a node. -/
structure NodeIdentity where
  id : NodeId
  kind : String
  name : String
deriving DecidableEq, Repr

namespace NodeIdentity

def ofNode (n : Node) : NodeIdentity :=
  ⟨n.id, n.typeName, n.name⟩

/-- The name is left out if it is that of the kind. -/
def text (n : NodeIdentity) : String :=
  if n.name = n.kind then s!"{n.kind} ({n.id.text})" else s!"{n.kind} '{n.name}' ({n.id.text})"

end NodeIdentity

inductive CompileError
  /-- A required input has neither a connection nor a default. -/
  | missingInput (node : NodeIdentity) (pin : String)
  | typeMismatch (node : NodeIdentity) (reason : String)
  | unknownNodeKind (node : NodeIdentity)
  /-- The node is not available in the stage in which its value is needed. -/
  | stageViolation (node : NodeIdentity) (stage : ShaderStage)
  | unsupported (node : NodeIdentity) (backend : Backend) (feature : String)
  /-- The node was emitted and left the output pin unbound. -/
  | missingOutput (node : NodeIdentity) (pin : String)
  | cycle (node : NodeIdentity)
  | invalidGraph (reason : String)
  | missingTerminal
deriving DecidableEq, Repr

namespace CompileError

def message : CompileError → String
  | missingInput n pin => s!"{n.text}: input '{pin}' is not connected"
  | typeMismatch n reason => s!"{n.text}: type mismatch, {reason}"
  | unknownNodeKind n => s!"{n.text}: unknown node kind"
  | stageViolation n stage => s!"{n.text}: not available in the {stage.name} stage"
  | unsupported n backend feature => s!"{n.text}: {feature} is not supported by {backend.name}"
  | missingOutput n pin => s!"{n.text}: output '{pin}' was not produced"
  | cycle n => s!"{n.text}: dependency cycle"
  | invalidGraph reason => s!"invalid graph: {reason}"
  | missingTerminal => "graph has no PixelOutput node"

/-- The node that the error is about. -/
def node? : CompileError → Option NodeIdentity
  | missingInput n _ | typeMismatch n _ | unknownNodeKind n | stageViolation n _
  | unsupported n _ _ | missingOutput n _ | cycle n => some n
  | invalidGraph _ | missingTerminal => none

def mismatch (n : Node) (reason : String) : CompileError :=
  typeMismatch (.ofNode n) reason

def expected (n : Node) (pin expectation : String) (found : ValueType) : CompileError :=
  mismatch n s!"'{pin}' must be {expectation}, found {found.name}"

end CompileError

end ShaderGraph
