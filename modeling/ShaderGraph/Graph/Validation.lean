import ShaderGraph.Graph.Store

/-!
# Structural validation

A graph is valid if every connection leads from an output pin of a stored node to an input pin of
a stored node, and if no cycle of connections avoids the loop nodes. Loops feed their counters and
outputs back into their own bodies, so the search does not follow connections that leave a loop.
-/

namespace ShaderGraph

inductive GraphError
  | danglingConnection (id : ConnectionId)
  | cycle (node : NodeId)
deriving DecidableEq, Repr

def GraphError.message : GraphError → String
  | .danglingConnection id => s!"Connection {id.describe} does not join an output to an input"
  | .cycle id => s!"Graph contains a cycle through node {id.describe}"

namespace Graph

/-- Whether a connection joins an output pin of its source node to an input pin of its target
node. -/
def joins (g : Graph) (c : Connection) : Bool :=
  match (g.node? c.fromNode).bind (·.pin? c.fromPin), (g.node? c.toNode).bind (·.pin? c.toPin) with
  | some source, some target => source.canConnect target
  | _, _ => false

def isLoopNode (g : Graph) (id : NodeId) : Bool :=
  (g.node? id).any fun n ↦ n.kind.isLoop

/-- The source nodes of the connections into a node, without those that leave a loop. -/
def prerequisites (g : Graph) (id : NodeId) : List NodeId :=
  (g.connections.values.filter fun c ↦ c.toNode = id && !g.isLoopNode c.fromNode).map
    Connection.fromNode

/-- Depth-first search from a node. The state is the list of finished nodes; `path` holds the nodes
that the search came through, so meeting one of them again closes a cycle. A path longer than
`depth` would hold a node twice. -/
def visit (g : Graph) : Nat → List NodeId → NodeId → StateT (List NodeId) (Except GraphError) Unit
  | 0, _, id => throw (.cycle id)
  | depth + 1, path, id => do
    if id ∈ (← get) then return
    if id ∈ path then throw (.cycle id)
    for source in g.prerequisites id do
      g.visit depth (id :: path) source
    modify (id :: ·)

/-- The first error of the connections in their order, else of the nodes in their order. -/
def validate (g : Graph) : Except GraphError Unit := do
  if let some c := g.connections.values.find? fun c ↦ !g.joins c then
    throw (.danglingConnection c.id)
  let _ ← (g.nodes.keys.forM (g.visit (g.nodes.size + 1) [])).run []

end Graph

end ShaderGraph
