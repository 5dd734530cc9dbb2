import ShaderGraph.Graph.Store

/-!
# Dependence on outputs

Branches and loops move shared and invariant work in front of themselves. This module finds that
work. The sources of a pin are the outputs from which connections lead to it, directly or through
other nodes, but not through loops and interpolators, whose inputs are evaluated elsewhere.
`commonOutputs` are the sources that several pins share. `frontier` holds the outputs nearest to the
inputs of a loop that do not depend on the loop.

Both searches go depth first and meet no output twice, so a depth of one more than the number of
connections is never used up.
-/

namespace ShaderGraph

/-- An output pin of a node. -/
structure OutputRef where
  node : NodeId
  pin : PinId
deriving DecidableEq, Repr

namespace Connection

def source (c : Connection) : OutputRef :=
  ⟨c.fromNode, c.fromPin⟩

end Connection

/-- Whether the inputs of the kind are evaluated somewhere else than its outputs. -/
def NodeKind.isBarrier (k : NodeKind) : Bool :=
  k.isLoop || k.isInterpolator

namespace Graph

def searchDepth (g : Graph) : Nat :=
  g.connections.size + 1

/-- Extends the outputs found so far, in the order of discovery, by the sources of an input. -/
def sourcesFrom (g : Graph) : Nat → List OutputRef → PinId → List OutputRef
  | 0, found, _ => found
  | depth + 1, found, input =>
    match g.driver? input with
    | none => found
    | some c =>
      if c.source ∈ found then found
      else
        match g.node? c.fromNode with
        | none => found ++ [c.source]
        | some n =>
          if n.kind.isBarrier then found ++ [c.source]
          else n.inputs.foldl (fun found p ↦ g.sourcesFrom depth found p.id) (found ++ [c.source])

/-- The sources of an input pin. -/
def sources (g : Graph) (n : Node) (pin : String) : List OutputRef :=
  match n.input? pin with
  | none => []
  | some p => g.sourcesFrom g.searchDepth [] p.id

/-- The sources of every one of the pins, in the order of the first. -/
def commonOutputs (g : Graph) (n : Node) : List String → List OutputRef
  | [] => []
  | pin :: pins =>
    let others := pins.map (g.sources n)
    (g.sources n pin).filter fun o ↦ others.all fun found ↦ o ∈ found

/-- Verdicts of `dependsOn` on the nodes that it has finished. -/
abbrev Verdicts := List (NodeId × Bool)

/-- Whether a node depends on `target` through connections that pass no interpolator. A node of the
path that leads to it counts as independent. -/
def dependsOn (g : Graph) (target : NodeId) : Nat → List NodeId → NodeId → StateM Verdicts Bool
  | 0, _, _ => return false
  | depth + 1, path, id => do
    if id = target then return true
    if let some verdict := (← get).lookup id then return verdict
    if id ∈ path then return false
    let verdict ←
      match g.node? id with
      | none => pure false
      | some n =>
        if n.kind.isInterpolator then pure false
        else
          n.inputs.anyM fun p ↦
            match g.driver? p.id with
            | none => pure false
            | some c => g.dependsOn target depth (id :: path) c.fromNode
    modify ((id, verdict) :: ·)
    return verdict

structure FrontierSearch where
  seen : List OutputRef := []
  found : List OutputRef := []
  verdicts : Verdicts := []

/-- Whether a node depends on `target`, with the verdicts of the search so far. -/
def FrontierSearch.dependsOn (g : Graph) (target id : NodeId) : StateM FrontierSearch Bool :=
  fun s ↦
    let (verdict, verdicts) := (g.dependsOn target (g.nodes.size + 2) [] id).run s.verdicts
    (verdict, { s with verdicts })

/-- Searches behind an input, as far as the outputs depend on `target`. -/
def frontierFrom (g : Graph) (target : NodeId) : Nat → PinId → StateM FrontierSearch Unit
  | 0, _ => return
  | depth + 1, input => do
    let some c := g.driver? input | return
    if c.source ∈ (← get).seen then return
    modify fun s ↦ { s with seen := c.source :: s.seen }
    if c.fromNode = target then return
    if ← FrontierSearch.dependsOn g target c.fromNode then
      let some n := g.node? c.fromNode | return
      for p in n.inputs do
        g.frontierFrom target depth p.id
    else
      modify fun s ↦ { s with found := s.found ++ [c.source] }

/-- The nearest outputs behind the pins of a loop that do not depend on the loop. -/
def frontier (g : Graph) (loop : Node) (pins : List String) : List OutputRef :=
  let search := pins.forM fun pin ↦
    match loop.input? pin with
    | none => pure ()
    | some p => g.frontierFrom loop.id g.searchDepth p.id
  (search.run {}).2.found

end Graph

end ShaderGraph
