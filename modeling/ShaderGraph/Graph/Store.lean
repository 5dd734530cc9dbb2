import ShaderGraph.Data.Tables
import ShaderGraph.Graph.Node

/-!
# Graphs

A graph stores nodes and connections under identifiers, in the order in which they were added. Next
to them it keeps, for each driven input pin, the identifier of the connection that drives it. An
input pin accepts one connection.
-/

namespace ShaderGraph

structure Graph where
  name : String
  nodes : OrderedMap NodeId Node := .empty
  connections : OrderedMap ConnectionId Connection := .empty
  drivers : OrderedMap PinId ConnectionId := .empty
deriving Repr

inductive ConnectionError
  | nodeNotFound (id : NodeId)
  | pinNotFound (id : PinId)
  | pinNameNotFound (id : NodeId) (name : String)
  | incompatiblePins
  | pinAlreadyConnected (id : PinId)
  | selfLoop
deriving DecidableEq, Repr

def ConnectionError.message : ConnectionError → String
  | .nodeNotFound id => s!"Node not found: {id.describe}"
  | .pinNotFound id => s!"Port not found: {id.describe}"
  | .pinNameNotFound id name => s!"Node {id.describe} has no port named '{name}'"
  | .incompatiblePins => "Incompatible port directions"
  | .pinAlreadyConnected id => s!"Port already connected: {id.describe}"
  | .selfLoop => "Self-loop not allowed"

namespace Graph

def untitled : Graph :=
  { name := "Untitled" }

instance : Inhabited Graph := ⟨untitled⟩

/-- Adds a node under its identifier, in the place of a node that is already there. -/
def addNode (g : Graph) (n : Node) : Graph :=
  { g with nodes := g.nodes.insert n.id n }

def node? (g : Graph) (id : NodeId) : Option Node :=
  g.nodes.get? id

def connection? (g : Graph) (id : ConnectionId) : Option Connection :=
  g.connections.get? id

/-- The drivers that a list of connections gives; a later connection into a pin replaces an
earlier one. -/
def driversOf (cs : List Connection) : OrderedMap PinId ConnectionId :=
  .ofList (cs.map fun c ↦ (c.toPin, c.id))

def reindex (g : Graph) : Graph :=
  { g with drivers := driversOf g.connections.values }

/-- Removes a node and the connections that involve it. -/
def removeNode (g : Graph) (id : NodeId) : Graph :=
  let kept : Graph :=
    { g with connections := g.connections.filterValues fun c ↦ !c.involves id }
  { kept.reindex with nodes := g.nodes.erase id }

def inputPin? (g : Graph) (id : NodeId) (name : String) : Option PinId := do
  let n ← g.node? id
  let p ← n.input? name
  return p.id

def outputPin? (g : Graph) (id : NodeId) (name : String) : Option PinId := do
  let n ← g.node? id
  let p ← n.output? name
  return p.id

/-- Removes the connection stored under an identifier and frees its input pin. -/
def disconnect (g : Graph) (id : ConnectionId) : Graph :=
  match g.connection? id with
  | none => g
  | some c =>
    { g with connections := g.connections.erase id, drivers := g.drivers.erase c.toPin }

/-- The connection that drives an input pin. -/
def driver? (g : Graph) (input : PinId) : Option Connection := do
  let id ← g.drivers.get? input
  g.connection? id

/-- The connections that leave an output pin. -/
def connectionsFrom (g : Graph) (output : PinId) : List Connection :=
  g.connections.values.filter fun c ↦ c.fromPin = output

def nodesOfKind (g : Graph) (p : NodeKind → Bool) : List Node :=
  g.nodes.values.filter fun n ↦ p n.kind

end Graph

/-! ## Connecting pins -/

/-- Edits that may fail. What an edit has done before it fails is not undone. -/
abbrev GraphEdit := ExceptT ConnectionError (StateM Graph)

namespace GraphEdit

/-- Makes an edit, and gives its result with the graph that it leaves. -/
def apply {α : Type} (edit : GraphEdit α) (g : Graph) : Except ConnectionError α × Graph :=
  (ExceptT.run edit).run g

/-- The graph after an edit that succeeds. -/
def graphAfter {α : Type} (edit : GraphEdit α) (g : Graph) : Except ConnectionError Graph :=
  match edit.apply g with
  | (.ok _, g') => .ok g'
  | (.error e, _) => .error e

def check (p : Prop) [Decidable p] (e : ConnectionError) : GraphEdit Unit :=
  if p then pure () else throw e

/-- Connects an output pin to an input pin by a connection with a fresh identifier. -/
def connect (fresh : ConnectionId) (fromNode : NodeId) (fromPin : PinId) (toNode : NodeId)
    (toPin : PinId) : GraphEdit ConnectionId := do
  let some sourceNode := (← get).node? fromNode | throw (.nodeNotFound fromNode)
  let some targetNode := (← get).node? toNode | throw (.nodeNotFound toNode)
  let some source := sourceNode.pin? fromPin | throw (.pinNotFound fromPin)
  let some target := targetNode.pin? toPin | throw (.pinNotFound toPin)
  check (source.canConnect target) .incompatiblePins
  check (!(← get).drivers.contains toPin) (.pinAlreadyConnected toPin)
  check (fromNode ≠ toNode) .selfLoop
  modify fun g ↦ { g with drivers := g.drivers.insert toPin fresh }
  modify fun g ↦
    { g with connections := g.connections.insert fresh ⟨fresh, fromNode, fromPin, toNode, toPin⟩ }
  return fresh

/-- Connects two pins that are given by name. -/
def connectByName (fresh : ConnectionId) (fromNode : NodeId) (fromName : String) (toNode : NodeId)
    (toName : String) : GraphEdit ConnectionId := do
  let some fromPin := (← get).outputPin? fromNode fromName
    | throw (.pinNameNotFound fromNode fromName)
  let some toPin := (← get).inputPin? toNode toName | throw (.pinNameNotFound toNode toName)
  connect fresh fromNode fromPin toNode toPin

end GraphEdit

namespace Graph

def connect (g : Graph) (fresh : ConnectionId) (fromNode : NodeId) (fromPin : PinId)
    (toNode : NodeId) (toPin : PinId) : Except ConnectionError Graph :=
  (GraphEdit.connect fresh fromNode fromPin toNode toPin).graphAfter g

def connectByName (g : Graph) (fresh : ConnectionId) (fromNode : NodeId) (fromName : String)
    (toNode : NodeId) (toName : String) : Except ConnectionError Graph :=
  (GraphEdit.connectByName fresh fromNode fromName toNode toName).graphAfter g

end Graph

end ShaderGraph
