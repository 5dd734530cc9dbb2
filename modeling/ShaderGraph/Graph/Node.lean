import ShaderGraph.Graph.Layout
import ShaderGraph.Uuid

/-!
# Nodes and connections

A node owns pins with identifiers of their own, built from the pin layout of its kind. A connection
leads from an output pin of one node to an input pin of another.
-/

namespace ShaderGraph

structure NodeId where
  uuid : Uuid
deriving DecidableEq, Repr, Inhabited

structure PinId where
  uuid : Uuid
deriving DecidableEq, Repr, Inhabited

structure ConnectionId where
  uuid : Uuid
deriving DecidableEq, Repr, Inhabited

def NodeId.text (id : NodeId) : String := id.uuid.text

/-- Form of an identifier in messages that tell kinds of identifiers apart. -/
def NodeId.describe (id : NodeId) : String := s!"NodeId({id.uuid.text})"

def PinId.text (id : PinId) : String := id.uuid.text

def PinId.describe (id : PinId) : String := s!"PortId({id.uuid.text})"

def ConnectionId.text (id : ConnectionId) : String := id.uuid.text

def ConnectionId.describe (id : ConnectionId) : String := s!"ConnectionId({id.uuid.text})"

inductive PinDirection
  | input
  | output
deriving DecidableEq, Repr, Inhabited

instance : Labelled PinDirection where
  all := [.input, .output]
  label
    | .input => "Input"
    | .output => "Output"

structure Pin where
  id : PinId
  name : String
  direction : PinDirection
  isOptional : Bool := false
  default? : Option Literal := none
deriving DecidableEq, Repr

namespace Pin

def ofSpec (id : PinId) (direction : PinDirection) (spec : PinSpec) : Pin where
  id := id
  name := spec.name
  direction := direction
  isOptional := spec.isOptional
  default? := spec.default?

/-- Whether a connection may lead from the first pin to the second. -/
def canConnect (source target : Pin) : Bool :=
  source.direction = .output && target.direction = .input

end Pin

structure Node where
  id : NodeId
  name : String
  x : Binary32
  y : Binary32
  kind : NodeKind
  inputs : List Pin
  outputs : List Pin
deriving Repr

namespace Node

/-- A node with the pin layout of its kind; `pinId` numbers the pins of each direction. -/
def ofKind (id : NodeId) (pinId : PinDirection → Nat → PinId) (kind : NodeKind) : Node where
  id := id
  name := kind.typeName
  x := .zero
  y := .zero
  kind := kind
  inputs := kind.inputPins.mapIdx fun k spec ↦ .ofSpec (pinId .input k) .input spec
  outputs := kind.outputPins.mapIdx fun k spec ↦ .ofSpec (pinId .output k) .output spec

def typeName (n : Node) : String :=
  n.kind.typeName

def input? (n : Node) (name : String) : Option Pin :=
  n.inputs.find? fun p ↦ p.name = name

def output? (n : Node) (name : String) : Option Pin :=
  n.outputs.find? fun p ↦ p.name = name

def pins (n : Node) : List Pin :=
  n.inputs ++ n.outputs

def pin? (n : Node) (id : PinId) : Option Pin :=
  n.pins.find? fun p ↦ p.id = id

end Node

structure Connection where
  id : ConnectionId
  fromNode : NodeId
  fromPin : PinId
  toNode : NodeId
  toPin : PinId
deriving DecidableEq, Repr

/-- Whether the connection starts or ends at a node. -/
def Connection.involves (c : Connection) (id : NodeId) : Bool :=
  c.fromNode = id || c.toNode = id

end ShaderGraph
