import ShaderGraph.Emission.Context
import ShaderGraph.Graph.Dependence

/-!
# Inputs of emitters

Emission is driven by demand: an emitter asks for the values of its inputs, and a connected input
asks for the output that drives it. How an output is evaluated is a parameter of the emitters, so
that they need no recursion of their own.
-/

namespace ShaderGraph

/-- Evaluates an output pin of a node to a variable. -/
abbrev Demand := NodeId → PinId → EmitM Variable

namespace EmitM

/-- The value of an input: that of the output that drives it, else the default of the pin, else none
for an optional pin. -/
def inputValue? (demand : Demand) (n : Node) (pin : String) : EmitM (Option Variable) := do
  let some p := n.input? pin
    | throw (.invalidGraph s!"{(NodeIdentity.ofNode n).text} has no input pin '{pin}'")
  match (← read).graph.driver? p.id with
  | some c => return some (← demand c.fromNode c.fromPin)
  | none =>
    match p.default? with
    | some l => return some ⟨(← dialect).vectorLiteral l.components, l.type⟩
    | none => if p.isOptional then return none else throw (.missingInput (.ofNode n) pin)

def requireInput (demand : Demand) (n : Node) (pin : String) : EmitM Variable := do
  match ← inputValue? demand n pin with
  | some v => return v
  | none => throw (.missingInput (.ofNode n) pin)

/-- The value of an input that must be a scalar or a vector. -/
def vectorInput (demand : Demand) (n : Node) (pin : String) : EmitM Variable := do
  let v ← requireInput demand n pin
  if v.type.isVector then return v
  else throw (.expected n pin "a scalar or vector" v.type)

def scalarInput (demand : Demand) (n : Node) (pin : String) : EmitM Variable := do
  let v ← requireInput demand n pin
  if v.type = .scalar then return v else throw (.expected n pin "a scalar" v.type)

def matrixInput (demand : Demand) (n : Node) (pin : String) : EmitM Variable := do
  let v ← requireInput demand n pin
  if v.type = .matrix4 then return v else throw (.expected n pin "a matrix" v.type)

def textureInput (demand : Demand) (n : Node) (pin : String) : EmitM Variable := do
  let v ← requireInput demand n pin
  if v.type.isTexture then return v else throw (.expected n pin "a texture" v.type)

/-- The value of an input converted to a scalar expression. -/
def scalarOperand (demand : Demand) (n : Node) (pin : String) : EmitM String := do
  let v ← requireInput demand n pin
  cast n v .scalar

/-- Evaluates outputs in the current scope, so that later demands find them bound. -/
def hoist (demand : Demand) (outputs : List OutputRef) : EmitM Unit :=
  outputs.forM fun o ↦ do
    let _ ← demand o.node o.pin

/-- Declares the `Output` pin as a new variable with a value. -/
def assignOutput (n : Node) (t : ValueType) (expr : String) : EmitM Unit := do
  let output ← emitOutput n "Output" t
  assign n output expr

/-- Binds the `Output` pin to an existing variable. -/
def forwardOutput (n : Node) (v : Variable) : EmitM Unit := do
  let _ ← bindOutput n "Output" v

end EmitM

/-- Whether an input pin is driven by a connection. -/
def Graph.isConnected (g : Graph) (n : Node) (pin : String) : Bool :=
  (n.input? pin).any fun p ↦ (g.driver? p.id).isSome

end ShaderGraph
