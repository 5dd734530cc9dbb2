import ShaderGraph.Emission.Input

/-!
# Scripts

A script is a subroutine with a body that the user has written. It is defined once in each stage
that calls it.
-/

namespace ShaderGraph

namespace Emitter

open EmitM

def scriptPinType (n : Node) (pin : ScriptPin) : EmitM String := do
  if pin.type.isTexture then unsupported n s!"texture script pin '{pin.name}'"
  typeName n pin.type

def scriptSignature (n : Node) (name : String) (inputs outputs : List ScriptPin) :
    EmitM String := do
  let ins ← inputs.mapM fun pin ↦ return s!"{← scriptPinType n pin} {pin.name}"
  let outs ← outputs.mapM fun pin ↦ return s!"out {← scriptPinType n pin} {pin.name}"
  let parameters := ", ".intercalate (ins ++ outs)
  return s!"void {name}({parameters})"

/-- Appends the definition of a subroutine; a blank line sets it apart from an earlier one. -/
def writeDefinition (signature body : String) (b : CodeBuffer) : CodeBuffer :=
  let b := if b.isEmpty then b else b.line ""
  (((b.line signature).openBlock).splice (trimLineFeeds body)).closeBlock

/-- Defines a subroutine unless it is defined. Two subroutines of one name must agree in their
signatures. -/
def defineScript (n : Node) (name signature body : String) : EmitM Unit := do
  let s ← get
  match (s.shader s.stage).signature? name with
  | some existing =>
    if existing ≠ signature then
      let reason := s!"script '{name}' is already defined as '{existing}'"
      throw (.invalidGraph s!"{(NodeIdentity.ofNode n).text}: {reason}")
  | none =>
    modifyShader fun shader ↦
      (shader.modifyBlock .scripts (writeDefinition signature body)).defineScript name signature

def scriptArgument (demand : Demand) (n : Node) (pin : ScriptPin) : EmitM String := do
  let value ← requireInput demand n pin.name
  cast n value pin.type

/-- Declares the variable that receives an output of a script. -/
def scriptResult (n : Node) (pin : ScriptPin) : EmitM String := do
  let output ← emitOutput n pin.name pin.type
  let type ← typeName n pin.type
  writeLine s!"{type} {output.name};"
  return output.name

def script (demand : Demand) (n : Node) (name body : String) (inputs outputs : List ScriptPin) :
    EmitM Unit := do
  let signature ← scriptSignature n name inputs outputs
  defineScript n name signature body
  let ins ← inputs.mapM (scriptArgument demand n)
  let outs ← outputs.mapM (scriptResult n)
  let arguments := ", ".intercalate (ins ++ outs)
  writeLine s!"{name}({arguments});"

end Emitter

end ShaderGraph
