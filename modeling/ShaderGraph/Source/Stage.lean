import ShaderGraph.Graph.Node
import ShaderGraph.Source.Buffer
import ShaderGraph.Source.Variable

/-!
# Stages under construction

A stage collects declarations in blocks and statements in its body. Captures redirect the body:
statements go to the innermost capture until it is ended and its text is taken out.

Variables are bound to pins in one list, the latest binding first. A scope is a mark that holds the
length of the list at its opening, and closing the scope cuts the list back to that length. Outer
bindings are kept apart; they are looked up last and no scope ends them.
-/

namespace ShaderGraph

inductive ShaderStage
  | vertex
  | pixel
deriving DecidableEq, Repr, Inhabited

namespace ShaderStage

instance : Labelled ShaderStage where
  all := [vertex, pixel]
  label
    | vertex => "Vertex"
    | pixel => "Pixel"

def name : ShaderStage → String
  | vertex => "vertex"
  | pixel => "pixel"

end ShaderStage

/-- Sections of declarations: uniforms and textures, samplers, stage inputs, stage outputs and
subroutines. -/
inductive Block
  | uniforms
  | samplers
  | inputs
  | outputs
  | scripts
deriving DecidableEq, Repr

abbrev Binding := PinId × Variable

structure StageShader where
  stage : ShaderStage
  uniforms : CodeBuffer := {}
  samplers : CodeBuffer := {}
  inputs : CodeBuffer := {}
  outputs : CodeBuffer := {}
  scripts : CodeBuffer := {}
  main : CodeBuffer := {}
  /-- Open captures, the innermost first. -/
  captures : List CodeBuffer := []
  /-- Scoped bindings, the latest first. -/
  bindings : List Binding := []
  /-- Numbers of bindings at the openings of the scopes, the innermost first. -/
  scopes : List Nat := []
  /-- Bindings outside of the scopes, the earliest first. -/
  outer : List Binding := []
  declared : List String := []
  /-- Vertex attributes by input name, the latest first. -/
  attributes : List (String × Variable) := []
  /-- Signatures of subroutines by name, the latest first. -/
  signatures : List (String × String) := []
deriving Repr

namespace StageShader

def block (s : StageShader) : Block → CodeBuffer
  | .uniforms => s.uniforms
  | .samplers => s.samplers
  | .inputs => s.inputs
  | .outputs => s.outputs
  | .scripts => s.scripts

def blockText (s : StageShader) (b : Block) : String :=
  (s.block b).text

def modifyBlock (s : StageShader) (b : Block) (f : CodeBuffer → CodeBuffer) : StageShader :=
  match b with
  | .uniforms => { s with uniforms := f s.uniforms }
  | .samplers => { s with samplers := f s.samplers }
  | .inputs => { s with inputs := f s.inputs }
  | .outputs => { s with outputs := f s.outputs }
  | .scripts => { s with scripts := f s.scripts }

/-- Writes to the innermost capture, or to the main body if none is open. -/
def modifyBody (s : StageShader) (f : CodeBuffer → CodeBuffer) : StageShader :=
  match s.captures with
  | [] => { s with main := f s.main }
  | b :: bs => { s with captures := f b :: bs }

def beginCapture (s : StageShader) : StageShader :=
  { s with captures := {} :: s.captures }

/-- Ends the innermost capture and returns its text. -/
def endCapture (s : StageShader) : String × StageShader :=
  match s.captures with
  | [] => ("", s)
  | b :: bs => (b.text, { s with captures := bs })

def openScope (s : StageShader) : StageShader :=
  { s with scopes := s.bindings.length :: s.scopes }

/-- Drops the bindings made since the innermost scope was opened. -/
def closeScope (s : StageShader) : StageShader :=
  match s.scopes with
  | [] => s
  | mark :: marks =>
    { s with scopes := marks, bindings := s.bindings.drop (s.bindings.length - mark) }

def scopeDepth (s : StageShader) : Nat :=
  s.scopes.length

def bind (s : StageShader) (pin : PinId) (v : Variable) : StageShader :=
  { s with bindings := (pin, v) :: s.bindings }

def bindOuter (s : StageShader) (pin : PinId) (v : Variable) : StageShader :=
  { s with outer := s.outer ++ [(pin, v)] }

/-- The latest scoped binding of a pin, else its first outer one. -/
def binding? (s : StageShader) (pin : PinId) : Option Variable :=
  (s.bindings.lookup pin).or (s.outer.lookup pin)

/-- Changes the type in the first binding of a pin. -/
def retypeFirst (pin : PinId) (t : ValueType) : List Binding → List Binding
  | [] => []
  | b :: bs =>
    if b.1 = pin then (pin, { b.2 with type := t }) :: bs else b :: retypeFirst pin t bs

/-- Changes the type of the latest scoped binding of a pin. -/
def retype (s : StageShader) (pin : PinId) (t : ValueType) : StageShader :=
  { s with bindings := retypeFirst pin t s.bindings }

def isDeclared (s : StageShader) (name : String) : Bool :=
  s.declared.contains name

def declare (s : StageShader) (name : String) : StageShader :=
  if s.isDeclared name then s else { s with declared := name :: s.declared }

def attribute? (s : StageShader) (name : String) : Option Variable :=
  s.attributes.lookup name

def addAttribute (s : StageShader) (name : String) (v : Variable) : StageShader :=
  { s with attributes := (name, v) :: s.attributes }

def signature? (s : StageShader) (name : String) : Option String :=
  s.signatures.lookup name

def defineScript (s : StageShader) (name signature : String) : StageShader :=
  { s with signatures := (name, signature) :: s.signatures }

end StageShader

end ShaderGraph
