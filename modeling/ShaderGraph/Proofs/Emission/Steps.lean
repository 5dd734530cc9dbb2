import ShaderGraph.Proofs.Emission.Declarations
import ShaderGraph.Proofs.Emission.Held

/-!
# Steps of emitters

Every emitter is a sequence of a few kinds of steps: it reads inputs and converts their values,
registers declarations, binds outputs, and writes statements whose texts are phrases over what it has
read. `Step` lists these kinds with all that they do to the state. What holds of a run of any
emitter is proved once for each kind of step, whatever the kinds of nodes are.
-/

namespace ShaderGraph

/-- Names that the author of a graph gives to the kind and that sources spell as they are. -/
def NodeKind.userNames : NodeKind → List String
  | .uniform parameter _ => [parameter]
  | .indexedUniform parameter _ _ => [parameter]
  | .script name _ _ _ => [name]
  | _ => []

/-- Names of parameters that the author of a graph gives to the kind. -/
def NodeKind.parameterNames : NodeKind → List String
  | .uniform parameter _ => [parameter]
  | .indexedUniform parameter _ _ => [parameter]
  | _ => []

theorem NodeKind.parameterNames_subset (k : NodeKind) : k.parameterNames ⊆ k.userNames := by
  cases k <;> simp [parameterNames, userNames]

/-- The type of a sampler in one of the templates. -/
def SampleTemplates.IsSamplerType (templates : SampleTemplates) (samplerType : String) : Prop :=
  samplerType = templates.samplerType ∨
    templates.sampleCompare?.map CompareTemplate.samplerType = some samplerType

/-- A value that the target provides in a stage, once its member is required to be declared. -/
inductive Dialect.Provides (d : Dialect) (r : Requirements) : ShaderStage → String → Prop
  | fragCoord : d.Provides r .pixel d.fragCoord
  | frontFacing (h : r.frontFace) : d.Provides r .pixel d.frontFacing
  | instanceId {text : String} (htext : d.instanceId? = some text) (h : r.instanceId) :
    d.Provides r .vertex text

/-- Members that are required stay required. -/
structure Requirements.IsAddition (f : Requirements → Requirements) : Prop where
  frontFace : ∀ r : Requirements, r.frontFace → (f r).frontFace
  instanceId : ∀ r : Requirements, r.instanceId → (f r).instanceId

/-- A block of a branch: the lines that head it, the captured branch, and the branch's value as a
value of the output. -/
structure Arm where
  head : List String
  branch : Emitter.Branch
  value : String

/-- Writes the block of an arm, which ends in the assignment of its value. -/
def Arm.write (output : String) (b : CodeBuffer) (arm : Arm) : CodeBuffer :=
  ((((arm.head.foldl CodeBuffer.line b).openBlock).splice arm.branch.text).line
    s!"{output} = {arm.value};").closeBlock

/-- A line that heads an arm is an `else` or tests a condition. -/
def Arm.IsHead (H : Held) (line : String) : Prop :=
  line = "else" ∨ H.States line

/-- The line is a keyword with a text in parentheses. -/
def Opens (keyword line : String) : Prop :=
  ∃ text : String, line = keyword ++ " (" ++ text ++ ")"

/-- Heads of the blocks of one construct: an `if`, any number of `else if`, and an `else`. -/
def AreHeads (heads : List String) : Prop :=
  ∃ first rest, heads = first :: (rest ++ ["else"]) ∧ Opens "if" first ∧
    ∀ head ∈ rest, Opens "else if" head

/-- How the body of a loop gives its value to the output. -/
def loopOperator (accumulate : Bool) : String :=
  if accumulate then "+=" else "="

def interpolatorName (slot : Nat) : String :=
  s!"Attr{slot}"

namespace EmitState

/-- Carries the value of an interpolator from the vertex stage over to the pixel stage, in a new
slot. -/
def carry (s : EmitState) (d : Dialect) (pin : PinId) (v : Variable) : EmitState :=
  let name := interpolatorName s.interpolators
  let (output, input) := d.interpolatorDeclarations v.type name s.interpolators
  let s := { s with stage := .pixel, interpolators := s.interpolators + 1 }
  let s := s.modifyShader .vertex fun shader ↦
    (shader.modifyBlock .outputs fun b ↦ b.line output).modifyBody fun b ↦
      b.line s!"{d.outputReference name} = {v.name};"
  let s := s.modifyShader .pixel fun shader ↦ shader.modifyBlock .inputs fun b ↦ b.line input
  s.modifyShader .pixel fun shader ↦ shader.bindOuter pin ⟨d.inputReference name, v.type⟩

end EmitState

open EmitM Emitter

/-- The emitter of the kind may bind an output to a value of any type: to its parameter, or to a value
that it passes on as it finds it. -/
def NodeKind.forwards : NodeKind → Bool
  | .uniform .. | .vertexInput .. | .interpolator | .discard .. => true
  | _ => false

/-- A step of the emitter of a node. -/
inductive Step (env : EmitEnv) (demand : Demand) (n : Node) :
    Held → EmitState → Held → EmitState → Prop
  /-- Finds out the stage that is being written. -/
  | guard {H : Held} {s : EmitState} : Step env demand n H s (H.addStage s.stage) s
  /-- Evaluates an input. -/
  | read {H : Held} {s t : EmitState} {pin : String} {value? : Option Variable}
    (h : Returns env (inputValue? demand n pin) s value? t) :
    Step env demand n H s (H.read pin value?) t
  /-- Evaluates an output in front of a branch or a loop. -/
  | hoist {H : Held} {s t : EmitState} {o : OutputRef} {v : Variable} {pins : List String}
    (ho : o ∈ env.graph.commonOutputs n pins ∨ o ∈ env.graph.frontier n pins)
    (h : Returns env (demand o.node o.pin) s v t) : Step env demand n H s H t
  /-- Converts a value. -/
  | convert {H : Held} {s : EmitState} {v : Variable} {type : ValueType} {text : String}
    (hv : v ∈ H.values) (h : v.cast type env.dialect = .ok text) :
    Step env demand n H s (H.addOperand text type) s
  /-- Declares an output with its value. -/
  | define {H : Held} {s : EmitState} {pin name expr : String} {p : Pin} {type : ValueType}
    (hp : n.output? pin = some p) (hnumeric : type.isNumeric)
    (hname : env.dialect.typeName? type = some name) (hexpr : H.Computes env.dialect expr) :
    Step env demand n H s H
      ((s.allocate p.id type).write s!"{name} {temporary s.nextVariable} = {expr};")
  /-- Declares an output with a constant value. -/
  | constant {H : Held} {s : EmitState} {pin name literal : String} {p : Pin} {type : ValueType}
    (hp : n.output? pin = some p) (hnumeric : type.isNumeric)
    (hname : env.dialect.typeName? type = some name) (hliteral : ({} : Held).Forms literal) :
    Step env demand n H s H
      ((s.allocate p.id type).write s!"const {name} {temporary s.nextVariable} = {literal};")
  /-- Declares an output without a value. -/
  | declare {H : Held} {s : EmitState} {pin name : String} {p : Pin} {type : ValueType}
    (hp : n.output? pin = some p) (hnumeric : type.isNumeric)
    (hname : env.dialect.typeName? type = some name) :
    Step env demand n H s (H.addName (temporary s.nextVariable))
      ((s.allocate p.id type).write s!"{name} {temporary s.nextVariable};")
  /-- Binds an output to a value or to a component of it. -/
  | forward {H : Held} {s : EmitState} {pin : String} {p : Pin} {v : Variable}
    (hp : n.output? pin = some p)
    (hv : v ∈ H.values ∨ (v.type.isVector ∧ H.Forms v.name ∧ ∃ w ∈ H.values, v.IsComponentOf w))
    (htexture : v.type.isTexture → n.kind.forwards) :
    Step env demand n H s H (s.bindPin p.id v)
  /-- Writes a position, or a color to a target that is declared if it needs to be. -/
  | output {H : Held} {s : EmitState} {target expr : String}
    (htarget : (target = env.dialect.positionOutput ∧ .vertex ∈ H.stages) ∨
      ∃ index, target = (env.dialect.fragmentOutput index).2 ∧
        ((env.dialect.fragmentOutput index).1.isSome → (s.shader s.stage).isDeclared target))
    (hexpr : H.Forms expr) :
    Step env demand n H s H (s.write s!"{target} = {expr};")
  /-- Writes a statement that assigns nothing. -/
  | statement {H : Held} {s : EmitState} {text : String} (htext : H.States text)
    (hend : ∃ body : String, text = body ++ ";") : Step env demand n H s H (s.write text)
  /-- Declares a parameter. -/
  | uniform {H : Held} {s t : EmitState} {name : String} {type : ValueType}
    {length? : Option UInt32}
    (hname : (name ∈ n.kind.parameterNames ∧ type ≠ .void) ∨
      (type.isNumeric ∧ name = s!"{env.dialect.reservedPrefix}targetSize") ∨
      (type.isNumeric ∧ ∃ texture ∈ H.values, texture.type.isTexture ∧
        name = s!"{env.dialect.reservedPrefix}textureSize_{texture.name}"))
    (h : Returns env (declareUniform n name type length?) s () t)
    (htexture : type.isTexture → n.kind = .uniform name type) :
    Step env demand n H s (H.addParameter ⟨name, type⟩) t
  /-- Declares a sampler of a texture. -/
  | sampler {H : Held} {s t : EmitState} {texture : Variable} {state : SamplerState}
    {templates : SampleTemplates} {samplerType name : String} (hkind : n.kind = .sampler state)
    (hv : texture ∈ H.values) (htexture : texture.type.isTexture)
    (htemplates : env.dialect.sampleTemplates? texture.type = some templates)
    (htype : templates.IsSamplerType samplerType)
    (h : Returns env (declareSampler texture state samplerType) s name t) :
    Step env demand n H s (H.addName name) t
  /-- Declares a vertex attribute. -/
  | vertexAttribute {H : Held} {s t : EmitState} {name : String} {usage : AttributeUsage}
    {type : ValueType} {index : UInt32} {v : Variable} (hstage : .vertex ∈ H.stages)
    (hvector : type.isVector) (h : Returns env (vertexAttribute name usage type index) s v t)
    (hkind : n.kind = .vertexInput name usage type index) :
    Step env demand n H s (H.addValue v) t
  /-- Defines a subroutine. -/
  | script {H : Held} {s t : EmitState} {name signature body : String}
    (hname : name ∈ n.kind.userNames)
    (h : Returns env (defineScript n name signature body) s () t)
    (hkind : ∃ inputs outputs, n.kind = .script name body inputs outputs ∧
      signature = env.dialect.signature name inputs outputs) :
    Step env demand n H s (H.addName name) t
  /-- Declares a render target. -/
  | target {H : Held} {s t : EmitState} {index : Nat} {declaration? : Option String}
    (hstage : .pixel ∈ H.stages) (hdecl : declaration? = (env.dialect.fragmentOutput index).1)
    (hsome : declaration?.isSome)
    (h : Returns env (declareOnce .outputs (env.dialect.fragmentOutput index).2 declaration?) s ()
      t) : Step env demand n H s H t
  /-- Notes a feature of the target. -/
  | require {H : Held} {s : EmitState} {f : Requirements → Requirements}
    (hf : Requirements.IsAddition f) :
    Step env demand n H s H { s with requirements := f s.requirements }
  /-- Finds a value that the target provides. -/
  | provide {H : Held} {s : EmitState} {stage : ShaderStage} {text : String}
    (hstage : stage ∈ H.stages) (h : env.dialect.Provides s.requirements stage text) :
    Step env demand n H s (H.addName text) s
  /-- Fixes the render state. -/
  | renderState {H : Held} {s : EmitState} {state : RenderState} (hnone : s.renderState? = none) :
    Step env demand n H s H { s with renderState? := some state }
  /-- Captures branches and writes them as the arms of one construct that assigns an output. Only a
  switch without cases has a single branch, whose type nothing restricts. -/
  | branches {H : Held} {s t : EmitState} (pins : List String) (arms : List Arm) {name : String}
    {p : Pin} {type : ValueType} {attribute? : Option String}
    (h : Returns env (pins.mapM (captureBranch demand n)) s (arms.map Arm.branch) t)
    (htype : ValueType.commonOf (arms.map fun arm ↦ arm.branch.value.type) = .ok type)
    (hp : n.output? "Output" = some p) (hname : env.dialect.typeName? type = some name)
    (hattribute : ∀ line ∈ attribute?, env.dialect.flattenAttribute? = some line ∨
      env.dialect.branchAttribute? = some line)
    (hhead : ∀ arm ∈ arms, arm.head = [] ∨ ∃ line, arm.head = [line] ∧ Arm.IsHead H line)
    (hvalue : ∀ arm ∈ arms, arm.branch.value.cast type env.dialect = .ok arm.value)
    (hdeclares : type.isNumeric ∨ pins = ["Default"] ∧ ∃ hint, n.kind = .switch [] hint)
    (hchain : (∃ heads : List String, arms.map Arm.head = heads.map ([·]) ∧ AreHeads heads) ∨
      ∃ hint, n.kind = .switch [] hint ∧ arms.map Arm.head = [[]] ∧
        (hint = .auto → attribute? = none)) :
    Step env demand n H s (H.addPins pins)
      ((t.allocate p.id type).modifyBody fun b ↦
        arms.foldl (Arm.write (temporary t.nextVariable))
          (attribute?.toList.foldl CodeBuffer.line
            (b.line s!"{name} {temporary t.nextVariable};")))
  /-- Captures the body of a loop and writes the loop. -/
  | loop {H : Held} {s t u : EmitState} {loop : Loop} {initial? : Option Variable}
    {names : List String} {name scalar start result : String} {p : Pin}
    {declared type : ValueType} {value : Variable} {condition? attribute? : Option String}
    (hinitial : ∀ v ∈ initial?, v ∈ H.values ∧ v.type.isNumeric)
    (hdeclared : declared = (initial?.map Variable.type).getD .void)
    (hp : n.output? "Output" = some p)
    (hnames : names = (List.range' (s.nextVariable + 1) loop.counters.length).map temporary)
    (hstart : t = { s.allocate p.id declared with
      nextVariable := s.nextVariable + 1 + loop.counters.length })
    (h : Returns env (loopBody demand n loop names) t.beginCapture (value, condition?) u)
    (htype : type = if declared = .void then value.type else declared)
    (hnumeric : type.isNumeric) (hname : env.dialect.typeName? type = some name)
    (hscalar : env.dialect.typeName? .scalar = some scalar)
    (hresult : value.cast type env.dialect = .ok result)
    (hvalue : (∃ v ∈ initial?, loop.accumulate = false ∧ v.cast type env.dialect = .ok start) ∨
      ((initial? = none ∨ loop.accumulate = true) ∧ start = env.dialect.scalarLiteral type .zero))
    (hattribute : ∀ line ∈ attribute?, env.dialect.unrollAttribute? = some line)
    (hcounters : loop.counters ≠ []) :
    Step env demand n H s (H.addPins ["Input", "Condition"])
      (((u.endCapture s.stage).retype p.id type).modifyBody fun b ↦
        writeLoop loop names scalar (u.capturedText s.stage) condition?
          s!"{temporary s.nextVariable} {loopOperator loop.accumulate} {result};"
          (attribute?.toList.foldl CodeBuffer.line
            (b.line s!"{name} {temporary s.nextVariable} = {start};")))
  /-- Evaluates an input in the vertex stage and carries its value over to the pixel stage. -/
  | cross {H : Held} {s t : EmitState} {v : Variable} {p : Pin} (hkind : n.kind = .interpolator)
    (hstage : s.stage = .pixel)
    (h : Returns env (requireInput demand n "Input") { s with stage := .vertex } v t)
    (hvector : v.type.isVector) (hp : n.output? "Output" = some p) :
    Step env demand n H s (H.addPins ["Input"]) (t.carry env.dialect p.id v)

/-- A sequence of steps. -/
inductive Steps (env : EmitEnv) (demand : Demand) (n : Node) :
    Held → EmitState → Held → EmitState → Prop
  | refl {H : Held} {s : EmitState} : Steps env demand n H s H s
  | snoc {H K L : Held} {s t u : EmitState} (h : Steps env demand n H s K t)
    (hstep : Step env demand n K t L u) : Steps env demand n H s L u

namespace Steps

variable {env : EmitEnv} {demand : Demand} {n : Node} {H K L : Held} {s t u : EmitState}

theorem single (h : Step env demand n H s K t) : Steps env demand n H s K t :=
  .snoc .refl h

theorem trans (h : Steps env demand n H s K t) (h' : Steps env demand n K t L u) :
    Steps env demand n H s L u := by
  induction h' with
  | refl => exact h
  | snoc _ hstep ih => exact .snoc (ih h) hstep

end Steps

end ShaderGraph
