import ShaderGraph.Proofs.Emission.Runs

/-!
# Runs that declare

What the declarations of uniforms, samplers, attributes and subroutines do to the state: they enter
the tables and write to the blocks of the current stage, but not to its bodies.
-/

namespace ShaderGraph

/-- A parameter of a subroutine. -/
def Dialect.parameter (d : Dialect) (isOutput : Bool) (pin : ScriptPin) : String :=
  (if isOutput then "out " else "") ++ d.typeNameOrVoid pin.type ++ " " ++ pin.name

/-- The signature of a subroutine. -/
def Dialect.signature (d : Dialect) (name : String) (inputs outputs : List ScriptPin) : String :=
  "void " ++ name ++ "(" ++
    ", ".intercalate (inputs.map (d.parameter false) ++ outputs.map (d.parameter true)) ++ ")"

namespace EmitState

/-- Declares a name in the current stage, if it is not yet declared there. -/
def declareOnce (s : EmitState) (block : Block) (name : String) (declaration? : Option String) :
    EmitState :=
  if (s.shader s.stage).isDeclared name then s
  else s.modifyShader s.stage fun shader ↦
    declaration?.toList.foldl (fun shader line ↦ shader.modifyBlock block fun b ↦ b.line line)
      (shader.declare name)

/-- Enters a uniform into the table. -/
def addUniform (s : EmitState) (name : String) (entry : UniformDeclaration) : EmitState :=
  { s with uniforms := s.uniforms.insert name entry }

/-- Enters a sampler into the table. -/
def addSampler (s : EmitState) (entry : SamplerDeclaration) : EmitState :=
  { s with samplers := s.samplers.insert entry.name entry }

/-- The sampler that a texture shares with a state that agrees. -/
def sharedSampler? (s : EmitState) (texture : String) (state : SamplerState) :
    Option SamplerDeclaration :=
  s.samplers.values.find? fun e ↦ e.texture = texture && e.state.agrees state

/-- The entry of a sampler that is used in the current stage. -/
def samplerEntry (s : EmitState) (d : Dialect) (texture : Variable) (state : SamplerState) :
    SamplerDeclaration :=
  match s.sharedSampler? texture.name state with
  | some e => { e with stages := insertStage s.stage e.stages }
  | none => ⟨EmitM.freshSamplerName s.samplers s!"{d.reservedPrefix}sampler_{texture.name}",
      texture.name, texture.type, state, [s.stage]⟩

/-- Declares a vertex attribute in the current stage. -/
def addAttribute (s : EmitState) (d : Dialect) (name : String) (usage : AttributeUsage)
    (type : ValueType) (index : UInt32) : EmitState :=
  let (identifier, semantic) := d.vertexAttribute usage index
  s.modifyShader s.stage fun shader ↦
    (shader.modifyBlock .inputs fun b ↦ b.line (d.attributeDeclaration type identifier semantic))
      |>.addAttribute name ⟨d.inputReference identifier, type⟩

/-- Defines a subroutine in the current stage. -/
def addScript (s : EmitState) (name signature body : String) : EmitState :=
  s.modifyShader s.stage fun shader ↦
    (shader.modifyBlock .scripts (Emitter.writeDefinition signature body)).defineScript name
      signature

theorem modifyShader_modifyShader (s : EmitState) (stage : ShaderStage)
    (f g : StageShader → StageShader) :
    (s.modifyShader stage f).modifyShader stage g = s.modifyShader stage fun x ↦ g (f x) := by
  cases stage <;> rfl

end EmitState

/-! ## Declaring a name -/

namespace StageShader

variable (s : StageShader)

theorem isDeclared_declare {name other : String} :
    (s.declare name).isDeclared other ↔ other = name ∨ s.isDeclared other := by
  unfold declare
  split
  · next h =>
    constructor
    · exact .inr
    · rintro (rfl | hother)
      · exact h
      · exact hother
  · simp [isDeclared]

@[simp]
theorem block_declare (name : String) (block : Block) :
    (s.declare name).block block = s.block block := by
  unfold declare
  split <;> cases block <;> rfl

theorem block_modifyBlock (block other : Block) (f : CodeBuffer → CodeBuffer) :
    (s.modifyBlock block f).block other = if other = block then f (s.block block) else s.block other := by
  cases block <;> cases other <;> rfl

@[simp]
theorem isDeclared_modifyBlock (block : Block) (f : CodeBuffer → CodeBuffer) (name : String) :
    (s.modifyBlock block f).isDeclared name = s.isDeclared name := by
  cases block <;> rfl

theorem declare_modifyBlock (block : Block) (f : CodeBuffer → CodeBuffer) (name : String) :
    (s.modifyBlock block f).declare name = (s.declare name).modifyBlock block f := by
  unfold declare
  rw [isDeclared_modifyBlock]
  by_cases h : s.isDeclared name
  · rw [if_pos h, if_pos h]
  · rw [if_neg h, if_neg h]
    cases block <;> rfl

end StageShader

namespace EmitState

variable (s : EmitState) (block : Block) (name : String) (declaration? : Option String)

@[simp]
theorem uniforms_declareOnce :
    (s.declareOnce block name declaration?).uniforms = s.uniforms := by
  unfold declareOnce
  split <;> simp

@[simp]
theorem samplers_declareOnce :
    (s.declareOnce block name declaration?).samplers = s.samplers := by
  unfold declareOnce
  split <;> simp

@[simp]
theorem stage_addUniform (entry : UniformDeclaration) : (s.addUniform name entry).stage = s.stage :=
  rfl

@[simp]
theorem samplers_addUniform (entry : UniformDeclaration) :
    (s.addUniform name entry).samplers = s.samplers :=
  rfl

@[simp]
theorem stage_addSampler (entry : SamplerDeclaration) : (s.addSampler entry).stage = s.stage :=
  rfl

@[simp]
theorem uniforms_addSampler (entry : SamplerDeclaration) :
    (s.addSampler entry).uniforms = s.uniforms :=
  rfl

@[simp]
theorem shader_addUniform (entry : UniformDeclaration) (stage : ShaderStage) :
    (s.addUniform name entry).shader stage = s.shader stage := by
  cases stage <;> rfl

@[simp]
theorem shader_addSampler (entry : SamplerDeclaration) (stage : ShaderStage) :
    (s.addSampler entry).shader stage = s.shader stage := by
  cases stage <;> rfl

theorem stage_declareOnce : (s.declareOnce block name declaration?).stage = s.stage := by
  unfold declareOnce
  split <;> simp

theorem isDeclared_declareOnce {stage : ShaderStage} {other : String} :
    ((s.declareOnce block name declaration?).shader stage).isDeclared other ↔
      (stage = s.stage ∧ other = name) ∨ (s.shader stage).isDeclared other := by
  unfold declareOnce
  by_cases hstage : stage = s.stage
  · subst hstage
    split
    · next h =>
      constructor
      · exact .inr
      · rintro (⟨-, rfl⟩ | hother)
        · exact h
        · exact hother
    · cases declaration? <;> simp [StageShader.isDeclared_declare]
  · split
    · simp [hstage]
    · simp [shader_modifyShader_of_ne _ _ hstage, hstage]

/-- A declaration is written to its block if the name is new in the stage. -/
theorem block_declareOnce {stage : ShaderStage} {other : Block} :
    ((s.declareOnce block name declaration?).shader stage).block other =
      if stage = s.stage ∧ other = block ∧ (s.shader s.stage).isDeclared name = false then
        declaration?.toList.foldl CodeBuffer.line ((s.shader stage).block other)
      else (s.shader stage).block other := by
  unfold declareOnce
  by_cases hstage : stage = s.stage
  · subst hstage
    cases hdeclared : (s.shader s.stage).isDeclared name with
    | true => simp
    | false =>
      by_cases hblock : other = block
      · subst hblock
        cases declaration? <;> simp [StageShader.block_modifyBlock]
      · cases declaration? <;> simp [StageShader.block_modifyBlock, hblock]
  · split
    · simp [hstage]
    · simp [shader_modifyShader_of_ne _ _ hstage, hstage]

end EmitState

/-! ## Runs -/

namespace EmitM

open Emitter

variable {env : EmitEnv} {n : Node} {s t : EmitState}

theorem returns_declareOnce {block : Block} {name : String} {declaration? : Option String}
    {a : Unit} :
    Returns env (declareOnce block name declaration?) s a t ↔
      t = s.declareOnce block name declaration? := by
  simp only [declareOnce, returns_bind, returns_get, EmitState.declareOnce, and_assoc, exists_and_left,
    exists_eq_left]
  cases (s.shader s.stage).isDeclared name with
  | true => simp [returns_pure]
  | false =>
    cases declaration? with
    | none => simp [returns_modifyShader]
    | some line => simp [returns_bind, returns_modifyShader, EmitState.modifyShader_modifyShader]

/-- A uniform is declared with the type and length that it has in the table, if it is there. -/
theorem returns_declareUniform {name : String} {type : ValueType} {length? : Option UInt32}
    {a : Unit} :
    Returns env (declareUniform n name type length?) s a t ↔
      ∃ entry : UniformDeclaration,
        ((s.uniforms.get? name = none ∧ entry = ⟨name, type, length?, [s.stage]⟩) ∨
          ∃ u, s.uniforms.get? name = some u ∧ u.type = type ∧ u.length? = length? ∧
            entry = { u with stages := insertStage s.stage u.stages }) ∧
        t = (s.addUniform name entry).declareOnce .uniforms name
          (env.dialect.uniformDeclaration? type name length?) := by
  simp only [declareUniform, returns_bind, returns_get, and_assoc, exists_and_left, exists_eq_left]
  cases s.uniforms.get? name with
  | none =>
    simp [returns_bind, returns_set, returns_dialect, returns_declareOnce, and_assoc,
      EmitState.addUniform]
  | some u =>
    by_cases htype : u.type = type
    · by_cases hlength : u.length? = length?
      · simp [htype, hlength, returns_bind, returns_set, returns_dialect,
          returns_declareOnce, and_assoc, EmitState.addUniform]
      · simp [htype, hlength, returns_bind, returns_throw]
    · simp [htype, returns_bind, returns_throw]

theorem returns_declareSampler {texture : Variable} {state : SamplerState}
    {samplerType name : String} :
    Returns env (declareSampler texture state samplerType) s name t ↔
      name = (s.samplerEntry env.dialect texture state).name ∧
        t = (s.addSampler (s.samplerEntry env.dialect texture state)).declareOnce .samplers name
          (some (env.dialect.samplerDeclaration samplerType name)) := by
  simp only [declareSampler, returns_bind, returns_get, returns_dialect, returns_set,
    returns_declareOnce, returns_pure, and_assoc, exists_and_left, exists_eq_left]
  constructor
  · rintro ⟨rfl, _, _, rfl⟩
    exact ⟨rfl, rfl⟩
  · rintro ⟨rfl, rfl⟩
    exact ⟨rfl, ⟨⟩, ⟨⟩, rfl⟩

theorem returns_vertexAttribute {name : String} {usage : AttributeUsage} {type : ValueType}
    {index : UInt32} {v : Variable} :
    Returns env (vertexAttribute name usage type index) s v t ↔
      ((s.shader s.stage).attribute? name = some v ∧ t = s) ∨
        ((s.shader s.stage).attribute? name = none ∧
          v = ⟨env.dialect.inputReference (env.dialect.vertexAttribute usage index).1, type⟩ ∧
          t = s.addAttribute env.dialect name usage type index) := by
  simp only [vertexAttribute, returns_bind, returns_get, and_assoc, exists_and_left, exists_eq_left]
  cases (s.shader s.stage).attribute? name with
  | some w => simp [returns_pure, eq_comm]
  | none =>
    simp only [and_assoc, exists_and_left, exists_eq_left, returns_bind, returns_dialect,
      returns_modifyShader, returns_pure]
    simp [EmitState.addAttribute]

theorem returns_defineScript {name signature body : String} {a : Unit} :
    Returns env (defineScript n name signature body) s a t ↔
      ((s.shader s.stage).signature? name = some signature ∧ t = s) ∨
        ((s.shader s.stage).signature? name = none ∧ t = s.addScript name signature body) := by
  simp only [defineScript, returns_bind, returns_get, and_assoc, exists_and_left, exists_eq_left]
  cases (s.shader s.stage).signature? name with
  | some existing =>
    by_cases heq : existing = signature <;>
      simp [heq, returns_pure, returns_throw]
  | none =>
    simp [returns_modifyShader, EmitState.addScript]

end EmitM

end ShaderGraph
