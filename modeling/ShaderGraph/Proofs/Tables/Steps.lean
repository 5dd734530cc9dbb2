import ShaderGraph.Proofs.Emission.Evaluation
import ShaderGraph.Proofs.Scope.Writing
import ShaderGraph.Proofs.Tables.Registered

/-!
# Steps that register

Every step of an emitter keeps the tables and the declarations of the stages in agreement. The names
of textures, which become part of the names of samplers and of other uniforms, are words throughout.
-/

namespace ShaderGraph

open EmitM Emitter

theorem ValueType.ne_void_of_isNumeric {type : ValueType} (h : type.isNumeric) : type ≠ .void := by
  rintro rfl
  cases h

/-- A texture is called by a word. -/
def Variable.IsNamed (v : Variable) : Prop :=
  v.type.isTexture → IsWord v.name

theorem Variable.isNamed_of_isNumeric {v : Variable} (h : v.type.isNumeric) : v.IsNamed := by
  intro htexture
  obtain ⟨name, type⟩ := v
  cases type <;> first | cases h; done | cases htexture

theorem Variable.isNamed_of_isWord {v : Variable} (h : IsWord v.name) : v.IsNamed :=
  fun _ ↦ h

/-! ## Stages -/

namespace StageShader

/-- What is bound in a stage and is a texture is called by a word. -/
structure Named (s : StageShader) : Prop where
  bindings : ∀ b ∈ s.bindings, b.2.IsNamed
  outer : ∀ b ∈ s.outer, b.2.IsNamed
  attributes : ∀ a ∈ s.attributes, a.2.IsNamed

variable {s : StageShader} {pin : PinId} {v : Variable} {type : ValueType}

theorem Named.binding (hs : s.Named) (h : s.binding? pin = some v) : v.IsNamed := by
  rw [StageShader.binding?, Option.or_eq_some_iff] at h
  obtain h | ⟨-, h⟩ := h
  · obtain ⟨b, hb, rfl⟩ := mem_of_lookup h
    exact hs.bindings b hb
  · obtain ⟨b, hb, rfl⟩ := mem_of_lookup h
    exact hs.outer b hb

theorem named_retypeFirst {bindings : List Binding} (h : ∀ b ∈ bindings, b.2.IsNamed)
    (htype : type.isNumeric) : ∀ b ∈ retypeFirst pin type bindings, b.2.IsNamed := by
  induction bindings with
  | nil => simp [retypeFirst]
  | cons b bs ih =>
    unfold retypeFirst
    split
    · rintro c hc
      rcases List.mem_cons.mp hc with rfl | hc
      · exact Variable.isNamed_of_isNumeric htype
      · exact h c (List.mem_cons_of_mem b hc)
    · rintro c hc
      rcases List.mem_cons.mp hc with rfl | hc
      · exact h c List.mem_cons_self
      · exact ih (fun c hc ↦ h c (List.mem_cons_of_mem b hc)) c hc

/-- A change of a stage that declares nothing and binds textures only under words. -/
structure KeepsOrder (f : StageShader → StageShader) : Prop where
  declarations : ∀ s : StageShader, s.SameDeclarations (f s)
  named : ∀ s : StageShader, s.Named → (f s).Named

namespace KeepsOrder

variable {f g : StageShader → StageShader}

theorem comp (hg : KeepsOrder g) (hf : KeepsOrder f) : KeepsOrder fun s ↦ g (f s) where
  declarations s :=
    have h := hf.declarations s
    have h' := hg.declarations (f s)
    ⟨h'.declared.trans h.declared, h'.uniforms.trans h.uniforms, h'.samplers.trans h.samplers⟩
  named s hs := hg.named _ (hf.named s hs)

theorem bind (hv : v.IsNamed) : KeepsOrder fun s ↦ s.bind pin v :=
  ⟨fun _ ↦ ⟨rfl, rfl, rfl⟩, fun _ hs ↦
    ⟨by simpa [StageShader.bind] using ⟨hv, fun _ _ ↦ hs.bindings _⟩, hs.outer, hs.attributes⟩⟩

theorem bindOuter (hv : v.IsNamed) : KeepsOrder fun s ↦ s.bindOuter pin v where
  declarations _ := ⟨rfl, rfl, rfl⟩
  named s hs := by
    refine ⟨hs.bindings, fun b hb ↦ ?_, hs.attributes⟩
    rcases List.mem_append.mp hb with hb | hb
    · exact hs.outer b hb
    · obtain rfl := List.mem_singleton.mp hb
      exact hv

theorem retype (htype : type.isNumeric) : KeepsOrder fun s ↦ s.retype pin type :=
  ⟨fun _ ↦ ⟨rfl, rfl, rfl⟩, fun _ hs ↦
    ⟨named_retypeFirst hs.bindings htype, hs.outer, hs.attributes⟩⟩

theorem modifyBody (f : CodeBuffer → CodeBuffer) : KeepsOrder fun s ↦ s.modifyBody f where
  declarations s := by
    unfold StageShader.modifyBody
    split <;> exact ⟨rfl, rfl, rfl⟩
  named s hs := by
    unfold StageShader.modifyBody
    split <;> exact ⟨hs.bindings, hs.outer, hs.attributes⟩

theorem beginCapture : KeepsOrder fun s ↦ s.beginCapture.openScope :=
  ⟨fun _ ↦ ⟨rfl, rfl, rfl⟩, fun _ hs ↦ ⟨hs.bindings, hs.outer, hs.attributes⟩⟩

theorem endCapture : KeepsOrder fun s ↦ s.closeScope.endCapture.2 := by
  have hclose : KeepsOrder StageShader.closeScope := by
    constructor
    · intro s
      unfold StageShader.closeScope
      split <;> exact ⟨rfl, rfl, rfl⟩
    · intro s hs
      unfold StageShader.closeScope
      split
      · exact hs
      · exact ⟨fun b hb ↦ hs.bindings b (List.mem_of_mem_drop hb), hs.outer, hs.attributes⟩
  have hend : KeepsOrder fun s : StageShader ↦ s.endCapture.2 := by
    constructor
    · intro s
      unfold StageShader.endCapture
      split <;> exact ⟨rfl, rfl, rfl⟩
    · intro s hs
      unfold StageShader.endCapture
      split <;> exact ⟨hs.bindings, hs.outer, hs.attributes⟩
  exact hend.comp hclose

theorem modifyBlock (block : Block) (hblock : block ≠ .uniforms ∧ block ≠ .samplers)
    (f : CodeBuffer → CodeBuffer) : KeepsOrder fun s ↦ s.modifyBlock block f where
  declarations s := by
    cases block
    · exact absurd rfl hblock.1
    · exact absurd rfl hblock.2
    all_goals exact ⟨rfl, rfl, rfl⟩
  named s hs := by cases block <;> exact ⟨hs.bindings, hs.outer, hs.attributes⟩

theorem addAttribute {name : String} (hv : v.IsNamed) :
    KeepsOrder fun s ↦ s.addAttribute name v :=
  ⟨fun _ ↦ ⟨rfl, rfl, rfl⟩, fun _ hs ↦ ⟨hs.bindings, hs.outer, by
    simpa [StageShader.addAttribute] using ⟨hv, fun _ _ ↦ hs.attributes _⟩⟩⟩

theorem defineScript (name signature : String) :
    KeepsOrder fun s ↦ s.defineScript name signature :=
  ⟨fun _ ↦ ⟨rfl, rfl, rfl⟩, fun _ hs ↦ ⟨hs.bindings, hs.outer, hs.attributes⟩⟩

end KeepsOrder

end StageShader

/-! ## States -/

namespace EmitState

/-- The tables agree with the declarations, and textures are called by words. -/
structure Orderly (d : Dialect) (s : EmitState) : Prop where
  registered : s.Registered d
  named : ∀ stage, (s.shader stage).Named

variable {d : Dialect} {s t : EmitState}

theorem orderly_empty (d : Dialect) : ({} : EmitState).Orderly d :=
  ⟨registered_empty d, fun stage ↦ by
    cases stage <;> exact ⟨by simp [shader], by simp [shader], by simp [shader]⟩⟩

/-- Counters, requirements and the current stage have no part in the tables. -/
theorem Orderly.of_eq (hs : s.Orderly d) (huniforms : t.uniforms = s.uniforms)
    (hsamplers : t.samplers = s.samplers) (hshaders : ∀ stage, t.shader stage = s.shader stage) :
    t.Orderly d where
  registered := hs.registered.of_sameDeclarations huniforms hsamplers fun stage ↦ by
    rw [hshaders]
    exact ⟨rfl, rfl, rfl⟩
  named stage := by
    rw [hshaders]
    exact hs.named stage

theorem Orderly.modifyShader (hs : s.Orderly d) (stage : ShaderStage)
    {f : StageShader → StageShader} (hf : StageShader.KeepsOrder f) :
    (s.modifyShader stage f).Orderly d where
  registered := by
    refine hs.registered.of_sameDeclarations (uniforms_modifyShader s stage f)
      (samplers_modifyShader s stage f) fun other ↦ ?_
    by_cases hother : other = stage
    · subst hother
      simpa using hf.declarations (s.shader other)
    · rw [shader_modifyShader_of_ne s f hother]
      exact ⟨rfl, rfl, rfl⟩
  named other := by
    by_cases hother : other = stage
    · subst hother
      simpa using hf.named _ (hs.named other)
    · rw [shader_modifyShader_of_ne s f hother]
      exact hs.named other

theorem Orderly.bindPin (hs : s.Orderly d) (pin : PinId) {v : Variable} (hv : v.IsNamed) :
    (s.bindPin pin v).Orderly d :=
  hs.modifyShader s.stage (.bind hv)

theorem Orderly.setNextVariable (hs : s.Orderly d) (k : Nat) :
    ({ s with nextVariable := k } : EmitState).Orderly d :=
  hs.of_eq rfl rfl fun stage ↦ by cases stage <;> rfl

theorem Orderly.enter (hs : s.Orderly d) (stage : ShaderStage) :
    ({ s with stage } : EmitState).Orderly d :=
  hs.of_eq rfl rfl fun stage ↦ by cases stage <;> rfl

theorem Orderly.allocate (hs : s.Orderly d) (pin : PinId) (type : ValueType) :
    (s.allocate pin type).Orderly d :=
  (hs.setNextVariable (s.nextVariable + 1)).bindPin pin
    (v := ⟨temporary s.nextVariable, type⟩) fun _ ↦ isWord_temporary s.nextVariable

theorem Orderly.modifyBody (hs : s.Orderly d) (f : CodeBuffer → CodeBuffer) :
    (s.modifyBody f).Orderly d :=
  hs.modifyShader s.stage (.modifyBody f)

theorem Orderly.retype (hs : s.Orderly d) (pin : PinId) {type : ValueType}
    (htype : type.isNumeric) : (s.retype pin type).Orderly d :=
  hs.modifyShader s.stage (.retype htype)

theorem Orderly.beginCapture (hs : s.Orderly d) : s.beginCapture.Orderly d :=
  hs.modifyShader s.stage .beginCapture

theorem Orderly.endCapture (hs : s.Orderly d) (stage : ShaderStage) :
    (s.endCapture stage).Orderly d :=
  (hs.enter stage).modifyShader stage .endCapture

theorem SameCode.named (h : s.SameCode t) (hs : ∀ stage, (s.shader stage).Named)
    (stage : ShaderStage) : (t.shader stage).Named where
  bindings b hb := (hs stage).bindings b ((h.shaders stage).bindings ▸ hb)
  outer b hb := (hs stage).outer b ((h.shaders stage).outer ▸ hb)
  attributes a ha := (hs stage).attributes a ((h.shaders stage).attributes ▸ ha)

end EmitState

section Declarations

variable {env : EmitEnv} {n : Node} {s t : EmitState} {name : String} {a : Unit}

theorem declareUniform_orderly {type : ValueType} {length? : Option UInt32}
    (hs : s.Orderly env.dialect) (hname : env.dialect.IsUniformName name) (htype : type ≠ .void)
    (h : Returns env (declareUniform n name type length?) s a t) : t.Orderly env.dialect where
  registered := declareUniform_registered hs.registered hname htype h
  named := by
    obtain ⟨entry, -, rfl⟩ := returns_declareUniform.mp h
    exact ((EmitState.SameCode.addUniform s name entry).trans (.declareOnce _ _ _ _)).named hs.named

theorem declareSampler_orderly {texture : Variable} {state : SamplerState}
    {templates : SampleTemplates} {samplerType : String} (hs : s.Orderly env.dialect)
    (htexture : IsWord texture.name) (hbias : state.mipBias.isNaN = false)
    (htemplates : env.dialect.sampleTemplates? texture.type = some templates)
    (htype : templates.IsSamplerType samplerType)
    (h : Returns env (declareSampler texture state samplerType) s name t) :
    t.Orderly env.dialect where
  registered := declareSampler_registered hs.registered htexture hbias htemplates htype h
  named := by
    obtain ⟨rfl, rfl⟩ := returns_declareSampler.mp h
    refine (EmitState.SameCode.declareOnce _ _ _ _).named fun stage ↦ ?_
    rw [EmitState.shader_addSampler]
    exact hs.named stage

theorem vertexAttribute_orderly {usage : AttributeUsage} {type : ValueType} {index : UInt32}
    {v : Variable} (hs : s.Orderly env.dialect) (hvector : type.isVector)
    (h : Returns env (vertexAttribute name usage type index) s v t) :
    t.Orderly env.dialect ∧ v.IsNamed := by
  obtain ⟨hv, rfl⟩ | ⟨-, rfl, rfl⟩ := returns_vertexAttribute.mp h
  · obtain ⟨a, ha, rfl⟩ := mem_of_lookup hv
    exact ⟨hs, (hs.named _).attributes a ha⟩
  · have hv := Variable.isNamed_of_isNumeric (v := ⟨env.dialect.inputReference
      (env.dialect.vertexAttribute usage index).1, type⟩) (ValueType.isNumeric_of_isVector hvector)
    exact ⟨hs.modifyShader s.stage ((StageShader.KeepsOrder.addAttribute hv).comp
      (.modifyBlock _ (by decide) _)), hv⟩

theorem defineScript_orderly {signature body : String} (hs : s.Orderly env.dialect)
    (h : Returns env (defineScript n name signature body) s a t) : t.Orderly env.dialect := by
  obtain ⟨-, rfl⟩ | ⟨-, rfl⟩ := returns_defineScript.mp h
  · exact hs
  · exact hs.modifyShader s.stage ((StageShader.KeepsOrder.defineScript name signature).comp
      (.modifyBlock _ (by decide) _))

theorem declareTarget_orderly {index : Nat} {declaration? : Option String}
    (hs : s.Orderly env.dialect) (hsome : (env.dialect.fragmentOutput index).1.isSome)
    (h : Returns env (declareOnce .outputs (env.dialect.fragmentOutput index).2 declaration?) s a t) :
    t.Orderly env.dialect where
  registered := by
    obtain rfl := returns_declareOnce.mp h
    exact hs.registered.declareTarget (b := env.settings.backend) ⟨index, hsome, rfl⟩ _
  named := by
    obtain rfl := returns_declareOnce.mp h
    exact (EmitState.SameCode.declareOnce _ _ _ _).named hs.named

end Declarations

/-! ## Inputs -/

/-- The demand keeps the tables in agreement with the declarations and returns textures by words. -/
def Demand.IsOrderly (env : EmitEnv) (demand : Demand) : Prop :=
  ∀ id pin s v t, Returns env (demand id pin) s v t → s.Orderly env.dialect →
    t.Orderly env.dialect ∧ v.IsNamed

section Inputs

variable {env : EmitEnv} {demand : Demand} {n : Node} {s t : EmitState} {pin : String}

theorem inputValue?_orderly (hdemand : demand.IsOrderly env) {value? : Option Variable}
    (h : Returns env (inputValue? demand n pin) s value? t) (hs : s.Orderly env.dialect) :
    t.Orderly env.dialect ∧ ∀ v ∈ value?, v.IsNamed := by
  obtain ⟨p, -, ⟨c, v, -, rfl, hv⟩ | ⟨-, rfl, ⟨l, -, rfl⟩ | ⟨-, -, rfl⟩⟩⟩ := inputValue?_cases h
  · obtain ⟨ht, hnamed⟩ := hdemand _ _ _ _ _ hv hs
    exact ⟨ht, by simpa using hnamed⟩
  · refine ⟨hs, fun v hv ↦ ?_⟩
    obtain rfl := Option.mem_some.mp hv
    exact Variable.isNamed_of_isNumeric (by cases l <;> rfl)
  · exact ⟨hs, by simp⟩

theorem requireInput_orderly (hdemand : demand.IsOrderly env) {v : Variable}
    (h : Returns env (requireInput demand n pin) s v t) (hs : s.Orderly env.dialect) :
    t.Orderly env.dialect ∧ v.IsNamed := by
  obtain ⟨ht, hv⟩ := inputValue?_orderly hdemand (returns_requireInput.mp h) hs
  exact ⟨ht, hv _ rfl⟩

theorem captures_orderly (hdemand : demand.IsOrderly env) {pins : List String}
    {branches : List Branch} (h : Returns env (pins.mapM (captureBranch demand n)) s branches t)
    (hs : s.Orderly env.dialect) : t.Orderly env.dialect := by
  induction pins generalizing s branches with
  | nil =>
    obtain ⟨-, rfl⟩ := returns_mapM_nil.mp h
    exact hs
  | cons pin pins ih =>
    obtain ⟨branch, s', branches, hbranch, hrest, -⟩ := returns_mapM_cons.mp h
    simp only [captureBranch, returns_bind, returns_pure] at hbranch
    obtain ⟨⟨v, text⟩, t', hcapture, -, rfl⟩ := hbranch
    obtain ⟨u, hinput, -, rfl⟩ := returns_capture.mp hcapture
    exact ih hrest ((requireInput_orderly hdemand hinput hs.beginCapture).1.endCapture s.stage)

theorem bindPins_orderly (bindings : List Binding) (hs : s.Orderly env.dialect)
    (h : ∀ b ∈ bindings, b.2.IsNamed) :
    (bindings.foldl (fun s b ↦ s.bindPin b.1 b.2) s).Orderly env.dialect := by
  induction bindings generalizing s with
  | nil => exact hs
  | cons b bs ih =>
    exact ih (hs.bindPin b.1 (h b List.mem_cons_self)) fun c hc ↦ h c (List.mem_cons_of_mem b hc)

theorem loopBody_orderly (hdemand : demand.IsOrderly env) {loop : Loop} {names : List String}
    {value : Variable} {condition? : Option String}
    (h : Returns env (loopBody demand n loop names) s (value, condition?) t)
    (hs : s.Orderly env.dialect) : t.Orderly env.dialect := by
  obtain ⟨bindings, u, hbindings, hcondition, hvalue⟩ := loopBody_cases h
  have hcounters := bindPins_orderly bindings hs fun b hb ↦ by
    obtain ⟨-, name, -, hname⟩ := hbindings b hb
    rw [hname]
    exact Variable.isNamed_of_isNumeric rfl
  refine (inputValue?_orderly hdemand hvalue ?_).1
  obtain ⟨-, -, -, rfl⟩ | ⟨value?, hinput, -⟩ := loopCondition?_cases hcondition
  · exact hcounters
  · exact (inputValue?_orderly hdemand hinput hcounters).1

end Inputs

/-! ## Steps -/

section Steps

variable {env : EmitEnv} {demand : Demand} {n : Node} {H K : Held} {s t : EmitState}

def NodeKind.samplerState? : NodeKind → Option SamplerState
  | .sampler state => some state
  | _ => none

/-- What the author of a graph has chosen for a node agrees with the names that are reserved and with
the comparison of sampler states. -/
structure Node.IsRegistrable (d : Dialect) (n : Node) : Prop where
  words : ∀ name ∈ n.kind.parameterNames, IsWord name
  unreserved : ∀ name ∈ n.kind.parameterNames, ¬ d.reservedPrefix.toList <+: name.toList
  biases : ∀ state ∈ n.kind.samplerState?, state.mipBias.isNaN = false

instance (d : Dialect) (n : Node) : Decidable (n.IsRegistrable d) :=
  have : Decidable (∀ name ∈ n.kind.parameterNames, IsWord name) :=
    List.decidableBAll IsWord n.kind.parameterNames
  have : Decidable (∀ name ∈ n.kind.parameterNames, ¬ d.reservedPrefix.toList <+: name.toList) :=
    List.decidableBAll (fun name ↦ ¬ d.reservedPrefix.toList <+: name.toList) n.kind.parameterNames
  have : Decidable (∀ state ∈ n.kind.samplerState?, state.mipBias.isNaN = false) :=
    Option.decidableForallMem n.kind.samplerState?
  decidable_of_iff ((∀ name ∈ n.kind.parameterNames, IsWord name) ∧
    (∀ name ∈ n.kind.parameterNames, ¬ d.reservedPrefix.toList <+: name.toList) ∧
    ∀ state ∈ n.kind.samplerState?, state.mipBias.isNaN = false)
    ⟨fun h ↦ ⟨h.1, h.2.1, h.2.2⟩, fun h ↦ ⟨h.1, h.2, h.3⟩⟩

theorem Step.orderly (hdemand : demand.IsOrderly env) (hn : n.IsRegistrable env.dialect)
    (h : Step env demand n H s K t) (hs : s.Orderly env.dialect) (hH : ∀ v ∈ H.values, v.IsNamed) :
    t.Orderly env.dialect ∧ ∀ v ∈ K.values, v.IsNamed := by
  cases h with
  | guard => exact ⟨hs, hH⟩
  | read h =>
    obtain ⟨ht, hvalue⟩ := inputValue?_orderly hdemand h hs
    exact ⟨ht, fun v hv ↦ (List.mem_append.mp hv).elim (fun hv ↦ hvalue v (by simpa using hv)) (hH v)⟩
  | hoist _ h => exact ⟨(hdemand _ _ _ _ _ h hs).1, hH⟩
  | convert => exact ⟨hs, hH⟩
  | define => exact ⟨(hs.allocate _ _).modifyBody _, hH⟩
  | constant => exact ⟨(hs.allocate _ _).modifyBody _, hH⟩
  | declare => exact ⟨(hs.allocate _ _).modifyBody _, hH⟩
  | forward _ hv =>
    refine ⟨hs.bindPin _ ?_, hH⟩
    obtain hv | ⟨hvector, -⟩ := hv
    · exact hH _ hv
    · exact Variable.isNamed_of_isNumeric (ValueType.isNumeric_of_isVector hvector)
  | output => exact ⟨hs.modifyBody _, hH⟩
  | statement => exact ⟨hs.modifyBody _, hH⟩
  | @uniform _ name type _ hname h =>
    obtain ⟨huniform, htype, hnamed⟩ : env.dialect.IsUniformName name ∧ type ≠ .void ∧
        (⟨name, type⟩ : Variable).IsNamed := by
      obtain ⟨hparameter, htype⟩ | ⟨htype, rfl⟩ | ⟨htype, texture, hv, htexture, rfl⟩ := hname
      · exact ⟨.inl ⟨hn.words name hparameter, hn.unreserved name hparameter⟩, htype,
          Variable.isNamed_of_isWord (hn.words name hparameter)⟩
      · exact ⟨env.settings.backend.isUniformName_targetSize, ValueType.ne_void_of_isNumeric htype,
          Variable.isNamed_of_isNumeric htype⟩
      · exact ⟨env.settings.backend.isUniformName_textureSize (hH texture hv htexture),
          ValueType.ne_void_of_isNumeric htype, Variable.isNamed_of_isNumeric htype⟩
    exact ⟨declareUniform_orderly hs huniform htype h, by simpa using ⟨hnamed, hH⟩⟩
  | sampler hkind hv htexture htemplates htype h =>
    exact ⟨declareSampler_orderly hs (hH _ hv htexture) (hn.biases _ (by rw [hkind]; rfl)) htemplates htype h, hH⟩
  | vertexAttribute _ hvector h =>
    obtain ⟨ht, hv⟩ := vertexAttribute_orderly hs hvector h
    exact ⟨ht, by simpa using ⟨hv, hH⟩⟩
  | script _ h => exact ⟨defineScript_orderly hs h, hH⟩
  | target _ hdecl hsome h =>
    subst hdecl
    exact ⟨declareTarget_orderly hs hsome h, hH⟩
  | require => exact ⟨hs.of_eq rfl rfl fun stage ↦ by cases stage <;> rfl, hH⟩
  | provide => exact ⟨hs, hH⟩
  | renderState => exact ⟨hs.of_eq rfl rfl fun stage ↦ by cases stage <;> rfl, hH⟩
  | branches pins arms h =>
    exact ⟨((captures_orderly hdemand h hs).allocate _ _).modifyBody _, hH⟩
  | loop _ _ _ _ hstart h _ hnumeric =>
    subst hstart
    have hbody := (loopBody_orderly hdemand h
      ((hs.allocate _ _).setNextVariable _).beginCapture).endCapture s.stage
    exact ⟨(hbody.retype _ hnumeric).modifyBody _, hH⟩
  | @cross t v p _ _ h hvector _ =>
    have ht := (requireInput_orderly hdemand h (hs.enter .vertex)).1
    have hpixel : ({ t with stage := .pixel, interpolators := t.interpolators + 1 } :
        EmitState).Orderly env.dialect := ht.of_eq rfl rfl fun stage ↦ by cases stage <;> rfl
    have hwritten := hpixel.modifyShader .vertex ((StageShader.KeepsOrder.modifyBody fun b ↦
      b.line s!"{env.dialect.outputReference (interpolatorName t.interpolators)} = {v.name};").comp
        (.modifyBlock .outputs (by decide) fun b ↦
          b.line (env.dialect.interpolatorDeclarations v.type (interpolatorName t.interpolators)
            t.interpolators).1))
    have hinput := hwritten.modifyShader .pixel (.modifyBlock .inputs (by decide) fun b ↦
      b.line (env.dialect.interpolatorDeclarations v.type (interpolatorName t.interpolators)
        t.interpolators).2)
    have hv : (⟨env.dialect.inputReference (interpolatorName t.interpolators), v.type⟩ :
        Variable).IsNamed := Variable.isNamed_of_isNumeric (ValueType.isNumeric_of_isVector hvector)
    exact ⟨hinput.modifyShader .pixel (.bindOuter hv), hH⟩

end Steps

end ShaderGraph
