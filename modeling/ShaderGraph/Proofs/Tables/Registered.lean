import ShaderGraph.Proofs.Scope.Names
import ShaderGraph.Proofs.Source.Lines
import ShaderGraph.Proofs.Tables.Entries

/-!
# Registers of declarations

What the tables of an emission hold is what its stages have declared: a name of a table is declared in
the stages of its entry, in one line each, and nothing else is declared but render targets. The names
of uniforms, samplers and targets are kept apart by their first characters.
-/

namespace ShaderGraph

open EmitM

/-! ## Names -/

namespace Dialect

/-- Names of uniforms: words without the reserved prefix, and those of the uniforms that the renderer
provides. -/
def IsUniformName (d : Dialect) (name : String) : Prop :=
  (IsWord name ∧ ¬ d.reservedPrefix.toList <+: name.toList) ∨
    ∃ rest, IsWord rest ∧ name = d.reservedPrefix ++ ("t" ++ rest)

def IsSamplerName (d : Dialect) (name : String) : Prop :=
  ∃ rest, IsWord rest ∧ name = d.reservedPrefix ++ ("s" ++ rest)

/-- Names under which render targets are declared. -/
def IsTargetName (d : Dialect) (name : String) : Prop :=
  ∃ index, (d.fragmentOutput index).1.isSome ∧ name = (d.fragmentOutput index).2

end Dialect

namespace Backend

variable (b : Backend) {name rest : String}

theorem isWord_reservedPrefix : IsWord b.dialect.reservedPrefix := by
  cases b <;> decide

theorem isUniformName_targetSize :
    b.dialect.IsUniformName s!"{b.dialect.reservedPrefix}targetSize" :=
  .inr ⟨"argetSize", by decide, rfl⟩

theorem isUniformName_textureSize {texture : String} (h : IsWord texture) :
    b.dialect.IsUniformName s!"{b.dialect.reservedPrefix}textureSize_{texture}" := by
  refine .inr ⟨"extureSize_" ++ texture, isWord_append (by decide) h, ?_⟩
  have htext : s!"{b.dialect.reservedPrefix}textureSize_{texture}" =
      b.dialect.reservedPrefix ++ "textureSize_" ++ texture := rfl
  rw [htext, String.append_assoc, ← @String.append_assoc "t"]
  rfl

theorem isSamplerName_freshSamplerName {samplers : OrderedMap String SamplerDeclaration}
    {texture : String} (h : IsWord texture) :
    b.dialect.IsSamplerName
      (freshSamplerName samplers s!"{b.dialect.reservedPrefix}sampler_{texture}") := by
  obtain ⟨rest, hrest, hname⟩ :=
    exists_freshSamplerName samplers s!"{b.dialect.reservedPrefix}sampler_{texture}"
  refine ⟨"ampler_" ++ texture ++ rest, isWord_append (isWord_append (by decide) h) hrest, ?_⟩
  have htext : s!"{b.dialect.reservedPrefix}sampler_{texture}" =
      b.dialect.reservedPrefix ++ "sampler_" ++ texture := rfl
  rw [hname, htext]
  simp only [String.append_assoc]
  rw [← @String.append_assoc "s"]
  rfl

theorem isLine_of_isUniformName (h : b.dialect.IsUniformName name) : IsLine name := by
  obtain ⟨hword, -⟩ | ⟨rest, hrest, rfl⟩ := h
  · exact hword.isLine
  · exact (isWord_append b.isWord_reservedPrefix (isWord_append (by decide) hrest)).isLine

theorem isLine_of_isSamplerName (h : b.dialect.IsSamplerName name) : IsLine name := by
  obtain ⟨rest, hrest, rfl⟩ := h
  exact (isWord_append b.isWord_reservedPrefix (isWord_append (by decide) hrest)).isLine

theorem not_isSamplerName (h : b.dialect.IsUniformName name) : ¬ b.dialect.IsSamplerName name := by
  rintro ⟨rest', -, rfl⟩
  obtain ⟨-, hprefix⟩ | ⟨rest, -, heq⟩ := h
  · exact hprefix (by simp)
  · have hlists := congrArg String.toList heq
    simp at hlists

theorem not_isTargetName_of_isSamplerName (h : b.dialect.IsSamplerName name) :
    ¬ b.dialect.IsTargetName name := by
  obtain ⟨rest, -, rfl⟩ := h
  rintro ⟨index, hsome, heq⟩
  have hlists := congrArg String.toList heq
  cases b
  · simp [Backend.dialect, Dialect.glsl, Dialect.fragmentOutput] at hlists
  · cases hsome
  · simp [Backend.dialect, Dialect.hlsl, Dialect.fragmentOutput] at hlists

theorem not_isTargetName_of_isUniformName (h : b.dialect.IsUniformName name) :
    ¬ b.dialect.IsTargetName name := by
  rintro ⟨index, hsome, rfl⟩
  obtain ⟨hword, hprefix⟩ | ⟨rest, -, heq⟩ := h
  · cases b
    · exact hprefix (by simp [Backend.dialect, Dialect.glsl, Dialect.fragmentOutput])
    · cases hsome
    · have hpoint := hword '.' (by simp [Backend.dialect, Dialect.hlsl, Dialect.fragmentOutput])
      cases hpoint
  · have hlists := congrArg String.toList heq
    cases b
    · simp [Backend.dialect, Dialect.glsl, Dialect.fragmentOutput] at hlists
    · cases hsome
    · simp [Backend.dialect, Dialect.hlsl, Dialect.fragmentOutput] at hlists

end Backend

/-! ## Registers -/

/-- The line that declares a uniform in a stage, if the stage uses it and it is declared at all. -/
def Dialect.stageDeclaration? (d : Dialect) (stage : ShaderStage) (u : UniformDeclaration) :
    Option String :=
  if stage ∈ u.stages then d.uniformDeclaration? u.type u.name u.length? else none

/-- The line declares a sampler of some texture type under the name. -/
def Dialect.IsSamplerLine (d : Dialect) (name line : String) : Prop :=
  ∃ type templates samplerType, d.sampleTemplates? type = some templates ∧
    templates.IsSamplerType samplerType ∧ line = d.samplerDeclaration samplerType name

/-- Names of the samplers that a stage uses. -/
def stageSamplers (stage : ShaderStage) (samplers : List SamplerDeclaration) : List String :=
  (samplers.filter fun e ↦ stage ∈ e.stages).map SamplerDeclaration.name

/-- The entries of the tables are what the stages have declared. -/
structure EmitState.Registered (d : Dialect) (s : EmitState) : Prop where
  uniformsDistinct : s.uniforms.Distinct
  uniforms : ∀ name u, s.uniforms.get? name = some u →
    u.name = name ∧ d.IsUniformName name ∧ IsStageList u.stages ∧ u.type ≠ .void
  samplersDistinct : s.samplers.Distinct
  samplers : ∀ name e, s.samplers.get? name = some e →
    e.name = name ∧ d.IsSamplerName name ∧ IsStageList e.stages ∧ e.state.mipBias.isNaN = false
  samplersDiffer : s.samplers.values.Pairwise fun e e' ↦
    ¬ (e.texture = e'.texture ∧ e.state.agrees e'.state)
  declaredUniform : ∀ stage name u, s.uniforms.get? name = some u →
    ((s.shader stage).isDeclared name ↔ stage ∈ u.stages)
  declaredSampler : ∀ stage name e, s.samplers.get? name = some e →
    ((s.shader stage).isDeclared name ↔ stage ∈ e.stages)
  ofDeclared : ∀ stage name, (s.shader stage).isDeclared name →
    (∃ u, s.uniforms.get? name = some u) ∨ (∃ e, s.samplers.get? name = some e) ∨
      d.IsTargetName name
  uniformBlock : ∀ stage, ∃ lines, (s.shader stage).block .uniforms = .ofLines lines ∧
    lines.Perm (s.uniforms.values.filterMap (d.stageDeclaration? stage))
  samplerBlock : ∀ stage, ∃ names lines, (s.shader stage).block .samplers = .ofLines lines ∧
    names.Perm (stageSamplers stage s.samplers.values) ∧
    List.Forall₂ d.IsSamplerLine names lines

/-- Nothing that has to do with declared names and with their blocks differs. -/
structure StageShader.SameDeclarations (s t : StageShader) : Prop where
  declared : t.declared = s.declared
  uniforms : t.uniforms = s.uniforms
  samplers : t.samplers = s.samplers

theorem EmitState.Registered.of_sameDeclarations {d : Dialect} {s t : EmitState}
    (hs : s.Registered d) (huniforms : t.uniforms = s.uniforms)
    (hsamplers : t.samplers = s.samplers)
    (hshaders : ∀ stage, (s.shader stage).SameDeclarations (t.shader stage)) : t.Registered d := by
  have hdeclared (stage : ShaderStage) (name : String) :
      (t.shader stage).isDeclared name = (s.shader stage).isDeclared name := by
    rw [StageShader.isDeclared, (hshaders stage).declared, StageShader.isDeclared]
  have hblock (stage : ShaderStage) : (t.shader stage).block .uniforms =
      (s.shader stage).block .uniforms := (hshaders stage).uniforms
  have hblock' (stage : ShaderStage) : (t.shader stage).block .samplers =
      (s.shader stage).block .samplers := (hshaders stage).samplers
  constructor <;> simp only [huniforms, hsamplers, hdeclared, hblock, hblock']
  · exact hs.uniformsDistinct
  · exact hs.uniforms
  · exact hs.samplersDistinct
  · exact hs.samplers
  · exact hs.samplersDiffer
  · exact hs.declaredUniform
  · exact hs.declaredSampler
  · exact hs.ofDeclared
  · exact hs.uniformBlock
  · exact hs.samplerBlock

theorem EmitState.registered_empty (d : Dialect) : ({} : EmitState).Registered d where
  uniformsDistinct := OrderedMap.distinct_empty
  uniforms _ _ h := by cases h
  samplersDistinct := OrderedMap.distinct_empty
  samplers _ _ h := by cases h
  samplersDiffer := .nil
  declaredUniform _ _ _ h := by cases h
  declaredSampler _ _ _ h := by cases h
  ofDeclared stage name h := by cases stage <;> cases h
  uniformBlock stage := ⟨[], by cases stage <;> rfl, .nil⟩
  samplerBlock stage := ⟨[], [], by cases stage <;> rfl, .nil, .nil⟩

section Entering

variable {b : Backend} {s : EmitState} {name : String}

/-! ### Uniforms -/

/-- A uniform is entered and declared in a stage in which its name is not yet declared. -/
theorem EmitState.Registered.enterUniform (hs : s.Registered b.dialect)
    (entry : UniformDeclaration) (hname : b.dialect.IsUniformName name) (hentry : entry.name = name)
    (htype : entry.type ≠ .void) (hstages : IsStageList entry.stages)
    (hnew : (s.shader s.stage).isDeclared name = false)
    (hdeclared : ∀ stage, stage ∈ entry.stages ↔
      stage = s.stage ∨ (s.shader stage).isDeclared name)
    (hlines : ∀ stage, ((s.uniforms.insert name entry).values.filterMap
      (b.dialect.stageDeclaration? stage)).Perm
        (s.uniforms.values.filterMap (b.dialect.stageDeclaration? stage) ++
          if stage = s.stage then
            (b.dialect.uniformDeclaration? entry.type name entry.length?).toList else [])) :
    ((s.addUniform name entry).declareOnce .uniforms name
      (b.dialect.uniformDeclaration? entry.type name entry.length?)).Registered b.dialect := by
  have huniforms (other : String) :
      (s.addUniform name entry).uniforms.get? other =
        if other = name then some entry else s.uniforms.get? other :=
    OrderedMap.get?_insert s.uniforms name other entry
  constructor <;> simp only [uniforms_declareOnce, samplers_declareOnce, isDeclared_declareOnce,
    block_declareOnce, shader_addUniform, stage_addUniform, samplers_addUniform, huniforms]
  case uniformsDistinct => exact hs.uniformsDistinct.insert name entry
  case samplersDistinct => exact hs.samplersDistinct
  case samplers => exact hs.samplers
  case samplersDiffer => exact hs.samplersDiffer
  case uniforms =>
    intro other u hu
    split at hu
    · next heq =>
      obtain rfl := Option.some.inj hu
      subst heq
      exact ⟨hentry, hname, hstages, htype⟩
    · exact hs.uniforms other u hu
  case declaredUniform =>
    intro stage other u hu
    split at hu
    · next heq =>
      obtain rfl := Option.some.inj hu
      subst heq
      simpa using (hdeclared stage).symm
    · next hne => simpa [hne] using hs.declaredUniform stage other u hu
  case declaredSampler =>
    intro stage other e he
    have hne : other ≠ name := by
      rintro rfl
      exact b.not_isSamplerName hname (hs.samplers other e he).2.1
    simpa [hne] using hs.declaredSampler stage other e he
  case ofDeclared =>
    intro stage other h
    by_cases heq : other = name
    · exact .inl ⟨entry, if_pos heq⟩
    · simpa [heq] using hs.ofDeclared stage other (by simpa [heq] using h)
  case uniformBlock =>
    intro stage
    obtain ⟨lines, hblock, hperm⟩ := hs.uniformBlock stage
    refine ⟨_, ?_, (hperm.append_right _).trans (hlines stage).symm⟩
    by_cases hstage : stage = s.stage
    · subst hstage
      rw [if_pos ⟨rfl, trivial, hnew⟩, hblock]
      cases b.dialect.uniformDeclaration? entry.type name entry.length? <;>
        simp [CodeBuffer.line_ofLines]
    · rw [if_neg fun h ↦ hstage h.1, if_neg hstage, List.append_nil]
      exact hblock
  case samplerBlock =>
    intro stage
    obtain ⟨names, lines, hblock, hperm, hall⟩ := hs.samplerBlock stage
    exact ⟨names, lines, by simpa using hblock, hperm, hall⟩

/-- A name of a uniform that is not in the table is declared in no stage. -/
theorem EmitState.Registered.isDeclared_of_get?_none (hs : s.Registered b.dialect)
    (hname : b.dialect.IsUniformName name) (hnone : s.uniforms.get? name = none)
    (stage : ShaderStage) : (s.shader stage).isDeclared name = false := by
  rw [Bool.eq_false_iff]
  intro hdeclared
  obtain ⟨u, hu⟩ | ⟨e, he⟩ | htarget := hs.ofDeclared stage name hdeclared
  · rw [hnone] at hu
    cases hu
  · exact b.not_isSamplerName hname (hs.samplers name e he).2.1
  · exact b.not_isTargetName_of_isUniformName hname htarget

theorem filterMap_cons_toList {α β : Type} (f : α → Option β) (a : α) (as : List α) :
    (a :: as).filterMap f = (f a).toList ++ as.filterMap f := by
  cases h : f a <;> simp [h]

theorem declareUniform_registered {env : EmitEnv} {n : Node} {s t : EmitState} {type : ValueType}
    {length? : Option UInt32} {a : Unit} (hs : s.Registered env.dialect)
    (hname : env.dialect.IsUniformName name) (htype : type ≠ .void)
    (h : Returns env (declareUniform n name type length?) s a t) : t.Registered env.dialect := by
  obtain ⟨entry, hentry, rfl⟩ := returns_declareUniform.mp h
  obtain ⟨hnone, rfl⟩ | ⟨u, hu, rfl, rfl, rfl⟩ := hentry
  · have hnew := hs.isDeclared_of_get?_none (b := env.settings.backend) hname hnone
    refine hs.enterUniform (b := env.settings.backend) _ hname rfl htype
      (isStageList_singleton s.stage) (hnew s.stage) (by simp [hnew]) fun stage ↦ ?_
    rw [OrderedMap.values_insert_of_get?_none hnone, List.filterMap_append,
      filterMap_cons_toList, List.filterMap_nil, List.append_nil]
    by_cases hstage : stage = s.stage
    · simp [Dialect.stageDeclaration?, hstage]
    · simp [Dialect.stageDeclaration?, hstage]
  · obtain ⟨hkey, -, hstages, -⟩ := hs.uniforms name u hu
    have hdeclared := fun stage ↦ hs.declaredUniform stage name u hu
    by_cases hused : s.stage ∈ u.stages
    · rw [insertStage_of_mem hused, EmitState.addUniform, OrderedMap.insert_of_get? hu,
        EmitState.declareOnce, if_pos ((hdeclared s.stage).mpr hused)]
      exact hs
    · refine hs.enterUniform (b := env.settings.backend)
        { u with stages := insertStage s.stage u.stages } hname hkey htype (hstages.insertStage s.stage)
        (Bool.eq_false_iff.mpr fun h ↦ hused ((hdeclared s.stage).mp h))
        (fun stage ↦ by rw [mem_insertStage, hdeclared]) fun stage ↦ ?_
      obtain ⟨us, vs, hvalues, hinsert⟩ := OrderedMap.exists_values_insert hu
      rw [hvalues, hinsert]
      simp only [List.filterMap_append, filterMap_cons_toList]
      by_cases hstage : stage = s.stage
      · subst hstage
        have hold : env.dialect.stageDeclaration? s.stage u = none := if_neg hused
        have hentry : env.dialect.stageDeclaration? s.stage
            { u with stages := insertStage s.stage u.stages } =
              env.dialect.uniformDeclaration? u.type name u.length? := by
          rw [Dialect.stageDeclaration?, if_pos (mem_insertStage.mpr (.inl rfl)), hkey]
        simp only [EmitEnv.dialect] at hold hentry
        rw [hold, hentry, if_pos rfl, Option.toList_none, List.nil_append, List.append_assoc]
        exact (List.perm_append_comm).append_left _
      · have hsame : env.dialect.stageDeclaration? stage
            { u with stages := insertStage s.stage u.stages } =
              env.dialect.stageDeclaration? stage u := by
          simp [Dialect.stageDeclaration?, mem_insertStage, hstage]
        simp only [EmitEnv.dialect] at hsame
        rw [hsame, if_neg hstage, List.append_nil]

/-! ### Samplers -/

theorem stageSamplers_append (stage : ShaderStage) (es es' : List SamplerDeclaration) :
    stageSamplers stage (es ++ es') = stageSamplers stage es ++ stageSamplers stage es' := by
  simp [stageSamplers]

theorem stageSamplers_cons (stage : ShaderStage) (e : SamplerDeclaration)
    (es : List SamplerDeclaration) :
    stageSamplers stage (e :: es) =
      (if stage ∈ e.stages then [e.name] else []) ++ stageSamplers stage es := by
  by_cases h : stage ∈ e.stages <;> simp [stageSamplers, h]

/-- A sampler is entered and declared in a stage in which its name is not yet declared. -/
theorem EmitState.Registered.enterSampler (hs : s.Registered b.dialect)
    (entry : SamplerDeclaration) {line : String} (hname : b.dialect.IsSamplerName entry.name)
    (hstages : IsStageList entry.stages) (hbias : entry.state.mipBias.isNaN = false)
    (hdiffer : (s.samplers.insert entry.name entry).values.Pairwise fun e e' ↦
      ¬ (e.texture = e'.texture ∧ e.state.agrees e'.state))
    (hnew : (s.shader s.stage).isDeclared entry.name = false)
    (hdeclared : ∀ stage, stage ∈ entry.stages ↔
      stage = s.stage ∨ (s.shader stage).isDeclared entry.name)
    (hline : b.dialect.IsSamplerLine entry.name line)
    (hnames : ∀ stage, (stageSamplers stage (s.samplers.insert entry.name entry).values).Perm
      (stageSamplers stage s.samplers.values ++ if stage = s.stage then [entry.name] else [])) :
    ((s.addSampler entry).declareOnce .samplers entry.name (some line)).Registered b.dialect := by
  have hsamplers (other : String) :
      (s.addSampler entry).samplers.get? other =
        if other = entry.name then some entry else s.samplers.get? other :=
    OrderedMap.get?_insert s.samplers entry.name other entry
  constructor <;> simp only [uniforms_declareOnce, samplers_declareOnce, isDeclared_declareOnce,
    block_declareOnce, shader_addSampler, stage_addSampler, uniforms_addSampler, hsamplers]
  case uniformsDistinct => exact hs.uniformsDistinct
  case uniforms => exact hs.uniforms
  case samplersDistinct => exact hs.samplersDistinct.insert entry.name entry
  case samplersDiffer => exact hdiffer
  case samplers =>
    intro other e he
    split at he
    · next heq =>
      obtain rfl := Option.some.inj he
      subst heq
      exact ⟨rfl, hname, hstages, hbias⟩
    · exact hs.samplers other e he
  case declaredUniform =>
    intro stage other u hu
    have hne : other ≠ entry.name := by
      rintro rfl
      exact b.not_isSamplerName (hs.uniforms entry.name u hu).2.1 hname
    simpa [hne] using hs.declaredUniform stage other u hu
  case declaredSampler =>
    intro stage other e he
    split at he
    · next heq =>
      obtain rfl := Option.some.inj he
      subst heq
      simpa using (hdeclared stage).symm
    · next hne => simpa [hne] using hs.declaredSampler stage other e he
  case ofDeclared =>
    intro stage other h
    by_cases heq : other = entry.name
    · exact .inr (.inl ⟨entry, if_pos heq⟩)
    · simpa [heq] using hs.ofDeclared stage other (by simpa [heq] using h)
  case uniformBlock =>
    intro stage
    obtain ⟨lines, hblock, hperm⟩ := hs.uniformBlock stage
    exact ⟨lines, by simpa using hblock, hperm⟩
  case samplerBlock =>
    intro stage
    obtain ⟨names, lines, hblock, hperm, hall⟩ := hs.samplerBlock stage
    by_cases hstage : stage = s.stage
    · subst hstage
      refine ⟨names ++ [entry.name], lines ++ [line], ?_, ?_,
        List.rel_append hall (.cons hline .nil)⟩
      · rw [if_pos ⟨rfl, trivial, hnew⟩, hblock]
        exact CodeBuffer.line_ofLines lines line
      · have hnames := hnames s.stage
        rw [if_pos rfl] at hnames
        exact (hperm.append_right [entry.name]).trans hnames.symm
    · have hnames := hnames stage
      rw [if_neg hstage, List.append_nil] at hnames
      exact ⟨names, lines, by simpa [hstage] using hblock, hperm.trans hnames.symm, hall⟩

theorem EmitState.Registered.isDeclared_of_get?_none' (hs : s.Registered b.dialect)
    (hname : b.dialect.IsSamplerName name) (hnone : s.samplers.get? name = none)
    (stage : ShaderStage) : (s.shader stage).isDeclared name = false := by
  rw [Bool.eq_false_iff]
  intro hdeclared
  obtain ⟨u, hu⟩ | ⟨e, he⟩ | htarget := hs.ofDeclared stage name hdeclared
  · exact b.not_isSamplerName (hs.uniforms name u hu).2.1 hname
  · rw [hnone] at he
    cases he
  · exact b.not_isTargetName_of_isSamplerName hname htarget

theorem declareSampler_registered {env : EmitEnv} {s t : EmitState} {texture : Variable}
    {state : SamplerState} {templates : SampleTemplates} {samplerType : String}
    (hs : s.Registered env.dialect) (htexture : IsWord texture.name)
    (hbias : state.mipBias.isNaN = false)
    (htemplates : env.dialect.sampleTemplates? texture.type = some templates)
    (htype : templates.IsSamplerType samplerType)
    (h : Returns env (declareSampler texture state samplerType) s name t) :
    t.Registered env.dialect := by
  obtain ⟨rfl, rfl⟩ := returns_declareSampler.mp h
  have hline (name : String) :
      env.dialect.IsSamplerLine name (env.dialect.samplerDeclaration samplerType name) :=
    ⟨_, _, _, htemplates, htype, rfl⟩
  unfold EmitState.samplerEntry
  split
  · next e he =>
    obtain ⟨key, hkey⟩ := hs.samplersDistinct.mem_values_iff.mp (List.mem_of_find?_eq_some he)
    obtain ⟨rfl, hname, hstages, hnan⟩ := hs.samplers key e hkey
    have hdeclared := fun stage ↦ hs.declaredSampler stage e.name e hkey
    by_cases hused : s.stage ∈ e.stages
    · rw [insertStage_of_mem hused, EmitState.addSampler, OrderedMap.insert_of_get? hkey,
        EmitState.declareOnce, if_pos ((hdeclared s.stage).mpr hused)]
      exact hs
    · obtain ⟨us, vs, hvalues, hinsert⟩ := OrderedMap.exists_values_insert hkey
      refine hs.enterSampler (b := env.settings.backend)
        { e with stages := insertStage s.stage e.stages } hname (hstages.insertStage s.stage) hnan ?_
        (Bool.eq_false_iff.mpr fun h ↦ hused ((hdeclared s.stage).mp h))
        (fun stage ↦ by rw [mem_insertStage, hdeclared]) (hline e.name) fun stage ↦ ?_
      · have hdiffer := hs.samplersDiffer
        rw [hvalues, List.pairwise_append, List.pairwise_cons] at hdiffer
        rw [hinsert, List.pairwise_append, List.pairwise_cons]
        -- The pairs of textures and states are what they were.
        simpa using hdiffer
      · rw [hinsert, hvalues]
        simp only [stageSamplers_append, stageSamplers_cons, mem_insertStage]
        by_cases hstage : stage = s.stage
        · subst hstage
          simp only [hused, true_or, if_true, if_false, List.nil_append, List.append_assoc]
          exact List.perm_append_comm.append_left _
        · simp [hstage]
  · next hnone =>
    have hname : env.dialect.IsSamplerName (freshSamplerName s.samplers
        s!"{env.dialect.reservedPrefix}sampler_{texture.name}") :=
      env.settings.backend.isSamplerName_freshSamplerName htexture
    have hfresh := get?_freshSamplerName s.samplers
      s!"{env.dialect.reservedPrefix}sampler_{texture.name}"
    have hnew := hs.isDeclared_of_get?_none' (b := env.settings.backend) hname hfresh
    refine hs.enterSampler (b := env.settings.backend) _ hname (isStageList_singleton s.stage) hbias
      ?_ (hnew s.stage) (fun stage ↦ by rw [hnew]; simp) (hline _) fun stage ↦ ?_
    · rw [OrderedMap.values_insert_of_get?_none hfresh, List.pairwise_append]
      refine ⟨hs.samplersDiffer, by simp, fun e he e' he' ↦ ?_⟩
      obtain rfl := List.mem_singleton.mp he'
      simpa using List.find?_eq_none.mp hnone e he
    · rw [OrderedMap.values_insert_of_get?_none hfresh, stageSamplers_append, stageSamplers_cons]
      simp [stageSamplers]

/-! ### Render targets -/

theorem EmitState.Registered.declareTarget (hs : s.Registered b.dialect)
    (hname : b.dialect.IsTargetName name) (declaration? : Option String) :
    (s.declareOnce .outputs name declaration?).Registered b.dialect := by
  constructor <;> simp only [uniforms_declareOnce, samplers_declareOnce, isDeclared_declareOnce,
    block_declareOnce]
  case uniformsDistinct => exact hs.uniformsDistinct
  case uniforms => exact hs.uniforms
  case samplersDistinct => exact hs.samplersDistinct
  case samplers => exact hs.samplers
  case samplersDiffer => exact hs.samplersDiffer
  case declaredUniform =>
    intro stage other u hu
    have hne : other ≠ name := by
      rintro rfl
      exact b.not_isTargetName_of_isUniformName (hs.uniforms other u hu).2.1 hname
    simpa [hne] using hs.declaredUniform stage other u hu
  case declaredSampler =>
    intro stage other e he
    have hne : other ≠ name := by
      rintro rfl
      exact b.not_isTargetName_of_isSamplerName (hs.samplers other e he).2.1 hname
    simpa [hne] using hs.declaredSampler stage other e he
  case ofDeclared =>
    rintro stage other (⟨-, rfl⟩ | h)
    · exact .inr (.inr hname)
    · exact hs.ofDeclared stage other h
  case uniformBlock => simpa using hs.uniformBlock
  case samplerBlock => simpa using hs.samplerBlock

end Entering

end ShaderGraph
