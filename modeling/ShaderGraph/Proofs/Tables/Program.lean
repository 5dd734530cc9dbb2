import ShaderGraph.Proofs.Graph.Editing
import ShaderGraph.Proofs.Tables.Steps

/-!
# Tables of compiled programs

A compiled program lists each uniform and each sampler once, with the stages that use it, and each of
its stages declares what the tables list for it and nothing else.
-/

namespace ShaderGraph

open EmitM Emitter

/-- No node of the graph has a name or a sampler state that the tables could not hold apart. -/
def Graph.IsRegistrable (d : Dialect) (g : Graph) : Prop :=
  ∀ n ∈ g.nodes.values, n.IsRegistrable d

instance (d : Dialect) (g : Graph) : Decidable (g.IsRegistrable d) :=
  List.decidableBAll (fun n : Node ↦ n.IsRegistrable d) g.nodes.values

section Evaluation

variable {env : EmitEnv} {demand : Demand} {n : Node} {ns : List Node} {H K : Held}
  {s t : EmitState}

theorem Steps.orderly (hdemand : demand.IsOrderly env) (hn : n.IsRegistrable env.dialect)
    (h : Steps env demand n H s K t) (hs : s.Orderly env.dialect) (hH : ∀ v ∈ H.values, v.IsNamed) :
    t.Orderly env.dialect ∧ ∀ v ∈ K.values, v.IsNamed := by
  induction h with
  | refl => exact ⟨hs, hH⟩
  | snoc _ hstep ih =>
    obtain ⟨ht, hK⟩ := ih hs
    exact hstep.orderly hdemand hn ht hK

theorem runsReading_orderly (hdemand : demand.IsOrderly env) (hn : n.IsRegistrable env.dialect)
    {pins : List String} {id : NodeId} (h : RunsReading env demand n pins (s.beginNode id) t)
    (hs : s.Orderly env.dialect) : (t.endNode id).Orderly env.dialect := by
  obtain ⟨H, hsteps, -⟩ := h
  have hbegin : (s.beginNode id).Orderly env.dialect :=
    hs.of_eq rfl rfl fun stage ↦ by cases stage <;> rfl
  exact (hsteps.orderly hdemand hn hbegin (by simp)).1.of_eq rfl rfl
    fun stage ↦ by cases stage <;> rfl

theorem evaluate_isOrderly (hg : env.graph.IsRegistrable env.dialect) :
    Demand.IsOrderly env evaluate := by
  intro id pin s v t h
  refine evaluateWithin_induction (P := fun _ _ s v t ↦ s.Orderly env.dialect →
    t.Orderly env.dialect ∧ v.IsNamed) ?_ ?_ _ id pin s v t (returns_evaluate.mp h)
  · intro _ _ s v hv hs
    exact ⟨hs, (hs.named s.stage).binding hv⟩
  · intro demand hdemand _ _ n s v u hn _ _ _ hrun hv hs
    have ht := runsReading_orderly hdemand (hg n (Graph.node?_mem hn)) hrun hs
    exact ⟨ht, (ht.named _).binding hv⟩

theorem terminalRun_orderly (hg : env.graph.IsRegistrable env.dialect)
    (hn : n ∈ env.graph.nodes.values) (h : TerminalRun env n s t) (hs : s.Orderly env.dialect) :
    t.Orderly env.dialect := by
  obtain ⟨u, hrun, rfl⟩ := h
  exact runsReading_orderly (evaluate_isOrderly hg) (hg n hn) (emitKind_runs hrun) hs

theorem terminalRuns_orderly (hg : env.graph.IsRegistrable env.dialect)
    (hns : ∀ n ∈ ns, n ∈ env.graph.nodes.values) (h : TerminalRuns env ns s t)
    (hs : s.Orderly env.dialect) : t.Orderly env.dialect := by
  induction h with
  | nil => exact hs
  | cons hrun _ ih =>
    exact ih (fun n hn ↦ hns n (List.mem_cons_of_mem _ hn))
      (terminalRun_orderly hg (hns _ List.mem_cons_self) hrun hs)

end Evaluation

/-- The tables agree with the declarations at the end of every emission. -/
theorem emission_orderly {settings : Settings} {g : Graph} {s : EmitState}
    (hg : g.IsRegistrable settings.backend.dialect) (h : emission settings g = .ok s) :
    s.Orderly settings.backend.dialect := by
  obtain ⟨pixelOutput, t, u, hterminal, hpixel, hvertex, rfl⟩ := emission_runs h
  let env : EmitEnv := ⟨g, settings⟩
  have hg : env.graph.IsRegistrable env.dialect := hg
  have ht := terminalRun_orderly hg (Graph.terminal_mem hterminal) hpixel (EmitState.orderly_empty _)
  exact (terminalRuns_orderly hg (fun n hn ↦ (List.mem_filter.mp hn).1) hvertex
    (ht.enter .vertex)).enter .pixel

/-! ## Lines -/

section Lines

variable {b : Backend} {name line : String}

theorem isLine_of_typeName? {type : ValueType} {text : String}
    (h : b.dialect.typeName? type = some text) : IsLine text := by
  cases b <;> cases type <;> cases h <;> decide

theorem isLine_of_uniformDeclaration? {type : ValueType} {length? : Option UInt32}
    (hname : IsLine name) (h : b.dialect.uniformDeclaration? type name length? = some line) :
    IsLine line := by
  obtain ⟨text, htype, h⟩ := Option.bind_eq_some_iff.mp h
  have htext := isLine_of_typeName? htype
  have hplain {array : String} (harray : IsLine array) :
      IsLine s!"uniform {text} {name}{array};" :=
    .append (.append (.append (.append (.append (by decide) htext) (by decide)) hname) harray)
      (by decide)
  dsimp only at h
  split at h
  · cases h
  · obtain rfl := Option.some.inj h
    exact .append (.append (.append htext (by decide)) hname) (by decide)
  · obtain rfl := Option.some.inj h
    cases length? with
    | none => exact hplain (by decide)
    | some n =>
      exact hplain (.append (.append (by decide) (isPlainWord_toString n.toNat).1.isLine)
        (by decide))

theorem isLine_of_isSamplerType {type : ValueType} {templates : SampleTemplates}
    {samplerType : String} (h : b.dialect.sampleTemplates? type = some templates)
    (htype : templates.IsSamplerType samplerType) : IsLine samplerType := by
  cases b <;> cases type <;> cases h <;> obtain rfl | htype := htype <;>
    first | decide | cases htype <;> decide

theorem isLine_of_isSamplerLine (hname : IsLine name) (h : b.dialect.IsSamplerLine name line) :
    IsLine line := by
  obtain ⟨type, templates, samplerType, htemplates, htype, rfl⟩ := h
  have htext := isLine_of_isSamplerType htemplates htype
  unfold Dialect.samplerDeclaration
  split
  · exact .append (.append (.append (.append (by decide) htext) (by decide)) hname) (by decide)
  · exact .append (.append (.append htext (by decide)) hname) (by decide)

/-- Every uniform has a declaration but for textures among global declarations. -/
theorem uniformDeclaration?_isNone_iff {type : ValueType} {length? : Option UInt32}
    (htype : type ≠ .void) :
    (b.dialect.uniformDeclaration? type name length?).isNone ↔
      type.isTexture ∧ b.dialect.layout ≠ .structs := by
  cases b <;> cases type <;>
    simp_all [Backend.dialect, Dialect.glsl, Dialect.glslEs, Dialect.hlsl,
      Dialect.uniformDeclaration?, Dialect.typeName?, ValueType.isTexture]

end Lines

/-! ## Programs -/

namespace EmitState.Registered

variable {b : Backend} {s : EmitState} {stage : ShaderStage}

theorem nodup_uniforms (hs : s.Registered b.dialect) :
    (s.uniforms.values.map UniformDeclaration.name).Nodup := by
  have hnames : s.uniforms.values.map UniformDeclaration.name = s.uniforms.keys := by
    simp only [OrderedMap.values, OrderedMap.keys, List.map_map]
    refine List.map_congr_left fun e he ↦ ?_
    exact (hs.uniforms e.1 e.2 (hs.uniformsDistinct.get?_eq_some_iff.mpr he)).1
  rw [hnames]
  exact hs.uniformsDistinct

theorem nodup_samplers (hs : s.Registered b.dialect) :
    (s.samplers.values.map SamplerDeclaration.name).Nodup := by
  have hnames : s.samplers.values.map SamplerDeclaration.name = s.samplers.keys := by
    simp only [OrderedMap.values, OrderedMap.keys, List.map_map]
    refine List.map_congr_left fun e he ↦ ?_
    exact (hs.samplers e.1 e.2 (hs.samplersDistinct.get?_eq_some_iff.mpr he)).1
  rw [hnames]
  exact hs.samplersDistinct

/-- States that differ from all others but agree with themselves are different states. -/
theorem nodup_sampled (hs : s.Registered b.dialect) :
    (s.samplers.values.map fun e ↦ (e.texture, e.state)).Nodup := by
  rw [List.nodup_iff_pairwise_ne, List.pairwise_map]
  refine hs.samplersDiffer.imp_of_mem fun {e e'} he _ hdiffer heq ↦ hdiffer ?_
  obtain ⟨name, hname⟩ := hs.samplersDistinct.mem_values_iff.mp he
  have hbias := (hs.samplers name e hname).2.2.2
  simp only [Prod.mk.injEq] at heq
  rw [← heq.2]
  exact ⟨heq.1, by simp [SamplerState.agrees, Binary32.sameNumber, hbias]⟩

/-- The lines of the block of uniforms are the declarations of the table. -/
theorem lines_uniforms (hs : s.Registered b.dialect) :
    (textLines ((s.shader stage).blockText .uniforms)).Perm
      ((s.uniforms.values.filter fun u ↦ stage ∈ u.stages).filterMap fun u ↦
        b.dialect.uniformDeclaration? u.type u.name u.length?) := by
  obtain ⟨lines, hblock, hperm⟩ := hs.uniformBlock stage
  have hlines : ∀ l ∈ lines, IsLine l := by
    intro l hl
    obtain ⟨u, hu, hdeclaration⟩ := List.mem_filterMap.mp (hperm.subset hl)
    obtain ⟨name, hname⟩ := hs.uniformsDistinct.mem_values_iff.mp hu
    obtain ⟨rfl, huniform, -⟩ := hs.uniforms name u hname
    rw [Dialect.stageDeclaration?, Option.ite_none_right_eq_some] at hdeclaration
    exact isLine_of_uniformDeclaration? (b.isLine_of_isUniformName huniform) hdeclaration.2
  rw [StageShader.blockText, hblock, CodeBuffer.textLines_ofLines hlines, List.filterMap_filter]
  simp only [decide_eq_true_eq]
  exact hperm

/-- The lines of the block of samplers declare the samplers of the table. -/
theorem lines_samplers (hs : s.Registered b.dialect) :
    ∃ lines, (textLines ((s.shader stage).blockText .samplers)).Perm lines ∧
      List.Forall₂ (fun e line ↦ b.dialect.IsSamplerLine e.name line)
        (s.samplers.values.filter fun e ↦ stage ∈ e.stages) lines := by
  obtain ⟨names, lines, hblock, hperm, hall⟩ := hs.samplerBlock stage
  have hlines : ∀ l ∈ lines, IsLine l := by
    intro l hl
    obtain ⟨name, hname, hline⟩ := exists_of_mem_right hall hl
    obtain ⟨e, he, rfl⟩ := List.mem_map.mp (hperm.subset hname)
    obtain ⟨key, hkey⟩ := hs.samplersDistinct.mem_values_iff.mp (List.mem_filter.mp he).1
    obtain ⟨rfl, hsampler, -⟩ := hs.samplers key e hkey
    exact isLine_of_isSamplerLine (b.isLine_of_isSamplerName hsampler) hline
  obtain ⟨lines', hall', hperm'⟩ := List.perm_comp_forall₂ hperm.symm hall
  refine ⟨lines', ?_, by simpa [stageSamplers, List.forall₂_map_left_iff] using hall'⟩
  rw [StageShader.blockText, hblock, CodeBuffer.textLines_ofLines hlines]
  exact hperm'.symm

end EmitState.Registered

/-- In a compiled program uniforms and samplers have names of their own, no two samplers sample one
texture in states that agree, and the stages of each entry are listed in order. Each stage declares the entries
that list it, in one line each, and nothing else. -/
theorem compile_tables {settings : Settings} {g : Graph} {a : Artifact}
    (hg : g.IsRegistrable settings.backend.dialect) (h : compile settings g = .ok a) :
    (a.uniforms.map UniformDeclaration.name).Nodup ∧
      (a.samplers.map SamplerDeclaration.name).Nodup ∧
      (a.samplers.Pairwise fun e e' ↦ ¬ (e.texture = e'.texture ∧ e.state.agrees e'.state)) ∧
      (a.samplers.map fun e ↦ (e.texture, e.state)).Nodup ∧
      (∀ u ∈ a.uniforms, IsStageList u.stages) ∧ (∀ e ∈ a.samplers, IsStageList e.stages) ∧
      (∀ u ∈ a.uniforms,
        (settings.backend.dialect.uniformDeclaration? u.type u.name u.length?).isNone ↔
          u.type.isTexture ∧ settings.backend.dialect.layout ≠ .structs) ∧
      ∃ s, emission settings g = .ok s ∧ a = s.artifact settings ∧ ∀ stage,
        (textLines ((s.shader stage).blockText .uniforms)).Perm
          ((a.uniforms.filter fun u ↦ stage ∈ u.stages).filterMap fun u ↦
            settings.backend.dialect.uniformDeclaration? u.type u.name u.length?) ∧
        ∃ lines, (textLines ((s.shader stage).blockText .samplers)).Perm lines ∧
          List.Forall₂ (fun e line ↦ settings.backend.dialect.IsSamplerLine e.name line)
            (a.samplers.filter fun e ↦ stage ∈ e.stages) lines := by
  obtain ⟨s, hemission, rfl⟩ := compile_eq_ok_iff.mp h
  have hs := (emission_orderly hg hemission).registered
  refine ⟨hs.nodup_uniforms, hs.nodup_samplers, hs.samplersDiffer, hs.nodup_sampled, fun u hu ↦ ?_,
    fun e he ↦ ?_, fun u hu ↦ ?_, s, hemission, rfl, fun stage ↦ ⟨hs.lines_uniforms, hs.lines_samplers⟩⟩
  · obtain ⟨name, hname⟩ := hs.uniformsDistinct.mem_values_iff.mp hu
    exact (hs.uniforms name u hname).2.2.1
  · obtain ⟨name, hname⟩ := hs.samplersDistinct.mem_values_iff.mp he
    exact (hs.samplers name e hname).2.2.1
  · obtain ⟨name, hname⟩ := hs.uniformsDistinct.mem_values_iff.mp hu
    exact uniformDeclaration?_isNone_iff (hs.uniforms name u hname).2.2.2

/-- A graph that samples one texture in both stages and in two states. -/
def sampledTwice : Graph :=
  .numbered
    [.pixelOutput {}, .sampler {}, .uniform "albedo" .texture2D, .interpolator,
      .vertexInput "uv" .custom .vec2 0, .uniform "tint" .vec4, .arithmetic .mul, .vertexOutput,
      .sampler { minFilter := .point }, .arithmetic .add]
    [⟨6, "Output", 0, "Input"⟩, ⟨1, "Output", 6, "Input1"⟩, ⟨5, "Output", 6, "Input2"⟩,
      ⟨2, "Output", 1, "Texture"⟩, ⟨3, "Output", 1, "TexCoord"⟩, ⟨4, "Output", 3, "Input"⟩,
      ⟨9, "Output", 7, "Input"⟩, ⟨8, "Output", 9, "Input1"⟩, ⟨5, "Output", 9, "Input2"⟩,
      ⟨2, "Output", 8, "Texture"⟩, ⟨4, "Output", 8, "TexCoord"⟩]

theorem compile_tables_sampledTwice :
    sampledTwice.IsRegistrable Backend.glsl.dialect ∧ ∃ a, compile {} sampledTwice = .ok a ∧
      (a.uniforms.map UniformDeclaration.name).Nodup ∧
      (a.samplers.map SamplerDeclaration.name).Nodup ∧
      (a.samplers.Pairwise fun e e' ↦ ¬ (e.texture = e'.texture ∧ e.state.agrees e'.state)) ∧
      (a.samplers.map fun e ↦ (e.texture, e.state)).Nodup ∧
      (∀ u ∈ a.uniforms, IsStageList u.stages) ∧ (∀ e ∈ a.samplers, IsStageList e.stages) ∧
      (∀ u ∈ a.uniforms,
        (Backend.glsl.dialect.uniformDeclaration? u.type u.name u.length?).isNone ↔
          u.type.isTexture ∧ Backend.glsl.dialect.layout ≠ .structs) ∧
      ∃ s, emission {} sampledTwice = .ok s ∧ a = s.artifact {} ∧ ∀ stage,
        (textLines ((s.shader stage).blockText .uniforms)).Perm
          ((a.uniforms.filter fun u ↦ stage ∈ u.stages).filterMap fun u ↦
            Backend.glsl.dialect.uniformDeclaration? u.type u.name u.length?) ∧
        ∃ lines, (textLines ((s.shader stage).blockText .samplers)).Perm lines ∧
          List.Forall₂ (fun e line ↦ Backend.glsl.dialect.IsSamplerLine e.name line)
            (a.samplers.filter fun e ↦ stage ∈ e.stages) lines := by
  have hg : sampledTwice.IsRegistrable Backend.glsl.dialect := by decide +kernel
  obtain ⟨a, h⟩ := exists_ok_of_isOk (x := compile {} sampledTwice) (by decide +kernel)
  exact ⟨hg, a, h, compile_tables hg h⟩

end ShaderGraph
