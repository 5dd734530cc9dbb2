import ShaderGraph.Proofs.Layout.Steps
import ShaderGraph.Proofs.Matrices.Emitters

/-!
# Matrices on the targets

The bodies that are emitted for a graph of vectors and matrices run without an error in the shading
language of their target, and they write to the outputs what the graph carries there, if matrices are
multiplied as the target does it. So two targets write the same values unless the graph multiplies
matrices and the targets belong to different languages.
-/

namespace ShaderGraph

open EmitM Emitter

/-! ## Outputs -/

/-- The reference of an output. -/
def Dialect.reference (d : Dialect) : StageOutput → String
  | .position => d.positionOutput
  | .color index => (d.fragmentOutput index).2

/-- What a body writes, by the references of the outputs. -/
def Dialect.references (d : Dialect) (written : List (StageOutput × Vector4)) :
    List (String × Quantity) :=
  written.map fun x ↦ (d.reference x.1, .vector x.2)

theorem Backend.isTarget_reference (b : Backend) (output : StageOutput) :
    IsTarget (b.dialect.reference output) := by
  cases output with
  | position => cases b <;> decide
  | color index =>
    have hindex : IsTarget (toString index) := (isPlainWord_toString index).1.isTarget
    have happend {s : String} (hs : IsTarget s) : IsTarget (s ++ toString index) := by
      rw [IsTarget, String.toList_append, List.mem_append, List.mem_append, not_or, not_or]
      exact ⟨⟨hs.1, hindex.1⟩, hs.2, hindex.2⟩
    cases b
    · exact happend (s := "_gl_FragData_") (by decide)
    · exact show IsTarget "gl_FragColor" by decide
    · exact happend (s := "o.Color") (by decide)

theorem Backend.isLine_reference (b : Backend) (output : StageOutput) :
    IsLine (b.dialect.reference output) := by
  cases output with
  | position => exact b.isLine_target (.inl rfl)
  | color index => exact b.isLine_target (.inr ⟨index, rfl⟩)

variable {env : EmitEnv} {values : String → Vector4} {s t u : EmitState} {σ τ υ : Execution}
  {demand : Demand} {n : Node}

/-- The run from `s` to `t` writes what some inputs receive to outputs of the current stage. -/
structure EmitState.Delivers (env : EmitEnv) (values : String → Vector4) (s : EmitState)
    (σ : Execution) (targets : List (Node × String × StageOutput)) (t : EmitState) (τ : Execution) :
    Prop where
  computes : t.Computes env values τ
  stage : t.stage = s.stage
  others : ∀ stage, stage ≠ s.stage → (s.shader stage).SameCode (t.shader stage)
  written : ∃ written, env.graph.Delivers env.language.product values targets written ∧
    τ.written = σ.written ++ env.dialect.references written

namespace EmitState

variable {targets targets' : List (Node × String × StageOutput)}

theorem Proceeds.delivers (h : s.Proceeds env values σ t τ) :
    s.Delivers env values σ [] t τ where
  computes := h.computes
  stage := h.stage
  others := h.others
  written := ⟨[], .nil, by simpa [Dialect.references] using h.written⟩

theorem Delivers.trans (h : s.Delivers env values σ targets t τ)
    (h' : t.Delivers env values τ targets' u υ) :
    s.Delivers env values σ (targets ++ targets') u υ where
  computes := h'.computes
  stage := h'.stage.trans h.stage
  others stage hne := (h.others stage hne).trans (h'.others stage (h.stage ▸ hne))
  written := by
    obtain ⟨written, hdelivers, heq⟩ := h.written
    obtain ⟨written', hdelivers', heq'⟩ := h'.written
    refine ⟨written ++ written', hdelivers.append hdelivers', ?_⟩
    rw [heq', heq, Dialect.references, Dialect.references, Dialect.references, List.map_append,
      List.append_assoc]

/-- A vector is written to an output. -/
theorem Computes.delivers {pin : String} {v : Variable} {w : Vector4} (output : StageOutput)
    (hs : s.Computes env values σ)
    (hreceives : env.graph.ReceivesAt env.language.product values n pin (.vector w))
    (hv : v.StandsFor env.language σ.values (.vector w)) :
    s.Delivers env values σ [(n, pin, output)]
      (s.write s!"{env.dialect.reference output} = {v.name};")
      (σ.write (env.dialect.reference output) (.vector w)) := by
  obtain ⟨φ, hread, hφ⟩ := hv.text.evaluates.reading
  have hequals : IsLine " = " := by decide
  have hend : IsLine ";" := by decide
  have hline := (((env.settings.backend.isLine_reference output).append hequals).append
    hv.text.isLine).append hend
  exact {
    computes := hs.write hline
      (statement?_assignment (env.settings.backend.isTarget_reference output) hread) hφ
    stage := stage_modifyShader ..
    others stage hne := by
      rw [EmitState.write, EmitState.modifyBody, shader_modifyShader_of_ne _ _ hne]
      exact .refl _
    written := ⟨[(output, w)], .written hreceives .nil, rfl⟩ }

end EmitState

/-! ## Terminals -/

theorem vertexOutput_delivers (hdemand : demand.Computes env values) (hg : env.graph.IsAlgebraic)
    (hn : n ∈ env.graph.nodes.values) (h : Returns env (vertexOutput demand n) s () t)
    (hs : s.Computes env values σ) :
    s.stage = .vertex ∧ ∃ τ, s.Delivers env values σ [(n, "Input", .position)] t τ := by
  simp only [vertexOutput, returns_bind, returns_requireStage, returns_dialect, returns_writeLine] at h
  obtain ⟨⟨⟩, s₁, ⟨hstage, rfl⟩, v, s₂, hv, d, s₃, ⟨rfl, rfl⟩, rfl⟩ := h
  obtain ⟨τ, w, hproceeds, hreceives, hstands⟩ := vectorInput_computes hdemand hg hn hs hv
  have hvector : v.type = .vec4 := hstands.type
  rw [if_pos hvector]
  exact ⟨hstage, _, hproceeds.delivers.trans (hproceeds.computes.delivers .position hreceives hstands)⟩

/-- A color is written after the declaration of its render target, if it needs one. -/
theorem writeTarget_delivers {pin : String} {index : Nat} (hdemand : demand.Computes env values)
    (hg : env.graph.IsAlgebraic) (hn : n ∈ env.graph.nodes.values)
    (h : Returns env (writeTarget demand n pin index) s () t) (hs : s.Computes env values σ) :
    ∃ τ, s.Delivers env values σ [(n, pin, .color index)] t τ := by
  simp only [writeTarget, returns_bind] at h
  obtain ⟨value?, s₁, hvalue, h⟩ := h
  obtain ⟨v, τ, q, rfl, hproceeds, hreceives, hstands⟩ | ⟨rfl, rfl, habsent⟩ :=
    inputValue?_computes hdemand hg hn hs hvalue
  · simp only [returns_bind, returns_dialect] at h
    obtain ⟨d, s₂, ⟨rfl, rfl⟩, h⟩ := h
    by_cases hindex : env.dialect.maxRenderTargets ≤ index
    · simp [hindex, returns_bind, returns_unsupported] at h
    obtain ⟨w, rfl⟩ : ∃ w, q = .vector w := by
      cases q with
      | vector w => exact ⟨w, rfl⟩
      | scalar => exact absurd rfl hstands.wide
      | matrix m =>
        have htype : v.type = .matrix4 := hstands.type
        simp [hindex, htype, ValueType.isVector, returns_bind, returns_throw] at h
    have hvector : v.type.isVector := by
      rw [hstands.type]
      rfl
    simp only [hindex, hvector, Bool.not_true, Bool.false_eq_true, if_false, returns_bind, returns_ite,
      returns_cast, returns_declareOnce, returns_writeLine] at h
    obtain ⟨color, s₃, ⟨hcolor, rfl⟩, h⟩ := h
    obtain rfl := hstands.cast hcolor
    obtain ⟨-, -, s₄, rfl, rfl⟩ | ⟨-, rfl⟩ := h
    · have hdeclared := hproceeds.computes.of_sameCode (.declareOnce s₃ .outputs
        (env.dialect.reference (.color index)) (env.dialect.fragmentOutput index).1)
      exact ⟨_, (hproceeds.trans hdeclared).delivers.trans
        (hdeclared.computes.delivers (.color index) hreceives hstands)⟩
    · exact ⟨_, hproceeds.delivers.trans
        (hproceeds.computes.delivers (.color index) hreceives hstands)⟩
  · obtain ⟨-, rfl⟩ := returns_pure.mp h
    exact ⟨σ, {
      computes := hs
      stage := rfl
      others := fun stage _ ↦ .refl _
      written := ⟨[], .absent habsent .nil, by simp [Dialect.references]⟩ }⟩

/-- The colors are written one after another. -/
theorem targets_deliver {pins : List (String × Nat)} {f : String × Nat → PUnit → EmitM (ForInStep PUnit)}
    (hf : ∀ x, f x ⟨⟩ = do writeTarget demand n x.1 x.2; pure (.yield ⟨⟩))
    (hdemand : demand.Computes env values) (hg : env.graph.IsAlgebraic)
    (hn : n ∈ env.graph.nodes.values) (h : Returns env (forIn pins ⟨⟩ f) s ⟨⟩ t)
    (hs : s.Computes env values σ) :
    ∃ τ, s.Delivers env values σ (pins.map fun x ↦ (n, x.1, .color x.2)) t τ := by
  induction pins generalizing s σ with
  | nil =>
    obtain rfl := returns_forIn_nil.mp h
    exact ⟨σ, hs.refl.delivers⟩
  | cons x pins ih =>
    obtain ⟨s₁, hfirst, hrest⟩ := (returns_forIn_cons hf).mp h
    obtain ⟨τ, hdelivers⟩ := writeTarget_delivers hdemand hg hn hfirst hs
    obtain ⟨υ, hdelivers'⟩ := ih hrest hdelivers.computes
    exact ⟨υ, hdelivers.trans hdelivers'⟩

theorem pixelOutput_delivers {state : RenderState} (hdemand : demand.Computes env values)
    (hg : env.graph.IsAlgebraic) (hn : n ∈ env.graph.nodes.values)
    (h : Returns env (pixelOutput demand n state) s () t) (hs : s.Computes env values σ) :
    s.stage = .pixel ∧
      ∃ τ, s.Delivers env values σ (targetPins.zipIdx.map fun x ↦ (n, x.1, .color x.2)) t τ := by
  simp only [pixelOutput, returns_bind, returns_requireStage, returns_setRenderState, returns_pure] at h
  obtain ⟨⟨⟩, s₁, ⟨hstage, rfl⟩, ⟨⟩, s₂, ⟨-, rfl⟩, ⟨⟩, s₃, h, -, rfl⟩ := h
  have hstate := hs.of_sameCode (t := { s₁ with renderState? := some state })
    ⟨rfl, rfl, rfl, rfl, fun stage ↦ by cases stage <;> exact .refl _⟩
  obtain ⟨τ, hdelivers⟩ := targets_deliver (fun x ↦ rfl) hdemand hg hn h hstate.computes
  exact ⟨hstage, τ, hstate.delivers.trans hdelivers⟩

/-- The emitter of a terminal node. -/
theorem terminalRun_delivers (stage : ShaderStage) (hg : env.graph.IsAlgebraic)
    (hn : n ∈ env.graph.nodesOfKind (NodeKind.isOutputOf stage)) (h : TerminalRun env n s t)
    (hs : s.Computes env values σ) :
    ∃ τ, s.Delivers env values σ (n.kind.targets.map (n, ·)) t τ := by
  obtain ⟨hn, hkind⟩ := List.mem_filter.mp hn
  obtain ⟨u, hrun, rfl⟩ := h
  have hbegin := hs.of_sameCode (.beginNode s n.id)
  have hterminal : ∃ τ, (s.beginNode n.id).Delivers env values σ (n.kind.targets.map (n, ·)) u τ := by
    unfold emitKind at hrun
    unfold NodeKind.targets
    cases hkind' : n.kind <;> rw [hkind'] at hrun hkind
    case vertexOutput =>
      exact (vertexOutput_delivers (evaluate_computes hg) hg hn hrun hbegin.computes).2
    case pixelOutput state =>
      rw [List.map_map]
      exact (pixelOutput_delivers (evaluate_computes hg) hg hn hrun hbegin.computes).2
    all_goals cases stage <;> cases hkind
  obtain ⟨τ, hdelivers⟩ := hterminal
  have hend := hdelivers.computes.of_sameCode (.endNode u n.id)
  exact ⟨τ, by simpa using (hbegin.delivers.trans hdelivers).trans hend.delivers⟩

theorem terminalRuns_deliver (stage : ShaderStage) {ns : List Node} (hg : env.graph.IsAlgebraic)
    (hns : ∀ n ∈ ns, n ∈ env.graph.nodesOfKind (NodeKind.isOutputOf stage))
    (h : TerminalRuns env ns s t) (hs : s.Computes env values σ) :
    ∃ τ, s.Delivers env values σ (ns.flatMap fun n ↦ n.kind.targets.map (n, ·)) t τ := by
  induction h generalizing σ with
  | nil => exact ⟨σ, hs.refl.delivers⟩
  | cons hrun _ ih =>
    obtain ⟨hn, hns⟩ := List.forall_mem_cons.mp hns
    obtain ⟨τ, hdelivers⟩ := terminalRun_delivers stage hg hn hrun hs
    obtain ⟨υ, hdelivers'⟩ := ih hns hdelivers.computes
    exact ⟨υ, hdelivers.trans hdelivers'⟩

/-! ## Whole programs -/

/-- A body before its first line. -/
theorem StageShader.Computes.start (env : EmitEnv) (values : String → Vector4) (stage : ShaderStage) :
    ({ stage } : StageShader).Computes env values ⟨env.graph.parameterValues values, []⟩ where
  captures := rfl
  outer := rfl
  body := ⟨[], by simp, rfl, rfl⟩
  bindings _ hb := by cases hb
  parameters := .refl _

theorem emission_delivers {settings : Settings} {g : Graph} (hg : g.IsAlgebraic)
    (h : emission settings g = .ok s) (stage : ShaderStage) :
    ∃ σ written, (s.shader stage).Computes ⟨g, settings⟩ values σ ∧
      g.Delivers settings.backend.language.product values (g.targets stage) written ∧
      σ.written = settings.backend.dialect.references written := by
  obtain ⟨n, t, u, hterminal, hpixel, hvertex, rfl⟩ := emission_runs h
  let σ : Execution := ⟨g.parameterValues values, []⟩
  have hfresh (k : Nat) : σ.values (temporary k) = none := hg.parameterValues_temporary values k
  have hstart : ({} : EmitState).Computes ⟨g, settings⟩ values σ :=
    ⟨.start ⟨g, settings⟩ values .pixel, fun k _ ↦ hfresh k⟩
  have hpixels := Graph.nodesOfKind_of_terminal hterminal
  have hruns : TerminalRuns ⟨g, settings⟩ (g.nodesOfKind NodeKind.isPixelOutput) {} t := by
    rw [hpixels]
    exact .cons hpixel .nil
  obtain ⟨τ, hfirst⟩ := terminalRuns_deliver .pixel hg (fun _ hn ↦ hn) hruns hstart
  have hnext : ({ t with stage := .vertex } : EmitState).Computes ⟨g, settings⟩ values σ := by
    refine ⟨?_, fun k _ ↦ hfresh k⟩
    exact (StageShader.Computes.start ⟨g, settings⟩ values .vertex).of_sameCode
      (hfirst.others .vertex (by simp))
  obtain ⟨υ, hsecond⟩ := terminalRuns_deliver .vertex hg (fun _ hn ↦ hn) hvertex hnext
  cases stage with
  | vertex =>
    obtain ⟨written, hdelivers, hwritten⟩ := hsecond.written
    refine ⟨υ, written, ?_, hdelivers, hwritten⟩
    have hcomputes := hsecond.computes.shader
    rw [hsecond.stage] at hcomputes
    exact hcomputes
  | pixel =>
    obtain ⟨written, hdelivers, hwritten⟩ := hfirst.written
    refine ⟨τ, written, ?_, hdelivers, hwritten⟩
    have hcomputes := hfirst.computes.shader
    rw [hfirst.stage] at hcomputes
    exact hcomputes.of_sameCode (hsecond.others .pixel (by simp))

/-- The body of a stage runs without an error and writes vectors to the outputs. -/
def EmitState.Writes (s : EmitState) (settings : Settings) (g : Graph) (values : String → Vector4)
    (stage : ShaderStage) (written : List (StageOutput × Vector4)) : Prop :=
  ∃ σ, execute? settings.backend.language ⟨g.parameterValues values, []⟩
      (textLines (s.shader stage).main.text) = some σ ∧
    σ.written = settings.backend.dialect.references written

theorem emission_writes {settings : Settings} {g : Graph} (hg : g.IsAlgebraic)
    (h : emission settings g = .ok s) (values : String → Vector4) (stage : ShaderStage) :
    ∃ written, s.Writes settings g values stage written ∧
      g.Delivers settings.backend.language.product values (g.targets stage) written := by
  obtain ⟨σ, written, hcomputes, hdelivers, hwritten⟩ := emission_delivers hg h stage
  obtain ⟨lines, hlines, hmain, hexecute⟩ := hcomputes.body
  refine ⟨written, ⟨σ, ?_, hwritten⟩, hdelivers⟩
  rw [hmain, CodeBuffer.textLines_ofLines hlines]
  exact hexecute

/-- Programs write what the graph carries with the product of matrices of their own language. So two
programs write the same if they are written in one language, or if no matrices are multiplied. -/
theorem compile_matrices {settings settings' : Settings} {g : Graph} {a a' : Artifact}
    (hg : g.IsAlgebraic) (h : compile settings g = .ok a) (h' : compile settings' g = .ok a') :
    ∃ s s', emission settings g = .ok s ∧ a = s.artifact settings ∧
      emission settings' g = .ok s' ∧ a' = s'.artifact settings' ∧
      ∀ values stage, ∃ written written', s.Writes settings g values stage written ∧
        g.Delivers settings.backend.language.product values (g.targets stage) written ∧
        s'.Writes settings' g values stage written' ∧
        g.Delivers settings'.backend.language.product values (g.targets stage) written' ∧
        (settings.backend.language = settings'.backend.language ∨ g.HasNoMatrixProduct →
          written = written') := by
  obtain ⟨s, hs, rfl⟩ := compile_eq_ok_iff.mp h
  obtain ⟨s', hs', rfl⟩ := compile_eq_ok_iff.mp h'
  refine ⟨s, s', hs, rfl, hs', rfl, fun values stage ↦ ?_⟩
  obtain ⟨written, hwrites, hdelivers⟩ := emission_writes hg hs values stage
  obtain ⟨written', hwrites', hdelivers'⟩ := emission_writes hg hs' values stage
  refine ⟨written, written', hwrites, hdelivers, hwrites', hdelivers', ?_⟩
  rintro (hlanguage | hproduct)
  · rw [hlanguage] at hdelivers
    exact hdelivers.unique hg.wired.laidOut hdelivers'
  · exact (hdelivers.of_product hg.wired.laidOut hproduct).unique hg.wired.laidOut hdelivers'

/-- A color that is transformed by the sum of a matrix and its transpose, and an axis of that sum. -/
def symmetricPart : Graph :=
  .numbered
    [.pixelOutput {}, .vertexOutput, .transform, .arithmetic .sub, .transpose, .negate, .matrixIn,
      .matrixOut, .arithmetic .mul, .uniform "tint" .vec4, .vector .zero .one .zero .zero]
    [⟨2, "Output", 0, "Input"⟩, ⟨7, "YAxis", 0, "Input2"⟩, ⟨8, "Output", 1, "Input"⟩,
      ⟨9, "Output", 2, "Input"⟩, ⟨3, "Output", 2, "Transform"⟩, ⟨4, "Output", 3, "Input1"⟩,
      ⟨5, "Output", 3, "Input2"⟩, ⟨6, "Output", 4, "Input"⟩, ⟨6, "Output", 5, "Input"⟩,
      ⟨8, "Output", 6, "XAxis"⟩, ⟨9, "Output", 6, "YAxis"⟩, ⟨10, "Output", 6, "ZAxis"⟩,
      ⟨9, "Output", 6, "Translate"⟩, ⟨3, "Output", 7, "Input"⟩, ⟨9, "Output", 8, "Input1"⟩,
      ⟨10, "Output", 8, "Input2"⟩]

theorem compile_matrices_symmetricPart :
    symmetricPart.IsAlgebraic ∧ ∃ a a', compile {} symmetricPart = .ok a ∧
      compile { backend := .hlsl } symmetricPart = .ok a' ∧
      ∃ s s', emission {} symmetricPart = .ok s ∧ a = s.artifact {} ∧
        emission { backend := .hlsl } symmetricPart = .ok s' ∧
        a' = s'.artifact { backend := .hlsl } ∧
        ∀ values stage, ∃ written, s.Writes {} symmetricPart values stage written ∧
          symmetricPart.Delivers (· * ·) values (symmetricPart.targets stage) written ∧
          s'.Writes { backend := .hlsl } symmetricPart values stage written := by
  have hg : symmetricPart.IsAlgebraic := {
    wired := ⟨(Graph.built_numbered ..).consistent, by decide +kernel, by decide +kernel⟩
    kinds := by decide +kernel
    parameters := by decide +kernel
    defaults := by decide +kernel }
  have hproduct : symmetricPart.HasNoMatrixProduct := by
    -- Matrices leave the nodes 3 to 6, and the factors come from the nodes 9 and 10.
    let pins := [3, 4, 5, 6].map fun k ↦ Graph.pinNumber k .output 0
    have hfactors : ∀ n ∈ symmetricPart.nodes.values, n.kind.isProduct → ∀ i ∈ n.inputs,
        ∀ c ∈ symmetricPart.driver? i.id, c.fromPin ∉ pins := by
      decide +kernel
    exact fun n hn hkind i hi c hc hmatrix ↦ hfactors n hn hkind i hi c hc
      (hmatrix.mem (by decide +kernel) (by decide +kernel))
  obtain ⟨a, h⟩ := exists_ok_of_isOk (x := compile {} symmetricPart) (by decide +kernel)
  obtain ⟨a', h'⟩ := exists_ok_of_isOk (x := compile { backend := .hlsl } symmetricPart)
    (by decide +kernel)
  obtain ⟨s, s', hs, ha, hs', ha', hwrites⟩ := compile_matrices hg h h'
  refine ⟨hg, a, a', h, h', s, s', hs, ha, hs', ha', fun values stage ↦ ?_⟩
  obtain ⟨written, written', hwritten, hdelivers, hwritten', -, heq⟩ := hwrites values stage
  rw [← heq (.inr hproduct)] at hwritten'
  exact ⟨written, hwritten, hdelivers, hwritten'⟩

/-- The product of the matrix that moves the first axis to the second with the projection to the first
axis. -/
def turnedProjection : Graph :=
  .numbered
    [.pixelOutput {}, .matrixOut, .arithmetic .mul, .matrixIn, .matrixIn, .vector .zero .one .zero .zero,
      .vector .one .zero .zero .zero, .vector .zero .zero .zero .zero]
    [⟨1, "XAxis", 0, "Input"⟩, ⟨2, "Output", 1, "Input"⟩, ⟨3, "Output", 2, "Input1"⟩,
      ⟨4, "Output", 2, "Input2"⟩, ⟨5, "Output", 3, "XAxis"⟩, ⟨7, "Output", 3, "YAxis"⟩,
      ⟨7, "Output", 3, "ZAxis"⟩, ⟨7, "Output", 3, "Translate"⟩, ⟨6, "Output", 4, "XAxis"⟩,
      ⟨7, "Output", 4, "YAxis"⟩, ⟨7, "Output", 4, "ZAxis"⟩, ⟨7, "Output", 4, "Translate"⟩]

/-- The languages write different colors for a product of two matrices. -/
theorem writes_turnedProjection :
    (∀ n ∈ turnedProjection.nodes.values, n.kind.isAlgebraic) ∧
      ∃ a a' s s', compile {} turnedProjection = .ok a ∧
        compile { backend := .hlsl } turnedProjection = .ok a' ∧
        emission {} turnedProjection = .ok s ∧ a = s.artifact {} ∧
        emission { backend := .hlsl } turnedProjection = .ok s' ∧
        a' = s'.artifact { backend := .hlsl } ∧
        s.Writes {} turnedProjection (fun _ ↦ 0) .pixel [(.color 0, ![0, 1, 0, 0])] ∧
        s'.Writes { backend := .hlsl } turnedProjection (fun _ ↦ 0) .pixel
          [(.color 0, ![0, 0, 0, 0])] := by
  let lines := ["const vec4 v0 = vec4(0.0, 1.0, 0.0, 0.0);",
    "const vec4 v1 = vec4(0.0, 0.0, 0.0, 0.0);", "mat4 v2 = mat4(v0, v1, v1, v1);",
    "const vec4 v3 = vec4(1.0, 0.0, 0.0, 0.0);", "mat4 v4 = mat4(v3, v1, v1, v1);",
    "mat4 v5 = v2 * v4;", "vec4 v6 = v5[0];", "vec4 v7 = v5[1];", "vec4 v8 = v5[2];",
    "vec4 v9 = v5[3];", "_gl_FragData_0 = v6;"]
  let lines' := ["const float4 v0 = float4(0.0, 1.0, 0.0, 0.0);",
    "const float4 v1 = float4(0.0, 0.0, 0.0, 0.0);", "float4x4 v2 = float4x4(v0, v1, v1, v1);",
    "const float4 v3 = float4(1.0, 0.0, 0.0, 0.0);", "float4x4 v4 = float4x4(v3, v1, v1, v1);",
    "float4x4 v5 = mul(v2, v4);", "float4 v6 = v5[0];", "float4 v7 = v5[1];", "float4 v8 = v5[2];",
    "float4 v9 = v5[3];", "o.Color0 = v6;"]
  have hlines : ∀ l ∈ lines, IsLine l := by
    repeat refine forall_isLine_cons (by decide) ?_
    exact List.forall_mem_nil _
  have hlines' : ∀ l ∈ lines', IsLine l := by
    repeat refine forall_isLine_cons (by decide) ?_
    exact List.forall_mem_nil _
  have hwritten : (execute? .glsl ⟨turnedProjection.parameterValues fun _ ↦ 0, []⟩ lines).map
      Execution.written = some (Dialect.glsl.references [(.color 0, ![0, 1, 0, 0])]) := by
    simp only [lines, execute?, List.foldlM_cons, List.foldlM_nil, statement?]
    repeat rw [String.toList_ofList]
    decide +kernel
  have hwritten' : (execute? .hlsl ⟨turnedProjection.parameterValues fun _ ↦ 0, []⟩ lines').map
      Execution.written = some (Dialect.hlsl.references [(.color 0, ![0, 0, 0, 0])]) := by
    simp only [lines', execute?, List.foldlM_cons, List.foldlM_nil, statement?]
    repeat rw [String.toList_ofList]
    decide +kernel
  obtain ⟨s, hs, htext⟩ :=
    exists_emission_of_lines {} turnedProjection .pixel hlines (by decide +kernel)
  obtain ⟨s', hs', htext'⟩ :=
    exists_emission_of_lines { backend := .hlsl } turnedProjection .pixel hlines' (by decide +kernel)
  rw [← htext, Option.map_eq_some_iff] at hwritten
  rw [← htext', Option.map_eq_some_iff] at hwritten'
  exact ⟨by decide +kernel, _, _, s, s', compile_eq_ok_iff.mpr ⟨s, hs, rfl⟩,
    compile_eq_ok_iff.mpr ⟨s', hs', rfl⟩, hs, rfl, hs', rfl, hwritten, hwritten'⟩

end ShaderGraph
