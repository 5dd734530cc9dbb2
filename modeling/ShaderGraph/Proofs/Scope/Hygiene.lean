import ShaderGraph.Proofs.Emission.Moves
import ShaderGraph.Proofs.Scope.Program

/-!
# Names of uniforms and of temporaries

A uniform has the name of a parameter of the graph, or a name that starts with an underscore. The names
of temporaries and of interpolator slots have no such prefix, and nothing compares them with the
parameters: a clash with a uniform takes a parameter that is named like a temporary or like a slot, and
any such parameter may cause one.
-/

namespace ShaderGraph

open EmitM Emitter

/-- Every uniform has a name under which some node of the graph may declare it. -/
def EmitState.NamesUniforms (g : Graph) (s : EmitState) : Prop :=
  ∀ name ∈ s.uniformNames, ∃ n ∈ g.nodes.values, n.kind.MayDeclareUniform name

/-- The demand declares uniforms only under names that nodes of the graph may give them. -/
def Demand.NamesUniforms (env : EmitEnv) (demand : Demand) : Prop :=
  ∀ id pin s v t, Returns env (demand id pin) s v t → s.NamesUniforms env.graph →
    t.NamesUniforms env.graph

section Runs

variable {env : EmitEnv} {demand : Demand} {n : Node} {s t : EmitState}

theorem inputValue?_namesUniforms (hdemand : demand.NamesUniforms env) {pin : String}
    {value? : Option Variable} (h : Returns env (inputValue? demand n pin) s value? t)
    (hs : s.NamesUniforms env.graph) : t.NamesUniforms env.graph := by
  obtain ⟨_, _, ⟨_, _, _, _, hvalue⟩ | ⟨_, rfl, _⟩⟩ := inputValue?_cases h
  · exact hdemand _ _ _ _ _ hvalue hs
  · exact hs

theorem Moves.namesUniforms (hdemand : demand.NamesUniforms env) (hn : n ∈ env.graph.nodes.values)
    {pins : List String} (h : Moves env demand n pins s t) (hs : s.NamesUniforms env.graph) :
    t.NamesUniforms env.graph := by
  induction h with
  | refl => exact hs
  | move _ hmove ih =>
    exact fun name hname ↦ (hmove.uniforms name hname).elim (ih hs name) fun h ↦ ⟨n, hn, h⟩
  | read _ hread ih => exact inputValue?_namesUniforms hdemand hread (ih hs)
  | hoist _ _ hrun ih => exact hdemand _ _ _ _ _ hrun (ih hs)

theorem NodeRun.namesUniforms (hdemand : demand.NamesUniforms env) (hn : n ∈ env.graph.nodes.values)
    (h : NodeRun env demand n s t) (hs : s.NamesUniforms env.graph) : t.NamesUniforms env.graph := by
  cases h with
  | within _ hmoves => exact hmoves.namesUniforms hdemand hn hs
  | @across t _ _ _ _ hread =>
    have ht : t.NamesUniforms env.graph := inputValue?_namesUniforms hdemand hread hs
    exact ht

theorem evaluate_namesUniforms : Demand.NamesUniforms env evaluate := by
  refine evaluate_induction (P := fun _ _ s _ t ↦ s.NamesUniforms env.graph →
    t.NamesUniforms env.graph) (fun _ _ _ _ _ ↦ id) ?_
  intro demand _ hdemand id pin n s v u hn _ _ hrun _ hs
  have hu : u.NamesUniforms env.graph := hrun.namesUniforms hdemand (Graph.node?_mem hn) hs
  exact hu

theorem terminalRun_namesUniforms (hn : n ∈ env.graph.nodes.values) (h : TerminalRun env n s t)
    (hs : s.NamesUniforms env.graph) : t.NamesUniforms env.graph := by
  obtain ⟨u, hrun, rfl⟩ := h
  have hu : u.NamesUniforms env.graph :=
    (nodeRun_of_returns evaluate_keepsStage hrun).namesUniforms evaluate_namesUniforms hn hs
  exact hu

theorem terminalRuns_namesUniforms {ns : List Node} (hns : ∀ n ∈ ns, n ∈ env.graph.nodes.values)
    (h : TerminalRuns env ns s t) (hs : s.NamesUniforms env.graph) :
    t.NamesUniforms env.graph := by
  induction h with
  | nil => exact hs
  | cons hrun _ ih =>
    exact ih (fun n hn ↦ hns n (List.mem_cons_of_mem _ hn))
      (terminalRun_namesUniforms (hns _ List.mem_cons_self) hrun hs)

end Runs

theorem emission_namesUniforms {settings : Settings} {g : Graph} {s : EmitState}
    (h : emission settings g = .ok s) : s.NamesUniforms g := by
  obtain ⟨pixelOutput, t, u, hterminal, hpixel, hvertex, rfl⟩ := emission_runs h
  have hstart : ({} : EmitState).NamesUniforms g := by
    intro name hname
    cases hname
  have hfirst := terminalRun_namesUniforms (Graph.terminal_mem hterminal) hpixel hstart
  exact terminalRuns_namesUniforms (fun n hn ↦ (List.mem_filter.mp hn).1) hvertex hfirst

/-! ## Bodies -/

/-- The temporaries that a body declares where the given names are visible from outside. -/
def declarationsAmong? (types names : List String) (body : String) : Option (List String) :=
  match Scope.readAll types (tokens body) { blocks := [[], names] } with
  | some σ => if σ.blocks.length = 2 then some σ.declared.reverse else none
  | none => none

theorem Code.declarationsAmong?_eq {types names locals declared : List String} {body : String}
    {slots : List Nat} (htypes : ∀ type ∈ types, isTemporary type = false)
    (h : Code types names (tokens body) locals declared slots) :
    declarationsAmong? types names body = some declared := by
  obtain ⟨after, hread, -⟩ := h.readAll htypes [] [names] [] (by simp)
    (show Scope.Settled [] by simp [Scope.Settled])
  rw [declarationsAmong?, show ({ blocks := [[], names] } : Scope) = ⟨[], [], [[], names], []⟩ from rfl,
    hread]
  simp

/-- A name that starts with an underscore is neither that of a temporary nor that of a slot. -/
theorem ne_generated {name : String} (h : name.toList.head? = some '_') :
    (∀ k, name ≠ temporary k) ∧ ∀ slot, name ≠ interpolatorName slot := by
  constructor
  · rintro k rfl
    rw [toList_temporary] at h
    cases h
  · rintro slot rfl
    rw [toList_interpolatorName] at h
    cases h

/-- If the names that the author gave are words, a uniform of a compiled program has the name of a
temporary or of a slot only if it is a parameter of the graph that was named so. The temporaries are
those that the bodies declare, read where the author's names are visible. -/
theorem compile_uniformNames {settings : Settings} {g : Graph} {a : Artifact}
    (hnames : ∀ name ∈ g.userNames, IsWord name) (h : compile settings g = .ok a) :
    ∃ s vertex pixel, emission settings g = .ok s ∧ a = s.artifact settings ∧
      declarationsAmong? settings.backend.dialect.typeWords g.userNames s.vertex.main.text =
        some vertex ∧
      declarationsAmong? settings.backend.dialect.typeWords g.userNames s.pixel.main.text =
        some pixel ∧
      (vertex ++ pixel).Perm ((List.range s.nextVariable).map temporary) ∧
      ∀ u ∈ a.uniforms,
        u.name ∈ vertex ++ pixel ∨ (∃ slot, u.name = interpolatorName slot) →
          ∃ n ∈ g.nodes.values, u.name ∈ n.kind.parameterNames := by
  obtain ⟨s, hemission, rfl⟩ := compile_eq_ok_iff.mp h
  have hwords : ∀ name ∈ g.userNames, IsWordAmong g.userNames name :=
    fun name hname ↦ ⟨hnames name hname, fun _ ↦ hname⟩
  have htypes := settings.backend.isTemporary_of_mem_typeWords
  obtain ⟨locals, declared, hcode, hperm⟩ := emission_code
    (fun n _ ↦ n.keepsTypes_typeWords ⟨g, settings⟩) hwords hemission
  rw [EmitState.temporaries, ← List.range_eq_range'] at hperm
  refine ⟨s, _, _, hemission, rfl, (hcode .vertex).declarationsAmong?_eq htypes,
    (hcode .pixel).declarationsAmong?_eq htypes, hperm, fun u hu hclash ↦ ?_⟩
  obtain ⟨n, hn, hparameter | hreserved⟩ :=
    emission_namesUniforms hemission u.name (List.mem_map_of_mem hu)
  · exact ⟨n, hn, hparameter⟩
  · obtain ⟨hlocal, hslot⟩ := ne_generated hreserved
    obtain hmem | ⟨slot, heq⟩ := hclash
    · obtain ⟨k, -, hk⟩ := List.mem_map.mp (hperm.subset hmem)
      exact absurd hk.symm (hlocal k)
    · exact absurd heq (hslot slot)

/-- A graph with a parameter that is named like the first temporary. -/
def shadowedParameter : Graph :=
  .numbered
    [.pixelOutput {}, .arithmetic .add, .angle .sin, .uniform "angle" .scalar, .uniform "v0" .scalar]
    [⟨1, "Output", 0, "Input"⟩, ⟨2, "Output", 1, "Input1"⟩, ⟨4, "Output", 1, "Input2"⟩,
      ⟨3, "Output", 2, "Theta"⟩]

theorem compile_uniformNames_shadowedParameter :
    (∀ name ∈ shadowedParameter.userNames, IsWord name) ∧ ∃ a, compile {} shadowedParameter = .ok a ∧
      ∃ s vertex pixel, emission {} shadowedParameter = .ok s ∧ a = s.artifact {} ∧
        declarationsAmong? Backend.glsl.dialect.typeWords shadowedParameter.userNames
          s.vertex.main.text = some vertex ∧
        declarationsAmong? Backend.glsl.dialect.typeWords shadowedParameter.userNames
          s.pixel.main.text = some pixel ∧
        (vertex ++ pixel).Perm ((List.range s.nextVariable).map temporary) ∧
        ∀ u ∈ a.uniforms,
          u.name ∈ vertex ++ pixel ∨ (∃ slot, u.name = interpolatorName slot) →
            ∃ n ∈ shadowedParameter.nodes.values, u.name ∈ n.kind.parameterNames := by
  have hnames : ∀ name ∈ shadowedParameter.userNames, IsWord name := by decide +kernel
  obtain ⟨a, h⟩ := exists_ok_of_isOk (x := compile {} shadowedParameter) (by decide +kernel)
  exact ⟨hnames, a, h, compile_uniformNames hnames h⟩

/-- The program of the graph declares a temporary of the name of a uniform, and the sum that was to read
the uniform reads the temporary. -/
theorem declarations_shadowedParameter :
    (∀ name ∈ shadowedParameter.userNames, IsWord name) ∧
      (compile {} shadowedParameter).isOk ∧
      ∃ s, emission {} shadowedParameter = .ok s ∧ s.uniformNames = ["angle", "v0"] ∧
        tokens s.pixel.main.text =
          tokens "float v0 = sin(angle); float v1 = v0 + v0; _gl_FragData_0 = vec4(v1);" := by
  refine ⟨by decide +kernel, by decide +kernel, ?_⟩
  have hrun : ((emission {} shadowedParameter).map fun s ↦
      (s.uniformNames, s.pixel.main.text)).toOption =
      some (["angle", "v0"],
        "float v0 = sin(angle);\nfloat v1 = v0 + v0;\n_gl_FragData_0 = vec4(v1);\n") := by
    decide +kernel
  obtain ⟨s, hs, hparts⟩ := exists_ok_of_map hrun
  obtain ⟨huniforms, htext⟩ := Prod.mk.inj hparts
  refine ⟨s, hs, huniforms, ?_⟩
  rw [htext, tokens_ofList, tokens_ofList]
  rfl

end ShaderGraph
