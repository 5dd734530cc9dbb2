import ShaderGraph.Proofs.Scope.Program
import ShaderGraph.Proofs.Upstream.Coverage

/-!
# What a compiled program has demanded

A compilation that succeeds has evaluated every node that feeds a stage, in that stage. So these nodes
exist and work there, and each of their inputs has a value.
-/

namespace ShaderGraph

open EmitM

section Terminals

variable {env : EmitEnv} {n : Node} {ns : List Node} {s t : EmitState}
  {done running : ShaderStage → Set NodeId}

theorem terminalRun_covered (hg : env.graph.IsWired) (hrun : TerminalRun env n s t)
    (h : env.graph.Covered done running s) (hn : n ∈ env.graph.nodes.values)
    (hfeeds : s.stage = .pixel → env.graph.FeedsPixel n.id) :
    ∃ done', done ≤ done' ∧ env.graph.Covered done' running t ∧ n.id ∈ done' s.stage ∧
      t.stage = s.stage := by
  obtain ⟨u, hrun, rfl⟩ := hrun
  have hnode := nodeRun_of_returns evaluate_keepsStage hrun
  have hruns : n.kind.runsIn (s.beginNode n.id).stage := emitKind_runsIn hrun
  obtain ⟨done', hle, hcovered, hdone⟩ := hnode.evaluated hg evaluate_keepsStage
    (evaluate_isCovering hg) h (hg.consistent.mem_nodes_iff.mp hn) hruns hfeeds
  have hback : u.stage = (s.beginNode n.id).stage := hnode.stage_eq evaluate_keepsStage
  exact ⟨done', hle, hcovered, hdone, hback⟩

theorem terminalRuns_covered (hg : env.graph.IsWired) (hrun : TerminalRuns env ns s t)
    (h : env.graph.Covered done running s) (hns : ∀ n ∈ ns, n ∈ env.graph.nodes.values)
    (hvertex : s.stage = .vertex) :
    ∃ done', done ≤ done' ∧ env.graph.Covered done' running t ∧
      ∀ n ∈ ns, n.id ∈ done' .vertex := by
  induction hrun generalizing done with
  | nil => exact ⟨done, le_refl _, h, by simp⟩
  | cons hrun _ ih =>
    obtain ⟨done', hle, hcovered, hdone, hstage⟩ := terminalRun_covered hg hrun h
      (hns _ List.mem_cons_self) (by simp [hvertex])
    rw [hvertex] at hdone hstage
    obtain ⟨done'', hle', hcovered', hrest⟩ := ih hcovered
      (fun n hn ↦ hns n (List.mem_cons_of_mem _ hn)) hstage
    refine ⟨done'', hle.trans hle', hcovered', fun n hn ↦ ?_⟩
    rcases List.mem_cons.mp hn with rfl | hn
    · exact hle' _ hdone
    · exact hrest n hn

end Terminals

namespace Graph

variable {g : Graph} {settings : Settings} {s : EmitState} {id : NodeId} {n : Node}
  {done : ShaderStage → Set NodeId}

theorem eq_of_terminal {pixelOutput : Node} (h : g.terminal = .ok pixelOutput)
    (hn : n ∈ g.nodes.values) (hkind : n.kind.isPixelOutput) : n = pixelOutput := by
  have hmem : n ∈ g.nodesOfKind NodeKind.isPixelOutput := List.mem_filter.mpr ⟨hn, hkind⟩
  simpa [nodesOfKind_of_terminal h] using hmem

/-- The emission has evaluated the outputs of both stages, and nothing is left running. -/
structure Demanded (g : Graph) (done : ShaderStage → Set NodeId) (s : EmitState) : Prop where
  wired : g.IsWired
  covered : g.Covered done (fun _ ↦ ∅) s
  pixelOutputs : ∀ n ∈ g.nodes.values, n.kind.isPixelOutput → n.id ∈ done .pixel
  vertexOutputs : ∀ n ∈ g.nodes.values, n.kind.isVertexOutput → n.id ∈ done .vertex

theorem covered_empty : g.Covered (fun _ ↦ ∅) (fun _ ↦ ∅) {} where
  bound stage pin hpin := by cases stage <;> simp [EmitState.shader, StageShader.boundPins] at hpin
  settled _ _ hid := hid.elim
  crossed _ hid := hid.elim
  feeds _ hid := hid.elim False.elim False.elim

theorem emission_demanded (hbuilt : g.Built) (hlaidOut : g.IsLaidOut)
    (h : emission settings g = .ok s) : ∃ done, g.Demanded done s := by
  have hg : g.IsWired :=
    ⟨hbuilt.consistent, hlaidOut, joins_of_validate (emission_eq_ok_iff.mp h).1⟩
  obtain ⟨pixelOutput, t, u, hterminal, hpixel, hvertex, rfl⟩ := emission_runs h
  obtain ⟨done, -, hcovered, hdone, -⟩ := terminalRun_covered hg hpixel covered_empty
    (terminal_mem hterminal) fun _ ↦ .output (terminal_mem hterminal) (isPixelOutput_of_terminal hterminal)
  obtain ⟨done', hle, hcovered', hdone'⟩ := terminalRuns_covered hg hvertex
    (hcovered.congr rfl rfl) (fun n hn ↦ (List.mem_filter.mp hn).1) rfl
  refine ⟨done', hg, hcovered'.congr rfl rfl, fun n hn hkind ↦ ?_, fun n hn hkind ↦
    hdone' n (List.mem_filter.mpr ⟨hn, hkind⟩)⟩
  rw [eq_of_terminal hterminal hn hkind]
  exact hle _ hdone

namespace Demanded

/-- A node without inputs. -/
theorem inputs_of_isConstant (h : g.Demanded done s) (hid : g.IsConstant id) :
    ∃ n, g.node? id = some n ∧ n.inputs = [] ∧ ∀ stage, n.kind.runsIn stage := by
  obtain ⟨n, value, hn, hkind⟩ := hid
  have hinputs := (h.wired.laidOut.nodes n (OrderedMap.mem_values_of_get? hn)).inputs
  rw [hkind] at hinputs
  exact ⟨n, hn, List.map_eq_nil_iff.mp hinputs, fun stage ↦ by rw [hkind]; cases stage <;> rfl⟩

/-- The sources of a node that has been evaluated have been evaluated. -/
theorem source (h : g.Demanded done s) {stage : ShaderStage} (hid : id ∈ done stage ∨ g.IsConstant id)
    {c : Connection} (hc : c ∈ g.connections.values) (hto : c.toNode = id)
    (hn : g.node? id = some n) :
    c.fromNode ∈ done (n.kind.inputStage stage) ∨ g.IsConstant c.fromNode := by
  obtain ⟨m, p, hm, hp, hdriver⟩ := h.wired.target hc
  rw [hto, hn] at hm
  obtain rfl := Option.some.inj hm
  rcases hid with hid | hid
  · obtain ⟨m, hm, -, hinputs⟩ := h.covered.settled stage id hid
    obtain rfl := Option.some.inj (hn.symm.trans hm)
    cases hinputs p hp with
    | driven hc' hsource =>
      obtain rfl := Option.some.inj (hdriver.symm.trans hc')
      simpa using hsource
    | unconnected hnone => simp [hnone] at hdriver
  · obtain ⟨m, hm, hinputs, -⟩ := h.inputs_of_isConstant hid
    obtain rfl := Option.some.inj (hn.symm.trans hm)
    simp [hinputs] at hp

theorem feedsPixel (h : g.Demanded done s) (hid : g.FeedsPixel id) :
    id ∈ done .pixel ∨ g.IsConstant id := by
  induction hid with
  | output hn hkind => exact .inl (h.pixelOutputs _ hn hkind)
  | input _ hn hkind hc hto ih => simpa [NodeKind.inputStage, hkind] using h.source ih hc hto hn

theorem feedsVertex (h : g.Demanded done s) (hid : g.FeedsVertex id) :
    id ∈ done .vertex ∨ g.IsConstant id := by
  induction hid with
  | output hn hkind => exact .inl (h.vertexOutputs _ hn hkind)
  | interpolator hfeeds hn hkind hc hto =>
    simpa [NodeKind.inputStage, hkind] using h.source (h.feedsPixel hfeeds) hc hto hn
  | input _ hc hto ih =>
    obtain ⟨n, p, hn, -, -⟩ := h.wired.target hc
    rw [hto] at hn
    simpa [NodeKind.inputStage] using h.source ih hc hto hn

end Demanded

/-- The nodes that feed a stage. -/
def Feeds (g : Graph) : ShaderStage → NodeId → Prop
  | .pixel => g.FeedsPixel
  | .vertex => g.FeedsVertex

end Graph

/-- In a graph that compiles, a node that feeds a stage is of a kind that works in the stage, and each
of its inputs is connected, has a default or is optional. -/
theorem compile_demands {settings : Settings} {g : Graph} {a : Artifact} (hbuilt : g.Built)
    (hlaidOut : g.IsLaidOut) (h : compile settings g = .ok a) (stage : ShaderStage) (id : NodeId)
    (hfeeds : g.Feeds stage id) :
    ∃ n, g.node? id = some n ∧ n.kind.runsIn stage ∧ ∀ p ∈ n.inputs, p.isOptional = false →
      (g.driver? p.id).isSome ∨ p.default?.isSome := by
  obtain ⟨s, hemission, -⟩ := compile_eq_ok_iff.mp h
  obtain ⟨done, hdemanded⟩ := Graph.emission_demanded hbuilt hlaidOut hemission
  have hid : id ∈ done stage ∨ g.IsConstant id := by
    cases stage with
    | pixel => exact hdemanded.feedsPixel hfeeds
    | vertex => exact hdemanded.feedsVertex hfeeds
  rcases hid with hid | hid
  · obtain ⟨n, hn, hruns, hinputs⟩ := hdemanded.covered.settled stage id hid
    refine ⟨n, hn, hruns, fun p hp hrequired ↦ ?_⟩
    cases hinputs p hp with
    | driven hc => exact .inl (by simp [hc])
    | unconnected _ hvalue => exact .inr (by simpa [hrequired] using hvalue)
  · obtain ⟨n, hn, hinputs, hruns⟩ := hdemanded.inputs_of_isConstant hid
    exact ⟨n, hn, hruns stage, by simp [hinputs]⟩

/-- What is connected to a node that feeds the pixel stage feeds it as well, unless the node is an
interpolator. -/
theorem Graph.FeedsPixel.of_connected {g : Graph} {id target : NodeId} (h : g.FeedsPixel target)
    (hkind : (g.node? target).any fun n ↦ n.kind.isInterpolator = false)
    (hc : ∃ c ∈ g.connections.values, c.toNode = target ∧ c.fromNode = id) : g.FeedsPixel id := by
  obtain ⟨n, hn, hkind⟩ := (Option.any_eq_true ..).mp hkind
  obtain ⟨c, hmem, hto, rfl⟩ := hc
  exact .input h hn (of_decide_eq_true hkind) hmem hto

theorem feedsPixel_branch : loopInBranch.FeedsPixel (Graph.nodeNumber 1) := by
  have houtput : loopInBranch.FeedsPixel (Graph.nodeNumber 0) := by
    obtain ⟨n, hn, hkind, hid⟩ : ∃ n ∈ loopInBranch.nodes.values, n.kind.isPixelOutput ∧
        n.id = Graph.nodeNumber 0 := by
      decide +kernel
    exact hid ▸ .output hn hkind
  exact houtput.of_connected (by decide +kernel) (by decide +kernel)

/-- The body of the loop in `loopInBranch` feeds the pixel stage. -/
theorem feedsPixel_body : loopInBranch.FeedsPixel (Graph.nodeNumber 7) := by
  have hloop : loopInBranch.FeedsPixel (Graph.nodeNumber 5) :=
    feedsPixel_branch.of_connected (by decide +kernel) (by decide +kernel)
  exact hloop.of_connected (by decide +kernel) (by decide +kernel)

/-- The attribute of `loopInBranch` feeds the vertex stage through an interpolator. -/
theorem feedsVertex_attribute : loopInBranch.FeedsVertex (Graph.nodeNumber 4) := by
  have hinterpolator : loopInBranch.FeedsPixel (Graph.nodeNumber 3) :=
    feedsPixel_branch.of_connected (by decide +kernel) (by decide +kernel)
  have hkind : (loopInBranch.node? (Graph.nodeNumber 3)).any fun n ↦ n.kind.isInterpolator := by
    decide +kernel
  obtain ⟨n, hn, hkind⟩ := (Option.any_eq_true ..).mp hkind
  obtain ⟨c, hc, hto, hfrom⟩ : ∃ c ∈ loopInBranch.connections.values,
      c.toNode = Graph.nodeNumber 3 ∧ c.fromNode = Graph.nodeNumber 4 := by
    decide +kernel
  exact hfrom ▸ .interpolator hinterpolator hn hkind hc hto

/-- A product in the body of a loop, both inputs of which are required, and an attribute, which works in
the vertex stage only. -/
theorem compile_demands_loopInBranch :
    loopInBranch.Built ∧ loopInBranch.IsLaidOut ∧ loopInBranch.Feeds .pixel (Graph.nodeNumber 7) ∧
      loopInBranch.Feeds .vertex (Graph.nodeNumber 4) ∧
      ∃ a, compile {} loopInBranch = .ok a ∧
        (∃ n, loopInBranch.node? (Graph.nodeNumber 7) = some n ∧
          n.inputs.map Pin.isOptional = [false, false] ∧
          n.kind.runsIn .pixel ∧ ∀ p ∈ n.inputs, p.isOptional = false →
            (loopInBranch.driver? p.id).isSome ∨ p.default?.isSome) ∧
        ∃ n, loopInBranch.node? (Graph.nodeNumber 4) = some n ∧
          n.kind.runsIn .vertex ∧ ∀ p ∈ n.inputs, p.isOptional = false →
            (loopInBranch.driver? p.id).isSome ∨ p.default?.isSome := by
  have hbuilt : loopInBranch.Built := Graph.built_numbered _ _
  have hlaidOut : loopInBranch.IsLaidOut := by decide +kernel
  obtain ⟨a, h⟩ := exists_compile_loopInBranch
  obtain ⟨n, hn, hbody⟩ := compile_demands hbuilt hlaidOut h .pixel _ feedsPixel_body
  have hrequired : n.inputs.map Pin.isOptional = [false, false] := by
    obtain rfl := Option.some.inj hn
    decide +kernel
  exact ⟨hbuilt, hlaidOut, feedsPixel_body, feedsVertex_attribute, a, h, ⟨n, hn, hrequired, hbody⟩,
    compile_demands hbuilt hlaidOut h .vertex _ feedsVertex_attribute⟩

end ShaderGraph
