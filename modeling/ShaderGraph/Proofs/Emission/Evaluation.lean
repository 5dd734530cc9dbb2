import ShaderGraph.Proofs.Data.Maps
import ShaderGraph.Proofs.Emission.Algebra
import ShaderGraph.Proofs.Emission.Arithmetic
import ShaderGraph.Proofs.Emission.Control
import ShaderGraph.Proofs.Emission.Resource
import ShaderGraph.Proofs.Emission.StageAccess
import ShaderGraph.Proofs.Source.Lines

/-!
# Runs of emitters and of whole compilations

The emitter of every kind runs by steps. What is kept by the steps of every emitter, given that its
demands keep it, therefore holds of the evaluation of every output, and so of a compilation.
-/

namespace ShaderGraph

namespace Graph

theorem node?_mem {g : Graph} {id : NodeId} {n : Node} (h : g.node? id = some n) :
    n ∈ g.nodes.values :=
  OrderedMap.mem_values_of_get? h

/-- The terminal node is the only pixel output. -/
theorem nodesOfKind_of_terminal {g : Graph} {n : Node} (h : g.terminal = .ok n) :
    g.nodesOfKind NodeKind.isPixelOutput = [n] := by
  unfold terminal at h
  split at h
  · cases h
  · next hnodes =>
    cases h
    exact hnodes
  · cases h

theorem terminal_mem {g : Graph} {n : Node} (h : g.terminal = .ok n) : n ∈ g.nodes.values := by
  have hmem : n ∈ g.nodesOfKind NodeKind.isPixelOutput := by simp [nodesOfKind_of_terminal h]
  exact (List.mem_filter.mp hmem).1

theorem isPixelOutput_of_terminal {g : Graph} {n : Node} (h : g.terminal = .ok n) :
    n.kind.isPixelOutput := by
  have hmem : n ∈ g.nodesOfKind NodeKind.isPixelOutput := by simp [nodesOfKind_of_terminal h]
  exact (List.mem_filter.mp hmem).2

end Graph

namespace EmitState

def beginNode (s : EmitState) (id : NodeId) : EmitState :=
  { s with inProgress := id :: s.inProgress }

def endNode (s : EmitState) (id : NodeId) : EmitState :=
  { s with inProgress := s.inProgress.filter (· ≠ id) }

/-- Some output of the node other than `pin` is bound. -/
def hasSibling (s : EmitState) (n : Node) (pin : PinId) : Bool :=
  n.outputs.any fun p ↦ p.id ≠ pin && (s.binding? p.id).isSome

end EmitState

/-- The inputs that a successful emitter of a node has evaluated: those of the layout of its kind,
with the exceptions of a constant index and of the optional pins of loops that the node does not
have. -/
def Node.readPins (g : Graph) (n : Node) : List String :=
  match n.kind with
  | .indexedUniform .. => Emitter.indexPins g n
  | .iterate .. | .iterate2d .. | .sum .. | .repeatWhile => "Input" :: Emitter.optionalPins n
  | k => k.inputPins.map PinSpec.name

namespace EmitM

open Emitter

variable {env : EmitEnv} {demand : Demand} {n : Node} {s t : EmitState}

theorem emitKind_runs (h : Returns env (emitKind demand n) s () t) :
    RunsReading env demand n (n.readPins env.graph) s t := by
  unfold emitKind at h
  unfold Node.readPins
  split at h <;> rename_i hkind <;> simp only [hkind]
  case h_1 => exact intrinsic_runs h
  case h_2 => exact angle_runs h
  case h_3 => exact arithmetic_runs h
  case h_4 f =>
    cases f <;> exact vectorFunction_runs h
  case h_5 => exact negate_runs h
  case h_6 => exact round_runs h
  case h_7 => exact truncate_runs h
  case h_8 => exact log_runs h
  case h_9 => exact length_runs h
  case h_10 => exact clamp_runs h
  case h_11 => exact derivative_runs h
  case h_12 => exact arcusTan_runs h
  case h_13 => exact mulAdd_runs h
  case h_14 => exact lerp_runs h
  case h_15 => exact power_runs h
  case h_16 => exact polynomial_runs h
  case h_17 => exact dot_runs h
  case h_18 => exact cross_runs h
  case h_19 => exact reflect_runs h
  case h_20 => exact swizzle_runs h
  case h_21 => exact mixIn_runs h
  case h_22 => exact mixOut_runs h
  case h_23 => exact matrixIn_runs h
  case h_24 => exact matrixOut_runs h
  case h_25 => exact transform_runs h
  case h_26 => exact transpose_runs h
  case h_27 => exact constant_runs h
  case h_28 => exact constant_runs h
  case h_29 => exact constant_runs h
  case h_30 => exact conditional_runs h
  case h_31 =>
    simpa [NodeKind.inputPins, PinSpec.required, Function.comp_def] using switch_runs hkind h
  case h_32 => exact discard_runs hkind h
  case h_33 => exact emitLoop_runs (by simp) h
  case h_34 => exact emitLoop_runs (by simp) h
  case h_35 => exact emitLoop_runs (by simp) h
  case h_36 => exact repeatWhile_runs h
  case h_37 => exact vertexInput_runs hkind h
  case h_38 => exact vertexOutput_runs h
  case h_39 => exact pixelOutput_runs h
  case h_40 => exact interpolator_runs hkind h
  case h_41 => exact fragmentPosition_runs h
  case h_42 => exact frontFace_runs h
  case h_43 => exact instanceIndex_runs h
  case h_44 => exact targetSize_runs h
  case h_45 => exact uniform_runs hkind h
  case h_46 => exact indexedUniform_runs (by simp [hkind, NodeKind.parameterNames]) h
  case h_47 => exact sampler_runs hkind h
  case h_48 => exact textureSize_runs h
  case h_49 =>
    simpa [NodeKind.inputPins, PinSpec.required, Function.comp_def] using
      script_runs hkind h
  case h_50 => exact absurd h returns_throw

theorem returns_runNode {a : Unit} :
    Returns env (runNode demand n) s a t ↔
      ∃ u, Returns env (emitKind demand n) (s.beginNode n.id) () u ∧ t = u.endNode n.id := by
  simp only [runNode, returns_bind]
  constructor
  · rintro ⟨⟨⟩, s₁, h₁, result, s₂, h₂, ⟨⟩, s₃, h₃, h₄⟩
    obtain rfl := returns_modify.mp h₁
    obtain rfl := returns_modify.mp h₃
    cases result with
    | error e => exact absurd h₄ returns_throw
    | ok b =>
      obtain ⟨-, rfl⟩ := returns_pure.mp h₄
      exact ⟨s₂, returns_attempt_ok.mp h₂, rfl⟩
  · rintro ⟨u, h, rfl⟩
    exact ⟨⟨⟩, _, returns_modify.mpr rfl, .ok (), u, returns_attempt_ok.mpr h, ⟨⟩, _,
      returns_modify.mpr rfl, returns_pure.mpr ⟨rfl, rfl⟩⟩

theorem returns_lookup {pin : PinId} {v? : Option Variable} :
    Returns env (lookup pin) s v? t ↔ v? = s.binding? pin ∧ t = s := by
  simp only [lookup, returns_bind, returns_get, returns_pure, and_assoc, exists_and_left,
    exists_eq_left]

theorem returns_hasBoundSibling {pin : PinId} {b : Bool} :
    Returns env (hasBoundSibling n pin) s b t ↔ b = s.hasSibling n pin ∧ t = s := by
  simp only [hasBoundSibling, returns_bind, returns_get, returns_pure, and_assoc, exists_and_left,
    exists_eq_left]
  rfl

/-- An evaluation finds the output bound, or it runs the emitter of the node, which is not running,
and finds the output bound after that. -/
theorem evaluateWithin_cases {depth : Nat} {id : NodeId} {pin : PinId} {v : Variable}
    (h : Returns env (evaluateWithin depth id pin) s v t) :
    (s.binding? pin = some v ∧ t = s) ∨
      ∃ d n u, depth = d + 1 ∧ env.graph.node? id = some n ∧ s.binding? pin = none ∧
        id ∉ s.inProgress ∧ s.hasSibling n pin = false ∧
        Returns env (emitKind (evaluateWithin d) n) (s.beginNode n.id) () u ∧
        t = u.endNode n.id ∧ t.binding? pin = some v := by
  cases hbound : s.binding? pin with
  | some w =>
    refine .inl ?_
    cases depth <;> rw [evaluateWithin] at h <;> simp only [returns_bind, returns_lookup] at h <;>
      obtain ⟨bound?, s₁, ⟨rfl, rfl⟩, h⟩ := h <;> rw [hbound] at h <;>
      obtain ⟨rfl, rfl⟩ := returns_pure.mp h <;> exact ⟨rfl, rfl⟩
  | none =>
    refine .inr ?_
    cases depth with
    | zero =>
      -- Without depth left every way ends in a failure.
      rw [evaluateWithin] at h
      simp only [returns_bind, returns_lookup] at h
      obtain ⟨bound?, s₁, ⟨rfl, rfl⟩, h⟩ := h
      rw [hbound] at h
      simp only [returns_bind, returns_read] at h
      obtain ⟨_, s₂, ⟨rfl, rfl⟩, h⟩ := h
      split at h
      · simp only [returns_bind, returns_get, returns_ite, returns_hasBoundSibling, returns_throw,
          exists_false, and_false, or_false] at h
      · exact absurd h returns_throw
    | succ d =>
      rw [evaluateWithin] at h
      simp only [returns_bind, returns_lookup] at h
      obtain ⟨bound?, s₁, ⟨rfl, rfl⟩, h⟩ := h
      rw [hbound] at h
      simp only [returns_bind, returns_read] at h
      obtain ⟨_, s₂, ⟨rfl, rfl⟩, h⟩ := h
      split at h
      · next n hn =>
        simp only [returns_bind, returns_get, returns_ite, returns_throw, false_and, exists_false,
          and_false, false_or, or_false, returns_hasBoundSibling, returns_lookup,
          returns_runNode] at h
        obtain ⟨_, s₃, ⟨rfl, rfl⟩, hidle, b, s₄, ⟨rfl, rfl⟩, hsibling, ⟨⟩, s₅, ⟨u, hrun, rfl⟩, w?,
          s₆, ⟨rfl, rfl⟩, h⟩ := h
        split at h
        · next w hw =>
          obtain ⟨rfl, rfl⟩ := returns_pure.mp h
          exact ⟨d, n, u, rfl, hn, rfl, hidle, by simpa using hsibling, hrun, rfl, hw⟩
        · exact absurd h returns_throw
      · exact absurd h returns_throw

/-- What holds of evaluations that find their output bound, and of those that run an emitter if it
holds of the demands of that emitter, holds of every evaluation. -/
theorem evaluateWithin_emitKind_induction
    {P : NodeId → PinId → EmitState → Variable → EmitState → Prop}
    (bound : ∀ id pin s v, s.binding? pin = some v → P id pin s v s)
    (run : ∀ demand : Demand,
      (∀ id pin s v t, Returns env (demand id pin) s v t → P id pin s v t) →
      ∀ id pin n s v u, env.graph.node? id = some n → s.binding? pin = none → id ∉ s.inProgress →
        s.hasSibling n pin = false → Returns env (emitKind demand n) (s.beginNode n.id) () u →
        (u.endNode n.id).binding? pin = some v → P id pin s v (u.endNode n.id)) :
    ∀ depth id pin s v t, Returns env (evaluateWithin depth id pin) s v t → P id pin s v t := by
  intro depth
  induction depth with
  | zero =>
    intro id pin s v t h
    obtain ⟨hbound, rfl⟩ | ⟨d, _, _, hd, _⟩ := evaluateWithin_cases h
    · exact bound id pin _ v hbound
    · cases hd
  | succ d ih =>
    intro id pin s v t h
    obtain ⟨hbound, rfl⟩ | ⟨d', n, u, hd, hn, hnone, hidle, hsibling, hrun, rfl, hv⟩ :=
      evaluateWithin_cases h
    · exact bound id pin _ v hbound
    · cases hd
      exact run (evaluateWithin d) ih id pin n s v u hn hnone hidle hsibling hrun hv

theorem evaluateWithin_induction {P : NodeId → PinId → EmitState → Variable → EmitState → Prop}
    (bound : ∀ id pin s v, s.binding? pin = some v → P id pin s v s)
    (run : ∀ demand : Demand,
      (∀ id pin s v t, Returns env (demand id pin) s v t → P id pin s v t) →
      ∀ id pin n s v u, env.graph.node? id = some n → s.binding? pin = none → id ∉ s.inProgress →
        s.hasSibling n pin = false →
        RunsReading env demand n (n.readPins env.graph) (s.beginNode n.id) u →
        (u.endNode n.id).binding? pin = some v → P id pin s v (u.endNode n.id)) :
    ∀ depth id pin s v t, Returns env (evaluateWithin depth id pin) s v t → P id pin s v t :=
  evaluateWithin_emitKind_induction bound fun demand hdemand id pin n s v u hn hnone hidle hsibling
    hrun ↦ run demand hdemand id pin n s v u hn hnone hidle hsibling (emitKind_runs hrun)

theorem returns_evaluate {id : NodeId} {pin : PinId} {v : Variable} :
    Returns env (evaluate id pin) s v t ↔
      Returns env (evaluateWithin (emissionDepth env.graph) id pin) s v t := by
  simp only [evaluate, returns_bind, returns_read, and_assoc, exists_and_left, exists_eq_left,
    exists_eq_left']

/-- A run of the emitter of a terminal node. -/
def TerminalRun (env : EmitEnv) (n : Node) (s t : EmitState) : Prop :=
  ∃ u, Returns env (emitKind evaluate n) (s.beginNode n.id) () u ∧ t = u.endNode n.id

/-- Runs of the emitters of several terminal nodes, one after another. -/
inductive TerminalRuns (env : EmitEnv) : List Node → EmitState → EmitState → Prop
  | nil {s : EmitState} : TerminalRuns env [] s s
  | cons {n : Node} {ns : List Node} {s t u : EmitState} (h : TerminalRun env n s t)
    (hrest : TerminalRuns env ns t u) : TerminalRuns env (n :: ns) s u

theorem terminalRuns_of_returns {ns : List Node} {a : PUnit}
    (h : Returns env (ns.forM (runNode evaluate)) s a t) : TerminalRuns env ns s t := by
  induction ns generalizing s with
  | nil =>
    obtain rfl := returns_forM_nil.mp h
    exact .nil
  | cons n ns ih =>
    obtain ⟨u, hn, hns⟩ := returns_forM_cons.mp h
    exact .cons (returns_runNode.mp hn) (ih hns)

end EmitM

open EmitM

section Results

variable {ε α β : Type} {x : Except ε α}

/-- A result that has been found to be one. -/
theorem exists_ok_of_isOk (h : x.isOk) : ∃ a, x = .ok a := by
  cases x with
  | error e => cases h
  | ok a => exact ⟨a, rfl⟩

/-- A result of which a part has been computed. -/
theorem exists_ok_of_map {f : α → β} {b : β} (h : (x.map f).toOption = some b) :
    ∃ a, x = .ok a ∧ f a = b := by
  cases x with
  | error e => cases h
  | ok a => exact ⟨a, rfl, Option.some.inj h⟩

end Results

/-- The state in which the emission of a graph ends. -/
def emission (settings : Settings) (g : Graph) : Except CompileError EmitState := do
  g.validate.mapError (GraphError.toCompileError g)
  let pixelOutput ← g.terminal
  let action := EmitM.emitProgram pixelOutput (g.nodesOfKind NodeKind.isVertexOutput)
  let (result, state) := (action.run ⟨g, settings⟩).run.run {}
  let _ ← result
  return state

/-- An emission that succeeds has a valid graph with a terminal, and its action returns. -/
theorem emission_eq_ok_iff {settings : Settings} {g : Graph} {s : EmitState} :
    emission settings g = .ok s ↔
      g.validate = .ok () ∧ ∃ n, g.terminal = .ok n ∧
        Returns ⟨g, settings⟩ (emitProgram n (g.nodesOfKind NodeKind.isVertexOutput)) {} () s := by
  unfold emission
  cases hvalid : g.validate with
  | error e => simp [Except.mapError, bind, Except.bind]
  | ok a =>
    cases hterminal : g.terminal with
    | error e => simp [Except.mapError, bind, Except.bind]
    | ok n =>
      simp only [Except.mapError, bind, Except.bind, Returns, Except.ok.injEq, exists_eq_left',
        true_and]
      cases hrun : ((emitProgram n (g.nodesOfKind NodeKind.isVertexOutput)).run
          ⟨g, settings⟩).run.run {} with
      | mk result state =>
        cases result with
        | error e => constructor <;> intro h <;> cases h
        | ok b => constructor <;> intro h <;> cases h <;> rfl

/-- The lines of a body are found by comparing its text with that of the lines. -/
theorem exists_emission_of_lines (settings : Settings) (g : Graph) (stage : ShaderStage)
    {lines : List String} (hlines : ∀ l ∈ lines, IsLine l)
    (h : ((emission settings g).map fun s ↦ (s.shader stage).main.text).toOption =
      some (CodeBuffer.ofLines lines).text) :
    ∃ s, emission settings g = .ok s ∧ textLines (s.shader stage).main.text = lines := by
  obtain ⟨s, hs, htext⟩ := exists_ok_of_map h
  exact ⟨s, hs, by rw [htext, CodeBuffer.textLines_ofLines hlines]⟩

/-- A compilation assembles the program of the state in which the emission ends. -/
theorem compile_eq_map_emission (settings : Settings) (g : Graph) :
    compile settings g = (emission settings g).map (·.artifact settings) := by
  unfold compile emission
  cases g.validate with
  | error e => rfl
  | ok a =>
    cases g.terminal with
    | error e => rfl
    | ok n =>
      simp only [Except.mapError, bind, Except.bind]
      cases ((emitProgram n (g.nodesOfKind NodeKind.isVertexOutput)).run
        ⟨g, settings⟩).run.run {} with
      | mk result state => cases result <;> rfl

/-- A compilation succeeds exactly if its emission does, and then yields the program of the state in
which the emission ends. -/
theorem compile_eq_ok_iff {settings : Settings} {g : Graph} {a : Artifact} :
    compile settings g = .ok a ↔ ∃ s, emission settings g = .ok s ∧ a = s.artifact settings := by
  rw [compile_eq_map_emission]
  cases emission settings g <;> simp [Except.map, eq_comm]

/-- An emission that succeeds runs the emitter of the only pixel output, and after it those of the
vertex outputs in the vertex stage. -/
theorem emission_runs {settings : Settings} {g : Graph} {s : EmitState}
    (h : emission settings g = .ok s) :
    ∃ pixelOutput t u, g.terminal = .ok pixelOutput ∧
      TerminalRun ⟨g, settings⟩ pixelOutput {} t ∧
      TerminalRuns ⟨g, settings⟩ (g.nodesOfKind NodeKind.isVertexOutput)
        { t with stage := .vertex } u ∧
      s = { u with stage := .pixel } := by
  obtain ⟨-, n, hn, h⟩ := emission_eq_ok_iff.mp h
  simp only [emitProgram, returns_bind] at h
  obtain ⟨⟨⟩, s₁, h₁, ⟨⟩, t, ht, ⟨⟩, s₂, h₂, ⟨⟩, u, hu, h₃⟩ := h
  obtain rfl := returns_modify.mp h₁
  obtain rfl := returns_modify.mp h₂
  obtain rfl := returns_modify.mp h₃
  exact ⟨n, t, u, hn, returns_runNode.mp ht, terminalRuns_of_returns hu, rfl⟩

end ShaderGraph
