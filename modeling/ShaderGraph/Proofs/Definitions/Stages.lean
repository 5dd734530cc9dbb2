import ShaderGraph.Proofs.Emission.Evaluation
import ShaderGraph.Proofs.Emission.Steps
import ShaderGraph.Proofs.Source.Lines

/-!
# Definitions of a stage

Vertex attributes and subroutines are entered in tables of the stage under names that the author of the
graph has given, and are written to a block of the stage at the same time. So the block holds exactly
what the table lists, once under each name and in the order of the table, and every entry comes from a
node of the graph.
-/

namespace ShaderGraph

open EmitM Emitter

/-- A vertex attribute, under the name by which vertex inputs share it. -/
structure VertexAttribute where
  name : String
  usage : AttributeUsage
  type : ValueType
  index : UInt32
deriving DecidableEq

namespace VertexAttribute

/-- What the sources of the dialect call the attribute. -/
def identifier (d : Dialect) (a : VertexAttribute) : String :=
  (d.vertexAttribute a.usage a.index).1

/-- The line that declares the attribute. -/
def declaration (d : Dialect) (a : VertexAttribute) : String :=
  d.attributeDeclaration a.type (a.identifier d) (d.vertexAttribute a.usage a.index).2

end VertexAttribute

/-- The attribute that a node reads if it is a vertex input. -/
def Node.attribute? (n : Node) : Option VertexAttribute :=
  match n.kind with
  | .vertexInput name usage type index => some ⟨name, usage, type, index⟩
  | _ => none

/-- A subroutine with the signature under which it is defined. -/
@[ext]
structure Subroutine where
  name : String
  signature : String
  body : String
deriving DecidableEq

/-- Appends the definition of the subroutine. -/
def Subroutine.write (b : CodeBuffer) (r : Subroutine) : CodeBuffer :=
  writeDefinition r.signature r.body b

/-- The subroutine that a node calls if it is a script. -/
def Node.subroutine? (d : Dialect) (n : Node) : Option Subroutine :=
  match n.kind with
  | .script name body inputs outputs => some ⟨name, d.signature name inputs outputs, body⟩
  | _ => none

theorem lookup_eq_none_iff_notMem {α : Type} {entries : List (String × α)} {name : String} :
    entries.lookup name = none ↔ name ∉ entries.map Prod.fst := by
  simp only [List.lookup_eq_none_iff, bne_iff_ne, List.mem_map, not_exists, not_and]
  exact ⟨fun h e he heq ↦ h e he heq.symm, fun h e he heq ↦ h e he heq.symm⟩

theorem nodup_map_concat {α β : Type} {f : α → β} {as : List α} {a : α} (h : (as.map f).Nodup)
    (hnew : f a ∉ as.map f) : ((as ++ [a]).map f).Nodup := by
  rw [List.map_append]
  refine List.nodup_append.mpr ⟨h, List.pairwise_singleton _ _, fun b hb c hc heq ↦ hnew ?_⟩
  rwa [← List.mem_singleton.mp hc, ← heq]

theorem forall_mem_concat {α : Type} {P : α → Prop} {as : List α} {a : α} (h : ∀ b ∈ as, P b)
    (ha : P a) : ∀ b ∈ as ++ [a], P b := by
  intro b hb
  rcases List.mem_append.mp hb with hb | hb
  · exact h b hb
  · exact List.mem_singleton.mp hb ▸ ha

/-! ## Stages -/

namespace StageShader

variable {d : Dialect} {g : Graph} {x y : StageShader}

/-- The table of vertex attributes and the block that declares them. -/
def attributeDefinitions (x : StageShader) : List (String × Variable) × CodeBuffer :=
  (x.attributes, x.inputs)

/-- The table of subroutines and the block that defines them. -/
def scriptDefinitions (x : StageShader) : List (String × String) × CodeBuffer :=
  (x.signatures, x.scripts)

/-- The inputs of the stage declare the attributes of the table, each of which is one of the graph. -/
def Attributed (d : Dialect) (g : Graph) (x : StageShader) : Prop :=
  ∃ attributes : List VertexAttribute,
    x.attributes.map Prod.fst = (attributes.map VertexAttribute.name).reverse ∧
    x.inputs = .ofLines (attributes.map (VertexAttribute.declaration d)) ∧
    (attributes.map VertexAttribute.name).Nodup ∧
    ∀ a ∈ attributes, ∃ n ∈ g.nodes.values, n.attribute? = some a

/-- The subroutines of the stage are those of the table, each of which is one of the graph. -/
def Scripted (d : Dialect) (g : Graph) (x : StageShader) : Prop :=
  ∃ subroutines : List Subroutine,
    x.signatures = (subroutines.map fun r ↦ (r.name, r.signature)).reverse ∧
    x.scripts = subroutines.foldl Subroutine.write {} ∧
    (subroutines.map Subroutine.name).Nodup ∧
    ∀ r ∈ subroutines, ∃ n ∈ g.nodes.values, n.subroutine? d = some r

theorem Attributed.congr (hx : x.Attributed d g) (h : y.attributeDefinitions = x.attributeDefinitions) :
    y.Attributed d g := by
  obtain ⟨hattributes, hinputs⟩ := Prod.mk.inj h
  rwa [Attributed, hattributes, hinputs]

theorem Scripted.congr (hx : x.Scripted d g) (h : y.scriptDefinitions = x.scriptDefinitions) :
    y.Scripted d g := by
  obtain ⟨hsignatures, hscripts⟩ := Prod.mk.inj h
  rwa [Scripted, hsignatures, hscripts]

/-- A new attribute is declared after the others. -/
theorem Attributed.add {a : VertexAttribute} (hx : x.Attributed d g) (hnew : x.attribute? a.name = none)
    (ha : ∃ n ∈ g.nodes.values, n.attribute? = some a)
    (hattributes : y.attributes.map Prod.fst = a.name :: x.attributes.map Prod.fst)
    (hinputs : y.inputs = x.inputs.line (a.declaration d)) : y.Attributed d g := by
  obtain ⟨attributes, htable, hblock, hnodup, hall⟩ := hx
  refine ⟨attributes ++ [a], ?_, ?_, nodup_map_concat hnodup ?_, forall_mem_concat hall ha⟩
  · rw [hattributes, htable, List.map_append, List.reverse_append]
    rfl
  · rw [hinputs, hblock, CodeBuffer.line_ofLines, List.map_append]
    rfl
  · rw [attribute?, lookup_eq_none_iff_notMem, htable] at hnew
    exact fun hmem ↦ hnew (List.mem_reverse.mpr hmem)

/-- A new subroutine is defined after the others. -/
theorem Scripted.add {r : Subroutine} (hx : x.Scripted d g) (hnew : x.signature? r.name = none)
    (hr : ∃ n ∈ g.nodes.values, n.subroutine? d = some r)
    (hsignatures : y.signatures = (r.name, r.signature) :: x.signatures)
    (hscripts : y.scripts = r.write x.scripts) : y.Scripted d g := by
  obtain ⟨subroutines, htable, hblock, hnodup, hall⟩ := hx
  refine ⟨subroutines ++ [r], ?_, ?_, nodup_map_concat hnodup ?_, forall_mem_concat hall hr⟩
  · rw [hsignatures, htable, List.map_append, List.reverse_append]
    rfl
  · rw [hscripts, hblock, List.foldl_append]
    rfl
  · rw [signature?, lookup_eq_none_iff_notMem, htable, List.map_reverse, List.map_map] at hnew
    exact fun hmem ↦ hnew (List.mem_reverse.mpr hmem)

end StageShader

/-! ## Emissions -/

namespace EmitState

variable {d : Dialect} {g : Graph} {s t : EmitState}

/-- What is defined: vertex attributes in the vertex stage, subroutines in both. -/
def definitions (s : EmitState) :
    (List (String × Variable) × CodeBuffer) × (ShaderStage → List (String × String) × CodeBuffer) :=
  ((s.shader .vertex).attributeDefinitions, fun stage ↦ (s.shader stage).scriptDefinitions)

/-- The definitions of both stages are those of their tables. -/
structure Defined (d : Dialect) (g : Graph) (s : EmitState) : Prop where
  attributed : (s.shader .vertex).Attributed d g
  scripted : ∀ stage, (s.shader stage).Scripted d g

theorem defined_empty (d : Dialect) (g : Graph) : ({} : EmitState).Defined d g where
  attributed := ⟨[], rfl, rfl, .nil, by simp⟩
  scripted stage := by cases stage <;> exact ⟨[], rfl, rfl, .nil, by simp⟩

theorem Defined.of_eq (hs : s.Defined d g) (h : t.definitions = s.definitions) : t.Defined d g where
  attributed := hs.attributed.congr (congrArg Prod.fst h)
  scripted stage := (hs.scripted stage).congr (congrFun (congrArg Prod.snd h) stage)

/-! What leaves the definitions alone. -/

theorem definitions_congr (hvertex : t.vertex = s.vertex) (hpixel : t.pixel = s.pixel) :
    t.definitions = s.definitions := by
  have hshader : t.shader = s.shader := by
    funext stage
    cases stage
    · exact hvertex
    · exact hpixel
  rw [definitions, definitions, hshader]

theorem definitions_modifyShader (s : EmitState) (stage : ShaderStage) {f : StageShader → StageShader}
    (hattributes : stage = .vertex → ∀ x, (f x).attributeDefinitions = x.attributeDefinitions)
    (hscripts : ∀ x, (f x).scriptDefinitions = x.scriptDefinitions) :
    (s.modifyShader stage f).definitions = s.definitions := by
  refine Prod.ext ?_ (funext fun other ↦ ?_)
  · by_cases hstage : stage = .vertex
    · dsimp only [definitions]
      rw [← hstage, shader_modifyShader, hattributes hstage]
    · dsimp only [definitions]
      rw [shader_modifyShader_of_ne _ _ (Ne.symm hstage)]
  · dsimp only [definitions]
    by_cases hother : other = stage
    · rw [hother, shader_modifyShader, hscripts]
    · rw [shader_modifyShader_of_ne _ _ hother]

theorem definitions_bindPin (s : EmitState) (pin : PinId) (v : Variable) :
    (s.bindPin pin v).definitions = s.definitions :=
  definitions_modifyShader s s.stage (fun _ _ ↦ rfl) fun _ ↦ rfl

theorem definitions_retype (s : EmitState) (pin : PinId) (type : ValueType) :
    (s.retype pin type).definitions = s.definitions :=
  definitions_modifyShader s s.stage (fun _ _ ↦ rfl) fun _ ↦ rfl

theorem definitions_allocate (s : EmitState) (pin : PinId) (type : ValueType) :
    (s.allocate pin type).definitions = s.definitions := by
  rw [allocate, definitions_bindPin]
  exact definitions_congr rfl rfl

/-- Text in a body defines nothing. -/
theorem stageDefinitions_modifyBody (x : StageShader) (f : CodeBuffer → CodeBuffer) :
    (x.modifyBody f).attributeDefinitions = x.attributeDefinitions ∧
      (x.modifyBody f).scriptDefinitions = x.scriptDefinitions := by
  unfold StageShader.modifyBody
  split <;> exact ⟨rfl, rfl⟩

theorem definitions_modifyBody (s : EmitState) (f : CodeBuffer → CodeBuffer) :
    (s.modifyBody f).definitions = s.definitions :=
  definitions_modifyShader s s.stage (fun _ x ↦ (stageDefinitions_modifyBody x f).1) fun x ↦
    (stageDefinitions_modifyBody x f).2

theorem definitions_beginCapture (s : EmitState) : s.beginCapture.definitions = s.definitions :=
  definitions_modifyShader s s.stage (fun _ _ ↦ rfl) fun _ ↦ rfl

theorem definitions_endCapture (s : EmitState) (stage : ShaderStage) :
    (s.endCapture stage).definitions = s.definitions := by
  have hend (x : StageShader) :
      x.closeScope.endCapture.2.attributeDefinitions = x.attributeDefinitions ∧
      x.closeScope.endCapture.2.scriptDefinitions = x.scriptDefinitions := by
    unfold StageShader.closeScope StageShader.endCapture
    split <;> split <;> exact ⟨rfl, rfl⟩
  exact (definitions_modifyShader _ stage (fun _ x ↦ (hend x).1) fun x ↦ (hend x).2).trans
    (definitions_congr rfl rfl)

theorem definitions_declareOnce (s : EmitState) {block : Block} (name : String)
    (declaration? : Option String) (hblock : block ≠ .inputs ∧ block ≠ .scripts) :
    (s.declareOnce block name declaration?).definitions = s.definitions := by
  have hdeclare (x : StageShader) : (x.declare name).attributeDefinitions = x.attributeDefinitions ∧
      (x.declare name).scriptDefinitions = x.scriptDefinitions := by
    unfold StageShader.declare
    split <;> exact ⟨rfl, rfl⟩
  have hwrite (x : StageShader) (line : String) :
      (x.modifyBlock block fun b ↦ b.line line).attributeDefinitions = x.attributeDefinitions ∧
      (x.modifyBlock block fun b ↦ b.line line).scriptDefinitions = x.scriptDefinitions := by
    cases block with
    | inputs => exact absurd rfl hblock.1
    | scripts => exact absurd rfl hblock.2
    | _ => exact ⟨rfl, rfl⟩
  unfold declareOnce
  split
  · rfl
  · cases declaration? with
    | none =>
      exact definitions_modifyShader s s.stage (fun _ x ↦ (hdeclare x).1) fun x ↦ (hdeclare x).2
    | some line =>
      exact definitions_modifyShader s s.stage
        (fun _ x ↦ (hwrite _ line).1.trans (hdeclare x).1) fun x ↦
          (hwrite _ line).2.trans (hdeclare x).2

theorem definitions_carry (s : EmitState) (pin : PinId) (v : Variable) :
    (s.carry d pin v).definitions = s.definitions := by
  unfold carry
  dsimp only
  rw [definitions_modifyShader (f := fun x ↦ x.bindOuter pin _) _ .pixel (fun h ↦ by cases h)
      fun _ ↦ rfl,
    definitions_modifyShader (f := fun x ↦ x.modifyBlock .inputs _) _ .pixel (fun h ↦ by cases h)
      fun _ ↦ rfl,
    definitions_modifyShader (f := fun x ↦ (x.modifyBlock .outputs _).modifyBody _) _ .vertex
      (fun _ _ ↦ (stageDefinitions_modifyBody _ _).1) fun _ ↦ (stageDefinitions_modifyBody _ _).2]
  exact definitions_congr rfl rfl

/-! What defines. -/

theorem Defined.addAttribute (hs : s.Defined d g) {a : VertexAttribute}
    (hnew : (s.shader s.stage).attribute? a.name = none)
    (ha : ∃ n ∈ g.nodes.values, n.attribute? = some a) :
    (s.addAttribute d a.name a.usage a.type a.index).Defined d g where
  attributed := by
    unfold EmitState.addAttribute
    by_cases hstage : .vertex = s.stage
    · rw [← hstage] at hnew ⊢
      rw [shader_modifyShader]
      exact hs.attributed.add hnew ha rfl rfl
    · rw [shader_modifyShader_of_ne _ _ hstage]
      exact hs.attributed
  scripted stage := by
    unfold EmitState.addAttribute
    by_cases hstage : stage = s.stage
    · subst hstage
      rw [shader_modifyShader]
      exact (hs.scripted s.stage).congr rfl
    · rw [shader_modifyShader_of_ne _ _ hstage]
      exact hs.scripted stage

theorem Defined.addScript (hs : s.Defined d g) {r : Subroutine}
    (hnew : (s.shader s.stage).signature? r.name = none)
    (hr : ∃ n ∈ g.nodes.values, n.subroutine? d = some r) :
    (s.addScript r.name r.signature r.body).Defined d g := by
  have hattributes (x : StageShader) (f : CodeBuffer → CodeBuffer) :
      ((x.modifyBlock .scripts f).defineScript r.name r.signature).attributeDefinitions =
        x.attributeDefinitions := rfl
  have hscripts (x : StageShader) (f : CodeBuffer → CodeBuffer) :
      ((x.modifyBlock .scripts f).defineScript r.name r.signature).scriptDefinitions =
        ((r.name, r.signature) :: x.signatures, f x.scripts) := rfl
  unfold EmitState.addScript
  refine ⟨?_, fun stage ↦ ?_⟩
  · by_cases hstage : .vertex = s.stage
    · rw [← hstage, shader_modifyShader]
      exact hs.attributed.congr (hattributes _ _)
    · rw [shader_modifyShader_of_ne _ _ hstage]
      exact hs.attributed
  · by_cases hstage : stage = s.stage
    · subst hstage
      obtain ⟨hsignatures, hblock⟩ :=
        Prod.mk.inj (hscripts (s.shader s.stage) (writeDefinition r.signature r.body))
      rw [shader_modifyShader]
      exact (hs.scripted s.stage).add hnew hr hsignatures hblock
    · rw [shader_modifyShader_of_ne _ _ hstage]
      exact hs.scripted stage

end EmitState

/-! ## Steps

Two kinds of steps define something, and both define what their node says. All others leave the
definitions of both stages alone, so the definitions are those of their tables at the end of every
emission.
-/

/-- The demand keeps definitions that are those of their tables. -/
def Demand.IsDefining (env : EmitEnv) (demand : Demand) : Prop :=
  ∀ id pin s v t, Returns env (demand id pin) s v t → s.Defined env.dialect env.graph →
    t.Defined env.dialect env.graph

section Inputs

variable {env : EmitEnv} {demand : Demand} {n : Node} {s t : EmitState} {pin : String}

theorem inputValue?_defined (hdemand : demand.IsDefining env) {value? : Option Variable}
    (h : Returns env (inputValue? demand n pin) s value? t) (hs : s.Defined env.dialect env.graph) :
    t.Defined env.dialect env.graph := by
  obtain ⟨p, -, ⟨c, v, -, -, hv⟩ | ⟨-, rfl, -⟩⟩ := inputValue?_cases h
  · exact hdemand _ _ _ _ _ hv hs
  · exact hs

theorem requireInput_defined (hdemand : demand.IsDefining env) {v : Variable}
    (h : Returns env (requireInput demand n pin) s v t) (hs : s.Defined env.dialect env.graph) :
    t.Defined env.dialect env.graph :=
  inputValue?_defined hdemand (returns_requireInput.mp h) hs

theorem captures_defined (hdemand : demand.IsDefining env) {pins : List String}
    {branches : List Branch} (h : Returns env (pins.mapM (captureBranch demand n)) s branches t)
    (hs : s.Defined env.dialect env.graph) : t.Defined env.dialect env.graph := by
  induction pins generalizing s branches with
  | nil =>
    obtain ⟨-, rfl⟩ := returns_mapM_nil.mp h
    exact hs
  | cons pin pins ih =>
    obtain ⟨branch, s', branches, hbranch, hrest, -⟩ := returns_mapM_cons.mp h
    simp only [captureBranch, returns_bind, returns_pure] at hbranch
    obtain ⟨⟨v, text⟩, t', hcapture, -, rfl⟩ := hbranch
    obtain ⟨u, hinput, -, rfl⟩ := returns_capture.mp hcapture
    have hu := requireInput_defined hdemand hinput (hs.of_eq s.definitions_beginCapture)
    exact ih hrest (hu.of_eq (u.definitions_endCapture s.stage))

theorem definitions_bindPins (bindings : List Binding) (s : EmitState) :
    (bindings.foldl (fun s b ↦ s.bindPin b.1 b.2) s).definitions = s.definitions := by
  induction bindings generalizing s with
  | nil => rfl
  | cons b bs ih => exact (ih _).trans (s.definitions_bindPin b.1 b.2)

theorem loopBody_defined (hdemand : demand.IsDefining env) {loop : Loop} {names : List String}
    {value : Variable} {condition? : Option String}
    (h : Returns env (loopBody demand n loop names) s (value, condition?) t)
    (hs : s.Defined env.dialect env.graph) : t.Defined env.dialect env.graph := by
  obtain ⟨bindings, u, -, hcondition, hvalue⟩ := loopBody_cases h
  have hcounters := hs.of_eq (definitions_bindPins bindings s)
  refine inputValue?_defined hdemand hvalue ?_
  obtain ⟨-, -, -, rfl⟩ | ⟨value?, hinput, -⟩ := loopCondition?_cases hcondition
  · exact hcounters
  · exact inputValue?_defined hdemand hinput hcounters

end Inputs

section Steps

variable {env : EmitEnv} {demand : Demand} {n : Node} {ns : List Node} {H K : Held} {s t : EmitState}

theorem Step.defined (hdemand : demand.IsDefining env) (hn : n ∈ env.graph.nodes.values)
    (h : Step env demand n H s K t) (hs : s.Defined env.dialect env.graph) :
    t.Defined env.dialect env.graph := by
  have hallocated {pin : PinId} {type : ValueType} :
      (s.allocate pin type).Defined env.dialect env.graph :=
    hs.of_eq (s.definitions_allocate pin type)
  cases h with
  | guard | convert | provide => exact hs
  | read h => exact inputValue?_defined hdemand h hs
  | hoist _ h => exact hdemand _ _ _ _ _ h hs
  | define | constant | declare =>
    exact hallocated.of_eq (EmitState.definitions_modifyBody _ _)
  | forward => exact hs.of_eq (s.definitions_bindPin _ _)
  | output | statement => exact hs.of_eq (s.definitions_modifyBody _)
  | @uniform _ name _ _ _ h =>
    obtain ⟨entry, -, rfl⟩ := returns_declareUniform.mp h
    have hentry := hs.of_eq (t := s.addUniform name entry) (EmitState.definitions_congr rfl rfl)
    exact hentry.of_eq (EmitState.definitions_declareOnce _ _ _ (by decide))
  | @sampler _ texture state _ _ _ _ _ _ _ _ h =>
    obtain ⟨-, rfl⟩ := returns_declareSampler.mp h
    have hentry := hs.of_eq (t := s.addSampler (s.samplerEntry env.dialect texture state))
      (EmitState.definitions_congr rfl rfl)
    exact hentry.of_eq (EmitState.definitions_declareOnce _ _ _ (by decide))
  | @vertexAttribute _ name usage type index _ _ _ h hkind =>
    obtain ⟨-, rfl⟩ | ⟨hnew, -, rfl⟩ := returns_vertexAttribute.mp h
    · exact hs
    · refine hs.addAttribute (a := ⟨name, usage, type, index⟩) hnew ⟨n, hn, ?_⟩
      rw [Node.attribute?, hkind]
  | @script _ name signature body _ h hkind =>
    obtain ⟨-, rfl⟩ | ⟨hnew, rfl⟩ := returns_defineScript.mp h
    · exact hs
    · refine hs.addScript (r := ⟨name, signature, body⟩) hnew ⟨n, hn, ?_⟩
      obtain ⟨inputs, outputs, hkind, rfl⟩ := hkind
      rw [Node.subroutine?, hkind]
  | target _ _ _ h =>
    obtain rfl := returns_declareOnce.mp h
    exact hs.of_eq (EmitState.definitions_declareOnce _ _ _ (by decide))
  | require | renderState => exact hs.of_eq (EmitState.definitions_congr rfl rfl)
  | branches pins arms h =>
    exact (captures_defined hdemand h hs).of_eq ((EmitState.definitions_modifyBody _ _).trans
      (EmitState.definitions_allocate _ _ _))
  | loop _ _ _ _ hstart h =>
    subst hstart
    have hbody := loopBody_defined hdemand h
      ((hallocated.of_eq (EmitState.definitions_congr rfl rfl)).of_eq
        (EmitState.definitions_beginCapture _))
    have hend := hbody.of_eq (EmitState.definitions_endCapture _ s.stage)
    exact hend.of_eq ((EmitState.definitions_modifyBody _ _).trans
      (EmitState.definitions_retype _ _ _))
  | cross _ _ h =>
    have ht := requireInput_defined hdemand h (hs.of_eq (EmitState.definitions_congr rfl rfl))
    exact ht.of_eq (EmitState.definitions_carry _ _ _)

theorem Steps.defined (hdemand : demand.IsDefining env) (hn : n ∈ env.graph.nodes.values)
    (h : Steps env demand n H s K t) (hs : s.Defined env.dialect env.graph) :
    t.Defined env.dialect env.graph := by
  induction h with
  | refl => exact hs
  | snoc _ hstep ih => exact hstep.defined hdemand hn (ih hs)

theorem runsReading_defined (hdemand : demand.IsDefining env) (hn : n ∈ env.graph.nodes.values)
    {pins : List String} {id : NodeId} (h : RunsReading env demand n pins (s.beginNode id) t)
    (hs : s.Defined env.dialect env.graph) : (t.endNode id).Defined env.dialect env.graph := by
  obtain ⟨H, hsteps, -⟩ := h
  have hbegin := hs.of_eq (t := s.beginNode id) (EmitState.definitions_congr rfl rfl)
  exact (hsteps.defined hdemand hn hbegin).of_eq (EmitState.definitions_congr rfl rfl)

theorem evaluate_isDefining : Demand.IsDefining env evaluate := by
  intro id pin s v t h
  refine evaluateWithin_induction (P := fun _ _ s _ t ↦ s.Defined env.dialect env.graph →
    t.Defined env.dialect env.graph) ?_ ?_ _ id pin s v t (returns_evaluate.mp h)
  · exact fun _ _ _ _ _ hs ↦ hs
  · exact fun demand hdemand _ _ n s v u hn _ _ _ hrun _ hs ↦
      runsReading_defined hdemand (Graph.node?_mem hn) hrun hs

theorem terminalRun_defined (hn : n ∈ env.graph.nodes.values) (h : TerminalRun env n s t)
    (hs : s.Defined env.dialect env.graph) : t.Defined env.dialect env.graph := by
  obtain ⟨u, hrun, rfl⟩ := h
  exact runsReading_defined evaluate_isDefining hn (emitKind_runs hrun) hs

theorem terminalRuns_defined (hns : ∀ n ∈ ns, n ∈ env.graph.nodes.values)
    (h : TerminalRuns env ns s t) (hs : s.Defined env.dialect env.graph) :
    t.Defined env.dialect env.graph := by
  induction h with
  | nil => exact hs
  | cons hrun _ ih =>
    obtain ⟨hn, hns⟩ := List.forall_mem_cons.mp hns
    exact ih hns (terminalRun_defined hn hrun hs)

end Steps

/-- The definitions are those of their tables at the end of every emission. -/
theorem emission_defined {settings : Settings} {g : Graph} {s : EmitState}
    (h : emission settings g = .ok s) : s.Defined settings.backend.dialect g := by
  obtain ⟨pixelOutput, t, u, hterminal, hpixel, hvertex, rfl⟩ := emission_runs h
  let env : EmitEnv := ⟨g, settings⟩
  have ht : t.Defined env.dialect env.graph :=
    terminalRun_defined (Graph.terminal_mem hterminal) hpixel (EmitState.defined_empty _ _)
  have hu : u.Defined env.dialect env.graph :=
    terminalRuns_defined (fun n hn ↦ (List.mem_filter.mp hn).1) hvertex
      (ht.of_eq (EmitState.definitions_congr rfl rfl))
  exact hu.of_eq (EmitState.definitions_congr rfl rfl)

end ShaderGraph
