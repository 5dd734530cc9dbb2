import ShaderGraph.Proofs.Emission.Declarations
import ShaderGraph.Proofs.Emission.Evaluation

/-!
# Moves

The run of an emitter seen from outside. It evaluates inputs of its node, and outputs in front of
branches and loops, and in between it moves: it writes, declares, and binds outputs of its node in the
stage in which it runs. An interpolator in the pixel stage is the one exception; it evaluates its input
in the vertex stage.
-/

namespace ShaderGraph

open EmitM Emitter

namespace StageShader

variable {s : StageShader} {pin : PinId}

/-- The pins that are bound in a stage. -/
def boundPins (s : StageShader) : List PinId :=
  s.bindings.map Prod.fst ++ s.outer.map Prod.fst

theorem isSome_lookup_iff {bindings : List Binding} :
    (bindings.lookup pin).isSome ↔ pin ∈ bindings.map Prod.fst := by
  induction bindings with
  | nil => simp
  | cons b bs ih =>
    rw [List.lookup_cons]
    by_cases h : pin = b.1
    · simp [h]
    · have hne : (pin == b.1) = false := by simpa using h
      simp only [hne, ih, List.map_cons, List.mem_cons, h, false_or]

theorem isSome_binding?_iff : (s.binding? pin).isSome ↔ pin ∈ s.boundPins := by
  rw [StageShader.binding?, Option.isSome_or, Bool.or_eq_true, isSome_lookup_iff, isSome_lookup_iff,
    boundPins, List.mem_append]

theorem map_fst_retypeFirst (pin : PinId) (type : ValueType) (bindings : List Binding) :
    (retypeFirst pin type bindings).map Prod.fst = bindings.map Prod.fst := by
  induction bindings with
  | nil => rfl
  | cons b bs ih =>
    unfold retypeFirst
    split
    · next h => simp [h]
    · simp [ih]

end StageShader

/-- The names in the table of uniforms. -/
def EmitState.uniformNames (s : EmitState) : List String :=
  s.uniforms.values.map UniformDeclaration.name

/-- The names under which the emitter of a kind may declare uniforms: those of its parameters, and
names that start with an underscore, which are the compiler's own. -/
def NodeKind.MayDeclareUniform (k : NodeKind) (name : String) : Prop :=
  name ∈ k.parameterNames ∨ name.toList.head? = some '_'

/-- A change of the state by the emitter of a node that demands nothing. -/
structure Move (n : Node) (s t : EmitState) : Prop where
  stage : t.stage = s.stage
  elsewhere : ∀ stage, stage ≠ s.stage → t.shader stage = s.shader stage
  interpolators : t.interpolators = s.interpolators
  boundPins : ∀ stage, ∀ pin ∈ (t.shader stage).boundPins,
    pin ∈ (s.shader stage).boundPins ∨ (stage = s.stage ∧ ∃ p ∈ n.outputs, p.id = pin)
  outer : ∀ stage, (t.shader stage).outer = (s.shader stage).outer
  outputs : t.vertex.outputs = s.vertex.outputs
  inputs : t.pixel.inputs = s.pixel.inputs
  uniforms : ∀ name ∈ t.uniformNames, name ∈ s.uniformNames ∨ n.kind.MayDeclareUniform name

namespace Move

variable {n : Node} {s t u : EmitState}

theorem refl (s : EmitState) : Move n s s :=
  ⟨rfl, fun _ _ ↦ rfl, rfl, fun _ _ h ↦ .inl h, fun _ ↦ rfl, rfl, rfl, fun _ ↦ .inl⟩

theorem trans (h : Move n s t) (h' : Move n t u) : Move n s u where
  stage := h'.stage.trans h.stage
  elsewhere stage hne := (h'.elsewhere stage (h.stage ▸ hne)).trans (h.elsewhere stage hne)
  interpolators := h'.interpolators.trans h.interpolators
  boundPins stage pin hpin := by
    obtain hpin | ⟨hstage, hp⟩ := h'.boundPins stage pin hpin
    · exact h.boundPins stage pin hpin
    · exact .inr ⟨hstage.trans h.stage, hp⟩
  outer stage := (h'.outer stage).trans (h.outer stage)
  outputs := h'.outputs.trans h.outputs
  inputs := h'.inputs.trans h.inputs
  uniforms name hname := (h'.uniforms name hname).elim (h.uniforms name) .inr

/-- Counters and all tables but that of the uniforms may change in any way. -/
theorem of_shaders (hstage : t.stage = s.stage) (hinterpolators : t.interpolators = s.interpolators)
    (hvertex : t.vertex = s.vertex) (hpixel : t.pixel = s.pixel) (huniforms : t.uniforms = s.uniforms) :
    Move n s t := by
  have hshader (stage : ShaderStage) : t.shader stage = s.shader stage := by
    cases stage
    · exact hvertex
    · exact hpixel
  refine ⟨hstage, fun stage _ ↦ hshader stage, hinterpolators, fun stage pin hpin ↦ .inl ?_,
    fun stage ↦ ?_, ?_, ?_,
    fun name hname ↦ .inl ?_⟩
  · rwa [hshader] at hpin
  · rw [hshader]
  · rw [hvertex]
  · rw [hpixel]
  · rwa [EmitState.uniformNames, huniforms] at hname

/-- A change of the current stage. -/
theorem modifyShader {f : StageShader → StageShader}
    (hbound : ∀ pin ∈ (f (s.shader s.stage)).boundPins,
      pin ∈ (s.shader s.stage).boundPins ∨ ∃ p ∈ n.outputs, p.id = pin)
    (houter : (f (s.shader s.stage)).outer = (s.shader s.stage).outer)
    (houtputs : s.stage = .vertex → (f s.vertex).outputs = s.vertex.outputs)
    (hinputs : s.stage = .pixel → (f s.pixel).inputs = s.pixel.inputs) :
    Move n s (s.modifyShader s.stage f) where
  stage := EmitState.stage_modifyShader ..
  elsewhere _ hne := EmitState.shader_modifyShader_of_ne _ _ hne
  interpolators := EmitState.interpolators_modifyShader ..
  boundPins stage pin hpin := by
    by_cases hstage : stage = s.stage
    · subst hstage
      rw [EmitState.shader_modifyShader] at hpin
      exact (hbound pin hpin).imp_right fun hp ↦ ⟨rfl, hp⟩
    · rw [EmitState.shader_modifyShader_of_ne _ _ hstage] at hpin
      exact .inl hpin
  outer stage := by
    by_cases hstage : stage = s.stage
    · subst hstage
      rw [EmitState.shader_modifyShader, houter]
    · rw [EmitState.shader_modifyShader_of_ne _ _ hstage]
  outputs := by
    cases hstage : s.stage with
    | vertex => exact houtputs hstage
    | pixel => rfl
  inputs := by
    cases hstage : s.stage with
    | vertex => rfl
    | pixel => exact hinputs hstage
  uniforms name hname := .inl (by
    rwa [EmitState.uniformNames, EmitState.uniforms_modifyShader] at hname)

/-- A change of the current stage that leaves its interface and its bindings alone. -/
theorem of_interface {f : StageShader → StageShader}
    (hbindings : ∀ x, (f x).bindings = x.bindings) (houter : ∀ x, (f x).outer = x.outer)
    (houtputs : s.stage = .vertex → ∀ x, (f x).outputs = x.outputs)
    (hinputs : s.stage = .pixel → ∀ x, (f x).inputs = x.inputs) :
    Move n s (s.modifyShader s.stage f) := by
  refine modifyShader (fun pin hpin ↦ .inl ?_) (houter _) (fun h ↦ houtputs h _) fun h ↦ hinputs h _
  rwa [StageShader.boundPins, hbindings, houter] at hpin

theorem bindPin {p : Pin} (hp : p ∈ n.outputs) (v : Variable) : Move n s (s.bindPin p.id v) := by
  refine modifyShader (fun pin hpin ↦ ?_) rfl (fun _ ↦ rfl) fun _ ↦ rfl
  rcases List.mem_cons.mp hpin with rfl | hpin
  · exact .inr ⟨p, hp, rfl⟩
  · exact .inl hpin

theorem setNextVariable (k : Nat) : Move n s { s with nextVariable := k } :=
  of_shaders rfl rfl rfl rfl rfl

theorem allocate {p : Pin} (hp : p ∈ n.outputs) (type : ValueType) :
    Move n s (s.allocate p.id type) :=
  (setNextVariable (s.nextVariable + 1)).trans (bindPin hp _)

theorem modifyBody (f : CodeBuffer → CodeBuffer) : Move n s (s.modifyBody f) := by
  have hbody (x : StageShader) : (x.modifyBody f).bindings = x.bindings ∧
      (x.modifyBody f).outer = x.outer ∧ (x.modifyBody f).outputs = x.outputs ∧
      (x.modifyBody f).inputs = x.inputs := by
    unfold StageShader.modifyBody
    split <;> exact ⟨rfl, rfl, rfl, rfl⟩
  exact of_interface (fun x ↦ (hbody x).1) (fun x ↦ (hbody x).2.1) (fun _ x ↦ (hbody x).2.2.1)
    fun _ x ↦ (hbody x).2.2.2

theorem beginCapture : Move n s s.beginCapture :=
  of_interface (fun _ ↦ rfl) (fun _ ↦ rfl) (fun _ _ ↦ rfl) fun _ _ ↦ rfl

theorem endCapture {stage : ShaderStage} (hstage : s.stage = stage) :
    Move n s (s.endCapture stage) := by
  subst hstage
  have hend (x : StageShader) : x.closeScope.endCapture.2.bindings = x.closeScope.bindings ∧
      x.closeScope.endCapture.2.outer = x.outer ∧ x.closeScope.endCapture.2.outputs = x.outputs ∧
      x.closeScope.endCapture.2.inputs = x.inputs := by
    unfold StageShader.closeScope StageShader.endCapture
    split <;> split <;> exact ⟨rfl, rfl, rfl, rfl⟩
  refine modifyShader (fun pin hpin ↦ .inl ?_) (hend _).2.1 (fun _ ↦ (hend _).2.2.1)
    fun _ ↦ (hend _).2.2.2
  rw [StageShader.boundPins, (hend _).1, (hend _).2.1] at hpin
  -- Closing the scope drops bindings.
  have hsubset (x : StageShader) : x.closeScope.bindings ⊆ x.bindings := by
    unfold StageShader.closeScope
    split
    · exact List.Subset.refl _
    · exact List.drop_subset _ _
  exact (List.mem_append.mp hpin).elim
    (fun h ↦ List.mem_append_left _ (List.map_subset _ (hsubset _) h))
    fun h ↦ List.mem_append_right _ h

theorem retype (pin : PinId) (type : ValueType) : Move n s (s.retype pin type) := by
  refine modifyShader (fun pin' hpin ↦ .inl ?_) rfl (fun _ ↦ rfl) fun _ ↦ rfl
  rwa [StageShader.boundPins, StageShader.retype, StageShader.map_fst_retypeFirst] at hpin

/-- A change of a block that is no part of the interface of the current stage. -/
theorem modifyBlock {f : StageShader → StageShader} (block : Block)
    (hf : ∀ x, (f x).bindings = x.bindings ∧ (f x).outer = x.outer ∧
      ∀ other, other ≠ block → (f x).block other = x.block other)
    (houtputs : block = .outputs → s.stage = .pixel) (hinputs : block = .inputs → s.stage = .vertex) :
    Move n s (s.modifyShader s.stage f) := by
  refine of_interface (fun x ↦ (hf x).1) (fun x ↦ (hf x).2.1)
    (fun h x ↦ (hf x).2.2 .outputs ?_) fun h x ↦ (hf x).2.2 .inputs ?_
  · rintro rfl
    rw [houtputs rfl] at h
    cases h
  · rintro rfl
    rw [hinputs rfl] at h
    cases h

theorem declareOnce (block : Block) (name : String) (declaration? : Option String)
    (houtputs : block = .outputs → s.stage = .pixel) (hinputs : block = .inputs → s.stage = .vertex) :
    Move n s (s.declareOnce block name declaration?) := by
  unfold EmitState.declareOnce
  split
  · exact refl s
  · refine modifyBlock block (fun x ↦ ?_) houtputs hinputs
    have hdeclare : (x.declare name).bindings = x.bindings ∧ (x.declare name).outer = x.outer ∧
        ∀ other, (x.declare name).block other = x.block other := by
      unfold StageShader.declare
      split <;> exact ⟨rfl, rfl, fun other ↦ by cases other <;> rfl⟩
    cases declaration? with
    | none => exact ⟨hdeclare.1, hdeclare.2.1, fun other _ ↦ hdeclare.2.2 other⟩
    | some line =>
      refine ⟨Eq.trans ?_ hdeclare.1, Eq.trans ?_ hdeclare.2.1, fun other hother ↦
        Eq.trans ?_ (hdeclare.2.2 other)⟩
      · cases block <;> rfl
      · cases block <;> rfl
      · cases block <;> cases other <;> first | exact absurd rfl hother | rfl

theorem addUniform (name : String) {entry : UniformDeclaration}
    (hentry : entry.name ∈ s.uniformNames ∨ n.kind.MayDeclareUniform entry.name) :
    Move n s (s.addUniform name entry) where
  stage := rfl
  elsewhere stage _ := EmitState.shader_addUniform ..
  interpolators := rfl
  boundPins stage pin hpin := .inl (by rwa [EmitState.shader_addUniform] at hpin)
  outer stage := by rw [EmitState.shader_addUniform]
  outputs := rfl
  inputs := rfl
  uniforms other hother := by
    obtain ⟨u, hu, rfl⟩ := List.mem_map.mp hother
    obtain rfl | hu := OrderedMap.mem_values_insert hu
    · exact hentry
    · exact .inl (List.mem_map_of_mem hu)

/-- A uniform is declared under the name that it has in the table, or under a new name. -/
theorem declareUniform {env : EmitEnv} {name : String} {type : ValueType} {length? : Option UInt32}
    {a : Unit} (hname : n.kind.MayDeclareUniform name)
    (h : Returns env (EmitM.declareUniform n name type length?) s a t) : Move n s t := by
  obtain ⟨entry, hentry, rfl⟩ := returns_declareUniform.mp h
  refine (addUniform name ?_).trans (.declareOnce .uniforms _ _ (fun h ↦ by cases h) fun h ↦ by cases h)
  obtain ⟨-, rfl⟩ | ⟨u, hu, -, -, rfl⟩ := hentry
  · exact .inr hname
  · have hmem : u ∈ s.uniforms.values := OrderedMap.mem_values_of_get? hu
    exact .inl (List.mem_map.mpr ⟨u, hmem, rfl⟩)

theorem addSampler (entry : SamplerDeclaration) : Move n s (s.addSampler entry) :=
  of_shaders rfl rfl rfl rfl rfl

theorem addAttribute (d : Dialect) (name : String) (usage : AttributeUsage) (type : ValueType)
    (index : UInt32) (hstage : s.stage = .vertex) :
    Move n s (s.addAttribute d name usage type index) :=
  modifyBlock (f := fun x ↦ (x.modifyBlock .inputs fun b ↦ b.line (d.attributeDeclaration type
    (d.vertexAttribute usage index).1 (d.vertexAttribute usage index).2)).addAttribute name
      ⟨d.inputReference (d.vertexAttribute usage index).1, type⟩) .inputs (fun x ↦ ⟨rfl, rfl, fun other hother ↦ by
    cases other <;> first | exact absurd rfl hother | rfl⟩) (fun h ↦ by cases h) fun _ ↦ hstage

theorem addScript (name signature body : String) : Move n s (s.addScript name signature body) := by
  have hscript (x : StageShader) (f : CodeBuffer → CodeBuffer) :
      ((x.modifyBlock .scripts f).defineScript name signature).bindings = x.bindings ∧
      ((x.modifyBlock .scripts f).defineScript name signature).outer = x.outer ∧
      ∀ other, other ≠ .scripts →
        ((x.modifyBlock .scripts f).defineScript name signature).block other = x.block other :=
    ⟨rfl, rfl, fun other hother ↦ by cases other <;> first | exact absurd rfl hother | rfl⟩
  exact modifyBlock .scripts (fun x ↦ hscript x (writeDefinition signature body))
    (fun h ↦ by cases h) fun h ↦ by cases h

theorem setRequirements (r : Requirements) : Move n s { s with requirements := r } :=
  of_shaders rfl rfl rfl rfl rfl

theorem setRenderState (state : RenderState) : Move n s { s with renderState? := some state } :=
  of_shaders rfl rfl rfl rfl rfl

/-- Declares an output. -/
theorem define {p : Pin} (hp : p ∈ n.outputs) (type : ValueType) (f : CodeBuffer → CodeBuffer) :
    Move n s ((s.allocate p.id type).modifyBody f) :=
  (allocate hp type).trans (modifyBody f)

end Move

/-! ## Runs of emitters -/

/-- A run of the emitter of a node that reads the inputs `pins` in its own stage. -/
inductive Moves (env : EmitEnv) (demand : Demand) (n : Node) :
    List String → EmitState → EmitState → Prop
  | refl {s : EmitState} : Moves env demand n [] s s
  | move {pins : List String} {s t u : EmitState} (h : Moves env demand n pins s t)
    (hmove : Move n t u) : Moves env demand n pins s u
  | read {pins : List String} {s t u : EmitState} {pin : String} {value? : Option Variable}
    (h : Moves env demand n pins s t) (hread : Returns env (inputValue? demand n pin) t value? u) :
    Moves env demand n (pin :: pins) s u
  | hoist {pins : List String} {s t u : EmitState} {o : OutputRef} {v : Variable}
    {within : List String} (h : Moves env demand n pins s t)
    (ho : o ∈ env.graph.commonOutputs n within ∨ o ∈ env.graph.frontier n within)
    (hdemand : Returns env (demand o.node o.pin) t v u) : Moves env demand n pins s u

/-- The demand returns to the stage in which it was made. -/
def Demand.KeepsStage (env : EmitEnv) (demand : Demand) : Prop :=
  ∀ id pin s v t, Returns env (demand id pin) s v t → t.stage = s.stage

/-- The current stage is the same, and the other one has not changed. -/
structure EmitState.WithinStage (s t : EmitState) : Prop where
  stage : t.stage = s.stage
  elsewhere : ∀ stage, stage ≠ s.stage → t.shader stage = s.shader stage

namespace EmitState.WithinStage

variable {s t u : EmitState}

theorem refl (s : EmitState) : s.WithinStage s :=
  ⟨rfl, fun _ _ ↦ rfl⟩

theorem trans (h : s.WithinStage t) (h' : t.WithinStage u) : s.WithinStage u where
  stage := h'.stage.trans h.stage
  elsewhere stage hne := (h'.elsewhere stage (h.stage ▸ hne)).trans (h.elsewhere stage hne)

end EmitState.WithinStage

/-- The demand changes the stage only in which it is made. -/
def Demand.StaysWithinStage (env : EmitEnv) (demand : Demand) : Prop :=
  ∀ id pin s v t, Returns env (demand id pin) s v t → s.WithinStage t

namespace Moves

variable {env : EmitEnv} {demand : Demand} {n : Node} {pins pins' : List String}
  {s t u : EmitState}

theorem trans (h : Moves env demand n pins s t) (h' : Moves env demand n pins' t u) :
    Moves env demand n (pins' ++ pins) s u := by
  induction h' with
  | refl => exact h
  | move _ hmove ih => exact .move (ih h) hmove
  | read _ hread ih => exact .read (ih h) hread
  | hoist _ ho hdemand ih => exact .hoist (ih h) ho hdemand

theorem stage_eq (hstage : demand.KeepsStage env) (h : Moves env demand n pins s t) :
    t.stage = s.stage := by
  induction h with
  | refl => rfl
  | move _ hmove ih => exact hmove.stage.trans ih
  | read _ hread ih =>
    obtain ⟨_, _, ⟨_, _, _, _, hdemand⟩ | ⟨_, rfl, _⟩⟩ := inputValue?_cases hread
    · exact (hstage _ _ _ _ _ hdemand).trans ih
    · exact ih
  | hoist _ _ hdemand ih => exact (hstage _ _ _ _ _ hdemand).trans ih

/-- The run of an emitter in its own stage changes that stage only if its demands do. -/
theorem withinStage (hdemand : demand.StaysWithinStage env) (h : Moves env demand n pins s t) :
    s.WithinStage t := by
  induction h with
  | refl => exact .refl _
  | move _ hmove ih => exact ih.trans ⟨hmove.stage, hmove.elsewhere⟩
  | read _ hread ih =>
    obtain ⟨_, _, ⟨_, _, _, _, hread⟩ | ⟨_, rfl, _⟩⟩ := inputValue?_cases hread
    · exact ih.trans (hdemand _ _ _ _ _ hread)
    · exact ih
  | hoist _ _ hhoist ih => exact ih.trans (hdemand _ _ _ _ _ hhoist)

/-- Captures of branches read their pins. -/
theorem captures (hstage : demand.KeepsStage env) {branches : List Branch} {names : List String}
    (h : Moves env demand n pins s t)
    (hcaptures : Returns env (names.mapM (captureBranch demand n)) t branches u) :
    ∃ pins', names ++ pins ⊆ pins' ∧ Moves env demand n pins' s u := by
  induction names generalizing t pins branches with
  | nil =>
    obtain ⟨-, rfl⟩ := returns_mapM_nil.mp hcaptures
    exact ⟨pins, List.Subset.refl _, h⟩
  | cons name names ih =>
    obtain ⟨branch, t', branches, hbranch, hrest, -⟩ := returns_mapM_cons.mp hcaptures
    simp only [captureBranch, returns_bind, returns_pure] at hbranch
    obtain ⟨⟨v, text⟩, t₁, hcapture, -, rfl⟩ := hbranch
    obtain ⟨t₂, hinput, -, rfl⟩ := returns_capture.mp hcapture
    have hread : Moves env demand n _ s t₂ :=
      .read (.move h .beginCapture) (returns_requireInput.mp hinput)
    have hback : t₂.stage = t.stage :=
      (hread.stage_eq hstage).trans (h.stage_eq hstage).symm
    obtain ⟨pins', hpins, hmoves⟩ := ih (hread.move (.endCapture hback)) hrest
    refine ⟨pins', List.Subset.trans (fun x hx ↦ ?_) hpins, hmoves⟩
    simp only [List.cons_append, List.mem_cons, List.mem_append] at hx ⊢
    tauto

theorem bindPins {bindings : List Binding} (h : Moves env demand n pins s t)
    (hbindings : ∀ b ∈ bindings, ∃ p ∈ n.outputs, b.1 = p.id) :
    Moves env demand n pins s (bindings.foldl (fun s b ↦ s.bindPin b.1 b.2) t) := by
  induction bindings generalizing t with
  | nil => exact h
  | cons b bs ih =>
    obtain ⟨p, hp, hid⟩ := hbindings b List.mem_cons_self
    rw [List.foldl_cons, hid]
    exact ih (h.move (.bindPin hp b.2)) fun c hc ↦ hbindings c (List.mem_cons_of_mem b hc)

/-- The body of a loop reads its inputs with the counters bound. -/
theorem loopBody {loop : Loop} {names : List String} {value : Variable}
    {condition? : Option String} (h : Moves env demand n pins s t)
    (hbody : Returns env (Emitter.loopBody demand n loop names) t (value, condition?) u) :
    ∃ pins', "Input" :: pins ⊆ pins' ∧
      ((n.input? "Condition").isSome ∨ loop.conditionRequired → "Condition" ∈ pins') ∧
      Moves env demand n pins' s u := by
  obtain ⟨bindings, t', hbindings, hcondition, hvalue⟩ := loopBody_cases hbody
  have hcounters := h.bindPins fun b hb ↦ (hbindings b hb).1
  obtain ⟨hrequired, hnone, -, rfl⟩ | ⟨value?, hinput, -⟩ := loopCondition?_cases hcondition
  · exact ⟨_, List.Subset.refl _, by simp_all, .read hcounters hvalue⟩
  · exact ⟨_, by simp, by simp, .read (hcounters.read hinput) hvalue⟩

end Moves

section Steps

variable {env : EmitEnv} {demand : Demand} {n : Node} {H K : Held} {s t u : EmitState}

/-- The names that the compiler makes up start with an underscore. -/
theorem Backend.head?_reserved (b : Backend) (name : String) :
    (b.dialect.reservedPrefix ++ name).toList.head? = some '_' := by
  rw [String.toList_append]
  cases b <;> rfl

theorem Node.mem_outputs {pin : String} {p : Pin} (h : n.output? pin = some p) : p ∈ n.outputs :=
  List.mem_of_find?_eq_some h

/-- A step is a few moves, and reads what it lists, as far as the node has such pins. -/
theorem Step.moves (hstage : demand.KeepsStage env) {pins : List String}
    (hpixel : n.kind = .interpolator → t.stage = .vertex)
    (hH : ∀ stage ∈ H.stages, stage = t.stage)
    (hpins : ∀ pin ∈ H.pins, (n.input? pin).isSome → pin ∈ pins)
    (h : Moves env demand n pins s t) (hstep : Step env demand n H t K u) :
    (∀ stage ∈ K.stages, stage = u.stage) ∧
      ∃ pins', (∀ pin ∈ K.pins, (n.input? pin).isSome → pin ∈ pins') ∧
        Moves env demand n pins' s u := by
  have hreads {pins' : List String} (hstages : K.stages = H.stages)
      (hpins' : ∀ pin ∈ K.pins, (n.input? pin).isSome → pin ∈ pins')
      (h' : Moves env demand n pins' s u) : (∀ stage ∈ K.stages, stage = u.stage) ∧
        ∃ pins', (∀ pin ∈ K.pins, (n.input? pin).isSome → pin ∈ pins') ∧
          Moves env demand n pins' s u := by
    refine ⟨fun stage hmem ↦ ?_, pins', hpins', h'⟩
    rw [hstages] at hmem
    rw [hH stage hmem, h.stage_eq hstage, h'.stage_eq hstage]
  -- Most steps read nothing and find out no stage.
  have hdone (hstages : K.stages = H.stages) (hsame : K.pins = H.pins)
      (h' : Moves env demand n pins s u) := hreads hstages (hsame ▸ hpins) h'
  cases hstep with
  | guard => exact ⟨by simpa using hH, pins, hpins, h⟩
  | @read _ pin _ hread =>
    refine hreads rfl (fun pin' hpin' hsome ↦ ?_) (h.read hread)
    rcases List.mem_cons.mp hpin' with rfl | hpin'
    · exact List.mem_cons_self
    · exact List.mem_cons_of_mem pin (hpins pin' hpin' hsome)
  | hoist ho hdemand => exact hdone rfl rfl (h.hoist ho hdemand)
  | convert => exact hdone rfl rfl h
  | define hp => exact hdone rfl rfl (h.move (.define (Node.mem_outputs hp) _ _))
  | constant hp => exact hdone rfl rfl (h.move (.define (Node.mem_outputs hp) _ _))
  | declare hp => exact hdone rfl rfl (h.move (.define (Node.mem_outputs hp) _ _))
  | forward hp => exact hdone rfl rfl (h.move (.bindPin (Node.mem_outputs hp) _))
  | output => exact hdone rfl rfl (h.move (.modifyBody _))
  | statement => exact hdone rfl rfl (h.move (.modifyBody _))
  | @uniform _ name _ _ hname hdeclare =>
    have hallowed : n.kind.MayDeclareUniform name := by
      obtain ⟨hparameter, -⟩ | ⟨-, rfl⟩ | ⟨-, texture, -, -, rfl⟩ := hname
      · exact .inl hparameter
      · exact .inr (env.settings.backend.head?_reserved "targetSize")
      · rw [toString_text, toString_text, toString_text, String.append_assoc]
        exact .inr (env.settings.backend.head?_reserved _)
    exact hdone rfl rfl (h.move (.declareUniform hallowed hdeclare))
  | sampler _ _ _ _ _ hdeclare =>
    obtain ⟨-, rfl⟩ := returns_declareSampler.mp hdeclare
    exact hdone rfl rfl (h.move ((Move.addSampler _).trans
      (.declareOnce .samplers _ _ (fun h ↦ by cases h) fun h ↦ by cases h)))
  | vertexAttribute hvertex _ hattribute =>
    obtain ⟨-, rfl⟩ | ⟨-, -, rfl⟩ := returns_vertexAttribute.mp hattribute
    · exact hdone rfl rfl h
    · exact hdone rfl rfl (h.move (.addAttribute env.dialect _ _ _ _ (hH _ hvertex).symm))
  | script _ hdefine =>
    obtain ⟨-, rfl⟩ | ⟨-, rfl⟩ := returns_defineScript.mp hdefine
    · exact hdone rfl rfl h
    · exact hdone rfl rfl (h.move (.addScript _ _ _))
  | target hpixels _ _ hdeclare =>
    obtain rfl := returns_declareOnce.mp hdeclare
    exact hdone rfl rfl (h.move (.declareOnce .outputs _ _ (fun _ ↦ (hH _ hpixels).symm)
      fun h ↦ by cases h))
  | require => exact hdone rfl rfl (h.move (.setRequirements _))
  | provide => exact hdone rfl rfl h
  | renderState => exact hdone rfl rfl (h.move (.setRenderState _))
  | branches names arms hcaptures _ hp =>
    obtain ⟨pins', hsubset, hmoves⟩ := h.captures hstage hcaptures
    refine hreads rfl (fun pin hpin hsome ↦ hsubset ?_)
      (hmoves.move (.define (Node.mem_outputs hp) _ _))
    exact (List.mem_append.mp hpin).elim (List.mem_append_left _)
      fun hpin ↦ List.mem_append_right _ (hpins pin hpin hsome)
  | loop _ _ hp _ hstart hbody =>
    subst hstart
    obtain ⟨pins', hsubset, hcondition, hmoves⟩ := Moves.loopBody
      (h.move (((Move.allocate (Node.mem_outputs hp) _).trans (.setNextVariable _)).trans
        .beginCapture)) hbody
    refine hreads rfl (fun pin hpin hsome ↦ ?_) (hmoves.move (((Move.endCapture
      ((hmoves.stage_eq hstage).trans (h.stage_eq hstage).symm)).trans (.retype _ _)).trans
        (.modifyBody _)))
    simp only [Held.addPins, List.cons_append, List.nil_append, List.mem_cons] at hpin
    obtain rfl | rfl | hpin := hpin
    · exact hsubset List.mem_cons_self
    · exact hcondition (.inl hsome)
    · exact hsubset (List.mem_cons_of_mem _ (hpins pin hpin hsome))
  | cross hkind hpixels =>
    rw [hpixel hkind] at hpixels
    cases hpixels

theorem Steps.moves (hstage : demand.KeepsStage env)
    (hpixel : n.kind = .interpolator → s.stage = .vertex) (h : Steps env demand n {} s K t) :
    (∀ stage ∈ K.stages, stage = t.stage) ∧
      ∃ pins, (∀ pin ∈ K.pins, (n.input? pin).isSome → pin ∈ pins) ∧ Moves env demand n pins s t := by
  induction h with
  | refl => exact ⟨by simp, [], by simp, .refl⟩
  | snoc _ hstep ih =>
    obtain ⟨hstages, pins, hpins, hmoves⟩ := ih hpixel
    refine hstep.moves hstage (fun hkind ↦ ?_) hstages hpins hmoves
    rw [hmoves.stage_eq hstage, hpixel hkind]

/-- A run of the emitter of a node. Only an interpolator in the pixel stage reads its input in another
stage than its own, and then carries the value over. -/
inductive NodeRun (env : EmitEnv) (demand : Demand) (n : Node) (s : EmitState) : EmitState → Prop
  | within {t : EmitState} {pins : List String} (hkind : n.kind = .interpolator → s.stage = .vertex)
    (h : Moves env demand n pins s t)
    (hpins : ∀ pin ∈ n.readPins env.graph, (n.input? pin).isSome → pin ∈ pins) :
    NodeRun env demand n s t
  | across {t : EmitState} {v : Variable} {p : Pin} (hkind : n.kind = .interpolator)
    (hstage : s.stage = .pixel)
    (h : Returns env (inputValue? demand n "Input") { s with stage := .vertex } (some v) t)
    (hvector : v.type.isVector) (hp : n.output? "Output" = some p) :
    NodeRun env demand n s (t.carry env.dialect p.id v)

theorem nodeRun_of_returns (hstage : demand.KeepsStage env)
    (h : Returns env (emitKind demand n) s () t) : NodeRun env demand n s t := by
  by_cases hcross : n.kind = .interpolator ∧ s.stage = .pixel
  · obtain ⟨hkind, hpixel⟩ := hcross
    simp only [emitKind, hkind] at h
    obtain ⟨v, u, p, hvalue, hvector, hp, rfl⟩ := interpolator_carries hpixel h
    exact .across hkind hpixel (returns_requireInput.mp hvalue) hvector hp
  · have hvertex : n.kind = .interpolator → s.stage = .vertex := fun hkind ↦ by
      cases hs : s.stage with
      | vertex => rfl
      | pixel => exact absurd ⟨hkind, hs⟩ hcross
    obtain ⟨K, hsteps, hpins⟩ := emitKind_runs h
    obtain ⟨-, pins, hread, hmoves⟩ := hsteps.moves hstage hvertex
    exact .within hvertex hmoves fun pin hpin ↦ hread pin (hpins hpin)

theorem NodeRun.stage_eq (hstage : demand.KeepsStage env) (h : NodeRun env demand n s t) :
    t.stage = s.stage := by
  cases h with
  | within _ h => exact h.stage_eq hstage
  | across _ hpixel => exact hpixel.symm

end Steps

/-! ## Evaluations -/

section Evaluation

variable {env : EmitEnv} {demand : Demand} {n : Node} {s t : EmitState}

/-- Whether the emitter of a kind works in a stage. -/
def NodeKind.runsIn (k : NodeKind) : ShaderStage → Bool
  | .vertex =>
    match k with
    | .fragmentPosition | .frontFace | .discard _ | .derivative _ | .pixelOutput _ | .external _ =>
      false
    | _ => true
  | .pixel =>
    match k with
    | .vertexInput .. | .instanceIndex | .vertexOutput | .external _ => false
    | _ => true

/-- An emitter fails in a stage in which it does not work. -/
theorem emitKind_runsIn (h : Returns env (emitKind demand n) s () t) :
    n.kind.runsIn s.stage := by
  have hrequired {stage : ShaderStage} {action : EmitM Unit}
      (h : Returns env (requireStage stage n >>= fun _ ↦ action) s () t) : s.stage = stage := by
    obtain ⟨_, _, hrequire, -⟩ := returns_bind.mp h
    exact (returns_requireStage.mp hrequire).1
  unfold emitKind at h
  split at h <;> rename_i hkind <;> rw [hkind]
  case h_11 => rw [hrequired h]; rfl
  case h_32 => rw [hrequired h]; rfl
  case h_37 => rw [hrequired h]; rfl
  case h_38 => rw [hrequired h]; rfl
  case h_39 => rw [hrequired h]; rfl
  case h_41 => rw [hrequired h]; rfl
  case h_42 => rw [hrequired h]; rfl
  case h_43 => rw [hrequired h]; rfl
  case h_50 => exact absurd h returns_throw
  all_goals cases s.stage <;> rfl

theorem evaluateWithin_keepsStage (depth : Nat) : (evaluateWithin depth).KeepsStage env := by
  intro id pin s v t h
  refine evaluateWithin_emitKind_induction (P := fun _ _ s _ t ↦ t.stage = s.stage)
    (fun _ _ _ _ _ ↦ rfl) (fun demand hdemand _ _ n s v u _ _ _ _ hrun _ ↦ ?_) depth id pin s v t h
  have hnode : u.stage = (s.beginNode n.id).stage := (nodeRun_of_returns hdemand hrun).stage_eq hdemand
  exact hnode

theorem evaluate_keepsStage : Demand.KeepsStage env evaluate := fun id pin s v t h ↦
  evaluateWithin_keepsStage _ id pin s v t (returns_evaluate.mp h)

/-- What holds of evaluations that find their output bound, and of those that run an emitter if it
holds of the demands of that emitter, holds of every evaluation. -/
theorem evaluate_induction {P : NodeId → PinId → EmitState → Variable → EmitState → Prop}
    (bound : ∀ id pin s v, s.binding? pin = some v → P id pin s v s)
    (run : ∀ demand : Demand, demand.KeepsStage env →
      (∀ id pin s v t, Returns env (demand id pin) s v t → P id pin s v t) →
      ∀ id pin n s v u, env.graph.node? id = some n → s.binding? pin = none →
        n.kind.runsIn s.stage → NodeRun env demand n (s.beginNode n.id) u →
        (u.endNode n.id).binding? pin = some v → P id pin s v (u.endNode n.id)) :
    ∀ id pin s v t, Returns env (evaluate id pin) s v t → P id pin s v t := by
  intro id pin s v t h
  refine (evaluateWithin_emitKind_induction
    (P := fun id pin s v t ↦ t.stage = s.stage ∧ P id pin s v t)
    (fun id pin s v hv ↦ ⟨rfl, bound id pin s v hv⟩)
    (fun demand hdemand id pin n s v u hn hnone _ _ hrun hv ↦ ?_) _ id pin s v t
      (returns_evaluate.mp h)).2
  have hstage : demand.KeepsStage env := fun id pin s v t h ↦ (hdemand id pin s v t h).1
  have hnode := nodeRun_of_returns hstage hrun
  have hback : u.stage = (s.beginNode n.id).stage := hnode.stage_eq hstage
  have hruns : n.kind.runsIn (s.beginNode n.id).stage := emitKind_runsIn hrun
  exact ⟨hback, run demand hstage (fun id pin s v t h ↦ (hdemand id pin s v t h).2) id pin n s v u hn
    hnone hruns hnode hv⟩

end Evaluation

end ShaderGraph
