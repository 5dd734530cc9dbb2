import ShaderGraph.Proofs.Emission.Evaluation
import ShaderGraph.Proofs.Graph.Editing
import ShaderGraph.Proofs.Operands.Stages

/-!
# Operators in programs

Emitters write operators only at values and conversions that they have at hand, for the types of which
the operators are defined, and subscripts at parameters. Throughout a compilation, values and their
conversions are units to such operators, apart from negative literals behind a minus and from casts. Both
exceptions occur: there are graphs that compile to a decrement of a number, and to a selection of
components of a scalar.
-/

namespace ShaderGraph

open EmitM Emitter

/-! ## Steps

Emitters write the values of inputs into expressions without parentheses around them. If parameters are
identifiers and defaults are finite, the values that an emitter has at hand are operands at every
moment, and so an operator that it writes next to one applies to all of it. There are two exceptions:
a minus in front of a negative literal makes a decrement, and a selection behind a conversion that the
target writes as a cast applies to what is converted.
-/

/-- Parameters have names that are identifiers, and the defaults of inputs are finite. -/
structure Graph.IsLiteralSafe (g : Graph) : Prop where
  parameters : ∀ n ∈ g.nodes.values, ∀ name ∈ n.kind.parameterNames, IsIdentifier name
  defaults : ∀ n ∈ g.nodes.values, ∀ p ∈ n.inputs, ∀ l ∈ p.default?, ∀ x ∈ l.components, x.isFinite

/-- The values at hand are operands, and so are their conversions unless they are casts. Parameters are
identifiers. -/
structure Held.HoldsOperands (d : Dialect) (H : Held) : Prop where
  values : ∀ v ∈ H.values, v.IsOperand d
  operands : ∀ v ∈ H.operands, v.IsOperand d ∨ ∃ w ∈ H.values, v.IsCastOf d w
  parameters : ∀ name ∈ H.parameters, IsIdentifier name

namespace Held.HoldsOperands

variable {d : Dialect} {H K : Held}

theorem empty : ({} : Held).HoldsOperands d :=
  ⟨by simp, by simp, by simp⟩

theorem addValues (h : H.HoldsOperands d) (vs : List Variable) (hvs : ∀ v ∈ vs, v.IsOperand d)
    (hvalues : K.values = vs ++ H.values) (hoperands : K.operands = H.operands)
    (hparameters : K.parameters = H.parameters) : K.HoldsOperands d where
  values := hvalues ▸ List.forall_mem_append.mpr ⟨hvs, h.values⟩
  operands v hv := (h.operands v (hoperands ▸ hv)).imp_right fun ⟨w, hw, hcast⟩ ↦
    ⟨w, hvalues ▸ List.mem_append_right _ hw, hcast⟩
  parameters := hparameters ▸ h.parameters

theorem addParameter (h : H.HoldsOperands d) {v : Variable} (hv : IsIdentifier v.name) :
    (H.addParameter v).HoldsOperands d where
  values := List.forall_mem_cons.mpr ⟨.of_isIdentifier hv, h.values⟩
  operands w hw := (h.operands w hw).imp_right fun ⟨u, hu, hcast⟩ ↦
    ⟨u, List.mem_cons_of_mem v hu, hcast⟩
  parameters := List.forall_mem_cons.mpr ⟨hv, h.parameters⟩

theorem addOperand (h : H.HoldsOperands d) {text : String} {t : ValueType}
    (htext : (⟨text, t⟩ : Variable).IsOperand d ∨ ∃ w ∈ H.values, (⟨text, t⟩ : Variable).IsCastOf d w) :
    (H.addOperand text t).HoldsOperands d :=
  ⟨h.values, List.forall_mem_cons.mpr ⟨htext, h.operands⟩, h.parameters⟩

end Held.HoldsOperands

/-- The demand binds operands on top of those that are bound, and returns one. -/
def Demand.YieldsOperands (env : EmitEnv) (demand : Demand) : Prop :=
  ∀ id pin s v t, Returns env (demand id pin) s v t → s.HoldsOperands env.dialect →
    s.BindsOperands env.dialect t ∧ v.IsOperand env.dialect

section Inputs

variable {env : EmitEnv} {demand : Demand} {n : Node} {s t : EmitState} {pin : String}

theorem inputValue?_operands (hdemand : demand.YieldsOperands env) (hsafe : env.graph.IsLiteralSafe)
    (hn : n ∈ env.graph.nodes.values) {value? : Option Variable}
    (h : Returns env (inputValue? demand n pin) s value? t) (hs : s.HoldsOperands env.dialect) :
    s.BindsOperands env.dialect t ∧ ∀ v ∈ value?, v.IsOperand env.dialect := by
  obtain ⟨p, hp, ⟨c, v, -, rfl, hv⟩ | ⟨-, rfl, ⟨l, hl, rfl⟩ | ⟨-, -, rfl⟩⟩⟩ := inputValue?_cases h
  · obtain ⟨hbinds, hoperand⟩ := hdemand _ _ _ _ _ hv hs
    exact ⟨hbinds, by simpa using hoperand⟩
  · have hfinite := hsafe.defaults n hn p (List.mem_of_find?_eq_some hp) l hl
    have hliteral := Variable.IsOperand.vectorLiteral env.settings.backend l hfinite
    exact ⟨.refl hs, fun v hv ↦ Option.mem_some.mp hv ▸ hliteral⟩
  · exact ⟨.refl hs, by simp⟩

theorem requireInput_operands (hdemand : demand.YieldsOperands env) (hsafe : env.graph.IsLiteralSafe)
    (hn : n ∈ env.graph.nodes.values) {v : Variable} (h : Returns env (requireInput demand n pin) s v t)
    (hs : s.HoldsOperands env.dialect) :
    s.BindsOperands env.dialect t ∧ v.IsOperand env.dialect := by
  obtain ⟨hbinds, hvalue⟩ := inputValue?_operands hdemand hsafe hn (returns_requireInput.mp h) hs
  exact ⟨hbinds, hvalue v rfl⟩

theorem captures_operands (hdemand : demand.YieldsOperands env) (hsafe : env.graph.IsLiteralSafe)
    (hn : n ∈ env.graph.nodes.values) {pins : List String} {branches : List Branch}
    (h : Returns env (pins.mapM (captureBranch demand n)) s branches t)
    (hs : s.HoldsOperands env.dialect) : s.BindsOperands env.dialect t := by
  induction pins generalizing s branches with
  | nil =>
    obtain ⟨-, rfl⟩ := returns_mapM_nil.mp h
    exact .refl hs
  | cons pin pins ih =>
    obtain ⟨branch, s', branches, hbranch, hrest, -⟩ := returns_mapM_cons.mp h
    simp only [captureBranch, returns_bind, returns_pure] at hbranch
    obtain ⟨⟨v, text⟩, t', hcapture, -, rfl⟩ := hbranch
    obtain ⟨u, hinput, -, rfl⟩ := returns_capture.mp hcapture
    obtain ⟨hbinds, -⟩ := requireInput_operands hdemand hsafe hn hinput hs.beginCapture
    obtain ⟨hend, -⟩ := EmitState.BindsOperands.capture hs hbinds
    exact hend.trans (ih hrest hend.holds)

theorem loopBody_operands (hdemand : demand.YieldsOperands env) (hsafe : env.graph.IsLiteralSafe)
    (hn : n ∈ env.graph.nodes.values) {loop : Loop} {names : List String} {value : Variable}
    {condition? : Option String} (hnames : ∀ name ∈ names, IsIdentifier name)
    (h : Returns env (loopBody demand n loop names) s (value, condition?) t)
    (hs : s.HoldsOperands env.dialect) : s.BindsOperands env.dialect t := by
  obtain ⟨bindings, u, hbindings, hcondition, hvalue⟩ := loopBody_cases h
  have hcounters : s.BindsOperands env.dialect (bindings.foldl (fun s b ↦ s.bindPin b.1 b.2) s) := by
    refine .bindPins hs fun b hb ↦ ?_
    obtain ⟨-, name, hname, hcounter⟩ := hbindings b hb
    rw [hcounter]
    exact .of_isIdentifier (hnames name hname)
  have hu : s.BindsOperands env.dialect u := by
    obtain ⟨-, -, -, rfl⟩ | ⟨value?, hinput, -⟩ := loopCondition?_cases hcondition
    · exact hcounters
    · exact hcounters.trans (inputValue?_operands hdemand hsafe hn hinput hcounters.holds).1
  exact hu.trans (inputValue?_operands hdemand hsafe hn hvalue hu.holds).1

/-- A loop binds its output to a temporary. Only the end of the body tells the type. -/
theorem loop_operands (hdemand : demand.YieldsOperands env) (hsafe : env.graph.IsLiteralSafe)
    (hn : n ∈ env.graph.nodes.values) {loop : Loop} {names : List String} {value : Variable}
    {condition? : Option String} {entry : EmitState} {p : Pin} {declared : ValueType} {k : Nat}
    (hnames : names = (List.range' k loop.counters.length).map temporary)
    (hstart : entry = { s.allocate p.id declared with nextVariable := k + loop.counters.length })
    (h : Returns env (loopBody demand n loop names) entry.beginCapture (value, condition?) t)
    (hs : s.HoldsOperands env.dialect) (type : ValueType) :
    s.BindsOperands env.dialect ((t.endCapture s.stage).retype p.id type) := by
  have hentry (stage : ShaderStage) : entry.shader stage = (s.allocate p.id declared).shader stage := by
    rw [hstart]
    cases stage <;> rfl
  have hstage : entry.stage = s.stage := by
    rw [hstart]
    exact EmitState.stage_allocate ..
  have hallocate := EmitState.BindsOperands.allocate hs p.id declared
  refine EmitState.BindsOperands.loop hs hstage hentry (loopBody_operands hdemand hsafe hn
    (fun name hname ↦ ?_) h (hallocate.holds.of_shader hentry).beginCapture)
  rw [hnames] at hname
  obtain ⟨k, -, rfl⟩ := List.mem_map.mp hname
  exact isIdentifier_temporary k

end Inputs

section Steps

variable {env : EmitEnv} {demand : Demand} {n : Node} {ns : List Node} {H K : Held} {s t : EmitState}

/-- Parameters, and uniforms that the compiler declares itself, are named by identifiers. -/
theorem isIdentifier_uniform (hsafe : env.graph.IsLiteralSafe) (hn : n ∈ env.graph.nodes.values)
    (hH : H.HoldsOperands env.dialect) {name : String} {type : ValueType}
    (hname : (name ∈ n.kind.parameterNames ∧ type ≠ .void) ∨
      (type.isNumeric ∧ name = s!"{env.dialect.reservedPrefix}targetSize") ∨
      (type.isNumeric ∧ ∃ texture ∈ H.values, texture.type.isTexture ∧
        name = s!"{env.dialect.reservedPrefix}textureSize_{texture.name}")) : IsIdentifier name := by
  obtain ⟨hname, -⟩ | ⟨-, rfl⟩ | ⟨-, texture, htexture, htype, rfl⟩ := hname
  · exact hsafe.parameters n hn name hname
  · exact env.settings.backend.isIdentifier_reserved (by decide)
  · have hword : IsWord ("textureSize_" ++ texture.name) :=
      isWord_append (by decide) ((hH.values texture htexture).texture htype).isWord
    have hidentifier : IsIdentifier (env.dialect.reservedPrefix ++ ("textureSize_" ++ texture.name)) :=
      env.settings.backend.isIdentifier_reserved hword
    simpa only [toString_text, String.append_assoc] using hidentifier

theorem Step.operands (hdemand : demand.YieldsOperands env) (hsafe : env.graph.IsLiteralSafe)
    (hn : n ∈ env.graph.nodes.values) (h : Step env demand n H s K t)
    (hs : s.HoldsOperands env.dialect) (hH : H.HoldsOperands env.dialect) :
    s.BindsOperands env.dialect t ∧ K.HoldsOperands env.dialect := by
  have hallocated {pin : PinId} {type : ValueType} (f : CodeBuffer → CodeBuffer) :
      s.BindsOperands env.dialect ((s.allocate pin type).modifyBody f) := by
    have hallocate := EmitState.BindsOperands.allocate hs pin type
    exact hallocate.trans (.modifyBody hallocate.holds f)
  cases h with
  | guard | provide => exact ⟨.refl hs, hH.values, hH.operands, hH.parameters⟩
  | @read _ _ value? h =>
    obtain ⟨hbinds, hvalue⟩ := inputValue?_operands hdemand hsafe hn h hs
    exact ⟨hbinds, hH.addValues value?.toList (by simpa using hvalue) rfl rfl rfl⟩
  | hoist _ h => exact ⟨(hdemand _ _ _ _ _ h hs).1, hH⟩
  | @convert v _ _ hv h =>
    refine ⟨.refl hs, hH.addOperand ?_⟩
    exact ((hH.values v hv).cast_cases env.settings.backend h).imp_right fun hcast ↦ ⟨v, hv, hcast⟩
  | define | constant => exact ⟨hallocated _, hH⟩
  | declare => exact ⟨hallocated _, hH.values, hH.operands, hH.parameters⟩
  | @forward _ p v hp hv =>
    refine ⟨.bindPin hs p.id ?_, hH⟩
    obtain hv | ⟨-, -, w, hw, hcomponent⟩ := hv
    · exact hH.values v hv
    · exact (hH.values w hw).component hcomponent
  | output | statement => exact ⟨.modifyBody hs _, hH⟩
  | @uniform _ name type _ hname h =>
    have hidentifier := isIdentifier_uniform hsafe hn hH hname
    obtain ⟨entry, -, rfl⟩ := returns_declareUniform.mp h
    have hentry : s.BindsOperands env.dialect (s.addUniform name entry) :=
      .of_sameCode hs (.addUniform s name entry)
    exact ⟨hentry.trans (.of_sameCode hentry.holds (.declareOnce _ _ _ _)),
      hH.addParameter hidentifier⟩
  | @sampler _ texture state _ _ _ _ _ _ _ _ h =>
    obtain ⟨-, rfl⟩ := returns_declareSampler.mp h
    have hentry : s.BindsOperands env.dialect (s.addSampler (s.samplerEntry env.dialect texture state)) :=
      .of_shader hs rfl fun _ ↦ EmitState.shader_addSampler ..
    exact ⟨hentry.trans (.of_sameCode hentry.holds (.declareOnce _ _ _ _)), hH.values, hH.operands,
      hH.parameters⟩
  | @vertexAttribute _ name usage type index v _ hvector h =>
    obtain ⟨hv, rfl⟩ | ⟨-, rfl, rfl⟩ := returns_vertexAttribute.mp h
    · obtain ⟨a, ha, rfl⟩ := mem_of_lookup hv
      exact ⟨.refl hs, hH.addValues [a.2] (by simpa using (hs _).attributes a ha) rfl rfl rfl⟩
    · have hidentifier : IsIdentifier (env.dialect.vertexAttribute usage index).1 :=
        env.settings.backend.isIdentifier_vertexAttribute usage index
      exact ⟨.addAttribute env.settings.backend hs name usage index hvector, hH.addValues [_]
        (by simpa using .inputReference hidentifier hvector) rfl rfl rfl⟩
  | script _ h =>
    refine ⟨?_, hH.values, hH.operands, hH.parameters⟩
    obtain ⟨-, rfl⟩ | ⟨-, rfl⟩ := returns_defineScript.mp h
    · exact .refl hs
    · exact .of_sameCode hs (.addScript _ _ _ _)
  | target _ _ _ h =>
    obtain rfl := returns_declareOnce.mp h
    exact ⟨.of_sameCode hs (.declareOnce _ _ _ _), hH⟩
  | require | renderState => exact ⟨.of_shader hs rfl fun stage ↦ by cases stage <;> rfl, hH⟩
  | @branches t pins arms _ p type _ h =>
    have hcaptures := captures_operands hdemand hsafe hn h hs
    have hallocate := EmitState.BindsOperands.allocate hcaptures.holds p.id type
    exact ⟨hcaptures.trans (hallocate.trans (.modifyBody hallocate.holds _)), hH.values, hH.operands,
      hH.parameters⟩
  | loop _ _ _ hnames hstart h =>
    have hloop := loop_operands hdemand hsafe hn hnames hstart h hs
    exact ⟨(hloop _).trans (.modifyBody (hloop _).holds _), hH.values, hH.operands, hH.parameters⟩
  | @cross _ v p _ hstage h hvector hp =>
    have hvertex : ({ s with stage := .vertex } : EmitState).HoldsOperands env.dialect :=
      hs.of_shader fun stage ↦ by cases stage <;> rfl
    obtain ⟨hbinds, -⟩ := requireInput_operands hdemand hsafe hn h hvertex
    exact ⟨.carry hbinds hstage hvector, hH.values, hH.operands, hH.parameters⟩

theorem Steps.operands (hdemand : demand.YieldsOperands env) (hsafe : env.graph.IsLiteralSafe)
    (hn : n ∈ env.graph.nodes.values) (h : Steps env demand n H s K t)
    (hs : s.HoldsOperands env.dialect) (hH : H.HoldsOperands env.dialect) :
    s.BindsOperands env.dialect t ∧ K.HoldsOperands env.dialect := by
  induction h with
  | refl => exact ⟨.refl hs, hH⟩
  | snoc _ hstep ih =>
    obtain ⟨hbinds, hK⟩ := ih hs
    obtain ⟨hbinds', hL⟩ := hstep.operands hdemand hsafe hn hbinds.holds hK
    exact ⟨hbinds.trans hbinds', hL⟩

theorem runsReading_operands (hdemand : demand.YieldsOperands env) (hsafe : env.graph.IsLiteralSafe)
    (hn : n ∈ env.graph.nodes.values) {pins : List String} {id : NodeId}
    (h : RunsReading env demand n pins (s.beginNode id) t) (hs : s.HoldsOperands env.dialect) :
    s.BindsOperands env.dialect (t.endNode id) := by
  obtain ⟨H, hsteps, -⟩ := h
  have hbegin : s.BindsOperands env.dialect (s.beginNode id) :=
    .of_shader hs rfl fun stage ↦ by cases stage <;> rfl
  obtain ⟨hrun, -⟩ := hsteps.operands hdemand hsafe hn hbegin.holds .empty
  exact (hbegin.trans hrun).trans (.of_shader hrun.holds rfl fun stage ↦ by cases stage <;> rfl)

theorem evaluateWithin_yieldsOperands (hsafe : env.graph.IsLiteralSafe) (depth : Nat) :
    Demand.YieldsOperands env (evaluateWithin depth) := by
  intro id pin s v t h
  refine evaluateWithin_induction (P := fun _ _ s v t ↦ s.HoldsOperands env.dialect →
    s.BindsOperands env.dialect t ∧ v.IsOperand env.dialect) ?_ ?_ depth id pin s v t h
  · exact fun _ _ _ _ hv hs ↦ ⟨.refl hs, hs.binding hv⟩
  · intro demand hdemand _ _ n s v u hn _ _ _ hrun hv hs
    have hbinds := runsReading_operands hdemand hsafe (Graph.node?_mem hn) hrun hs
    exact ⟨hbinds, hbinds.holds.binding hv⟩

theorem evaluate_yieldsOperands (hsafe : env.graph.IsLiteralSafe) :
    Demand.YieldsOperands env evaluate := fun id pin s v t h ↦
  evaluateWithin_yieldsOperands hsafe _ id pin s v t (returns_evaluate.mp h)

theorem terminalRun_operands (hsafe : env.graph.IsLiteralSafe) (hn : n ∈ env.graph.nodes.values)
    (h : TerminalRun env n s t) (hs : s.HoldsOperands env.dialect) :
    s.BindsOperands env.dialect t := by
  obtain ⟨u, hrun, rfl⟩ := h
  exact runsReading_operands (evaluate_yieldsOperands hsafe) hsafe hn (emitKind_runs hrun) hs

theorem terminalRuns_operands (hsafe : env.graph.IsLiteralSafe)
    (hns : ∀ n ∈ ns, n ∈ env.graph.nodes.values) (h : TerminalRuns env ns s t)
    (hs : s.HoldsOperands env.dialect) : s.BindsOperands env.dialect t := by
  induction h with
  | nil => exact .refl hs
  | cons hrun _ ih =>
    obtain ⟨hn, hns⟩ := List.forall_mem_cons.mp hns
    have hfirst := terminalRun_operands hsafe hn hrun hs
    exact hfirst.trans (ih hns hfirst.holds)

end Steps

/-! ## Whole emissions -/

/-- Every operator that is meant for the type of the variable applies to all of the text, save that a
minus in front of a negative literal makes a decrement. -/
def Variable.IsUnit (d : Dialect) (v : Variable) : Prop :=
  ∀ op : Operator, op.IsMeantFor v.type → op.AppliesTo d v ∨ op.IsDecrementOf d v

theorem Variable.IsOperand.isUnit {d : Dialect} {v : Variable} (h : v.IsOperand d) : v.IsUnit d :=
  fun _ ↦ h.apply_cases

section Operands

variable {env : EmitEnv} {n : Node} {H : Held} {s t : EmitState} {depth : Nat}

/-- What an emitter has at hand at any moment of its run. -/
theorem steps_isUnit (hsafe : env.graph.IsLiteralSafe) (hn : n ∈ env.graph.nodes.values)
    (h : Steps env (evaluateWithin depth) n {} s H t) (hs : s.HoldsOperands env.dialect) :
    t.HoldsOperands env.dialect ∧ (∀ v ∈ H.values, v.IsUnit env.dialect) ∧
      (∀ v ∈ H.operands, v.IsUnit env.dialect ∨ ∃ w ∈ H.values, v.IsCastOf env.dialect w) ∧
      ∀ name ∈ H.parameters, IsIdentifier name := by
  obtain ⟨hbinds, hH⟩ :=
    h.operands (evaluateWithin_yieldsOperands hsafe depth) hsafe hn hs .empty
  exact ⟨hbinds.holds, fun v hv ↦ (hH.values v hv).isUnit,
    fun v hv ↦ (hH.operands v hv).imp_left Variable.IsOperand.isUnit, hH.parameters⟩

/-- The value of an input, and what it is converted to. -/
theorem inputValue?_isUnit (hsafe : env.graph.IsLiteralSafe) (hn : n ∈ env.graph.nodes.values)
    {pin : String} {value? : Option Variable}
    (h : Returns env (inputValue? (evaluateWithin depth) n pin) s value? t)
    (hs : s.HoldsOperands env.dialect) :
    t.HoldsOperands env.dialect ∧ ∀ v ∈ value?, v.IsUnit env.dialect ∧
      ∀ type text, v.cast type env.dialect = .ok text →
        (⟨text, type⟩ : Variable).IsUnit env.dialect ∨
          (⟨text, type⟩ : Variable).IsCastOf env.dialect v := by
  obtain ⟨hbinds, hvalue⟩ :=
    inputValue?_operands (evaluateWithin_yieldsOperands hsafe depth) hsafe hn h hs
  refine ⟨hbinds.holds, fun v hv ↦ ⟨(hvalue v hv).isUnit, fun type text hcast ↦ ?_⟩⟩
  exact ((hvalue v hv).cast_cases env.settings.backend hcast).imp_left Variable.IsOperand.isUnit

theorem emission_holdsOperands {settings : Settings} {g : Graph} (hsafe : g.IsLiteralSafe)
    (h : emission settings g = .ok s) : s.HoldsOperands settings.backend.dialect := by
  obtain ⟨pixelOutput, t, u, hterminal, hpixel, hvertex, rfl⟩ := emission_runs h
  let env : EmitEnv := ⟨g, settings⟩
  have hsafe : env.graph.IsLiteralSafe := hsafe
  have ht := (terminalRun_operands hsafe (Graph.terminal_mem hterminal) hpixel
    (EmitState.holdsOperands_empty _)).holds
  have hnext : ({ t with stage := .vertex } : EmitState).HoldsOperands env.dialect :=
    ht.of_shader fun stage ↦ by cases stage <;> rfl
  have hu := (terminalRuns_operands hsafe (fun n hn ↦ (List.mem_filter.mp hn).1) hvertex hnext).holds
  exact hu.of_shader fun stage ↦ by cases stage <;> rfl

end Operands

/-- Emitters run by steps, which write operators only at what the emitter has at hand. If parameters are
identifiers and defaults are finite, the values that emitters work with are units to operators throughout
an emission, and so are the conversions of values that are not casts. -/
theorem compile_operands (settings : Settings) {g : Graph} (hsafe : g.IsLiteralSafe) :
    ({} : EmitState).HoldsOperands settings.backend.dialect ∧
    (∀ n ∈ g.nodes.values, ∀ (depth : Nat) (s t : EmitState) (H : Held),
      s.HoldsOperands settings.backend.dialect →
      Steps ⟨g, settings⟩ (evaluateWithin depth) n {} s H t →
      t.HoldsOperands settings.backend.dialect ∧
        (∀ v ∈ H.values, v.IsUnit settings.backend.dialect) ∧
        (∀ v ∈ H.operands, v.IsUnit settings.backend.dialect ∨
          ∃ w ∈ H.values, v.IsCastOf settings.backend.dialect w) ∧
        ∀ name ∈ H.parameters, IsIdentifier name) ∧
    (∀ (n : Node) (depth : Nat) (s t : EmitState),
      Returns ⟨g, settings⟩ (emitKind (evaluateWithin depth) n) s () t →
      ∃ H, Steps ⟨g, settings⟩ (evaluateWithin depth) n {} s H t) ∧
    (∀ n ∈ g.nodes.values, ∀ (depth : Nat) (pin : String) (s t : EmitState)
      (value? : Option Variable), s.HoldsOperands settings.backend.dialect →
      Returns ⟨g, settings⟩ (inputValue? (evaluateWithin depth) n pin) s value? t →
      t.HoldsOperands settings.backend.dialect ∧
        ∀ v ∈ value?, v.IsUnit settings.backend.dialect ∧
          ∀ type text, v.cast type settings.backend.dialect = .ok text →
            (⟨text, type⟩ : Variable).IsUnit settings.backend.dialect ∨
              (⟨text, type⟩ : Variable).IsCastOf settings.backend.dialect v) ∧
    ∀ s, emission settings g = .ok s → s.HoldsOperands settings.backend.dialect := by
  let env : EmitEnv := ⟨g, settings⟩
  have hsafe : env.graph.IsLiteralSafe := hsafe
  refine ⟨EmitState.holdsOperands_empty _, ?_, ?_, ?_, fun s h ↦ emission_holdsOperands hsafe h⟩
  · exact fun n hn depth s t H hs h ↦ steps_isUnit hsafe hn h hs
  · intro n depth s t h
    obtain ⟨H, hsteps, -⟩ := emitKind_runs h
    exact ⟨H, hsteps⟩
  · exact fun n hn depth pin s t value? hs h ↦ inputValue?_isUnit hsafe hn h hs

/-- The negation of a vector. -/
def negatedTint : Graph :=
  .numbered [.pixelOutput {}, .negate, .uniform "tint" .vec4]
    [⟨1, "Output", 0, "Input"⟩, ⟨2, "Output", 1, "Input"⟩]

/-- The minus in front of the parameter applies to it. -/
theorem compile_operands_negatedTint :
    negatedTint.IsLiteralSafe ∧ (compile {} negatedTint).isOk ∧
      ∃ n ∈ negatedTint.nodes.values, n.kind = .negate ∧
        ∃ t, Returns ⟨negatedTint, {}⟩ (inputValue? (evaluateWithin 1) n "Input") {}
            (some ⟨"tint", .vec4⟩) t ∧
          t.HoldsOperands .glsl ∧ Operator.negation.AppliesTo .glsl ⟨"tint", .vec4⟩ := by
  have hsafe : negatedTint.IsLiteralSafe := ⟨by decide +kernel, by decide +kernel⟩
  let n : Node := .ofKind (Graph.nodeNumber 1) (Graph.pinNumber 1) .negate
  have hn : n ∈ negatedTint.nodes.values :=
    Graph.node?_mem (show negatedTint.node? (Graph.nodeNumber 1) = some n from rfl)
  obtain ⟨t, hrun⟩ : ∃ t, Returns ⟨negatedTint, {}⟩ (inputValue? (evaluateWithin 1) n "Input") {}
      (some ⟨"tint", .vec4⟩) t :=
    toOption_eq_some_iff_returns.mp (by decide +kernel)
  obtain ⟨hstart, -, -, hinputs, -⟩ := compile_operands {} hsafe
  obtain ⟨ht, hvalues⟩ := hinputs n hn 1 "Input" {} t _ hstart hrun
  obtain ⟨happlies | hdecrement, -⟩ := (hvalues _ rfl).imp_left fun hunit ↦ hunit .negation rfl
  · exact ⟨hsafe, by decide +kernel, n, hn, rfl, t, hrun, ht, happlies⟩
  · obtain ⟨x, hliteral, -⟩ := hdecrement.literal
    cases hliteral.scalar

/-- The negation of the default of its input. -/
def negatedDefault (x : Binary32) : Graph :=
  let negation := Node.ofKind (Graph.nodeNumber 1) (Graph.pinNumber 1) .negate
  let input (p : Pin) : Pin := { p with default? := some (.scalar x) }
  ((Graph.untitled.addNode (.ofKind (Graph.nodeNumber 0) (Graph.pinNumber 0) (.pixelOutput {}))).addNode
    { negation with inputs := negation.inputs.map input }).addWires 0 [⟨1, "Output", 0, "Input"⟩]

/-- The comparison of a depth with a shadow map, all coordinates of which are the depth. -/
def shadowTest : Graph :=
  .numbered
    [.pixelOutput {}, .sampler { compare := .lessEqual }, .uniform "shadow" .texture2D,
      .uniform "depth" .scalar]
    [⟨1, "Output", 0, "Input"⟩, ⟨2, "Output", 1, "Texture"⟩, ⟨3, "Output", 1, "TexCoord"⟩]

/-- A minus is written in front of a negative literal, and a selection behind a cast of a scalar. -/
theorem emission_misappliedOperators :
    (negatedDefault (Binary32.negate .one)).Built ∧ shadowTest.Built ∧
      (negatedDefault (Binary32.negate .one)).IsLiteralSafe ∧ shadowTest.IsLiteralSafe ∧
      (emission {} (negatedDefault (Binary32.negate .one))).toOption.map (fun s ↦ s.pixel.main.text) =
        some "float v0 = --1.0;\n_gl_FragData_0 = vec4(v0);\n" ∧
      Dialect.glsl.expression? "-1.0" = some (.negative (.number "1.0")) ∧
      Dialect.glsl.expression? "--1.0" = none ∧
      (emission { backend := .hlsl } shadowTest).toOption.map (fun s ↦ s.pixel.main.text) =
        some ("float v0 = shadow.SampleCmpLevelZero(_dx_sampler_shadow, (float3)depth.xy, " ++
          "(float3)depth.z);\no.Color0 = (float4)v0;\n") ∧
      Dialect.hlsl.expression? "(float3)depth" = some (.conversion "float3" (.name "depth")) ∧
      Dialect.hlsl.expression? "(float3)depth.xy" =
        some (.conversion "float3" (.select (.name "depth") "xy")) :=
  ⟨.addWires (.addNode _ (.addNode _ (.empty _))) _ _, Graph.built_numbered _ _,
    ⟨by decide +kernel, by decide +kernel⟩, ⟨by decide +kernel, by decide +kernel⟩,
    by decide +kernel, rfl, by decide +kernel, by decide +kernel, rfl, rfl⟩

end ShaderGraph
