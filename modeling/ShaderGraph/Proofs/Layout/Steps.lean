import ShaderGraph.Proofs.Layout.Grammar
import ShaderGraph.Proofs.Scope.Steps

/-!
# Steps of laid-out emissions

Every step of an emitter leaves laid-out bodies if those that it found were laid out: it writes whole
statements, or a branch or a loop around the bodies that it captured. Only a switch without cases could
write an attribute in front of a bare block, so that it is taken not to hint at one.
-/

namespace ShaderGraph

open CodeBuffer EmitM Emitter

/-! ## Bodies -/

/-- All bodies that are being written are laid out. -/
def EmitState.IsLaidOut (d : Dialect) (s : EmitState) : Prop :=
  ∀ stage, ∀ b ∈ (s.shader stage).buffers, b.IsBody d

theorem StageShader.isBody_modifyBody {d : Dialect} {s : StageShader} {f : CodeBuffer → CodeBuffer}
    (hs : ∀ b ∈ s.buffers, b.IsBody d) (hf : ∀ b : CodeBuffer, b.IsBody d → (f b).IsBody d) :
    ∀ b ∈ (s.modifyBody f).buffers, b.IsBody d := by
  obtain ⟨top, below, hbuffers⟩ := List.exists_cons_of_ne_nil s.buffers_ne_nil
  rw [hbuffers] at hs
  rw [buffers_modifyBody hbuffers]
  exact List.forall_mem_cons.mpr ⟨hf top (hs top List.mem_cons_self),
    fun b hb ↦ hs b (List.mem_cons_of_mem top hb)⟩

namespace EmitState.IsLaidOut

variable {d : Dialect} {s t : EmitState} {stage : ShaderStage}

theorem empty : ({} : EmitState).IsLaidOut d := by
  intro stage b hb
  obtain rfl : b = {} := by cases stage <;> simpa [EmitState.shader, StageShader.buffers] using hb
  exact .empty

theorem of_buffers (hs : s.IsLaidOut d)
    (h : ∀ stage, (t.shader stage).buffers = (s.shader stage).buffers) : t.IsLaidOut d :=
  fun stage b hb ↦ hs stage b (h stage ▸ hb)

theorem of_sameCode (hs : s.IsLaidOut d) (h : s.SameCode t) : t.IsLaidOut d :=
  hs.of_buffers fun stage ↦ (h.shaders stage).buffers

theorem modifyShader {f : StageShader → StageShader} (hs : s.IsLaidOut d)
    (h : ∀ b ∈ (f (s.shader stage)).buffers, b.IsBody d) : (s.modifyShader stage f).IsLaidOut d := by
  intro other b hb
  by_cases hother : other = stage
  · subst hother
    rw [shader_modifyShader] at hb
    exact h b hb
  · rw [shader_modifyShader_of_ne s f hother] at hb
    exact hs other b hb

theorem bindPin (hs : s.IsLaidOut d) (pin : PinId) (v : Variable) : (s.bindPin pin v).IsLaidOut d :=
  hs.modifyShader (hs s.stage)

theorem allocate (hs : s.IsLaidOut d) (pin : PinId) (type : ValueType) :
    (s.allocate pin type).IsLaidOut d := by
  have hnext : ({ s with nextVariable := s.nextVariable + 1 } : EmitState).IsLaidOut d :=
    hs.of_buffers fun stage ↦ by cases stage <;> rfl
  exact hnext.bindPin pin _

theorem retype (hs : s.IsLaidOut d) (pin : PinId) (type : ValueType) :
    (s.retype pin type).IsLaidOut d :=
  hs.modifyShader (hs s.stage)

theorem modifyBody {f : CodeBuffer → CodeBuffer} (hs : s.IsLaidOut d)
    (hf : ∀ b : CodeBuffer, b.IsBody d → (f b).IsBody d) : (s.modifyBody f).IsLaidOut d :=
  hs.modifyShader (StageShader.isBody_modifyBody (hs s.stage) hf)

theorem write {line : String} (hs : s.IsLaidOut d) (hline : IsStatement line) :
    (s.write line).IsLaidOut d :=
  hs.modifyBody fun _ hb ↦ hb.line hline

theorem beginCapture (hs : s.IsLaidOut d) : s.beginCapture.IsLaidOut d := by
  refine hs.modifyShader fun b hb ↦ ?_
  rcases List.mem_cons.mp hb with rfl | hb
  · exact .empty
  · exact hs s.stage b hb

/-- The text of a capture is a body, and bodies are left behind. -/
theorem endCapture (hs : s.IsLaidOut d) (stage : ShaderStage) :
    LaidOut d (textLines (s.capturedText stage)) ∧ (s.endCapture stage).IsLaidOut d := by
  have hall := hs stage
  have hother : ({ s with stage } : EmitState).IsLaidOut d :=
    hs.of_buffers fun other ↦ by cases other <;> rfl
  have hclosed : (s.shader stage).closeScope.buffers = (s.shader stage).buffers := by
    unfold StageShader.closeScope
    split <;> rfl
  have hstage : ({ s with stage } : EmitState).shader stage = s.shader stage := by
    cases stage <;> rfl
  rw [← hclosed] at hall
  rw [EmitState.capturedText]
  generalize hshader : (s.shader stage).closeScope = shader at hall
  suffices h : LaidOut d (textLines shader.endCapture.1) ∧
      ∀ b ∈ shader.endCapture.2.buffers, b.IsBody d by
    refine ⟨h.1, hother.modifyShader ?_⟩
    rw [hstage, hshader]
    exact h.2
  unfold StageShader.endCapture
  split
  · exact ⟨.nil, hall⟩
  · next b bs hcaptures =>
    rw [StageShader.buffers, hcaptures] at hall
    exact ⟨(hall b (by simp)).laidOut, fun c hc ↦ hall c (List.mem_cons_of_mem b hc)⟩

end EmitState.IsLaidOut

/-! ## Inputs and captures -/

/-- Where the names are visible, the demand of an output upstream of the node leaves laid-out bodies. -/
def Demand.IsLaidOut (env : EmitEnv) (T : PinId → Prop) (base : List String) (n : Node)
    (demand : Demand) : Prop :=
  ∀ (o : OutputRef), (∃ p ∈ n.inputs, env.graph.Upstream NodeKind.isInterpolator p.id o) →
    ∀ s v t, Returns env (demand o.node o.pin) s v t → ∀ Γ : Visible, Γ.Holds base → s.Sound T Γ →
      s.IsLaidOut env.dialect → t.IsLaidOut env.dialect

/-- The text of the branch is laid out, and its value stands for a value somewhere. -/
structure Emitter.Branch.IsLaidOut (d : Dialect) (branch : Branch) : Prop where
  text : LaidOut d (textLines branch.text)
  value : ∃ names, Quiet names branch.value.name

section Captures

variable {env : EmitEnv} {demand : Demand} {n : Node} {s t : EmitState} {pin : String} {Γ : Visible}
  {T : PinId → Prop} {types base : List String} (hscoped : demand.IsScoped env T types base n)
  (hdemand : demand.IsLaidOut env T base n) (hΓ : Γ.Holds base) (hs : s.Sound T Γ)
  (hlaid : s.IsLaidOut env.dialect)
include hdemand hΓ hs hlaid

theorem inputValue?_isLaidOut {value? : Option Variable}
    (h : Returns env (inputValue? demand n pin) s value? t) : t.IsLaidOut env.dialect := by
  obtain ⟨p, hp, ⟨c, v, hc, -, hv⟩ | ⟨-, rfl, -⟩⟩ := inputValue?_cases h
  · exact hdemand c.source ⟨p, List.mem_of_find?_eq_some hp, .driver hc⟩ _ _ _ hv Γ hΓ hs hlaid
  · exact hlaid

include hscoped

theorem captureBranch_isLaidOut {branch : Branch}
    (h : Returns env (captureBranch demand n pin) s branch t) :
    t.IsLaidOut env.dialect ∧ branch.IsLaidOut env.dialect := by
  obtain ⟨_, _, _, _, _, -, -, -, _, -, hvalue⟩ := captureBranch_growth hscoped h hΓ hs
  simp only [captureBranch, returns_bind, returns_pure] at h
  obtain ⟨⟨v, text⟩, t', hcapture, rfl, rfl⟩ := h
  obtain ⟨u, hinput, rfl, rfl⟩ := returns_capture.mp hcapture
  have hbody := inputValue?_isLaidOut hdemand hΓ hs.beginCapture hlaid.beginCapture
    (returns_requireInput.mp hinput)
  obtain ⟨htext, hend⟩ := hbody.endCapture s.stage
  exact ⟨hend, htext, _, hvalue.quiet⟩

theorem captures_isLaidOut {pins : List String} {branches : List Branch}
    (h : Returns env (pins.mapM (captureBranch demand n)) s branches t) :
    t.IsLaidOut env.dialect ∧ ∀ branch ∈ branches, branch.IsLaidOut env.dialect := by
  induction pins generalizing s Γ branches with
  | nil =>
    obtain ⟨rfl, rfl⟩ := returns_mapM_nil.mp h
    exact ⟨hlaid, by simp⟩
  | cons pin pins ih =>
    obtain ⟨branch, s', branches, hbranch, hrest, rfl⟩ := returns_mapM_cons.mp h
    obtain ⟨hfirst, hlaidBranch⟩ := captureBranch_isLaidOut hscoped hdemand hΓ hs hlaid hbranch
    obtain ⟨locals, declared, left, k, m, -, -, hsound, -⟩ :=
      captureBranch_growth hscoped hbranch hΓ hs
    obtain ⟨hlast, hlaidRest⟩ :=
      ih (fun stage ↦ List.Subset.trans (hΓ stage) (List.subset_append_right ..)) hsound hfirst hrest
    exact ⟨hlast, List.forall_mem_cons.mpr ⟨hlaidBranch, hlaidRest⟩⟩

theorem loopBody_isLaidOut {loop : Loop} {names : List String} {value : Variable}
    {condition? : Option String}
    (h : Returns env (loopBody demand n loop names) s (value, condition?) t)
    (hnames : ∀ name ∈ names, Quiet (Γ s.stage) name) :
    t.IsLaidOut env.dialect := by
  obtain ⟨bindings, u, hbindings, hcondition, hvalue⟩ := loopBody_cases h
  have hextends : EmitState.Extends T types Γ Γ s _ :=
    bindPins_extends bindings (fun b hb ↦ by
      obtain ⟨-, name, hname, hb⟩ := hbindings b hb
      rw [hb]
      exact inScope_of_isVector (hnames name hname) rfl) hs
  have hbound : (bindings.foldl (fun s b ↦ s.bindPin b.1 b.2) s).IsLaidOut env.dialect :=
    List.foldlRecOn bindings _ hlaid fun _ hs b _ ↦ hs.bindPin b.1 b.2
  obtain ⟨Δ, hextends', -⟩ :=
    loopCondition?_extends hscoped hcondition hΓ hextends.sound
  have hlaid' : u.IsLaidOut env.dialect := by
    obtain ⟨-, -, -, rfl⟩ | ⟨value?, hinput, -⟩ := loopCondition?_cases hcondition
    · exact hbound
    · exact inputValue?_isLaidOut hdemand hΓ hextends.sound hbound hinput
  exact inputValue?_isLaidOut hdemand (hextends'.holds hΓ) hextends'.sound hlaid' hvalue

end Captures

/-! ## Texts of statements -/

section Statements

variable {b : Backend} {type output expr target : String} {t : ValueType} {k : Nat}

theorem isLine_temporary (k : Nat) : IsLine (temporary k) :=
  (isWord_temporary k).isLine

theorem isStatement_declaration (htype : b.dialect.typeName? t = some type) :
    IsStatement s!"{type} {temporary k};" :=
  .of_isLine (.append (.append (b.isPlainWord_of_typeName? htype).1.isLine (by decide))
    (isLine_temporary k))

theorem isStatement_assignment (htarget : IsLine target) (hexpr : IsLine expr) :
    IsStatement s!"{target} = {expr};" :=
  .of_isLine (.append (.append htarget (by decide)) hexpr)

theorem isStatement_definition (htype : b.dialect.typeName? t = some type) (hexpr : IsLine expr) :
    IsStatement s!"{type} {temporary k} = {expr};" :=
  .of_isLine (.append (.append (.append (.append (b.isPlainWord_of_typeName? htype).1.isLine
    (by decide)) (isLine_temporary k)) (by decide)) hexpr)

theorem isStatement_constant (htype : b.dialect.typeName? t = some type) (hexpr : IsLine expr) :
    IsStatement s!"const {type} {temporary k} = {expr};" := by
  have hdefinition := isStatement_definition (k := k) htype hexpr
  have hconst : IsLine "const " := by decide
  obtain ⟨hline, body, hbody⟩ := hdefinition
  have htext : s!"const {type} {temporary k} = {expr};" =
      "const " ++ s!"{type} {temporary k} = {expr};" := by simp [String.append_assoc]
  rw [htext]
  exact ⟨.append hconst hline, "const " ++ body, by rw [hbody, String.append_assoc]⟩

theorem Backend.isLine_outputReference (b : Backend) {name : String} (hname : IsLine name) :
    IsLine (b.dialect.outputReference name) := by
  unfold Dialect.outputReference
  split
  · exact hname
  · exact .append (show IsLine "o." by decide) hname

theorem Backend.isLine_target (b : Backend) (htarget : target = b.dialect.positionOutput ∨
    ∃ index, target = (b.dialect.fragmentOutput index).2) : IsLine target := by
  obtain rfl | ⟨index, rfl⟩ := htarget
  · cases b <;> decide
  · have hindex : IsLine (toString index) := (isPlainWord_toString index).1.isLine
    cases b
    · exact .append (show IsLine "_gl_FragData_" by decide) hindex
    · exact show IsLine "gl_FragColor" by decide
    · exact .append (show IsLine "o.Color" by decide) hindex

theorem isLine_loopHeader (c : Counter) (htype : b.dialect.typeName? t = some type) (k : Nat) :
    IsLine (loopHeader type (c, temporary k)) := by
  obtain ⟨test, heq, htest⟩ := exists_header c (temporary k)
  have hquiet : Quiet [temporary k] test := htest.quiet fun a ha ↦
    ha ▸ quiet_temporary List.mem_cons_self
  have hline : loopHeader type (c, temporary k) =
      "for (" ++ type ++ " " ++ (temporary k ++ " = " ++ test) := by
    rw [← heq]
    simp [loopHeader, String.append_assoc]
  rw [hline]
  exact .append (.append (.append (by decide) (b.isPlainWord_of_typeName? htype).1.isLine)
    (by decide)) (.append (.append (isLine_temporary k) (by decide)) hquiet.isLine)

end Statements

/-! ## Constructs -/

section Constructs

variable {env : EmitEnv} {demand : Demand} {n : Node} {H : Held} {s t u : EmitState} {Γ : Visible}
  {types base : List String} {pin : PinId} {type : ValueType} {name : String}
  {attribute? : Option String}

/-- What is written for an arm ends in the assignment of its value. -/
theorem Arm.laidOut {b : Backend} {arm : Arm} {k : Nat} (hbranch : arm.branch.IsLaidOut b.dialect)
    (hvalue : arm.branch.value.cast type b.dialect = .ok arm.value)
    (hhead : ∀ line ∈ arm.head, IsLine line) :
    arm.IsWritten (temporary k) ∧ LaidOut b.dialect (arm.inner (temporary k)) := by
  obtain ⟨names, hquiet⟩ := hbranch.value
  have hassign : IsStatement s!"{temporary k} = {arm.value};" :=
    isStatement_assignment (isLine_temporary k) (Variable.quiet_cast b hvalue hquiet).isLine
  exact ⟨⟨hhead, hbranch.text.isFullLine, hassign.1⟩, hbranch.text.statement hassign⟩

theorem Arm.isLine_head {Γ : List String} {P : Prop} {arm : Arm} (hH : H.Sound Γ P)
    (hhead : arm.head = [] ∨ ∃ line, arm.head = [line] ∧ Arm.IsHead H line) :
    ∀ line ∈ arm.head, IsLine line := by
  obtain hnone | ⟨line, hone, helse | hstates⟩ := hhead
  · simp [hnone]
  · rw [hone, helse]
    decide
  · rw [hone]
    exact List.forall_mem_singleton.mpr (hstates.sentence.quiet hH.texts).isLine

theorem branches_isLaidOut (hscoped : demand.IsScoped env T types base n)
    (hdemand : demand.IsLaidOut env T base n) {pins : List String} {arms : List Arm}
    (h : Returns env (pins.mapM (captureBranch demand n)) s (arms.map Arm.branch) t)
    (hname : env.dialect.typeName? type = some name)
    (hattribute : ∀ line ∈ attribute?, env.dialect.flattenAttribute? = some line ∨
      env.dialect.branchAttribute? = some line)
    (hheads : ∀ arm ∈ arms, arm.head = [] ∨ ∃ line, arm.head = [line] ∧ Arm.IsHead H line)
    (hvalues : ∀ arm ∈ arms, arm.branch.value.cast type env.dialect = .ok arm.value)
    (hchain : Arm.AreChained attribute? arms) (hΓ : Γ.Holds base) (hs : s.Sound T Γ)
    {P : Prop} (hH : H.Sound (Γ s.stage) P) (hlaid : s.IsLaidOut env.dialect) :
    ((t.allocate pin type).modifyBody fun b ↦
      arms.foldl (Arm.write (temporary t.nextVariable))
        (attribute?.toList.foldl CodeBuffer.line
          (b.line s!"{name} {temporary t.nextVariable};"))).IsLaidOut env.dialect := by
  obtain ⟨ht, hbranches⟩ := captures_isLaidOut hscoped hdemand hΓ hs hlaid h
  have harms (arm : Arm) (harm : arm ∈ arms) :=
    Arm.laidOut (b := env.settings.backend) (k := t.nextVariable)
      (hbranches arm.branch (List.mem_map_of_mem harm)) (hvalues arm harm)
      (Arm.isLine_head hH (hheads arm harm))
  exact (ht.allocate pin type).modifyBody fun b hb ↦
    IsBody.branches (t := env.settings.backend) hb (isStatement_declaration hname) hattribute
      hchain (fun arm harm ↦ (harms arm harm).1) fun arm harm ↦ (harms arm harm).2

theorem loop_isLaidOut (hscoped : demand.IsScoped env T types base n)
    (hdemand : demand.IsLaidOut env T base n) {loop : Loop} {scalar start result : String}
    {names : List String} {declared : ValueType} {value : Variable} {condition? : Option String}
    (hdeclared : declared.isTexture = false)
    (hnames : names = EmitState.temporaries (s.nextVariable + 1) loop.counters.length)
    (hstart : t = { s.allocate pin declared with
      nextVariable := s.nextVariable + 1 + loop.counters.length })
    (h : Returns env (loopBody demand n loop names) t.beginCapture (value, condition?) u)
    (hname : env.dialect.typeName? type = some name)
    (hscalar : env.dialect.typeName? .scalar = some scalar)
    (hresult : value.cast type env.dialect = .ok result) (hvalue : IsLine start)
    (hattribute : ∀ line ∈ attribute?, env.dialect.unrollAttribute? = some line)
    (hcounters : loop.counters ≠ []) (hΓ : Γ.Holds base) (hs : s.Sound T Γ)
    (hlaid : s.IsLaidOut env.dialect) :
    (((u.endCapture s.stage).retype pin type).modifyBody fun b ↦
      writeLoop loop names scalar (u.capturedText s.stage) condition?
        s!"{temporary s.nextVariable} {loopOperator loop.accumulate} {result};"
        (attribute?.toList.foldl CodeBuffer.line
          (b.line s!"{name} {temporary s.nextVariable} = {start};"))).IsLaidOut env.dialect := by
  have hstage := stage_loopStart hstart
  have hnamed : ∀ c ∈ names, ∃ j, c = temporary j := by
    intro c hc
    rw [hnames, EmitState.temporaries, List.mem_map] at hc
    obtain ⟨j, -, rfl⟩ := hc
    exact ⟨j, rfl⟩
  have hbound := (loopStart_sound hs names (by simp [hdeclared]) hstart).beginCapture
  have hcounted : ∀ c ∈ names,
      Quiet (Γ.add s.stage (names ++ [temporary s.nextVariable]) t.beginCapture.stage) c := by
    intro c hc
    obtain ⟨j, rfl⟩ := hnamed c hc
    exact quiet_temporary (by simp [hstage, hc])
  have hallocated : t.IsLaidOut env.dialect := by
    rw [hstart]
    exact (hlaid.allocate pin declared).of_buffers fun stage ↦ by cases stage <;> rfl
  have hbody := loopBody_isLaidOut hscoped hdemand hΓ.add hbound hallocated.beginCapture h hcounted
  obtain ⟨Δ, -, hscope, hcondition⟩ := loopBody_extends hscoped h hΓ.add hbound hcounted
  obtain ⟨htext, hend⟩ := hbody.endCapture s.stage
  have hassign : IsStatement
      s!"{temporary s.nextVariable} {loopOperator loop.accumulate} {result};" := by
    have hline := (Variable.quiet_cast env.settings.backend hresult hscope).isLine
    have hoperator : IsLine (loopOperator loop.accumulate) := by
      unfold loopOperator
      split <;> decide
    exact .of_isLine (.append (.append (.append (.append (isLine_temporary _) (by decide))
      hoperator) (by decide)) hline)
  have hlength : names.length = loop.counters.length := by simp [hnames, EmitState.temporaries]
  refine (hend.retype pin type).modifyBody fun b hb ↦
    IsBody.loop (t := env.settings.backend) hb (isStatement_definition hname hvalue) hattribute
      ?_ (fun p hp ↦ ?_) htext (fun c hc ↦ (hcondition c hc).isLine) hassign
  · rwa [ne_eq, ← List.length_eq_zero_iff, List.length_zip, hlength, min_self,
      List.length_eq_zero_iff]
  · obtain ⟨j, hj⟩ := hnamed p.2 (List.of_mem_zip hp).2
    obtain ⟨c, name⟩ := p
    obtain rfl : name = temporary j := hj
    exact isLine_loopHeader c hscalar j

/-- The vertex stage writes the value to its slot. -/
theorem EmitState.IsLaidOut.carry {b : Backend} {v : Variable} (ht : t.IsLaidOut b.dialect)
    (hv : IsLine v.name) : (t.carry b.dialect pin v).IsLaidOut b.dialect := by
  have hwrite : IsStatement
      s!"{b.dialect.outputReference (interpolatorName t.interpolators)} = {v.name};" :=
    isStatement_assignment
      (b.isLine_outputReference (isWord_interpolatorName t.interpolators).isLine) hv
  intro stage
  cases stage with
  | vertex =>
    refine StageShader.isBody_modifyBody (d := b.dialect) ?_ fun c hc ↦ hc.line hwrite
    exact ht .vertex
  | pixel => exact ht .pixel

end Constructs

/-! ## Steps -/

theorem Step.isLaidOut {env : EmitEnv} {demand : Demand} {n : Node} {H K : Held}
    {s t : EmitState} {T : PinId → Prop} {Γ : Visible} {types base : List String} {P : Prop}
    (hscoped : demand.IsScoped env T types base n) (hdemand : demand.IsLaidOut env T base n)
    (hswitch : ∀ hint, n.kind = .switch [] hint → hint = .auto) (h : Step env demand n H s K t)
    (hΓ : Γ.Holds base) (hs : s.Sound T Γ) (hH : H.Sound (Γ s.stage) P)
    (hlaid : s.IsLaidOut env.dialect) : t.IsLaidOut env.dialect := by
  cases h with
  | guard => exact hlaid
  | read h => exact inputValue?_isLaidOut hdemand hΓ hs hlaid h
  | hoist ho h => exact hdemand _ (Graph.upstream_of_hoisted ho) _ _ _ h Γ hΓ hs hlaid
  | convert => exact hlaid
  | define _ _ hname hexpr =>
    exact (hlaid.allocate _ _).write (isStatement_definition (b := env.settings.backend) hname
      (hH.computes (b := env.settings.backend) hexpr).isLine)
  | constant _ _ hname hliteral =>
    exact (hlaid.allocate _ _).write (isStatement_constant (b := env.settings.backend) hname
      ((Held.Sound.empty (Γ := []) (P := False)).forms hliteral).isLine)
  | declare _ _ hname =>
    exact (hlaid.allocate _ _).write (isStatement_declaration (b := env.settings.backend) hname)
  | forward => exact hlaid.bindPin _ _
  | output htarget hexpr =>
    exact hlaid.write (isStatement_assignment
      (env.settings.backend.isLine_target
        (htarget.imp And.left fun ⟨index, hindex, _⟩ ↦ ⟨index, hindex⟩)) (hH.forms hexpr).isLine)
  | statement htext hend => exact hlaid.write ⟨(htext.sentence.quiet hH.texts).isLine, hend⟩
  | uniform _ h =>
    obtain ⟨entry, -, rfl⟩ := returns_declareUniform.mp h
    exact hlaid.of_sameCode ((EmitState.SameCode.addUniform s _ entry).trans (.declareOnce _ _ _ _))
  | @sampler _ texture state _ _ _ _ _ _ _ _ h =>
    obtain ⟨-, rfl⟩ := returns_declareSampler.mp h
    have hadd := hlaid.of_buffers (t := s.addSampler (s.samplerEntry env.dialect texture state))
      fun stage ↦ by cases stage <;> rfl
    exact hadd.of_sameCode (.declareOnce _ _ _ _)
  | vertexAttribute _ _ h =>
    obtain ⟨-, rfl⟩ | ⟨-, -, rfl⟩ := returns_vertexAttribute.mp h
    · exact hlaid
    · exact hlaid.modifyShader (hlaid s.stage)
  | script _ h =>
    obtain ⟨-, rfl⟩ | ⟨-, rfl⟩ := returns_defineScript.mp h
    · exact hlaid
    · exact hlaid.of_sameCode (.addScript s _ _ _)
  | target _ _ _ h =>
    obtain rfl := returns_declareOnce.mp h
    exact hlaid.of_sameCode (.declareOnce s _ _ _)
  | require => exact hlaid.of_buffers fun stage ↦ by cases stage <;> rfl
  | provide => exact hlaid
  | renderState => exact hlaid.of_buffers fun stage ↦ by cases stage <;> rfl
  | branches _ _ h _ _ hname hattribute hheads hvalues _ hchain =>
    refine branches_isLaidOut hscoped hdemand h hname hattribute hheads hvalues ?_ hΓ hs hH hlaid
    exact hchain.imp_right fun ⟨hint, hkind, hbare, hnone⟩ ↦ ⟨hbare, hnone (hswitch hint hkind)⟩
  | @loop t _ _ _ _ _ _ start _ _ _ type _ _ _ hinitial hdeclared _ hnames hstart h _ _ hname hscalar
      hresult hvalue hattribute hcounters =>
    have hline : IsLine start := by
      obtain ⟨v, hv, -, hcast⟩ | ⟨-, rfl⟩ := hvalue
      · exact (Variable.quiet_cast env.settings.backend hcast
          (hH.values v (hinitial v hv).1).quiet).isLine
      · have hzero : Quiet [] (env.dialect.scalarLiteral type .zero) :=
          env.settings.backend.quiet_scalarLiteral type .zero
        exact hzero.isLine
    exact loop_isLaidOut (t := t) hscoped hdemand (isTexture_loopStart hinitial hdeclared) hnames hstart h hname hscalar hresult hline
      hattribute hcounters hΓ hs hlaid
  | cross _ _ h _ _ =>
    have hlaidVertex : ({ s with stage := .vertex } : EmitState).IsLaidOut env.dialect :=
      hlaid.of_buffers fun stage ↦ by cases stage <;> rfl
    obtain ⟨Δ, -, hscope⟩ := requireInput_extends hscoped h hΓ hs.enter
    exact (inputValue?_isLaidOut hdemand hΓ hs.enter hlaidVertex (returns_requireInput.mp h)).carry
      (b := env.settings.backend) hscope.quiet.isLine

end ShaderGraph
