import Mathlib.Logic.Function.Basic
import ShaderGraph.Proofs.Data.Maps
import ShaderGraph.Proofs.Emission.Declarations
import ShaderGraph.Proofs.Scope.Growth

/-!
# Writing, binding and capturing

The ways in which a step changes bodies and bindings: pins are bound, code is written to the active
body of the current stage, and the code of a branch or of a loop body is captured, to be written
later within a construct.
-/

namespace ShaderGraph

namespace StageShader

variable {types Γ locals declared : List String} {slots : List Nat} {s u : StageShader}

/-- A capture leaves bodies, scopes and scoped bindings as they were, and its text is code. -/
theorem Grows.capture (h : s.beginCapture.openScope.Grows types Γ u locals declared slots) :
    Code types Γ (tokens u.closeScope.endCapture.1) locals declared slots ∧
      u.closeScope.endCapture.2.buffers = s.buffers ∧
      u.closeScope.endCapture.2.scopes = s.scopes ∧
      u.closeScope.endCapture.2.bindings = s.bindings ∧
      u.closeScope.endCapture.2.outer = u.outer ∧
      u.closeScope.endCapture.2.attributes = u.attributes := by
  obtain ⟨b, c, rest, ts, hs, hu, hgrows, hcode⟩ := h.code
  obtain ⟨rfl, rfl⟩ := List.cons.inj (show ({} : CodeBuffer) :: s.buffers = b :: rest from hs)
  obtain ⟨d, ds, hds⟩ := List.exists_cons_of_ne_nil s.buffers_ne_nil
  have hscopes : u.scopes = s.bindings.length :: s.scopes := h.scopes
  have hbindings : s.bindings <:+ u.bindings := h.bindings
  have hclosed : u.closeScope =
      { u with scopes := s.scopes, bindings := s.bindings } := by
    have hdrop := (List.suffix_iff_eq_drop.mp hbindings).symm
    simp only [closeScope, hscopes, hdrop]
  have hbuffers : u.closeScope.buffers = c :: d :: ds := by
    rw [hclosed]
    exact hu.trans (by rw [hds])
  obtain ⟨htext, hrest⟩ := endCapture_of_buffers hbuffers
  have htokens : tokens u.closeScope.endCapture.1 = ts := by
    rw [htext, hgrows.tokens]
    rfl
  refine ⟨htokens ▸ hcode, hrest.trans hds.symm, ?_⟩
  rw [hclosed]
  unfold endCapture
  split <;> exact ⟨rfl, rfl, rfl, rfl⟩

end StageShader

/-- What is added in one stage only. -/
def ShaderStage.only {α : Type} (stage : ShaderStage) (xs : List α) : ShaderStage → List α :=
  Function.update (fun _ ↦ []) stage xs

/-- More names are visible in one stage. -/
def Visible.add (Γ : Visible) (stage : ShaderStage) (names : List String) : Visible :=
  Function.update Γ stage (names ++ Γ stage)

namespace Visible

variable {Γ : Visible} {stage other : ShaderStage} {names more : List String}

@[simp]
theorem add_self : Γ.add stage names stage = names ++ Γ stage :=
  Function.update_self ..

theorem add_of_ne (h : other ≠ stage) : Γ.add stage names other = Γ other :=
  Function.update_of_ne h ..

theorem add_nil : Γ.add stage [] = Γ := by
  simp [add]

theorem subset_add : ∀ other, Γ other ⊆ Γ.add stage names other := by
  intro other
  by_cases h : other = stage
  · subst h
    rw [add_self]
    exact List.subset_append_right ..
  · rw [add_of_ne h]
    exact List.Subset.refl _

theorem Holds.add (h : Γ.Holds more) : (Γ.add stage names).Holds more :=
  fun other ↦ List.Subset.trans (h other) (subset_add other)

theorem only_append : (fun other ↦ stage.only names other ++ Γ other) = Γ.add stage names := by
  funext other
  by_cases h : other = stage
  · subst h
    simp [ShaderStage.only]
  · simp [ShaderStage.only, add_of_ne h, Function.update_of_ne h]

end Visible

theorem only_nil (stage : ShaderStage) : stage.only ([] : List String) = fun _ ↦ [] := by
  funext other
  by_cases h : other = stage
  · subst h
    simp [ShaderStage.only]
  · simp [ShaderStage.only, Function.update_of_ne h]

theorem only_perm (stage : ShaderStage) (xs : List String) :
    (stage.only xs .vertex ++ stage.only xs .pixel).Perm xs := by
  cases stage <;> simp [ShaderStage.only]

namespace EmitState

variable {T : PinId → Prop} {types : List String} {Γ : Visible} {s t : EmitState}

theorem buffers_endsApart (hs : s.Sound T Γ) (stage : ShaderStage) :
    ∀ b ∈ (s.shader stage).buffers, EndsApart b.text :=
  (hs.shaders stage).endsApart

theorem Sound.mono {Δ : Visible} (h : s.Sound T Γ) (hsub : ∀ stage, Γ stage ⊆ Δ stage) :
    s.Sound T Δ :=
  ⟨fun stage ↦ (h.shaders stage).mono (hsub stage), h.vertex, h.samplers⟩

theorem shader_setVariable (s : EmitState) (k : Nat) (stage : ShaderStage) :
    ({ s with nextVariable := k } : EmitState).shader stage = s.shader stage := by
  cases stage <;> rfl

/-- A run that takes temporaries and acts on the current stage. -/
theorem Growth.modifyShader {f : StageShader → StageShader}
    {locals declared owed left : List String} {k : Nat} (hs : s.Sound T Γ)
    (hf : (s.shader s.stage).Grows types (Γ s.stage) (f (s.shader s.stage)) locals declared [])
    (hnames : (declared ++ left).Perm (owed ++ temporaries s.nextVariable k)) :
    Growth types Γ s
      (({ s with nextVariable := s.nextVariable + k } : EmitState).modifyShader s.stage f)
      (s.stage.only locals) (s.stage.only declared) owed left k 0 where
  stage := by simp
  nextVariable := by simp
  interpolators := by simp
  vertex _ := rfl
  shaders stage := by
    have hnone : writtenSlots s.interpolators 0 stage = [] := by cases stage <;> rfl
    rw [hnone]
    by_cases hstage : stage = s.stage
    · subst hstage
      simpa [ShaderStage.only, shader_setVariable] using hf
    · rw [shader_modifyShader_of_ne _ f hstage, shader_setVariable]
      simp only [ShaderStage.only, Function.update_of_ne hstage]
      exact .of_sameCode (hs.shaders stage) (.refl _)
  names := (List.Perm.append_right left (only_perm s.stage declared)).trans hnames

/-- What is written in the current stage may be put together anew once a run has ended, if it
declares what the run has declared there or left to be written. -/
theorem Growth.construct {w : EmitState} {g : StageShader → StageShader} {locals declared : Visible}
    {owed left left' locals' declared' : List String} {k m : Nat}
    (h : Growth types Γ s w locals declared owed left k m)
    (hg : (s.shader s.stage).Grows types (Γ s.stage) (g (w.shader s.stage)) locals' declared' [])
    (hnames : (declared' ++ left').Perm (declared s.stage ++ left)) :
    Growth types Γ s (w.modifyShader s.stage g) (Function.update locals s.stage locals')
      (Function.update declared s.stage declared') owed left' k m where
  stage := (stage_modifyShader ..).trans h.stage
  nextVariable := (nextVariable_modifyShader ..).trans h.nextVariable
  interpolators := (interpolators_modifyShader ..).trans h.interpolators
  vertex := h.vertex
  shaders stage := by
    by_cases hstage : stage = s.stage
    · subst hstage
      rw [h.writtenSlots_stage, shader_modifyShader, Function.update_self, Function.update_self]
      exact hg
    · rw [shader_modifyShader_of_ne w g hstage, Function.update_of_ne hstage,
        Function.update_of_ne hstage]
      exact h.shaders stage
  names := by
    refine List.Perm.trans ?_ h.names
    simp only [List.perm_iff_count, List.count_append] at hnames ⊢
    intro name
    have hname := hnames name
    cases hstage : s.stage <;> rw [hstage] at hname <;> simp <;> omega

/-- What is known of the stages is kept if it is kept in the current stage. -/
theorem Sound.modifyShader {f : StageShader → StageShader} {names : List String} {k : Nat}
    (hs : s.Sound T Γ) (hf : (f (s.shader s.stage)).Sound T (names ++ Γ s.stage)) :
    (({ s with nextVariable := k } : EmitState).modifyShader s.stage f).Sound T
      (Γ.add s.stage names) where
  shaders stage := by
    by_cases hstage : stage = s.stage
    · subst hstage
      simpa [shader_setVariable] using hf
    · rw [shader_modifyShader_of_ne _ f hstage, shader_setVariable, Visible.add_of_ne hstage]
      exact hs.shaders stage
  vertex hstage := by
    have hpixel : s.stage = .pixel := by simpa using hstage
    have hne : ShaderStage.vertex ≠ s.stage := by
      rw [hpixel]
      decide
    have hvertex := shader_modifyShader_of_ne ({ s with nextVariable := k } : EmitState) f hne
    have hcaptures := congrArg StageShader.captures hvertex
    exact hcaptures.trans (hs.vertex hpixel)
  samplers := by simpa using hs.samplers

end EmitState

namespace StageShader

variable {T : PinId → Prop} {Γ : List String} {s : StageShader}

theorem Sound.bind (hs : s.Sound T Γ) {pin : PinId} {v : Variable} (hv : v.InScope Γ (T pin)) :
    (s.bind pin v).Sound T Γ where
  endsApart := hs.endsApart
  bindings b hb := by
    rcases List.mem_cons.mp hb with rfl | hb
    · exact hv
    · exact hs.bindings b hb
  outer := hs.outer
  attributes := hs.attributes

theorem Sound.modifyBody (hs : s.Sound T Γ) {f : CodeBuffer → CodeBuffer} {ts : List Token}
    (hf : ∀ b : CodeBuffer, EndsApart b.text → b.Grows (f b) ts) : (s.modifyBody f).Sound T Γ := by
  obtain ⟨b, rest, hbuffers⟩ := List.exists_cons_of_ne_nil s.buffers_ne_nil
  have hends : ∀ c ∈ (s.modifyBody f).buffers, EndsApart c.text := by
    intro c hc
    rw [buffers_modifyBody hbuffers] at hc
    rcases List.mem_cons.mp hc with rfl | hc
    · exact (hf b (hs.endsApart b (by simp [hbuffers]))).endsApart
    · exact hs.endsApart c (by simp [hbuffers, hc])
  unfold StageShader.modifyBody at hends ⊢
  cases hcaptures : s.captures <;>
    exact ⟨by simpa [hcaptures] using hends, hs.bindings, hs.outer, hs.attributes⟩

end StageShader

namespace EmitState.Extends

variable {T : PinId → Prop} {types : List String} {Γ : Visible} {s : EmitState} {f : CodeBuffer → CodeBuffer}
  {ts : List Token}

/-- Acting on the current stage in a way that declares nothing. -/
theorem modifyShader {g : StageShader → StageShader} (hs : s.Sound T Γ)
    (hgrows : (s.shader s.stage).Grows types (Γ s.stage) (g (s.shader s.stage)) [] [] [])
    (hsound : (g (s.shader s.stage)).Sound T (Γ s.stage)) :
    Extends T types Γ Γ s (s.modifyShader s.stage g) := by
  have hgrowth : Growth types Γ s (s.modifyShader s.stage g) (s.stage.only []) (s.stage.only []) [] []
      0 0 := Growth.modifyShader (k := 0) hs hgrows (.refl [])
  have hkept : (s.modifyShader s.stage g).Sound T (Γ.add s.stage []) := Sound.modifyShader hs hsound
  rw [Visible.add_nil] at hkept
  exact ⟨hkept, _, _, _, _, by rw [Visible.only_append, Visible.add_nil], hgrowth⟩

theorem bindPin (hs : s.Sound T Γ) (pin : PinId) {v : Variable}
    (hv : v.InScope (Γ s.stage) (T pin)) :
    Extends T types Γ Γ s (s.bindPin pin v) :=
  .modifyShader hs (.bind (buffers_endsApart hs s.stage) pin v) ((hs.shaders s.stage).bind hv)

/-- Writing code that declares nothing. -/
theorem modifyBody (hs : s.Sound T Γ) (hf : ∀ b : CodeBuffer, EndsApart b.text → b.Grows (f b) ts)
    (hcode : Code types (Γ s.stage) ts [] [] []) : Extends T types Γ Γ s (s.modifyBody f) :=
  .modifyShader hs (.modifyBody (buffers_endsApart hs s.stage) hf hcode)
    ((hs.shaders s.stage).modifyBody hf)

end EmitState.Extends

namespace EmitState

variable {T : PinId → Prop} {types : List String} {Γ : Visible} {s : EmitState}
  {f : CodeBuffer → CodeBuffer} {ts : List Token}

/-- Binding a pin to a new temporary and writing code that declares it, together with temporaries
whose declarations were left to be written. -/
theorem Growth.allocate (hs : s.Sound T Γ) (pin : PinId) (type : ValueType) (paid : List String)
    (hf : ∀ b : CodeBuffer, EndsApart b.text → b.Grows (f b) ts)
    (hcode : Code types (Γ s.stage) ts [temporary s.nextVariable]
      (temporary s.nextVariable :: paid) []) :
    Growth types Γ s ((s.allocate pin type).modifyBody f)
      (s.stage.only [temporary s.nextVariable])
      (s.stage.only (temporary s.nextVariable :: paid)) paid [] 1 0 := by
  have hends : ∀ b ∈ ((s.shader s.stage).bind pin ⟨temporary s.nextVariable, type⟩).buffers,
      EndsApart b.text := buffers_endsApart hs s.stage
  have hgrows : (s.shader s.stage).Grows types (Γ s.stage)
      (((s.shader s.stage).bind pin ⟨temporary s.nextVariable, type⟩).modifyBody f)
      [temporary s.nextVariable] (temporary s.nextVariable :: paid) [] := by
    simpa using (StageShader.Grows.bind (buffers_endsApart hs s.stage) pin
      ⟨temporary s.nextVariable, type⟩).trans (.modifyBody (Γ := [] ++ Γ s.stage) hends hf hcode)
  have hnames : (temporary s.nextVariable :: paid ++ []).Perm
      (paid ++ temporaries s.nextVariable 1) := by
    rw [List.append_nil]
    exact (List.perm_append_singleton (temporary s.nextVariable) paid).symm
  rw [EmitState.modifyBody, stage_allocate, EmitState.allocate, EmitState.bindPin,
    modifyShader_modifyShader]
  exact Growth.modifyShader hs hgrows hnames

theorem Sound.allocate (hs : s.Sound T Γ) (pin : PinId) (type : ValueType)
    (htype : type.isTexture → T pin)
    (hf : ∀ b : CodeBuffer, EndsApart b.text → b.Grows (f b) ts) :
    ((s.allocate pin type).modifyBody f).Sound T (Γ.add s.stage [temporary s.nextVariable]) := by
  have hbound : (s.shader s.stage).Sound T ([temporary s.nextVariable] ++ Γ s.stage) :=
    (hs.shaders s.stage).mono (List.subset_append_right ..)
  have hvalue : (⟨temporary s.nextVariable, type⟩ : Variable).InScope
      ([temporary s.nextVariable] ++ Γ s.stage) (T pin) := inScope_temporary (by simp) htype
  rw [EmitState.modifyBody, stage_allocate, EmitState.allocate, EmitState.bindPin,
    modifyShader_modifyShader]
  exact hs.modifyShader ((hbound.bind hvalue).modifyBody hf)

theorem Extends.allocate (hs : s.Sound T Γ) (pin : PinId) (type : ValueType)
    (htype : type.isTexture → T pin)
    (hf : ∀ b : CodeBuffer, EndsApart b.text → b.Grows (f b) ts)
    (hcode : Code types (Γ s.stage) ts [temporary s.nextVariable] [temporary s.nextVariable] []) :
    Extends T types Γ (Γ.add s.stage [temporary s.nextVariable]) s
      ((s.allocate pin type).modifyBody f) :=
  ⟨hs.allocate pin type htype hf, _, _, _, _, Visible.only_append.symm,
    .allocate hs pin type [] hf hcode⟩

end EmitState

/-! ## Declarations -/

namespace EmitState.SameCode

theorem declareOnce (s : EmitState) (block : Block) (name : String) (declaration? : Option String) :
    s.SameCode (s.declareOnce block name declaration?) := by
  unfold EmitState.declareOnce
  split
  · exact .refl s
  · refine .modifyShader ?_
    cases declaration? with
    | none => exact .declare _ name
    | some line =>
      have hblock := StageShader.SameCode.modifyBlock ((s.shader s.stage).declare name) block
        fun b ↦ b.line line
      exact (StageShader.SameCode.declare _ name).trans hblock

theorem addUniform (s : EmitState) (name : String) (entry : UniformDeclaration) :
    s.SameCode (s.addUniform name entry) :=
  ⟨rfl, rfl, rfl, rfl, fun stage ↦ by cases stage <;> exact .refl _⟩

theorem addScript (s : EmitState) (name signature body : String) :
    s.SameCode (s.addScript name signature body) :=
  .modifyShader ((StageShader.SameCode.modifyBlock _ .scripts _).trans (.defineScript _ name
    signature))

end EmitState.SameCode

/-- Entering a sampler with a plain name. -/
theorem EmitState.Extends.addSampler {T : PinId → Prop} {types : List String} {Γ : Visible}
    {s : EmitState}
    (hs : s.Sound T Γ) {entry : SamplerDeclaration} (hentry : IsPlainWord entry.name) :
    Extends T types Γ Γ s (s.addSampler entry) := by
  have hshaders : ∀ stage, (s.addSampler entry).shader stage = s.shader stage := fun stage ↦ by
    cases stage <;> rfl
  have hgrowth : Growth types Γ s (s.addSampler entry) (fun _ ↦ []) (fun _ ↦ []) [] [] 0 0 :=
    { (Growth.of_sameCode hs (.refl s) : Growth types Γ s s _ _ [] [] 0 0) with
      shaders := fun stage ↦ by
        rw [hshaders]
        exact (Growth.of_sameCode hs (.refl s)).shaders stage }
  refine ⟨⟨fun stage ↦ ?_, hs.vertex, fun e he ↦ ?_⟩, _, _, _, _, rfl, hgrowth⟩
  · rw [hshaders]
    exact hs.shaders stage
  · obtain rfl | he := OrderedMap.mem_values_insert he
    · exact hentry
    · exact hs.samplers e he

/-- Declaring an attribute, whose reference is in scope everywhere. -/
theorem EmitState.Extends.addAttribute {T : PinId → Prop} {types : List String} {Γ : Visible}
    {s : EmitState}
    (hs : s.Sound T Γ) (d : Dialect) (name : String) (usage : AttributeUsage) (type : ValueType)
    (index : UInt32)
    (hvalue : (⟨d.inputReference (d.vertexAttribute usage index).1, type⟩ : Variable).InScope []
      False) :
    Extends T types Γ Γ s (s.addAttribute d name usage type index) := by
  let declare : StageShader → StageShader := fun shader ↦
    (shader.modifyBlock .inputs fun b ↦ b.line (d.attributeDeclaration type
      (d.vertexAttribute usage index).1 (d.vertexAttribute usage index).2)).addAttribute name
        ⟨d.inputReference (d.vertexAttribute usage index).1, type⟩
  have hblock := StageShader.SameCode.modifyBlock (s.shader s.stage) .inputs fun b ↦
    b.line (d.attributeDeclaration type (d.vertexAttribute usage index).1
      (d.vertexAttribute usage index).2)
  have hgrows : (s.shader s.stage).Grows types (Γ s.stage) (declare (s.shader s.stage)) [] [] [] :=
    .of_buffers (buffers_endsApart hs s.stage) hblock.buffers hblock.scopes
      (by simp [show (declare (s.shader s.stage)).bindings = _ from hblock.bindings])
  have hshader := hblock.sound (hs.shaders s.stage)
  refine .modifyShader (g := declare) hs hgrows ⟨hshader.endsApart, hshader.bindings, hshader.outer,
    fun a ha ↦ ?_⟩
  rcases List.mem_cons.mp ha with rfl | ha
  · exact hvalue
  · exact hshader.attributes a ha

/-! ## Captures -/

/-- What is left in the other stage. -/
def ShaderStage.elsewhere (stage : ShaderStage) (names : Visible) : Visible :=
  Function.update names stage []

namespace EmitState

variable {T : PinId → Prop} {types owed left : List String} {Γ locals declared : Visible} {k m : Nat}
  {s u : EmitState}

@[simp]
theorem stage_beginCapture (s : EmitState) : s.beginCapture.stage = s.stage :=
  stage_modifyShader ..

@[simp]
theorem nextVariable_beginCapture (s : EmitState) : s.beginCapture.nextVariable = s.nextVariable :=
  nextVariable_modifyShader ..

@[simp]
theorem interpolators_beginCapture (s : EmitState) :
    s.beginCapture.interpolators = s.interpolators :=
  interpolators_modifyShader ..

theorem shader_beginCapture (s : EmitState) :
    s.beginCapture.shader s.stage = (s.shader s.stage).beginCapture.openScope :=
  shader_modifyShader ..

theorem shader_beginCapture_of_ne {stage : ShaderStage} (s : EmitState) (h : stage ≠ s.stage) :
    s.beginCapture.shader stage = s.shader stage :=
  shader_modifyShader_of_ne _ _ h

theorem Sound.beginCapture (hs : s.Sound T Γ) : s.beginCapture.Sound T Γ where
  shaders stage := by
    by_cases hstage : stage = s.stage
    · subst hstage
      have hshader := hs.shaders s.stage
      rw [shader_beginCapture]
      refine ⟨fun b hb ↦ ?_, hshader.bindings, hshader.outer, hshader.attributes⟩
      rcases List.mem_cons.mp hb with rfl | hb
      · decide
      · exact hshader.endsApart b hb
    · rw [shader_beginCapture_of_ne s hstage]
      exact hs.shaders stage
  vertex hstage := by
    have hpixel : s.stage = .pixel := by simpa using hstage
    have hvertex := shader_beginCapture_of_ne s (show .vertex ≠ s.stage by rw [hpixel]; decide)
    exact (congrArg StageShader.captures hvertex).trans (hs.vertex hpixel)
  samplers := by simpa [EmitState.beginCapture] using hs.samplers

theorem shader_endCapture (u : EmitState) (stage : ShaderStage) :
    (u.endCapture stage).shader stage = (u.shader stage).closeScope.endCapture.2 := by
  rw [EmitState.endCapture, shader_modifyShader]
  cases stage <;> rfl

theorem shader_endCapture_of_ne {stage other : ShaderStage} (u : EmitState) (h : other ≠ stage) :
    (u.endCapture stage).shader other = u.shader other := by
  rw [EmitState.endCapture, shader_modifyShader_of_ne _ _ h]
  cases other <;> rfl

section Capture

variable (hs : s.Sound T Γ) (h : Growth types Γ s.beginCapture u locals declared owed left k m)
include h

/-- The text of a capture is code, and no value is carried over in its midst. -/
theorem Growth.code_capturedText :
    Code types (Γ s.stage) (tokens (u.capturedText s.stage)) (locals s.stage) (declared s.stage)
      [] := by
  have hgrows := h.shaders s.stage
  have hnone := h.writtenSlots_stage
  rw [stage_beginCapture] at hnone
  rw [hnone, shader_beginCapture] at hgrows
  exact hgrows.capture.1

/-- A capture leaves bodies, scopes and scoped bindings of the current stage as they were. -/
theorem Growth.shader_endCapture :
    ((u.endCapture s.stage).shader s.stage).buffers = (s.shader s.stage).buffers ∧
      ((u.endCapture s.stage).shader s.stage).scopes = (s.shader s.stage).scopes ∧
      ((u.endCapture s.stage).shader s.stage).bindings = (s.shader s.stage).bindings ∧
      ((u.endCapture s.stage).shader s.stage).outer = (u.shader s.stage).outer ∧
      ((u.endCapture s.stage).shader s.stage).attributes = (u.shader s.stage).attributes := by
  have hgrows := h.shaders s.stage
  rw [shader_beginCapture] at hgrows
  rw [EmitState.shader_endCapture]
  exact hgrows.capture.2

include hs

/-- A capture owes what its text declares, whatever is visible to the code around it. -/
theorem Growth.endCapture {Δ : Visible} (hΔ : ∀ stage, stage ≠ s.stage → Δ stage = Γ stage) :
    Growth types Δ s (u.endCapture s.stage) (s.stage.elsewhere locals) (s.stage.elsewhere declared)
      owed (declared s.stage ++ left) k m where
  stage := by simp [EmitState.endCapture]
  nextVariable := by
    simpa [EmitState.endCapture] using h.nextVariable
  interpolators := by
    simpa [EmitState.endCapture] using h.interpolators
  vertex hstage := h.vertex (by simpa using hstage)
  shaders stage := by
    have hgrows := h.shaders stage
    by_cases hstage : stage = s.stage
    · subst hstage
      obtain ⟨hbuffers, hscopes, hbindings, -⟩ := h.shader_endCapture
      have hnone := h.writtenSlots_stage
      rw [stage_beginCapture, interpolators_beginCapture] at hnone
      rw [hnone]
      simp only [ShaderStage.elsewhere, Function.update_self]
      exact .of_buffers (buffers_endsApart hs s.stage) hbuffers hscopes
        (by simp [hbindings])
    · rw [shader_beginCapture_of_ne s hstage, interpolators_beginCapture] at hgrows
      rw [shader_endCapture_of_ne u hstage, hΔ stage hstage]
      simpa [ShaderStage.elsewhere, Function.update_of_ne hstage] using hgrows
  names := by
    have hnames := h.names
    rw [nextVariable_beginCapture] at hnames
    refine List.Perm.trans ?_ hnames
    cases s.stage <;>
      (simp only [ShaderStage.elsewhere, List.perm_iff_count, List.count_append]; simp; omega)

/-- What is known of the stages is kept by a capture. -/
theorem Sound.endCapture (hu : u.Sound T fun stage ↦ locals stage ++ Γ stage) :
    (u.endCapture s.stage).Sound T fun stage ↦ s.stage.elsewhere locals stage ++ Γ stage where
  shaders stage := by
    by_cases hstage : stage = s.stage
    · subst hstage
      obtain ⟨hbuffers, -, hbindings, houter, hattributes⟩ := h.shader_endCapture
      simp only [ShaderStage.elsewhere, Function.update_self, List.nil_append]
      refine ⟨?_, ?_, ?_, ?_⟩
      · rw [hbuffers]
        exact buffers_endsApart hs s.stage
      · rw [hbindings]
        exact (hs.shaders s.stage).bindings
      · rw [houter]
        exact (hu.shaders s.stage).outer
      · rw [hattributes]
        exact (hu.shaders s.stage).attributes
    · rw [shader_endCapture_of_ne u hstage]
      simpa [ShaderStage.elsewhere, Function.update_of_ne hstage] using hu.shaders stage
  vertex hstage := by
    have hpixel : s.stage = .pixel := by simpa [EmitState.endCapture] using hstage
    have hvertex := shader_endCapture_of_ne u (show .vertex ≠ s.stage by rw [hpixel]; decide)
    have hstage' : u.stage = .pixel := by
      rw [h.stage, stage_beginCapture, hpixel]
    exact (congrArg StageShader.captures hvertex).trans (hu.vertex hstage')
  samplers := by simpa [EmitState.endCapture] using hu.samplers

end Capture

end EmitState

end ShaderGraph
