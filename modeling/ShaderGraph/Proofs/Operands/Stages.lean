import ShaderGraph.Proofs.Language.Operand
import ShaderGraph.Proofs.Scope.Writing

/-!
# Operands of a stage

A stage holds operands if all values are operands that pins are bound to and attributes stand for. What
an emitter does to such a stage keeps it so: it binds operands on top of those that are bound, and a
capture takes away what was bound in its course.
-/

namespace ShaderGraph

/-! ## Stages -/

namespace StageShader

variable {d : Dialect} {x y z : StageShader} {pin : PinId} {v : Variable}

/-- The values that are bound in the stage are operands. -/
structure HoldsOperands (d : Dialect) (x : StageShader) : Prop where
  bindings : ∀ b ∈ x.bindings, b.2.IsOperand d
  outer : ∀ b ∈ x.outer, b.2.IsOperand d
  attributes : ∀ a ∈ x.attributes, a.2.IsOperand d

theorem HoldsOperands.binding (h : x.HoldsOperands d) (hv : x.binding? pin = some v) :
    v.IsOperand d := by
  unfold binding? at hv
  rw [Option.or_eq_some_iff] at hv
  obtain hv | ⟨-, hv⟩ := hv
  · obtain ⟨b, hb, rfl⟩ := mem_of_lookup hv
    exact h.bindings b hb
  · obtain ⟨b, hb, rfl⟩ := mem_of_lookup hv
    exact h.outer b hb

/-- Operands are bound on top of what was bound, in the same scopes. -/
structure BindsOperands (d : Dialect) (x y : StageShader) : Prop where
  holds : y.HoldsOperands d
  scopes : y.scopes = x.scopes
  bindings : x.bindings <:+ y.bindings

namespace BindsOperands

theorem trans (h : x.BindsOperands d y) (h' : y.BindsOperands d z) : x.BindsOperands d z :=
  ⟨h'.holds, h'.scopes.trans h.scopes, h.bindings.trans h'.bindings⟩

theorem of_sameCode (hx : x.HoldsOperands d) (h : x.SameCode y) : x.BindsOperands d y where
  holds :=
    ⟨fun b hb ↦ hx.bindings b (h.bindings ▸ hb), fun b hb ↦ hx.outer b (h.outer ▸ hb),
      fun a ha ↦ hx.attributes a (h.attributes ▸ ha)⟩
  scopes := h.scopes
  bindings := h.bindings ▸ List.suffix_rfl

theorem refl (hx : x.HoldsOperands d) : x.BindsOperands d x :=
  of_sameCode hx (.refl x)

theorem modifyBlock (hx : x.HoldsOperands d) (block : Block) (f : CodeBuffer → CodeBuffer) :
    x.BindsOperands d (x.modifyBlock block f) :=
  of_sameCode hx (.modifyBlock x block f)

theorem modifyBody (hx : x.HoldsOperands d) (f : CodeBuffer → CodeBuffer) :
    x.BindsOperands d (x.modifyBody f) := by
  unfold StageShader.modifyBody
  split <;> exact ⟨⟨hx.bindings, hx.outer, hx.attributes⟩, rfl, List.suffix_rfl⟩

theorem bind (hx : x.HoldsOperands d) (pin : PinId) (hv : v.IsOperand d) :
    x.BindsOperands d (x.bind pin v) where
  holds := ⟨List.forall_mem_cons.mpr ⟨hv, hx.bindings⟩, hx.outer, hx.attributes⟩
  scopes := rfl
  bindings := List.suffix_cons _ _

theorem bindOuter (hx : x.HoldsOperands d) (pin : PinId) (hv : v.IsOperand d) :
    x.BindsOperands d (x.bindOuter pin v) where
  holds := ⟨hx.bindings, List.forall_mem_append.mpr ⟨hx.outer, by simpa using hv⟩, hx.attributes⟩
  scopes := rfl
  bindings := List.suffix_rfl

theorem addAttribute (hx : x.HoldsOperands d) (name : String) (hv : v.IsOperand d) :
    x.BindsOperands d (x.addAttribute name v) where
  holds := ⟨hx.bindings, hx.outer, List.forall_mem_cons.mpr ⟨hv, hx.attributes⟩⟩
  scopes := rfl
  bindings := List.suffix_rfl

/-- A capture leaves the scoped bindings and the scopes as they were. -/
theorem capture (hx : x.HoldsOperands d) (h : x.beginCapture.openScope.BindsOperands d y) :
    x.BindsOperands d y.closeScope.endCapture.2 ∧ y.closeScope.endCapture.2.bindings = x.bindings := by
  have hscopes : y.scopes = x.bindings.length :: x.scopes := h.scopes
  have hbindings : x.bindings <:+ y.bindings := h.bindings
  have hclosed : y.closeScope = { y with scopes := x.scopes, bindings := x.bindings } := by
    have hdrop := (List.suffix_iff_eq_drop.mp hbindings).symm
    simp only [closeScope, hscopes, hdrop]
  have hholds : y.closeScope.HoldsOperands d := by
    rw [hclosed]
    exact ⟨hx.bindings, h.holds.outer, h.holds.attributes⟩
  have hend : y.closeScope.endCapture.2.bindings = x.bindings ∧
      y.closeScope.endCapture.2.scopes = x.scopes ∧
      y.closeScope.endCapture.2.outer = y.closeScope.outer ∧
      y.closeScope.endCapture.2.attributes = y.closeScope.attributes := by
    rw [hclosed]
    unfold endCapture
    split <;> exact ⟨rfl, rfl, rfl, rfl⟩
  obtain ⟨hold, hmarks, houter, hattributes⟩ := hend
  refine ⟨⟨⟨?_, ?_, ?_⟩, hmarks, hold ▸ List.suffix_rfl⟩, hold⟩
  · exact hold ▸ hx.bindings
  · exact houter ▸ hholds.outer
  · exact hattributes ▸ hholds.attributes

/-- The latest binding is given another type. Only a name is certain to be an operand of that type. -/
theorem retype {name : String} {t u : ValueType} (hx : x.HoldsOperands d) (hname : IsIdentifier name)
    (hy : y.HoldsOperands d) (hscopes : y.scopes = x.scopes)
    (hbindings : y.bindings = (pin, ⟨name, t⟩) :: x.bindings) :
    x.BindsOperands d (y.retype pin u) := by
  have hretyped : (y.retype pin u).bindings = (pin, ⟨name, u⟩) :: x.bindings := by
    simp [StageShader.retype, hbindings, retypeFirst]
  refine ⟨⟨?_, hy.outer, hy.attributes⟩, hscopes, hretyped ▸ List.suffix_cons _ _⟩
  rw [hretyped]
  exact List.forall_mem_cons.mpr ⟨.of_isIdentifier hname, hx.bindings⟩

end BindsOperands

end StageShader

/-! ## Emissions -/

namespace EmitState

variable {d : Dialect} {s t u : EmitState} {pin : PinId} {v : Variable}

/-- The values that are bound in both stages are operands. -/
def HoldsOperands (d : Dialect) (s : EmitState) : Prop :=
  ∀ stage, (s.shader stage).HoldsOperands d

theorem holdsOperands_empty (d : Dialect) : ({} : EmitState).HoldsOperands d := fun stage ↦ by
  cases stage <;> exact ⟨by simp [shader], by simp [shader], by simp [shader]⟩

/-- Operands are bound on top of what was bound. -/
structure BindsOperands (d : Dialect) (s t : EmitState) : Prop where
  stage : t.stage = s.stage
  shaders : ∀ stage, (s.shader stage).BindsOperands d (t.shader stage)

theorem BindsOperands.holds (h : s.BindsOperands d t) : t.HoldsOperands d := fun stage ↦
  (h.shaders stage).holds

theorem HoldsOperands.binding (h : s.HoldsOperands d) (hv : s.binding? pin = some v) :
    v.IsOperand d :=
  (h s.stage).binding hv

theorem HoldsOperands.of_shader (h : s.HoldsOperands d)
    (hshader : ∀ stage, t.shader stage = s.shader stage) : t.HoldsOperands d := fun stage ↦
  hshader stage ▸ h stage

theorem HoldsOperands.beginCapture (h : s.HoldsOperands d) : s.beginCapture.HoldsOperands d :=
  fun stage ↦ by
    by_cases hstage : stage = s.stage
    · rw [hstage, EmitState.beginCapture, shader_modifyShader]
      exact ⟨(h s.stage).bindings, (h s.stage).outer, (h s.stage).attributes⟩
    · rw [EmitState.beginCapture, shader_modifyShader_of_ne _ _ hstage]
      exact h stage

namespace BindsOperands

theorem trans (h : s.BindsOperands d t) (h' : t.BindsOperands d u) : s.BindsOperands d u :=
  ⟨h'.stage.trans h.stage, fun stage ↦ (h.shaders stage).trans (h'.shaders stage)⟩

theorem of_shader (hs : s.HoldsOperands d) (hstage : t.stage = s.stage)
    (hshader : ∀ stage, t.shader stage = s.shader stage) : s.BindsOperands d t :=
  ⟨hstage, fun stage ↦ by
    rw [hshader]
    exact .refl (hs stage)⟩

theorem refl (hs : s.HoldsOperands d) : s.BindsOperands d s :=
  of_shader hs rfl fun _ ↦ rfl

theorem of_sameCode (hs : s.HoldsOperands d) (h : s.SameCode t) : s.BindsOperands d t :=
  ⟨h.stage, fun stage ↦ .of_sameCode (hs stage) (h.shaders stage)⟩

theorem modifyShader (hs : s.HoldsOperands d) (stage : ShaderStage) {f : StageShader → StageShader}
    (h : (s.shader stage).BindsOperands d (f (s.shader stage))) :
    s.BindsOperands d (s.modifyShader stage f) where
  stage := stage_modifyShader ..
  shaders other := by
    by_cases hother : other = stage
    · subst hother
      rwa [shader_modifyShader]
    · rw [shader_modifyShader_of_ne _ _ hother]
      exact .refl (hs other)

theorem bindPin (hs : s.HoldsOperands d) (pin : PinId) (hv : v.IsOperand d) :
    s.BindsOperands d (s.bindPin pin v) :=
  modifyShader hs s.stage (.bind (hs s.stage) pin hv)

theorem bindPins {bindings : List Binding} (hs : s.HoldsOperands d)
    (h : ∀ b ∈ bindings, b.2.IsOperand d) :
    s.BindsOperands d (bindings.foldl (fun s b ↦ s.bindPin b.1 b.2) s) := by
  induction bindings generalizing s with
  | nil => exact refl hs
  | cons b bs ih =>
    obtain ⟨hb, hbs⟩ := List.forall_mem_cons.mp h
    have hfirst := bindPin hs b.1 hb
    exact hfirst.trans (ih hfirst.holds hbs)

theorem allocate (hs : s.HoldsOperands d) (pin : PinId) (type : ValueType) :
    s.BindsOperands d (s.allocate pin type) := by
  have hnext : s.BindsOperands d { s with nextVariable := s.nextVariable + 1 } :=
    of_shader hs rfl fun stage ↦ by cases stage <;> rfl
  exact hnext.trans (bindPin hnext.holds pin (.of_isIdentifier (isIdentifier_temporary _)))

theorem modifyBody (hs : s.HoldsOperands d) (f : CodeBuffer → CodeBuffer) :
    s.BindsOperands d (s.modifyBody f) :=
  modifyShader hs s.stage (.modifyBody (hs s.stage) f)

theorem addAttribute (b : Backend) (hs : s.HoldsOperands b.dialect) (name : String)
    (usage : AttributeUsage) {type : ValueType} (index : UInt32) (htype : type.isVector) :
    s.BindsOperands b.dialect (s.addAttribute b.dialect name usage type index) := by
  have hblock := StageShader.BindsOperands.modifyBlock (hs s.stage) .inputs fun c ↦
    c.line (b.dialect.attributeDeclaration type (b.dialect.vertexAttribute usage index).1
      (b.dialect.vertexAttribute usage index).2)
  have hattribute := StageShader.BindsOperands.addAttribute hblock.holds name
    (.inputReference (b.isIdentifier_vertexAttribute usage index) htype)
  unfold EmitState.addAttribute
  exact modifyShader hs s.stage (hblock.trans hattribute)

/-- A value that is carried over to the pixel stage is an input there. -/
theorem carry (ht : { s with stage := .vertex }.BindsOperands d t)
    (hstage : s.stage = .pixel) (hv : v.type.isVector) :
    s.BindsOperands d (t.carry d pin v) := by
  have hvertex := ht.shaders .vertex
  have hpixel := ht.shaders .pixel
  refine ⟨hstage.symm, fun stage ↦ ?_⟩
  cases stage with
  | vertex =>
    have hblock := StageShader.BindsOperands.modifyBlock hvertex.holds .outputs fun b ↦
      b.line (d.interpolatorDeclarations v.type (interpolatorName t.interpolators) t.interpolators).1
    exact hvertex.trans (hblock.trans (.modifyBody hblock.holds fun b ↦
      b.line s!"{d.outputReference (interpolatorName t.interpolators)} = {v.name};"))
  | pixel =>
    have hblock := StageShader.BindsOperands.modifyBlock hpixel.holds .inputs fun b ↦
      b.line (d.interpolatorDeclarations v.type (interpolatorName t.interpolators) t.interpolators).2
    exact hpixel.trans (hblock.trans (.bindOuter hblock.holds pin
      (.inputReference (isIdentifier_interpolatorName _) hv)))

/-- A capture leaves the scoped bindings of its stage as they were. -/
theorem capture (hs : s.HoldsOperands d) (h : s.beginCapture.BindsOperands d u) :
    s.BindsOperands d (u.endCapture s.stage) ∧
      ((u.endCapture s.stage).shader s.stage).bindings = (s.shader s.stage).bindings := by
  have hcaptured := h.shaders s.stage
  rw [beginCapture, shader_modifyShader] at hcaptured
  obtain ⟨hend, hold⟩ := StageShader.BindsOperands.capture (hs s.stage) hcaptured
  have hstage (x : EmitState) (stage other : ShaderStage) :
      ({ x with stage } : EmitState).shader other = x.shader other := by cases other <;> rfl
  have hshader : (u.endCapture s.stage).shader s.stage =
      (u.shader s.stage).closeScope.endCapture.2 := by
    rw [endCapture, shader_modifyShader, hstage]
  refine ⟨⟨stage_modifyShader .., fun other ↦ ?_⟩, by rw [hshader, hold]⟩
  by_cases hother : other = s.stage
  · rw [hother, hshader]
    exact hend
  · rw [endCapture, shader_modifyShader_of_ne _ _ hother, hstage]
    have helsewhere := h.shaders other
    rwa [beginCapture, shader_modifyShader_of_ne _ _ hother] at helsewhere

/-- The body of a loop is captured after a temporary was bound, which has its type in the end. -/
theorem loop {entry : EmitState} {declared type : ValueType} (hs : s.HoldsOperands d)
    (hstage : entry.stage = s.stage)
    (hentry : ∀ stage, entry.shader stage = (s.allocate pin declared).shader stage)
    (h : entry.beginCapture.BindsOperands d u) :
    s.BindsOperands d ((u.endCapture s.stage).retype pin type) := by
  have hallocate := allocate hs pin declared
  obtain ⟨hend, hold⟩ := capture (hallocate.holds.of_shader hentry) h
  rw [hstage] at hend hold
  have hfirst : ((u.endCapture s.stage).shader s.stage).bindings =
      (pin, ⟨temporary s.nextVariable, declared⟩) :: (s.shader s.stage).bindings := by
    rw [hold, hentry]
    cases hcurrent : s.stage <;> simp [EmitState.allocate, EmitState.bindPin, hcurrent] <;> rfl
  have hshaders (stage : ShaderStage) :
      (s.shader stage).BindsOperands d ((u.endCapture s.stage).shader stage) := by
    refine (hallocate.shaders stage).trans ?_
    rw [← hentry]
    exact hend.shaders stage
  refine ⟨(stage_modifyShader ..).trans (hend.stage.trans hstage), fun other ↦ ?_⟩
  rw [EmitState.retype, hend.stage, hstage]
  by_cases hother : other = s.stage
  · rw [hother, shader_modifyShader]
    exact .retype (hs s.stage) (isIdentifier_temporary _) (hshaders s.stage).holds
      (hshaders s.stage).scopes hfirst
  · rw [shader_modifyShader_of_ne _ _ hother]
    exact hshaders other

end BindsOperands

end EmitState

end ShaderGraph
