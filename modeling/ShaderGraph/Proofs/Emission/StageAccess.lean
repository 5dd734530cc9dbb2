import ShaderGraph.Emission.StageAccess
import ShaderGraph.Proofs.Emission.Declarations
import ShaderGraph.Proofs.Emission.Inputs

/-!
# Steps of the emitters that reach the inputs and outputs of the stages
-/

namespace ShaderGraph

namespace Emitter

open EmitM

variable {env : EmitEnv} {demand : Demand} {n : Node} {s t : EmitState}

theorem forms_number (H : Held) : ∀ text ∈ ["0.0", "1.0"], H.Forms text := by
  intro text htext
  obtain rfl | rfl : text = "0.0" ∨ text = "1.0" := by simpa using htext
  · exact .fixed (.before (.word (s := "0") (by decide)) (m := ".0") (by decide))
  · exact .fixed (.before (.word (s := "1") (by decide)) (m := ".0") (by decide))

theorem forms_positionTail (H : Held) (type : ValueType) : ∀ text ∈ positionTail type, H.Forms text := by
  intro text htext
  refine forms_number H text ?_
  cases type <;> simp [positionTail] at htext ⊢ <;> tauto

theorem vertexInput_runs {name : String} {usage : AttributeUsage} {type : ValueType}
    {index : UInt32} (hkind : n.kind = .vertexInput name usage type index)
    (h : Returns env (vertexInput n name usage type index) s () t) :
    RunsReading env demand n [] s t := by
  simp only [vertexInput, returns_bind] at h
  obtain ⟨⟨⟩, s₁, hstage, h⟩ := h
  by_cases hvector : type.isVector
  · simp only [hvector, Bool.not_true, Bool.false_eq_true, if_false, returns_bind] at h
    obtain ⟨source, s₂, hsource, h⟩ := h
    have hread : Steps env demand n {} s ((({} : Held).addStage .vertex).addValue source) s₂ :=
      .snoc (.single (step_requireStage hstage)) (.vertexAttribute (by simp) hvector hsource hkind)
    have hforwards : source.type.isTexture → n.kind.forwards := fun _ ↦ by
      rw [hkind]
      rfl
    split at h
    · exact ⟨_, hread.snoc (step_forwardOutput h (by simp) hforwards), by simp⟩
    · next w hw =>
      split at h
      · exact ⟨_, hread.snoc (step_forwardOutput h (by simp) hforwards), by simp⟩
      · simp only [returns_bind, returns_dialect] at h
        obtain ⟨d, s₃, ⟨rfl, rfl⟩, h⟩ := h
        refine ⟨_, hread.snoc (step_assignOutput h rfl (.inl
          (.construct _ fun text htext ↦ ?_))), by simp⟩
        have hw' : w = "1.0" ∨ w = "0.0" := by
          cases usage <;> simp [fourthComponent?] at hw <;> simp [← hw]
        rcases List.mem_cons.mp htext with rfl | htext
        · exact Held.forms_value (by simp)
        · rcases List.mem_append.mp htext with htext | htext
          · exact forms_number _ text (by simp [List.eq_of_mem_replicate htext])
          · rw [List.mem_singleton.mp htext]
            exact forms_number _ w (by rcases hw' with rfl | rfl <;> simp)
  · simp [hvector, returns_bind, returns_throw] at h

theorem vertexOutput_runs (h : Returns env (vertexOutput demand n) s () t) :
    RunsReading env demand n ["Input"] s t := by
  simp only [vertexOutput, returns_bind, returns_dialect, returns_writeLine] at h
  obtain ⟨⟨⟩, s₁, hstage, input, s₂, hinput, d, s₃, ⟨rfl, rfl⟩, rfl⟩ := h
  obtain ⟨hread, -⟩ := step_vectorInput hinput
  refine ⟨_, .snoc (.snoc (.single (step_requireStage hstage)) hread) (.output (.inl ⟨rfl, by simp⟩) ?_),
    by simp⟩
  split
  · exact Held.forms_value (by simp)
  · refine .construct _ fun text htext ↦ ?_
    rcases List.mem_cons.mp htext with rfl | htext
    · exact Held.forms_value (by simp)
    · exact forms_positionTail _ _ text htext

theorem isDeclared_of_declareOnce {block : Block} {name : String} {declaration? : Option String}
    {a : Unit} (h : Returns env (declareOnce block name declaration?) s a t) :
    (t.shader t.stage).isDeclared name := by
  obtain rfl := returns_declareOnce.mp h
  exact (EmitState.isDeclared_declareOnce ..).mpr (.inl ⟨EmitState.stage_declareOnce .., rfl⟩)

/-- A render target is written after its declaration, if it needs one. -/
theorem steps_writeTarget {pin : String} {index : Nat} {H : Held} (hstage : .pixel ∈ H.stages)
    (h : Returns env (writeTarget demand n pin index) s () t) :
    ∃ K, Steps env demand n H s K t ∧ pin ∈ K.pins := by
  simp only [writeTarget, returns_bind] at h
  obtain ⟨value?, s₁, hvalue, h⟩ := h
  have hread : Steps env demand n H s (H.read pin value?) s₁ := .single (.read hvalue)
  cases value? with
  | none =>
    obtain ⟨-, rfl⟩ := returns_pure.mp h
    exact ⟨_, hread, by simp⟩
  | some value =>
    simp only [returns_bind, returns_dialect] at h
    obtain ⟨d, s₂, ⟨rfl, rfl⟩, h⟩ := h
    by_cases hindex : env.dialect.maxRenderTargets ≤ index
    · simp [hindex, returns_bind, returns_unsupported] at h
    · by_cases hvector : value.type.isVector
      · simp only [hindex, hvector, Bool.not_true, Bool.false_eq_true, if_false, returns_bind,
          returns_cast] at h
        obtain ⟨color, s₃, ⟨hcolor, rfl⟩, h⟩ := h
        have hconvert := hread.snoc (.convert (v := value) (by simp) hcolor)
        have hform : (((H.read pin (some value)).addOperand color .vec4)).Forms color :=
          Held.forms_operand (t := .vec4) (by simp)
        split at h
        · next hsome =>
          simp only [returns_bind, returns_writeLine] at h
          obtain ⟨⟨⟩, s₄, hdeclare, rfl⟩ := h
          exact ⟨_, (hconvert.snoc (.target (by simpa using hstage) rfl hsome hdeclare)).snoc
            (.output (.inr ⟨index, rfl, fun _ ↦ isDeclared_of_declareOnce hdeclare⟩) hform), by simp⟩
        · next hnone =>
          obtain rfl := returns_writeLine.mp h
          exact ⟨_, hconvert.snoc (.output (.inr ⟨index, rfl, fun hsome ↦ absurd hsome hnone⟩) hform),
            by simp⟩
      · simp [hindex, hvector, returns_bind, returns_throw] at h

theorem returns_setRenderState {state : RenderState} {a : Unit} :
    Returns env (setRenderState state) s a t ↔
      s.renderState? = none ∧ t = { s with renderState? := some state } := by
  simp only [setRenderState, returns_bind, returns_get]
  cases h : s.renderState? with
  | none => simp [h, returns_modify]
  | some r => simp [h, returns_bind, returns_throw]

theorem pixelOutput_runs {state : RenderState}
    (h : Returns env (pixelOutput demand n state) s () t) :
    RunsReading env demand n targetPins s t := by
  simp only [pixelOutput, returns_bind, returns_setRenderState, returns_pure] at h
  obtain ⟨⟨⟩, s₁, hstage, ⟨⟩, s₂, ⟨hnone, rfl⟩, ⟨⟩, s₃, h, -, rfl⟩ := h
  have hstart : Steps env demand n {} s (({} : Held).addStage .pixel)
      { s₁ with renderState? := some state } :=
    .snoc (.single (step_requireStage hstage)) (.renderState hnone)
  obtain ⟨K, hsteps, hpins⟩ := steps_forIn demand n (({} : Held).addStage .pixel)
    (G := fun L x ↦ x.1 ∈ L.pins)
    (g := fun x : String × Nat ↦ writeTarget demand n x.1 x.2) (fun x ↦ rfl)
    (fun x hx K s t hle hx' ↦ steps_writeTarget (hle.stages (by simp)) hx')
    (fun K L x hle hgoal ↦ hle.pins hgoal) h
  refine ⟨K, hstart.trans hsteps, fun pin hpin ↦ ?_⟩
  obtain ⟨i, hi, rfl⟩ := List.getElem_of_mem hpin
  exact hpins (targetPins[i], i) (by
    rw [List.mem_zipIdx_iff_getElem?]
    simp [hi])

theorem returns_vertexValue {pin : String} {v : Variable} :
    Returns env (vertexValue demand n pin) s v t ↔
      ∃ u, Returns env (requireInput demand n pin) { s with stage := .vertex } v u ∧
        t = { u with stage := .pixel } := by
  simp only [vertexValue, returns_bind]
  constructor
  · rintro ⟨⟨⟩, s₁, h₁, result, s₂, h₂, ⟨⟩, s₃, h₃, h₄⟩
    obtain rfl := returns_modify.mp h₁
    obtain rfl := returns_modify.mp h₃
    cases result with
    | error e => exact absurd h₄ returns_throw
    | ok w =>
      obtain ⟨rfl, rfl⟩ := returns_pure.mp h₄
      exact ⟨s₂, returns_attempt_ok.mp h₂, rfl⟩
  · rintro ⟨u, h, rfl⟩
    exact ⟨⟨⟩, _, returns_modify.mpr rfl, .ok v, u, returns_attempt_ok.mpr h, ⟨⟩, _,
      returns_modify.mpr rfl, returns_pure.mpr ⟨rfl, rfl⟩⟩

/-- In the pixel stage an interpolator carries over the value that its input has in the vertex
stage. -/
theorem interpolator_carries (hstage : s.stage = .pixel)
    (h : Returns env (interpolator demand n) s () t) :
    ∃ v u p, Returns env (requireInput demand n "Input") { s with stage := .vertex } v u ∧
      v.type.isVector ∧ n.output? "Output" = some p ∧ t = u.carry env.dialect p.id v := by
  simp only [interpolator, returns_bind, returns_currentStage] at h
  obtain ⟨stage, s₁, ⟨rfl, rfl⟩, h⟩ := h
  simp only [hstage, reduceCtorEq, if_false, returns_bind, returns_vertexValue] at h
  obtain ⟨value, s₂, ⟨u, hvalue, rfl⟩, h⟩ := h
  by_cases hvector : value.type.isVector
  · simp only [hvector, Bool.not_true, Bool.false_eq_true, if_false, returns_bind,
      returns_allocateInterpolator, returns_dialect, returns_bindOuter] at h
    obtain ⟨slot, s₃, ⟨rfl, rfl⟩, d, s₄, ⟨rfl, rfl⟩, ⟨⟩, s₅, h₁, ⟨⟩, s₆, h₂, p, hp, rfl⟩ := h
    obtain rfl := returns_modify.mp h₁
    obtain rfl := returns_modify.mp h₂
    exact ⟨value, u, p, hvalue, hvector, hp, rfl⟩
  · simp [hvector, returns_bind, returns_throw] at h

theorem interpolator_runs (hkind : n.kind = .interpolator)
    (h : Returns env (interpolator demand n) s () t) :
    RunsReading env demand n ["Input"] s t := by
  cases hstage : s.stage with
  | vertex =>
    simp only [interpolator, returns_bind, returns_currentStage] at h
    obtain ⟨stage, s₁, ⟨rfl, rfl⟩, h⟩ := h
    simp only [hstage, if_true, returns_bind] at h
    obtain ⟨input, s₂, hinput, h⟩ := h
    exact ⟨_, .snoc (.single (step_requireInput hinput)) (step_forwardOutput h (by simp) fun _ ↦ by
      rw [hkind]
      rfl), by simp⟩
  | pixel =>
    obtain ⟨v, u, p, hvalue, hvector, hp, rfl⟩ := interpolator_carries hstage h
    exact ⟨_, .single (.cross hkind hstage hvalue hvector hp), by simp⟩

/-! ## Values that the target provides -/

theorem fragmentPosition_runs (h : Returns env (fragmentPosition n) s () t) :
    RunsReading env demand n [] s t := by
  simp only [fragmentPosition, returns_bind, returns_dialect] at h
  obtain ⟨⟨⟩, s₁, hstage, ⟨⟩, s₂, hrequire, d, s₃, ⟨rfl, rfl⟩, h⟩ := h
  have hrequired : Steps env demand n {} s (({} : Held).addStage .pixel) _ :=
    .snoc (.single (step_requireStage hstage)) (step_require hrequire ⟨fun _ ↦ id, fun _ ↦ id⟩)
  exact ⟨_, (hrequired.snoc (.provide (by simp) .fragCoord)).snoc
    (step_assignOutput h rfl (.inl (Held.forms_name (by simp)))), by simp⟩

theorem frontFace_runs (h : Returns env (frontFace n) s () t) :
    RunsReading env demand n [] s t := by
  simp only [frontFace, returns_bind, returns_dialect] at h
  obtain ⟨⟨⟩, s₁, hstage, ⟨⟩, s₂, hrequire, d, s₃, ⟨rfl, rfl⟩, h⟩ := h
  have hrequired : Steps env demand n {} s (({} : Held).addStage .pixel) _ :=
    .snoc (.single (step_requireStage hstage)) (step_require hrequire ⟨fun _ _ ↦ rfl, fun _ ↦ id⟩)
  obtain rfl := returns_require.mp hrequire
  exact ⟨_, (hrequired.snoc (.provide (by simp) (.frontFacing rfl))).snoc
    (step_assignOutput h rfl (.inl (.before (Held.forms_name (by simp)) (m := " ? 1.0 : 0.0")
      (by decide)))), by simp⟩

theorem instanceIndex_runs (h : Returns env (instanceIndex n) s () t) :
    RunsReading env demand n [] s t := by
  simp only [instanceIndex, returns_bind, returns_dialect] at h
  obtain ⟨⟨⟩, s₁, hstage, d, s₂, ⟨rfl, rfl⟩, h⟩ := h
  split at h
  · next expr hexpr =>
    simp only [returns_bind] at h
    obtain ⟨⟨⟩, s₃, hrequire, h⟩ := h
    have hrequired : Steps env demand n {} s (({} : Held).addStage .vertex) _ :=
      .snoc (.single (step_requireStage hstage))
        (step_require hrequire ⟨fun _ ↦ id, fun _ _ ↦ rfl⟩)
    obtain rfl := returns_require.mp hrequire
    exact ⟨_, (hrequired.snoc (.provide (by simp) (.instanceId hexpr rfl))).snoc
      (step_assignOutput h rfl (.inl (Held.forms_name (by simp)))), by simp⟩
  · exact absurd h returns_unsupported

theorem targetSize_runs (h : Returns env (targetSize n) s () t) :
    RunsReading env demand n [] s t := by
  simp only [targetSize, returns_bind, returns_dialect] at h
  obtain ⟨d, s₁, ⟨rfl, rfl⟩, ⟨⟩, s₂, hdeclare, ⟨⟩, s₃, hrequire, h⟩ := h
  exact ⟨_, .snoc (.snoc (.single (.uniform (.inr (.inl ⟨rfl, rfl⟩)) hdeclare fun h ↦ by cases h))
    (step_require hrequire ⟨fun _ ↦ id, fun _ ↦ id⟩))
    (step_forwardOutput h (by simp) fun h ↦ by cases h), by simp⟩

end Emitter

end ShaderGraph
