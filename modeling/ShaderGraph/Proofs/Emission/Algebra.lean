import ShaderGraph.Proofs.Emission.Inputs

/-!
# Steps of the vector and matrix emitters
-/

namespace ShaderGraph

namespace Emitter

open EmitM

variable {env : EmitEnv} {demand : Demand} {n : Node} {s t : EmitState}

theorem dot_runs (h : Returns env (dot demand n) s () t) :
    RunsReading env demand n ["Input1", "Input2"] s t := by
  simp only [dot, returns_bind, returns_commonType, returns_cast] at h
  obtain ⟨a, s₁, ha, b, s₂, hb, type, s₃, ⟨htype, rfl⟩, left, s₄, ⟨hleft, rfl⟩, right, s₅,
    ⟨hright, rfl⟩, h⟩ := h
  obtain ⟨ha, -⟩ := step_vectorInput ha
  obtain ⟨hb, -⟩ := step_vectorInput hb
  refine ⟨_, .snoc (.snoc (.snoc (.snoc (.single ha) hb) (.convert (v := a) (by simp) hleft))
    (.convert (v := b) (by simp) hright)) (step_assignOutput h rfl (.inl ?_)), by simp⟩
  exact .before (.between (.after (m := "dot(") (by decide)
    (Held.forms_operand (e := left) (t := type) (by simp))) inner_comma
    (Held.forms_operand (e := right) (t := type) (by simp))) trailing_paren

theorem cross_runs (h : Returns env (cross demand n) s () t) :
    RunsReading env demand n ["Input1", "Input2"] s t := by
  simp only [cross, returns_bind, returns_cast] at h
  obtain ⟨a, s₁, ha, b, s₂, hb, left, s₄, ⟨hleft, rfl⟩, right, s₅, ⟨hright, rfl⟩, h⟩ := h
  obtain ⟨ha, -⟩ := step_vectorInput ha
  obtain ⟨hb, -⟩ := step_vectorInput hb
  refine ⟨_, .snoc (.snoc (.snoc (.snoc (.single ha) hb) (.convert (v := a) (by simp) hleft))
    (.convert (v := b) (by simp) hright)) (step_assignOutput h rfl (.inl ?_)), by simp⟩
  exact .before (.between (.after (m := "cross(") (by decide)
    (Held.forms_operand (e := left) (t := .vec3) (by simp))) inner_comma
    (Held.forms_operand (e := right) (t := .vec3) (by simp))) trailing_paren

theorem reflect_runs (h : Returns env (reflect demand n) s () t) :
    RunsReading env demand n ["Normal", "Direction"] s t := by
  simp only [reflect, returns_bind, returns_cast] at h
  obtain ⟨normal, s₁, hnormal, direction, s₂, hdirection, axis, s₃, ⟨haxis, rfl⟩, h⟩ := h
  obtain ⟨hnormal, -⟩ := step_vectorInput hnormal
  obtain ⟨hdirection, hvector⟩ := step_vectorInput hdirection
  refine ⟨_, .snoc (.snoc (.snoc (.single hnormal) hdirection)
    (.convert (v := normal) (by simp) haxis))
    (step_assignOutput h (ValueType.isNumeric_of_isVector hvector) (.inl ?_)), by simp⟩
  exact .before (.between (.after (m := "reflect(") (by decide)
    (Held.forms_value (v := direction) (by simp))) inner_comma
    (Held.forms_operand (e := axis) (t := direction.type) (by simp))) trailing_paren

/-! ## Swizzles -/

theorem mem_of_componentIndex? {c : Char} {index width : Nat} (h : componentIndex? c = some index)
    (hindex : index < width) : c ∈ componentNames.take width := by
  obtain ⟨hlt, hc, -⟩ := List.findIdx?_eq_some_iff_getElem.mp h
  have hc : componentNames[index] = c := by simpa [componentNames] using hc
  exact List.mem_take_iff_getElem.mpr ⟨index, Nat.lt_min.mpr ⟨hindex, hlt⟩, hc⟩

/-- A component that can be swizzled is a constant or a component letter of the input. -/
theorem mem_of_swizzleComponent {pattern text : String} {input : Variable} {c : Char}
    (h : swizzleComponent n pattern input c = .ok text) :
    isConstantComponent c ∨ c ∈ componentNames.take (input.type.components?.getD 1) := by
  unfold swizzleComponent at h
  split at h
  · next hc => exact .inl (by simpa [isConstantComponent] using hc)
  · split at h
    · cases h
    · next index hindex =>
      split at h
      · cases h
      · next hwidth => exact .inr (mem_of_componentIndex? hindex (by omega))

theorem forms_swizzleComponent {H : Held} {pattern text : String} {input : Variable} {c : Char}
    (hinput : input ∈ H.values) (hvector : input.type.isVector)
    (h : swizzleComponent n pattern input c = .ok text) : H.Forms text := by
  have hmem := mem_of_swizzleComponent h
  unfold swizzleComponent at h
  split at h
  · next hc =>
    cases h
    rcases hc with rfl | rfl
    · exact .fixed (.before (.word (s := "0") (by decide)) (m := ".0") (by decide))
    · exact .fixed (.before (.word (s := "1") (by decide)) (m := ".0") (by decide))
  · next hconstant =>
    split at h
    · cases h
    · split at h
      · cases h
      · split at h
        · cases h
          exact Held.forms_value hinput
        · next hwide =>
          cases h
          have hletter := hmem.resolve_left (by simpa [isConstantComponent] using hconstant)
          refine .apply (.selection (String.singleton c)) (.inl hinput)
            (Operator.isDefinedFor_selection hvector hwide (by simp) fun d hd ↦ ?_)
          rw [String.toList_singleton, List.mem_singleton] at hd
          exact hd ▸ hletter

theorem isNumeric_of_ofComponents? {k : Nat} {type : ValueType}
    (h : ValueType.ofComponents? k = some type) : type.isNumeric := by
  unfold ValueType.ofComponents? at h
  split at h <;> cases h <;> rfl

theorem swizzle_runs {pattern : String} (h : Returns env (swizzle demand n pattern) s () t) :
    RunsReading env demand n ["Input"] s t := by
  simp only [swizzle, returns_bind] at h
  obtain ⟨input, s₁, hinput, h⟩ := h
  obtain ⟨hinput, hvector⟩ := step_vectorInput hinput
  have hread := Steps.single (H := {}) hinput
  split at h
  · next type htype =>
    have hnumeric := isNumeric_of_ofComponents? htype
    simp only [returns_bind, returns_liftExcept] at h
    obtain ⟨components, s₂, ⟨hcomponents, rfl⟩, h⟩ := h
    have hall := forall₂_of_mapM hcomponents
    have hforwards : input.type.isTexture → n.kind.forwards := by
      simp [ValueType.isTexture_of_isVector hvector]
    have hforms {H : Held} (hH : input ∈ H.values) : ∀ text ∈ components, H.Forms text := by
      intro text htext
      obtain ⟨c, -, hc⟩ := exists_of_mem_right hall htext
      exact forms_swizzleComponent hH hvector hc
    split at h
    · exact ⟨_, hread.snoc (step_forwardOutput h (by simp) hforwards), by simp⟩
    · split at h
      · split at h
        · refine ⟨_, hread.snoc (step_assignOutput h hnumeric (.inl ?_)), by simp⟩
          cases components with
          | nil => exact .empty
          | cons text texts => exact hforms (by simp) text (by simp)
        · simp only [returns_bind, returns_dialect] at h
          obtain ⟨d, s₃, ⟨rfl, rfl⟩, h⟩ := h
          refine ⟨_, hread.snoc (step_assignOutput h hnumeric (.inl ?_)), by simp⟩
          exact .construct _ (hforms (by simp))
      · next hletters =>
        obtain ⟨hplain, hwide⟩ := not_or.mp hletters
        refine ⟨_, hread.snoc (step_assignOutput h hnumeric (.inl ?_)), by simp⟩
        refine .apply (.selection _) (.inl (by simp))
          (Operator.isDefinedFor_selection hvector hwide (fun hempty ↦ ?_) fun c hc ↦ ?_)
        · rw [hempty] at htype
          cases htype
        · obtain ⟨text, -, htext⟩ := exists_of_mem_left hall hc
          refine (mem_of_swizzleComponent htext).resolve_left fun hconstant ↦ hplain ?_
          exact List.any_eq_true.mpr ⟨c, hc, hconstant⟩
  · exact absurd h returns_throw

/-! ## Components and axes -/

/-- The values that a list of inputs has are at hand once they are read. -/
theorem steps_inputValues {pins : List String} {values : List (Option Variable)} {H : Held}
    (h : Returns env (pins.mapM (inputValue? demand n)) s values t) :
    ∃ K, Steps env demand n H s K t ∧ pins ⊆ K.pins ∧
      ∀ value? ∈ values, ∀ v ∈ value?, v ∈ K.values := by
  obtain ⟨K, hsteps, hall⟩ := steps_mapM demand n H
    (G := fun L pin value? ↦ pin ∈ L.pins ∧ ∀ v ∈ value?, v ∈ L.values)
    (fun pin _ L s value? t _ hread ↦ ⟨_, .single (.read hread), by simp, fun v hv ↦ by
      simp only [Held.read_values, List.mem_append]
      exact .inl (by simpa using hv)⟩)
    (fun K L pin value? hle hgoal ↦ ⟨hle.pins hgoal.1, fun v hv ↦ hle.values (hgoal.2 v hv)⟩) h
  refine ⟨K, hsteps, fun pin hpin ↦ ?_, fun value? hvalue ↦ ?_⟩
  · obtain ⟨value?, -, hgoal⟩ := exists_of_mem_left hall hpin
    exact hgoal.1
  · obtain ⟨pin, -, hgoal⟩ := exists_of_mem_right hall hvalue
    exact hgoal.2

theorem steps_mixedComponent {pin text : String} {value? : Option Variable} {H : Held}
    (hvalue : ∀ v ∈ value?, v ∈ H.values)
    (h : Returns env (mixedComponent n pin value?) s text t) :
    ∃ K, Steps env demand n H s K t ∧ K.Forms text := by
  cases value? with
  | none =>
    obtain ⟨rfl, rfl⟩ := returns_pure.mp h
    exact ⟨H, .refl, .fixed (.before (.word (s := "0") (by decide)) (m := ".0") (by decide))⟩
  | some v =>
    simp only [mixedComponent, returns_ite, returns_cast, returns_throw, and_false, or_false] at h
    obtain ⟨-, hcast, rfl⟩ := h
    exact ⟨_, .single (.convert (hvalue v rfl) hcast), Held.forms_operand (t := .scalar) (by simp)⟩

theorem isNumeric_ofComponents?_getD (k : Nat) :
    ((ValueType.ofComponents? k).getD .scalar).isNumeric := by
  cases h : ValueType.ofComponents? k with
  | none => rfl
  | some type => exact isNumeric_of_ofComponents? h

theorem mixIn_runs (h : Returns env (mixIn demand n) s () t) :
    RunsReading env demand n ["X", "Y", "Z", "W"] s t := by
  simp only [mixIn, returns_bind] at h
  obtain ⟨values, s₁, hvalues, h⟩ := h
  obtain ⟨H, hread, hpins, hheld⟩ := steps_inputValues (H := {}) hvalues
  by_cases hwidth : presentWidth values = 0
  · simp [hwidth, returns_bind, returns_throw] at h
  · simp only [hwidth, if_false, returns_bind] at h
    obtain ⟨components, s₂, hcomponents, h⟩ := h
    obtain ⟨K, hmix, hall⟩ := steps_mapM demand n H
      (G := fun L _ text ↦ L.Forms text)
      (fun x hx K s text t hle hx' ↦ steps_mixedComponent (fun v hv ↦ hle.values
        (hheld _ (List.of_mem_zip (List.mem_of_mem_take hx)).2 v hv)) hx')
      (fun K L _ text hle ↦ Held.Forms.mono hle) hcomponents
    have hphrase : ∀ text ∈ components, K.Forms text := fun text htext ↦ by
      obtain ⟨x, -, hform⟩ := exists_of_mem_right hall htext
      exact hform
    have hsub := List.Subset.trans hpins hmix.le.pins
    have hnumeric := isNumeric_ofComponents?_getD (presentWidth values)
    simp only [returns_ite, returns_pure, returns_bind, returns_dialect] at h
    obtain ⟨-, expr, s₃, ⟨rfl, rfl⟩, h⟩ | ⟨-, d, s₃, ⟨rfl, rfl⟩, expr, s₄, ⟨rfl, rfl⟩, h⟩ := h
    · refine ⟨_, (hread.trans hmix).snoc (step_assignOutput h hnumeric (.inl ?_)), hsub⟩
      cases components with
      | nil => exact .empty
      | cons text texts => exact hphrase text (by simp)
    · exact ⟨_, (hread.trans hmix).snoc (step_assignOutput h hnumeric
        (.inl (.construct _ hphrase))), hsub⟩

theorem mixOut_runs (h : Returns env (mixOut demand n) s () t) :
    RunsReading env demand n ["Input"] s t := by
  simp only [mixOut, returns_bind] at h
  obtain ⟨input, s₁, hinput, h⟩ := h
  obtain ⟨hinput, hvector⟩ := step_vectorInput hinput
  have hread := Steps.single (H := {}) hinput
  split at h
  · simp only [returns_bind, returns_pure] at h
    obtain ⟨v, s₂, h, -, rfl⟩ := h
    exact ⟨_, hread.snoc (step_bindOutput h (.inl (by simp)) (by
      simp [ValueType.isTexture_of_isVector hvector])), by simp⟩
  · next hwidth =>
    have hwide : input.type ≠ .scalar := fun hscalar ↦ hwidth (by rw [hscalar]; rfl)
    simp only [returns_bind, returns_pure] at h
    obtain ⟨⟨⟩, s₂, h, -, rfl⟩ := h
    obtain ⟨K, hsteps, -⟩ := steps_forIn demand n
      (({} : Held).read "Input" (some input)) (G := fun _ _ ↦ True)
      (g := fun x : String × String ↦ do let _ ← bindOutput n x.1 ⟨s!"{input.name}.{x.2}", .scalar⟩)
      (fun x ↦ by simp only [bind_assoc, pure_bind])
      (fun x hx K s t hle hx' ↦ by
        simp only [returns_bind, returns_pure] at hx'
        obtain ⟨v, s', hx', -, rfl⟩ := hx'
        rw [List.zip_eq_zipWith, List.take_zipWith, ← List.zip_eq_zipWith] at hx
        have hc := (List.of_mem_zip hx).2
        have hselect := Operator.isDefinedFor_component hvector hwide hc
        have hinput : input ∈ K.values := hle.values (by simp)
        exact ⟨K, .single (step_bindOutput hx' (.inr ⟨rfl,
          .apply (.selection x.2) (.inl hinput) hselect,
          input, hinput, x.2, List.mem_of_mem_take hc, hselect, rfl⟩) fun h ↦ by cases h), trivial⟩)
      (fun _ _ _ _ _ ↦ trivial) h
    exact ⟨K, hread.trans hsteps, List.Subset.trans (by simp) hsteps.le.pins⟩

theorem matrixIn_runs (h : Returns env (matrixIn demand n) s () t) :
    RunsReading env demand n ["XAxis", "YAxis", "ZAxis", "Translate"] s t := by
  simp only [matrixIn, returns_bind, returns_dialect] at h
  obtain ⟨axes, s₁, haxes, d, s₂, ⟨rfl, rfl⟩, h⟩ := h
  obtain ⟨H, hsteps, hall⟩ := steps_mapM demand n {}
    (G := fun L pin text ↦ pin ∈ L.pins ∧ L.Forms text) (fun pin _ K s text t _ hpin ↦ by
      simp only [returns_bind, returns_cast] at hpin
      obtain ⟨axis, s', haxis, hcast, rfl⟩ := hpin
      obtain ⟨haxis, -⟩ := step_vectorInput haxis
      exact ⟨_, .snoc (.single haxis) (.convert (v := axis) (by simp) hcast), by simp,
        Held.forms_operand (t := .vec4) (by simp)⟩)
    (fun K L pin text hle hgoal ↦ ⟨hle.pins hgoal.1, hgoal.2.mono hle⟩) haxes
  refine ⟨_, hsteps.snoc (step_assignOutput h rfl (.inl (.construct _ ?_))), ?_⟩
  · intro text htext
    obtain ⟨pin, -, hgoal⟩ := exists_of_mem_right hall htext
    exact hgoal.2
  · intro pin hpin
    obtain ⟨text, -, hgoal⟩ := exists_of_mem_left hall hpin
    exact hgoal.1

theorem matrixOut_runs (h : Returns env (matrixOut demand n) s () t) :
    RunsReading env demand n ["Input"] s t := by
  simp only [matrixOut, returns_bind, returns_pure] at h
  obtain ⟨input, s₁, hinput, ⟨⟩, s₂, h, -, rfl⟩ := h
  obtain ⟨hinput, hmatrix⟩ := step_matrixInput hinput
  have hread := Steps.single (H := {}) hinput
  obtain ⟨K, hsteps, -⟩ := steps_forIn demand n
      (({} : Held).read "Input" (some input)) (G := fun _ _ ↦ True)
    (g := fun x : String × Nat ↦ do
      let output ← emitOutput n x.1 .vec4
      assign n output s!"{input.name}[{x.2}]")
    (fun x ↦ by simp only [bind_assoc])
    (fun x hx K s t hle hx' ↦ by
      simp only [returns_bind, returns_emitOutput, returns_assign] at hx'
      obtain ⟨output, s', ⟨p, hp, rfl, rfl⟩, name, hname, rfl⟩ := hx'
      refine ⟨K, .single (.define hp rfl hname (.inl ?_)), trivial⟩
      have hindex : x.2 < 4 := (List.mem_zipIdx hx).2.1
      exact .apply (.axis x.2) (.inl (hle.values (by simp)))
        (hmatrix ▸ Operator.isDefinedFor_axis hindex))
    (fun _ _ _ _ _ ↦ trivial) h
  exact ⟨K, hread.trans hsteps, List.Subset.trans (by simp) hsteps.le.pins⟩

theorem transform_runs (h : Returns env (transform demand n) s () t) :
    RunsReading env demand n ["Input", "Transform"] s t := by
  simp only [transform, returns_bind, returns_cast, returns_dialect] at h
  obtain ⟨input, s₁, hinput, matrix, s₂, hmatrix, vector, s₃, ⟨hvector, rfl⟩, d, s₄, ⟨rfl, rfl⟩,
    h⟩ := h
  obtain ⟨hinput, -⟩ := step_vectorInput hinput
  obtain ⟨hmatrix, -⟩ := step_matrixInput hmatrix
  refine ⟨_, .snoc (.snoc (.snoc (.single hinput) hmatrix)
    (.convert (v := input) (by simp) hvector)) (step_assignOutput h rfl (.inr
      ⟨_, [("matrix", matrix.name), ("vector", vector)], .transform, fun x hx ↦ ?_,
        fun x hx op hop ↦ ?_, rfl⟩)), by simp⟩
  · obtain rfl | rfl : x = ("matrix", matrix.name) ∨ x = ("vector", vector) := by simpa using hx
    · exact Held.forms_value (by simp)
    · exact Held.forms_operand (t := .vec4) (by simp)
  · have hnone : Template.operators env.dialect.transform x.1 = [] :=
      env.settings.backend.operators_product.1 x.1 (List.mem_map_of_mem hx)
    rw [hnone] at hop
    cases hop

theorem isSyntaxWord_transpose {b : Backend} {f : String} (h : b.dialect.transpose? = some f) :
    IsSyntaxWord f := by
  cases b <;> cases h <;> decide

theorem transpose_runs (h : Returns env (transpose demand n) s () t) :
    RunsReading env demand n ["Input"] s t := by
  simp only [transpose, returns_bind, returns_dialect] at h
  obtain ⟨d, s₁, ⟨rfl, rfl⟩, h⟩ := h
  split at h
  · next f hf =>
    simp only [returns_bind] at h
    obtain ⟨input, s₂, hinput, ⟨⟩, s₃, hrequire, h⟩ := h
    obtain ⟨hinput, -⟩ := step_matrixInput hinput
    refine ⟨_, .snoc (.snoc (.single hinput) (step_require hrequire ⟨fun _ ↦ id, fun _ ↦ id⟩))
      (step_assignOutput h rfl (.inl ?_)), by simp⟩
    exact .call (isSyntaxWord_transpose hf) (Held.forms_value (by simp))
  · exact absurd h returns_unsupported

end Emitter

end ShaderGraph
