import ShaderGraph.Proofs.Emission.Inputs

/-!
# Steps of the arithmetic emitters
-/

namespace ShaderGraph

namespace Emitter

open EmitM

variable {env : EmitEnv} {demand : Demand} {n : Node} {s t : EmitState}

theorem isSyntaxWord_intrinsicName (b : Backend) (f : Intrinsic) :
    IsSyntaxWord (intrinsicName b.dialect f) := by
  cases b <;> cases f <;> decide

theorem intrinsic_runs {f : Intrinsic} (h : Returns env (intrinsic demand n f) s () t) :
    RunsReading env demand n ["Input"] s t := by
  simp only [intrinsic, returns_bind, returns_dialect] at h
  obtain ⟨input, s₁, hinput, d, s₂, ⟨rfl, rfl⟩, h⟩ := h
  obtain ⟨hinput, hvector⟩ := step_vectorInput hinput
  refine ⟨_, .snoc (.single hinput)
    (step_assignOutput h (ValueType.isNumeric_of_isVector hvector) (.inl ?_)), by simp⟩
  exact .call (isSyntaxWord_intrinsicName _ f) (Held.forms_value (by simp))

theorem negate_runs (h : Returns env (negate demand n) s () t) :
    RunsReading env demand n ["Input"] s t := by
  simp only [negate, returns_bind] at h
  obtain ⟨input, s₁, hinput, h⟩ := h
  by_cases hnumeric : input.type.isNumeric
  · simp only [hnumeric, Bool.not_true, Bool.false_eq_true, if_false] at h
    refine ⟨_, .snoc (.single (step_requireInput hinput)) (step_assignOutput h hnumeric (.inl ?_)),
      by simp⟩
    exact .apply .negation (.inl (by simp)) (Operator.isDefinedFor_negation hnumeric)
  · simp [hnumeric, returns_bind, returns_throw] at h

theorem isSyntaxWord_round {b : Backend} {f : String} (h : b.dialect.round? = some f) :
    IsSyntaxWord f := by
  cases b <;> cases h <;> decide

theorem isSyntaxWord_trunc {b : Backend} {f : String} (h : b.dialect.trunc? = some f) :
    IsSyntaxWord f := by
  cases b <;> cases h <;> decide

theorem isSyntaxWord_log10 {b : Backend} {f : String} (h : b.dialect.log10? = some f) :
    IsSyntaxWord f := by
  cases b <;> cases h
  decide

theorem round_runs (h : Returns env (round demand n) s () t) :
    RunsReading env demand n ["Input"] s t := by
  simp only [round, returns_bind, returns_dialect] at h
  obtain ⟨input, s₁, hinput, d, s₂, ⟨rfl, rfl⟩, h⟩ := h
  obtain ⟨hinput, hvector⟩ := step_vectorInput hinput
  refine ⟨_, .snoc (.single hinput)
    (step_assignOutput h (ValueType.isNumeric_of_isVector hvector) (.inl ?_)), by simp⟩
  have hform := Held.forms_value (H := ({} : Held).read "Input" (some input)) (v := input) (by simp)
  split
  · next f hf => exact .call (isSyntaxWord_round hf) hform
  · exact .before (.between (.after (m := "floor(") (by decide) hform) (m := " + ") (by decide)
      (.fixed (Backend.phrase_scalarLiteral _ _))) trailing_paren

theorem truncate_runs (h : Returns env (truncate demand n) s () t) :
    RunsReading env demand n ["Input"] s t := by
  simp only [truncate, returns_bind, returns_dialect] at h
  obtain ⟨input, s₁, hinput, d, s₂, ⟨rfl, rfl⟩, h⟩ := h
  obtain ⟨hinput, hvector⟩ := step_vectorInput hinput
  refine ⟨_, .snoc (.single hinput)
    (step_assignOutput h (ValueType.isNumeric_of_isVector hvector) (.inl ?_)), by simp⟩
  have hform := Held.forms_value (H := ({} : Held).read "Input" (some input)) (v := input) (by simp)
  split
  · next f hf => exact .call (isSyntaxWord_trunc hf) hform
  · exact .before (.between (.after (m := "sign(") (by decide) hform) (m := ") * floor(abs(")
      (by decide) hform) (m := "))") (by decide)

theorem log_runs {base : LogBase} (h : Returns env (log demand n base) s () t) :
    RunsReading env demand n ["Input"] s t := by
  simp only [log, returns_bind, returns_dialect] at h
  obtain ⟨input, s₁, hinput, d, s₂, ⟨rfl, rfl⟩, h⟩ := h
  obtain ⟨hinput, hvector⟩ := step_vectorInput hinput
  refine ⟨_, .snoc (.single hinput)
    (step_assignOutput h (ValueType.isNumeric_of_isVector hvector) (.inl ?_)), by simp⟩
  have hform := Held.forms_value (H := ({} : Held).read "Input" (some input)) (v := input) (by simp)
  split
  · exact .before (.after (m := "log2(") (by decide) hform) trailing_paren
  · exact .before (.after (m := "log(") (by decide) hform) trailing_paren
  · next f hf => exact .call (isSyntaxWord_log10 hf) hform
  · exact .before (.after (m := "log2(") (by decide) hform) (m := ") * 0.30103") (by decide)

theorem length_runs (h : Returns env (length demand n) s () t) :
    RunsReading env demand n ["Input"] s t := by
  simp only [length, returns_bind] at h
  obtain ⟨input, s₁, hinput, h⟩ := h
  obtain ⟨hinput, -⟩ := step_vectorInput hinput
  refine ⟨_, .snoc (.single hinput) (step_assignOutput h rfl (.inl ?_)), by simp⟩
  exact .before (.after (m := "length(") (by decide) (Held.forms_value (by simp))) trailing_paren

theorem clamp_runs {low high : Binary32} (h : Returns env (clamp demand n low high) s () t) :
    RunsReading env demand n ["Input"] s t := by
  simp only [clamp, returns_bind] at h
  obtain ⟨input, s₁, hinput, h⟩ := h
  obtain ⟨hinput, hvector⟩ := step_vectorInput hinput
  refine ⟨_, .snoc (.single hinput)
    (step_assignOutput h (ValueType.isNumeric_of_isVector hvector) (.inl ?_)), by simp⟩
  exact .before (.between (.between
    (.after (m := "clamp(") (by decide) (Held.forms_value (by simp)))
    inner_comma (.fixed low.phrase_literal)) inner_comma (.fixed high.phrase_literal)) trailing_paren

theorem derivative_runs {axis : DerivativeAxis}
    (h : Returns env (derivative demand n axis) s () t) :
    RunsReading env demand n ["Input"] s t := by
  simp only [derivative, returns_bind, returns_dialect] at h
  obtain ⟨⟨⟩, s₁, hstage, input, s₂, hinput, ⟨⟩, s₃, hrequire, d, s₄, ⟨rfl, rfl⟩, h⟩ := h
  obtain ⟨hinput, hvector⟩ := step_vectorInput hinput
  refine ⟨_, .snoc (.snoc (.snoc (.single (step_requireStage hstage)) hinput)
    (step_require hrequire ⟨fun _ ↦ id, fun _ ↦ id⟩))
    (step_assignOutput h (ValueType.isNumeric_of_isVector hvector) (.inl ?_)), by simp⟩
  have hword : IsSyntaxWord env.dialect.ddx ∧ IsSyntaxWord env.dialect.ddy := by
    unfold EmitEnv.dialect
    cases env.settings.backend <;> decide
  refine .call ?_ (Held.forms_value (by simp))
  cases axis
  · exact hword.1
  · exact hword.2

theorem angle_runs {f : AngleFunction} (h : Returns env (angle demand n f) s () t) :
    RunsReading env demand n ["Theta"] s t := by
  simp only [angle, returns_bind] at h
  obtain ⟨theta, s₁, htheta, h⟩ := h
  obtain ⟨htheta, -⟩ := step_scalarInput htheta
  refine ⟨_, .snoc (.single htheta) (step_assignOutput h rfl (.inl ?_)), by simp⟩
  exact .call (by cases f <;> decide) (Held.forms_value (by simp))

theorem arcusTan_runs (h : Returns env (arcusTan demand n) s () t) :
    RunsReading env demand n ["XY"] s t := by
  simp only [arcusTan, returns_bind] at h
  obtain ⟨xy, s₁, hxy, h⟩ := h
  by_cases htype : xy.type = .vec2
  · simp only [htype, ne_eq, not_true_eq_false, if_false, returns_bind, returns_dialect] at h
    obtain ⟨d, s₂, ⟨rfl, rfl⟩, h⟩ := h
    refine ⟨_, .snoc (.single (step_requireInput hxy)) (step_assignOutput h rfl (.inl ?_)), by simp⟩
    have hword : IsSyntaxWord env.dialect.atan2 := by
      unfold EmitEnv.dialect
      cases env.settings.backend <;> decide
    have hselect {c : String} (hc : c = "x" ∨ c = "y") :
        (({} : Held).read "XY" (some xy)).Forms ((Operator.selection c).apply xy.name) := by
      refine .apply (.selection c) (.inl (by simp)) ?_
      rw [htype]
      rcases hc with rfl | rfl <;> decide
    have hform := Held.Forms.before (.between (.between (.fixed (.word hword)) inner_paren
      (hselect (.inl rfl))) inner_comma (hselect (.inr rfl))) trailing_paren
    have hfirst : ".x, " = "." ++ ("x" ++ ", ") := by decide
    have hsecond : ".y)" = "." ++ ("y" ++ ")") := by decide
    simpa only [Operator.apply, toString_text, hfirst, hsecond, String.append_assoc] using hform
  · simp [htype, returns_bind, returns_throw] at h

theorem arithmetic_runs {op : ArithmeticOperator}
    (h : Returns env (arithmetic demand n op) s () t) :
    RunsReading env demand n ["Input1", "Input2"] s t := by
  simp only [arithmetic, returns_bind, returns_commonType, returns_cast, returns_dialect] at h
  obtain ⟨a, s₁, ha, b, s₂, hb, type, s₃, ⟨htype, rfl⟩, left, s₄, ⟨hleft, rfl⟩, right, s₅,
    ⟨hright, rfl⟩, d, s₆, ⟨rfl, rfl⟩, h⟩ := h
  refine ⟨_, .snoc (.snoc (.snoc (.snoc (.single (step_requireInput ha)) (step_requireInput hb))
    (.convert (v := a) (by simp) hleft)) (.convert (v := b) (by simp) hright))
    (step_assignOutput h (ValueType.commonOf_isNumeric htype) ?_), by simp⟩
  split
  · refine .inr ⟨_, [("left", left), ("right", right)], .matrixMultiply, fun x hx ↦ ?_,
      fun x hx op hop ↦ ?_, rfl⟩
    · obtain rfl | rfl : x = ("left", left) ∨ x = ("right", right) := by simpa using hx
      · exact Held.forms_operand (t := type) (by simp)
      · exact Held.forms_operand (t := type) (by simp)
    · have hnone : Template.operators env.dialect.matrixMultiply x.1 = [] :=
        env.settings.backend.operators_product.2 x.1 (List.mem_map_of_mem hx)
      rw [hnone] at hop
      cases hop
  · exact .inl (.binary (Held.forms_operand (t := type) (by simp)) (by cases op <;> decide)
      (Held.forms_operand (t := type) (by simp)))

theorem vectorFunction_runs {f : VectorFunction}
    (h : Returns env (vectorFunction demand n f) s () t) :
    RunsReading env demand n [(vectorFunctionPins f).1, (vectorFunctionPins f).2] s t := by
  simp only [vectorFunction, returns_bind, returns_commonType, returns_cast] at h
  obtain ⟨a, s₁, ha, b, s₂, hb, type, s₃, ⟨htype, rfl⟩, left, s₄, ⟨hleft, rfl⟩, right, s₅,
    ⟨hright, rfl⟩, h⟩ := h
  obtain ⟨ha, -⟩ := step_vectorInput ha
  obtain ⟨hb, -⟩ := step_vectorInput hb
  refine ⟨_, .snoc (.snoc (.snoc (.snoc (.single ha) hb) (.convert (v := a) (by simp) hleft))
    (.convert (v := b) (by simp) hright))
    (step_assignOutput h (ValueType.commonOf_isNumeric htype) (.inl ?_)), by simp⟩
  exact .before (.between (.between (.fixed (.word (by cases f <;> decide))) inner_paren
    (Held.forms_operand (e := left) (t := type) (by simp))) inner_comma
    (Held.forms_operand (e := right) (t := type) (by simp))) trailing_paren

theorem mulAdd_runs (h : Returns env (mulAdd demand n) s () t) :
    RunsReading env demand n ["Input1", "Input2", "Input3"] s t := by
  simp only [mulAdd, returns_bind, returns_commonType, returns_cast] at h
  obtain ⟨a, s₁, ha, b, s₂, hb, c, s₃, hc, type, s₄, ⟨htype, rfl⟩, x, s₅, ⟨hx, rfl⟩, y, s₆,
    ⟨hy, rfl⟩, z, s₇, ⟨hz, rfl⟩, h⟩ := h
  obtain ⟨ha, -⟩ := step_vectorInput ha
  obtain ⟨hb, -⟩ := step_vectorInput hb
  obtain ⟨hc, -⟩ := step_vectorInput hc
  refine ⟨_, .snoc (.snoc (.snoc (.snoc (.snoc (.snoc (.single ha) hb) hc)
    (.convert (v := a) (by simp) hx)) (.convert (v := b) (by simp) hy))
    (.convert (v := c) (by simp) hz))
    (step_assignOutput h (ValueType.commonOf_isNumeric htype) (.inl ?_)), by simp⟩
  exact .between (.between (Held.forms_operand (e := x) (t := type) (by simp)) (m := " * ")
    (by decide) (Held.forms_operand (e := y) (t := type) (by simp))) (m := " + ") (by decide)
    (Held.forms_operand (e := z) (t := type) (by simp))

theorem isSyntaxWord_lerp (b : Backend) : IsSyntaxWord b.dialect.lerp := by
  cases b <;> decide

/-- A scalar weight needs no conversion, so it is one of the values at hand. -/
theorem lerp_runs (h : Returns env (lerp demand n) s () t) :
    RunsReading env demand n ["Input1", "Input2", "Blend"] s t := by
  simp only [lerp, returns_bind, returns_commonType, returns_cast, returns_ite, returns_pure,
    returns_dialect] at h
  obtain ⟨a, s₁, ha, b, s₂, hb, blend, s₃, hblend, type, s₄, ⟨htype, rfl⟩, h⟩ := h
  obtain ⟨ha, -⟩ := step_vectorInput ha
  obtain ⟨hb, -⟩ := step_vectorInput hb
  obtain ⟨hblend, -⟩ := step_vectorInput hblend
  have hread := Steps.snoc (.snoc (.single (H := {}) ha) hb) hblend
  have hnumeric := ValueType.commonOf_isNumeric htype
  have hexpr {H : Held} {x y weight : String} (hx : ⟨x, type⟩ ∈ H.operands)
      (hy : ⟨y, type⟩ ∈ H.operands) (hweight : H.Forms weight) :
      H.Forms s!"{env.dialect.lerp}({x}, {y}, {weight})" :=
    .before (.between (.between (.between (.fixed (.word (isSyntaxWord_lerp _))) inner_paren
      (Held.forms_operand hx)) inner_comma (Held.forms_operand hy)) inner_comma hweight)
      trailing_paren
  obtain ⟨-, weight, s₅, ⟨rfl, rfl⟩, x, s₆, ⟨hx, rfl⟩, y, s₇, ⟨hy, rfl⟩, d, s₈, ⟨rfl, rfl⟩, h⟩ |
    ⟨-, weight, s₅, ⟨hweight, rfl⟩, x, s₆, ⟨hx, rfl⟩, y, s₇, ⟨hy, rfl⟩, d, s₈, ⟨rfl, rfl⟩, h⟩ := h
  · refine ⟨_, .snoc (.snoc (.snoc hread (.convert (v := a) (by simp) hx))
      (.convert (v := b) (by simp) hy)) (step_assignOutput h hnumeric (.inl (hexpr ?_ ?_ ?_))),
      by simp⟩
    · simp
    · simp
    · exact Held.forms_value (by simp)
  · refine ⟨_, .snoc (.snoc (.snoc (.snoc hread (.convert (v := blend) (by simp) hweight))
      (.convert (v := a) (by simp) hx)) (.convert (v := b) (by simp) hy))
      (step_assignOutput h hnumeric (.inl (hexpr ?_ ?_ ?_))), by simp⟩
    · simp
    · simp
    · exact Held.forms_operand (t := type) (by simp)

theorem power_runs (h : Returns env (power demand n) s () t) :
    RunsReading env demand n ["Exponent", "Input"] s t := by
  simp only [power, returns_bind, returns_commonType, returns_cast, returns_dialect] at h
  obtain ⟨exponent, s₁, hexponent, input, s₂, hinput, type, s₃, ⟨htype, rfl⟩, d, s₄, ⟨rfl, rfl⟩,
    base, s₅, ⟨hbase, rfl⟩, power, s₆, ⟨hpower, rfl⟩, h⟩ := h
  obtain ⟨hexponent, -⟩ := step_vectorInput hexponent
  obtain ⟨hinput, -⟩ := step_vectorInput hinput
  refine ⟨_, .snoc (.snoc (.snoc (.snoc (.single hexponent) hinput)
    (.convert (v := input) (by simp) hbase)) (.convert (v := exponent) (by simp) hpower))
    (step_assignOutput h (ValueType.commonOf_isNumeric htype) (.inl ?_)), by simp⟩
  exact .before (.between (.between (.after (m := "pow(max(") (by decide)
    (Held.forms_operand (e := base) (t := type) (by simp))) inner_comma
    (.fixed (Backend.phrase_scalarLiteral _ _))) (m := "), ") (by decide)
    (Held.forms_operand (e := power) (t := type) (by simp))) trailing_paren

theorem forms_horner {H : Held} {x : String} {cs : List String} (hx : H.Forms x)
    (hcs : ∀ c ∈ cs, H.Forms c) : H.Forms (horner x cs) := by
  induction cs with
  | nil => exact .empty
  | cons c cs ih =>
    cases cs with
    | nil => exact hcs c (by simp)
    | cons c' cs =>
      exact .before (.between (.between (hcs c (by simp)) (m := " + ") (by decide) hx)
        (m := " * (") (by decide) (ih fun d hd ↦ hcs d (List.mem_cons_of_mem c hd))) trailing_paren

theorem polynomial_runs (h : Returns env (polynomial demand n) s () t) :
    RunsReading env demand n ["X", "Coefficients"] s t := by
  simp only [polynomial, returns_bind, returns_dialect] at h
  obtain ⟨x, s₁, hx, coefficients, s₂, hcoefficients, d, s₃, ⟨rfl, rfl⟩, h⟩ := h
  obtain ⟨hx, hvector⟩ := step_vectorInput hx
  obtain ⟨hcoefficients, hvector'⟩ := step_vectorInput hcoefficients
  have hread := Steps.snoc (.single (H := {}) hx) hcoefficients
  have hnumeric := ValueType.isNumeric_of_isVector hvector
  split at h
  · exact absurd h returns_throw
  · refine ⟨_, .snoc hread (step_assignOutput h hnumeric (.inl ?_)), by simp⟩
    split
    · exact Held.forms_value (by simp)
    · exact .splat _ (Held.forms_value (by simp))
  · next width hwidth hcomponents =>
    refine ⟨_, .snoc hread (step_assignOutput h hnumeric (.inl ?_)), by simp⟩
    refine forms_horner (Held.forms_value (by simp)) fun term hterm ↦ ?_
    obtain ⟨c, hc, rfl⟩ := List.mem_map.mp hterm
    have hwide : coefficients.type ≠ .scalar := fun hscalar ↦ hwidth (by
      rw [hscalar] at hcomponents
      exact (Option.some.inj hcomponents).symm)
    exact .apply (.selection c) (.inl (by simp)) (Operator.isDefinedFor_component hvector' hwide
      (by rwa [hcomponents]))

theorem constant_runs {components : List Binary32}
    (h : Returns env (constant n components) s () t) : RunsReading env demand n [] s t := by
  simp only [constant, returns_bind, returns_dialect, returns_emitOutput, returns_typeName,
    returns_writeLine] at h
  obtain ⟨d, s₁, ⟨rfl, rfl⟩, output, s₂, ⟨p, hp, rfl, rfl⟩, name, s₃, ⟨hname, rfl⟩, rfl⟩ := h
  refine ⟨_, .single (.constant hp ?_ hname (.fixed (Backend.phrase_vectorLiteral _ _))), by simp⟩
  unfold ValueType.ofComponents?
  split <;> rfl

end Emitter

end ShaderGraph
