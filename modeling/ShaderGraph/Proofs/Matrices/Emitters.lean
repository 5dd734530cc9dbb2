import ShaderGraph.Proofs.Matrices.Denotation
import ShaderGraph.Proofs.Scope.Program

/-!
# Bodies of vectors and matrices

The emitters of vector and matrix algebra keep an invariant: the body of the stage that is written runs
without an error in the shading language of the target, and the variables that are bound denote what
their pins carry, if matrices are multiplied as the target does it. So every evaluation declares only
variables, and the one that it returns denotes what its pin carries.
-/

open scoped Matrix

namespace ShaderGraph

open EmitM Emitter

/-! ## Stages that compute -/

/-- The values of parameters at the start of a body. -/
def Graph.parameterValues (g : Graph) (values : String → Vector4) (name : String) :
    Option Quantity :=
  if name ∈ g.nodes.values.flatMap fun n ↦ n.kind.parameterNames then some (.vector (values name))
  else none

theorem Graph.IsAlgebraic.parameterValues_temporary {g : Graph} (hg : g.IsAlgebraic)
    (values : String → Vector4) (k : Nat) : g.parameterValues values (temporary k) = none := by
  refine if_neg fun hname ↦ ?_
  obtain ⟨n, hn, hname⟩ := List.mem_flatMap.mp hname
  have hother := (hg.parameters n hn _ hname).2
  rw [isTemporary_temporary] at hother
  cases hother

section Computing

variable (env : EmitEnv) (values : String → Vector4)

def EmitEnv.language (env : EmitEnv) : ShadingLanguage :=
  env.settings.backend.language

/-- The main body of the stage runs up to `σ`, and the variables that are bound denote what their pins
carry. -/
structure StageShader.Computes (x : StageShader) (σ : Execution) : Prop where
  captures : x.captures = []
  outer : x.outer = []
  body : ∃ lines, (∀ l ∈ lines, IsLine l) ∧ x.main = .ofLines lines ∧
    execute? env.language ⟨env.graph.parameterValues values, []⟩ lines = some σ
  bindings : ∀ b ∈ x.bindings, ∃ q, env.graph.Carries env.language.product values b.1 q ∧
    b.2.StandsFor env.language σ.values q
  parameters : KeepsValues (env.graph.parameterValues values) σ.values

/-- The body of the current stage runs up to `σ`, without the temporaries that are still free. -/
structure EmitState.Computes (s : EmitState) (σ : Execution) : Prop where
  shader : (s.shader s.stage).Computes env values σ
  fresh : ∀ k, s.nextVariable ≤ k → σ.values (temporary k) = none

/-- The run from `s` to `t` adds declarations to the current body. -/
structure EmitState.Proceeds (s : EmitState) (σ : Execution) (t : EmitState) (τ : Execution) :
    Prop where
  computes : t.Computes env values τ
  stage : t.stage = s.stage
  others : ∀ stage, stage ≠ s.stage → (s.shader stage).SameCode (t.shader stage)
  kept : KeepsValues σ.values τ.values
  written : τ.written = σ.written

end Computing

variable {env : EmitEnv} {values : String → Vector4} {s t u : EmitState} {σ τ υ : Execution}
  {q : Quantity} {line : String} {φ : Formula}

theorem execute?_concat {L : ShadingLanguage} {lines : List String} {st : Statement}
    (h : execute? L υ lines = some σ) (hline : statement? line = some st)
    (hrun : st.run? L σ = some τ) : execute? L υ (lines ++ [line]) = some τ := by
  rw [execute?] at h ⊢
  rw [List.foldlM_append, h]
  simp [hline, hrun]

/-- Bodies and bindings have nothing to do with each other. -/
theorem StageShader.modifyBody_bind (x : StageShader) (f : CodeBuffer → CodeBuffer) (pin : PinId)
    (v : Variable) : (x.bind pin v).modifyBody f = (x.modifyBody f).bind pin v := by
  unfold StageShader.modifyBody StageShader.bind
  cases x.captures <;> rfl

namespace StageShader.Computes

variable {x y : StageShader} {pin : PinId} {v : Variable}

theorem of_sameCode (hx : x.Computes env values σ) (h : x.SameCode y) : y.Computes env values σ where
  captures := h.captures.trans hx.captures
  outer := h.outer.trans hx.outer
  body := h.main ▸ hx.body
  bindings := h.bindings ▸ hx.bindings
  parameters := hx.parameters

theorem bind (hx : x.Computes env values σ)
    (hcarries : env.graph.Carries env.language.product values pin q)
    (hv : v.StandsFor env.language σ.values q) : (x.bind pin v).Computes env values σ where
  captures := hx.captures
  outer := hx.outer
  body := hx.body
  bindings := List.forall_mem_cons.mpr ⟨⟨q, hcarries, hv⟩, hx.bindings⟩
  parameters := hx.parameters

/-- One more statement. -/
theorem write {st : Statement} (hx : x.Computes env values σ) (hline : IsLine line)
    (hread : statement? line = some st) (hrun : st.run? env.language σ = some τ)
    (hkept : KeepsValues σ.values τ.values) :
    (x.modifyBody fun b ↦ b.line line).Computes env values τ := by
  have hwritten : x.modifyBody (fun b ↦ b.line line) = { x with main := x.main.line line } := by
    unfold StageShader.modifyBody
    split
    · rfl
    · next h => cases hx.captures.symm.trans h
  obtain ⟨lines, hlines, hmain, hexecute⟩ := hx.body
  rw [hwritten]
  refine ⟨hx.captures, hx.outer, ⟨lines ++ [line], ?_, ?_, ?_⟩, ?_, hx.parameters.trans hkept⟩
  · exact List.forall_mem_append.mpr ⟨hlines, by simpa using hline⟩
  · rw [hmain, CodeBuffer.line_ofLines]
  · exact execute?_concat hexecute hread hrun
  · intro b hb
    obtain ⟨r, hr, hdenotes⟩ := hx.bindings b hb
    exact ⟨r, hr, hdenotes.mono hkept⟩

end StageShader.Computes

namespace EmitState

theorem Computes.of_sameCode (hs : s.Computes env values σ) (h : s.SameCode t) :
    s.Proceeds env values σ t σ where
  computes := ⟨h.stage ▸ hs.shader.of_sameCode (h.shaders s.stage), h.nextVariable ▸ hs.fresh⟩
  stage := h.stage
  others stage _ := h.shaders stage
  kept := .refl _
  written := rfl

theorem Computes.refl (hs : s.Computes env values σ) : s.Proceeds env values σ s σ :=
  hs.of_sameCode (.refl s)

theorem Proceeds.trans (h : s.Proceeds env values σ t τ) (h' : t.Proceeds env values τ u υ) :
    s.Proceeds env values σ u υ where
  computes := h'.computes
  stage := h'.stage.trans h.stage
  others stage hne := (h.others stage hne).trans (h'.others stage (h.stage ▸ hne))
  kept := h.kept.trans h'.kept
  written := h'.written.trans h.written

/-- A pin is bound to a variable that denotes what it carries. -/
theorem Computes.bindPin {pin : PinId} {v : Variable} (hs : s.Computes env values σ)
    (hcarries : env.graph.Carries env.language.product values pin q)
    (hv : v.StandsFor env.language σ.values q) : s.Proceeds env values σ (s.bindPin pin v) σ where
  computes := by
    refine ⟨?_, fun k hk ↦ hs.fresh k (by rwa [EmitState.bindPin, nextVariable_modifyShader] at hk)⟩
    rw [EmitState.bindPin, stage_modifyShader, shader_modifyShader]
    exact hs.shader.bind hcarries hv
  stage := stage_modifyShader ..
  others stage hne := by
    rw [EmitState.bindPin, shader_modifyShader_of_ne _ _ hne]
    exact .refl _
  kept := .refl _
  written := rfl

/-- A line that declares the next temporary. -/
theorem Computes.declare {pin : PinId} {type : String} (hs : s.Computes env values σ)
    (hcarries : env.graph.Carries env.language.product values pin q) (hwide : q.type ≠ .scalar)
    (hline : IsLine line)
    (hread : statement? line = some ⟨some type, temporary s.nextVariable, φ⟩)
    (htype : type = env.language.typeOf q)
    (hφ : φ.quantity? env.language σ.values = some (env.language.stored q)) :
    s.Proceeds env values σ ((s.allocate pin q.type).write line)
      (σ.declare (temporary s.nextVariable) (env.language.stored q)) := by
  have hfresh : σ.values (temporary s.nextVariable) = none := hs.fresh _ le_rfl
  have hkept : KeepsValues σ.values
      (σ.declare (temporary s.nextVariable) (env.language.stored q)).values := .update hfresh _
  have hrun : (⟨some type, temporary s.nextVariable, φ⟩ : Statement).run? env.language σ =
      some (σ.declare (temporary s.nextVariable) (env.language.stored q)) := by
    simp [Statement.run?, hφ, htype, hfresh]
  have hstage : ((s.allocate pin q.type).write line).stage = s.stage :=
    (stage_modifyShader ..).trans (stage_allocate ..)
  have hshader : ((s.allocate pin q.type).write line).shader s.stage =
      ((s.shader s.stage).modifyBody fun b ↦ b.line line).bind pin
        ⟨temporary s.nextVariable, q.type⟩ := by
    rw [write, EmitState.modifyBody, stage_allocate, shader_modifyShader, allocate,
      EmitState.bindPin, shader_modifyShader]
    cases s.stage <;> exact StageShader.modifyBody_bind ..
  refine ⟨⟨?_, fun k hk ↦ ?_⟩, hstage, fun stage hne ↦ ?_, hkept, rfl⟩
  · rw [hstage, hshader]
    refine (hs.shader.write hline hread hrun hkept).bind hcarries ⟨rfl, hwide, .of_name ?_ ?_⟩
    · exact isIdentifier_temporary _
    · exact Function.update_self ..
  · rw [write, EmitState.modifyBody, nextVariable_modifyShader, nextVariable_allocate] at hk
    have hne : temporary k ≠ temporary s.nextVariable := fun heq ↦ by
      rw [temporary_injective heq] at hk
      omega
    exact (Function.update_of_ne hne ..).trans (hs.fresh k (by omega))
  · rw [write, EmitState.modifyBody, stage_allocate, shader_modifyShader_of_ne _ _ hne, allocate,
      EmitState.bindPin, shader_modifyShader_of_ne _ _ hne]
    cases stage <;> exact .refl _

/-- A line that writes to an output. -/
theorem Computes.write {target : String} (hs : s.Computes env values σ) (hline : IsLine line)
    (hread : statement? line = some ⟨none, target, φ⟩)
    (hφ : φ.quantity? env.language σ.values = some q) :
    (s.write line).Computes env values (σ.write target q) := by
  have hrun : (⟨none, target, φ⟩ : Statement).run? env.language σ = some (σ.write target q) := by
    simp [Statement.run?, hφ]
  refine ⟨?_, fun k hk ↦ hs.fresh k ?_⟩
  · rw [EmitState.write, EmitState.modifyBody, stage_modifyShader, shader_modifyShader]
    exact hs.shader.write hline hread hrun (.refl _)
  · rwa [EmitState.write, EmitState.modifyBody, nextVariable_modifyShader] at hk

end EmitState

/-! ## Inputs -/

/-- An output that is demanded is computed. -/
def Demand.Computes (env : EmitEnv) (values : String → Vector4) (demand : Demand) : Prop :=
  ∀ id pin s v t σ, (∃ n p, env.graph.node? id = some n ∧ p ∈ n.outputs ∧ p.id = pin) →
    Returns env (demand id pin) s v t → s.Computes env values σ →
    ∃ τ q, s.Proceeds env values σ t τ ∧ env.graph.Carries env.language.product values pin q ∧
      v.StandsFor env.language τ.values q

section Inputs

variable {demand : Demand} {n : Node} {pin : String} {v : Variable}
  (hdemand : demand.Computes env values) (hg : env.graph.IsAlgebraic) (hn : n ∈ env.graph.nodes.values)
  (hs : s.Computes env values σ)
include hdemand hg hn hs

theorem inputValue?_computes {value? : Option Variable}
    (h : Returns env (inputValue? demand n pin) s value? t) :
    (∃ v τ q, value? = some v ∧ s.Proceeds env values σ t τ ∧
      env.graph.ReceivesAt env.language.product values n pin q ∧
      v.StandsFor env.language τ.values q) ∨
    value? = none ∧ t = s ∧ env.graph.IsAbsent n pin := by
  obtain ⟨i, hi, ⟨c, v, hc, rfl, hv⟩ | ⟨hnone, rfl, ⟨l, hl, rfl⟩ | ⟨hdefault, -, rfl⟩⟩⟩ :=
    inputValue?_cases h
  · obtain ⟨τ, q, hproceeds, hcarries, hstands⟩ := hdemand _ _ _ _ _ _ (hg.wired.source hc) hv hs
    refine .inl ⟨v, τ, q, rfl, hproceeds, ⟨i, hi, fun c' hc' ↦ ?_, fun hnone ↦ ?_⟩, hstands⟩
    · cases hc.symm.trans hc'
      exact hcarries
    · cases hc.symm.trans hnone
  · obtain ⟨htype, hfinite⟩ := hg.defaults n hn i (List.mem_of_find?_eq_some hi) l hl
    obtain ⟨q, hq, hvector, hdenotes⟩ :=
      Denotes.of_literal env.settings.backend σ.values htype hfinite
    refine .inl ⟨_, σ, q, rfl, hs.refl, ⟨i, hi, fun c hc ↦ ?_, fun _ ↦ ?_⟩, htype.trans hvector.symm,
      ?_, hdenotes⟩
    · cases hnone.symm.trans hc
    · rw [hl]
      exact hq
    · rw [hvector]
      decide
  · exact .inr ⟨rfl, rfl, i, hi, hnone, hdefault⟩

theorem requireInput_computes (h : Returns env (requireInput demand n pin) s v t) :
    ∃ τ q, s.Proceeds env values σ t τ ∧
      env.graph.ReceivesAt env.language.product values n pin q ∧
      v.StandsFor env.language τ.values q := by
  obtain ⟨_, τ, q, ⟨⟩, h⟩ | ⟨hnone, -⟩ :=
    inputValue?_computes hdemand hg hn hs (returns_requireInput.mp h)
  · exact ⟨τ, q, h⟩
  · cases hnone

theorem vectorInput_computes (h : Returns env (vectorInput demand n pin) s v t) :
    ∃ τ w, s.Proceeds env values σ t τ ∧
      env.graph.ReceivesAt env.language.product values n pin (.vector w) ∧
      v.StandsFor env.language τ.values (.vector w) := by
  simp only [vectorInput, returns_bind, returns_ite, returns_pure, returns_throw, and_false,
    or_false] at h
  obtain ⟨w, t', hread, hvector, rfl, rfl⟩ := h
  obtain ⟨τ, q, hproceeds, hreceives, hstands⟩ := requireInput_computes hdemand hg hn hs hread
  cases q with
  | scalar => exact absurd rfl hstands.wide
  | vector w => exact ⟨τ, w, hproceeds, hreceives, hstands⟩
  | matrix =>
    rw [hstands.type] at hvector
    cases hvector

theorem matrixInput_computes (h : Returns env (matrixInput demand n pin) s v t) :
    ∃ τ m, s.Proceeds env values σ t τ ∧
      env.graph.ReceivesAt env.language.product values n pin (.matrix m) ∧
      v.StandsFor env.language τ.values (.matrix m) := by
  simp only [matrixInput, returns_bind, returns_ite, returns_pure, returns_throw, and_false,
    or_false] at h
  obtain ⟨w, t', hread, hmatrix, rfl, rfl⟩ := h
  obtain ⟨τ, q, hproceeds, hreceives, hstands⟩ := requireInput_computes hdemand hg hn hs hread
  obtain ⟨m, rfl⟩ := Quantity.exists_matrix (hstands.type.symm.trans hmatrix)
  exact ⟨τ, m, hproceeds, hreceives, hstands⟩

end Inputs

/-! ## Emitters -/

theorem isWord_typeOf (L : ShadingLanguage) (q : Quantity) : IsWord (L.typeOf q) := by
  have hall : ∀ w ∈ ["float", "vec4", "mat4", "float4", "float4x4"], IsWord w := by decide
  refine hall _ ?_
  cases L <;> cases q <;>
    simp [ShadingLanguage.typeOf, ShadingLanguage.vectorType, ShadingLanguage.matrixType]

/-- Two vectors or two matrices. -/
theorem eq_of_commonOf {q r : Quantity} {type : ValueType} (hq : q.type ≠ .scalar)
    (hr : r.type ≠ .scalar) (h : ValueType.commonOf [q.type, r.type] = .ok type) :
    type = q.type ∧ r.type = q.type := by
  cases q with
  | scalar => exact absurd rfl hq
  | vector | matrix =>
    cases r with
    | scalar => exact absurd rfl hr
    | vector | matrix => cases h <;> exact ⟨rfl, rfl⟩

section Emitters

variable {demand : Demand} {n : Node} {expr : String} {v : Variable}
  (hdemand : demand.Computes env values) (hg : env.graph.IsAlgebraic) (hn : n ∈ env.graph.nodes.values)
  (hs : s.Computes env values σ)
include hg hn hs

/-- An output is declared with a formula for what it carries. -/
theorem output_computes {pin : String} (input : String → Quantity)
    (h : Returns env (do let output ← emitOutput n pin q.type; assign n output expr) s () t)
    (hwide : q.type ≠ .scalar) (hexpr : Evaluates env.language σ.values expr (env.language.stored q))
    (hinput : ∀ spec ∈ n.kind.inputPins,
      env.graph.ReceivesAt env.language.product values n spec.name (input spec.name))
    (hq : n.kind.quantity? env.language.product values input pin = some q) :
    ∃ τ, s.Proceeds env values σ t τ := by
  simp only [returns_bind, returns_emitOutput, returns_assign] at h
  obtain ⟨output, t', ⟨p, hp, rfl, rfl⟩, type, htype, rfl⟩ := h
  obtain rfl : env.language.typeOf q = type :=
    Option.some.inj ((env.settings.backend.typeName?_type q).symm.trans htype)
  obtain ⟨φ, hread, hφ⟩ := hexpr.reading
  refine ⟨_, hs.declare (.of_inputs input hg.wired.laidOut hn hp hinput hq) hwide ?_
    (statement?_declaration (isWord_typeOf _ q).isTarget (isWord_temporary _).isTarget hread) rfl hφ⟩
  have hblank : IsLine " " := by decide
  have hequals : IsLine " = " := by decide
  have hend : IsLine ";" := by decide
  exact ((((((isWord_typeOf _ q).isLine.append hblank).append (isWord_temporary _).isLine).append
    hequals).append hexpr.isLine).append hend)

theorem constant_computes {x y z w : Binary32} (hkind : n.kind = .vector x y z w)
    (h : Returns env (constant n [x, y, z, w]) s () t) : ∃ τ, s.Proceeds env values σ t τ := by
  simp only [constant, returns_bind, returns_dialect, returns_emitOutput, returns_typeName,
    returns_writeLine] at h
  obtain ⟨d, s₁, ⟨rfl, rfl⟩, output, s₂, ⟨p, hp, rfl, rfl⟩, type, s₃, ⟨htype, rfl⟩, rfl⟩ := h
  have hfinite : ∀ c ∈ [x, y, z, w], c.isFinite := by
    have halgebraic := hg.kinds n hn
    rw [hkind] at halgebraic
    exact List.all_eq_true.mp halgebraic
  obtain ⟨q, hq, hvector, hdenotes⟩ := Denotes.of_literal env.settings.backend σ.values
    (show (Literal.vector4 x y z w).type = .vec4 from rfl) hfinite
  have hwidth : (ValueType.ofComponents? [x, y, z, w].length).getD .scalar = q.type := hvector.symm
  rw [hwidth] at htype ⊢
  obtain rfl : env.language.typeOf q = type :=
    Option.some.inj ((env.settings.backend.typeName?_type q).symm.trans htype)
  obtain ⟨φ, hread, hφ⟩ := hdenotes.evaluates.reading
  have hcarries : env.graph.Carries env.language.product values p.id q := by
    refine .of_inputs (fun _ ↦ q) hg.wired.laidOut hn hp ?_ ?_
    · simp [hkind, NodeKind.inputPins]
    · rw [hkind]
      exact hq
  have hconst : IsLine "const " := by decide
  have hblank : IsLine " " := by decide
  have hequals : IsLine " = " := by decide
  have hend : IsLine ";" := by decide
  refine ⟨_, hs.declare hcarries (by rw [hvector]; decide) ?_ (statement?_constant
    (isWord_typeOf _ q).isTarget (isWord_temporary _).isTarget hread) rfl hφ⟩
  exact (((((hconst.append (isWord_typeOf _ q).isLine).append hblank).append
    (isWord_temporary _).isLine).append hequals).append hdenotes.isLine).append hend

theorem uniform_computes {parameter : String} (hkind : n.kind = .uniform parameter .vec4)
    (h : Returns env (uniform n parameter .vec4) s () t) : ∃ τ, s.Proceeds env values σ t τ := by
  simp only [uniform, returns_bind, reduceCtorEq, if_false, returns_declareUniform] at h
  obtain ⟨⟨⟩, s₁, ⟨entry, -, rfl⟩, h⟩ := h
  simp only [forwardOutput, returns_bind, returns_bindOutput, returns_pure] at h
  obtain ⟨v, s₂, ⟨p, hp, rfl, rfl⟩, -, rfl⟩ := h
  have hmem : parameter ∈ n.kind.parameterNames := by simp [hkind, NodeKind.parameterNames]
  have hvalue : env.graph.parameterValues values parameter = some (.vector (values parameter)) :=
    if_pos (List.mem_flatMap.mpr ⟨n, hn, hmem⟩)
  have hcarries : env.graph.Carries env.language.product values p.id (.vector (values parameter)) := by
    refine .of_inputs (fun _ ↦ .scalar 0) hg.wired.laidOut hn hp ?_ ?_
    · simp [hkind, NodeKind.inputPins]
    · rw [hkind]
      rfl
  have hdeclared := hs.of_sameCode ((EmitState.SameCode.addUniform s parameter entry).trans
    (.declareOnce _ .uniforms parameter (env.dialect.uniformDeclaration? .vec4 parameter none)))
  exact ⟨σ, hdeclared.trans (hdeclared.computes.bindPin hcarries ⟨rfl, Quantity.type_vector_ne _,
    .of_name (hg.parameters n hn parameter hmem).1 (hs.shader.parameters _ _ hvalue)⟩)⟩

/-- The columns of a matrix are declared one after another. -/
theorem columns_compute {axes : List (String × Nat)} {m : Matrix4}
    {f : String × Nat → PUnit → EmitM (ForInStep PUnit)} (hkind : n.kind = .matrixOut)
    (hf : ∀ x, f x ⟨⟩ = do
      (do let output ← emitOutput n x.1 .vec4; assign n output s!"{v.name}[{x.2}]")
      pure (.yield ⟨⟩))
    (haxes : ∀ x ∈ axes, ∃ k : Fin 4, axisOf? x.1 = some k ∧ x.2 = k.val)
    (hm : env.graph.ReceivesAt env.language.product values n "Input" (.matrix m))
    (hv : v.StandsFor env.language σ.values (.matrix m)) (h : Returns env (forIn axes ⟨⟩ f) s ⟨⟩ t) :
    ∃ τ, s.Proceeds env values σ t τ := by
  induction axes generalizing s σ with
  | nil =>
    obtain rfl := returns_forIn_nil.mp h
    exact ⟨σ, hs.refl⟩
  | cons x axes ih =>
    obtain ⟨s₁, hfirst, hrest⟩ := (returns_forIn_cons hf).mp h
    obtain ⟨⟨k, hk, hx⟩, haxes⟩ := List.forall_mem_cons.mp haxes
    rw [hx] at hfirst
    obtain ⟨τ, hproceeds⟩ := output_computes (q := .vector (m.col k)) hg hn hs
      (fun _ ↦ .matrix m) hfirst (Quantity.type_vector_ne _)
      (hv.text.element (env.language.element?_stored m k))
      (by simpa [hkind, NodeKind.inputPins, PinSpec.required] using hm)
      (by simp [hkind, NodeKind.quantity?, hk])
    obtain ⟨υ, hproceeds'⟩ := ih hproceeds.computes haxes (hv.mono hproceeds.kept) hrest
    exact ⟨υ, hproceeds.trans hproceeds'⟩

include hdemand

theorem negate_computes (hkind : n.kind = .negate) (h : Returns env (negate demand n) s () t) :
    ∃ τ, s.Proceeds env values σ t τ := by
  simp only [negate, returns_bind] at h
  obtain ⟨v, s₁, hv, h⟩ := h
  obtain ⟨τ, q, hproceeds, hreceives, hstands⟩ := requireInput_computes hdemand hg hn hs hv
  split at h
  · simp only [returns_bind] at h
    obtain ⟨_, _, h, -⟩ := h
    exact absurd h returns_throw
  rw [hstands.type, ← q.type_negate] at h
  obtain ⟨υ, hlast⟩ := output_computes hg hn hproceeds.computes (fun _ ↦ q) h
    (by rw [q.type_negate]; exact hstands.wide) hstands.text.negative
    (by simpa [hkind, NodeKind.inputPins, PinSpec.required] using hreceives) (by rw [hkind]; rfl)
  exact ⟨υ, hproceeds.trans hlast⟩

theorem transpose_computes (hkind : n.kind = .transpose)
    (h : Returns env (transpose demand n) s () t) : ∃ τ, s.Proceeds env values σ t τ := by
  simp only [transpose, returns_bind, returns_dialect] at h
  obtain ⟨d, s₁, ⟨rfl, rfl⟩, h⟩ := h
  split at h
  · next f hf =>
    simp only [returns_bind, returns_require] at h
    obtain ⟨v, s₂, hv, ⟨⟩, s₃, hs₃, h⟩ := h
    obtain ⟨τ, m, hproceeds, hreceives, hstands⟩ := matrixInput_computes hdemand hg hn hs hv
    have hsame : s₂.Proceeds env values τ s₃ τ := hproceeds.computes.of_sameCode (by
      rw [hs₃]
      exact ⟨rfl, rfl, rfl, rfl, fun stage ↦ by cases stage <;> exact .refl _⟩)
    have hname : f = "transpose" := by
      unfold EmitEnv.dialect at hf
      cases hbackend : env.settings.backend <;> rw [hbackend] at hf <;> cases hf <;> rfl
    have hcall : Evaluates env.language τ.values s!"{f}({v.name})"
        (env.language.stored (.matrix mᵀ)) := by
      rw [hname]
      exact Denotes.call (by decide) (.cons hstands.text .nil) (by simp) (env.language.call?_transpose m)
        (by simp)
    obtain ⟨υ, hlast⟩ := output_computes (q := .matrix mᵀ) hg hn hsame.computes
      (fun _ ↦ .matrix m) h (Quantity.type_matrix_ne _) hcall
      (by simpa [hkind, NodeKind.inputPins, PinSpec.required] using hreceives) (by rw [hkind]; rfl)
    exact ⟨υ, (hproceeds.trans hsame).trans hlast⟩
  · exact absurd h returns_unsupported

theorem arithmetic_computes {op : ArithmeticOperator} (hkind : n.kind = .arithmetic op)
    (h : Returns env (arithmetic demand n op) s () t) : ∃ τ, s.Proceeds env values σ t τ := by
  simp only [arithmetic, returns_bind, returns_commonType, returns_cast, returns_dialect] at h
  obtain ⟨a, s₁, ha, b, s₂, hb, type, s₃, ⟨htype, rfl⟩, left, s₄, ⟨hleft, rfl⟩, right, s₅,
    ⟨hright, rfl⟩, d, s₆, ⟨rfl, rfl⟩, h⟩ := h
  obtain ⟨τ, q, hfirst, hq, hqstands⟩ := requireInput_computes hdemand hg hn hs ha
  obtain ⟨υ, r, hsecond, hr, hrstands⟩ := requireInput_computes hdemand hg hn hfirst.computes hb
  rw [List.map_cons, List.map_singleton, hqstands.type, hrstands.type] at htype
  obtain ⟨rfl, hsame⟩ := eq_of_commonOf hqstands.wide hrstands.wide htype
  obtain rfl := hqstands.cast hleft
  obtain rfl := hrstands.cast (hsame ▸ hright)
  have hop : op ≠ .div := by
    have halgebraic := hg.kinds n hn
    rw [hkind] at halgebraic
    simpa [NodeKind.isAlgebraic] using halgebraic
  obtain ⟨u, hu, hutype, hevaluates⟩ := evaluates_arithmetic env.settings.backend hop
    (hqstands.mono hsecond.kept).text hrstands.text hqstands.wide hsame
  rw [← hutype] at h hevaluates
  obtain ⟨_, hlast⟩ := output_computes hg hn hsecond.computes
    (fun pin ↦ if pin = "Input1" then q else r) h (hutype ▸ hqstands.wide) hevaluates
    (by simpa [hkind, NodeKind.inputPins, PinSpec.required] using ⟨hq, hr⟩) (by rw [hkind]; exact hu)
  exact ⟨_, (hfirst.trans hsecond).trans hlast⟩

theorem transform_computes (hkind : n.kind = .transform)
    (h : Returns env (transform demand n) s () t) : ∃ τ, s.Proceeds env values σ t τ := by
  simp only [transform, returns_bind, returns_cast, returns_dialect] at h
  obtain ⟨input, s₁, hinput, matrix, s₂, hmatrix, vector, s₃, ⟨hvector, rfl⟩, d, s₄, ⟨rfl, rfl⟩,
    h⟩ := h
  obtain ⟨τ, v, hfirst, hv, hvstands⟩ := vectorInput_computes hdemand hg hn hs hinput
  obtain ⟨υ, m, hsecond, hm, hmstands⟩ := matrixInput_computes hdemand hg hn hfirst.computes hmatrix
  obtain rfl := hvstands.cast hvector
  obtain ⟨_, hlast⟩ := output_computes (q := .vector (m *ᵥ v)) hg hn hsecond.computes
    (fun pin ↦ if pin = "Input" then .vector v else .matrix m) h (Quantity.type_vector_ne _)
    (evaluates_transform env.settings.backend hmstands.text (hvstands.mono hsecond.kept).text)
    (by simpa [hkind, NodeKind.inputPins, PinSpec.required] using ⟨hv, hm⟩) (by rw [hkind]; rfl)
  exact ⟨_, (hfirst.trans hsecond).trans hlast⟩

/-- The axes of a matrix are read one after another. -/
theorem axes_compute {pins : List String} {texts : List String}
    (h : Returns env (pins.mapM fun pin ↦ do
      let axis ← vectorInput demand n pin
      EmitM.cast n axis .vec4) s texts t) :
    ∃ τ vs, s.Proceeds env values σ t τ ∧
      List.Forall₂ (fun pin v ↦
        env.graph.ReceivesAt env.language.product values n pin (.vector v)) pins vs ∧
      List.Forall₂ (Denotes env.language τ.values) texts (vs.map Quantity.vector) := by
  induction pins generalizing s σ texts with
  | nil =>
    obtain ⟨rfl, rfl⟩ := returns_mapM_nil.mp h
    exact ⟨σ, [], hs.refl, .nil, .nil⟩
  | cons pin pins ih =>
    obtain ⟨text, s₁, texts, hfirst, hrest, rfl⟩ := returns_mapM_cons.mp h
    simp only [returns_bind, returns_cast] at hfirst
    obtain ⟨axis, s₂, haxis, hcast, rfl⟩ := hfirst
    obtain ⟨τ, v, hproceeds, hv, hstands⟩ := vectorInput_computes hdemand hg hn hs haxis
    obtain rfl := hstands.cast hcast
    obtain ⟨υ, vs, hproceeds', hvs, htexts⟩ := ih hproceeds.computes hrest
    exact ⟨υ, v :: vs, hproceeds.trans hproceeds', .cons hv hvs,
      .cons (hstands.mono hproceeds'.kept).text htexts⟩

theorem matrixIn_computes (hkind : n.kind = .matrixIn)
    (h : Returns env (matrixIn demand n) s () t) : ∃ τ, s.Proceeds env values σ t τ := by
  simp only [matrixIn, returns_bind, returns_dialect] at h
  obtain ⟨texts, s₁, htexts, d, s₂, ⟨rfl, rfl⟩, h⟩ := h
  obtain ⟨τ, vs, hproceeds, hvs, hdenotes⟩ := axes_compute hdemand hg hn hs htexts
  obtain _ | ⟨hx, _ | ⟨hy, _ | ⟨hz, _ | ⟨hw, _ | _⟩⟩⟩⟩ := hvs
  rename_i a b c d
  have htype : env.dialect.typeNameOrVoid .matrix4 = env.language.matrixType := by
    unfold EmitEnv.dialect EmitEnv.language
    cases env.settings.backend <;> rfl
  have hne : texts ≠ [] := by
    rintro rfl
    cases hdenotes
  have hcall : Evaluates env.language τ.values (env.dialect.construct .matrix4 texts)
      (env.language.stored (.matrix (ofAxes a b c d))) :=
    Denotes.call (isIdentifier_typeNameOrVoid env.settings.backend .matrix4) hdenotes hne
      (by rw [htype]; exact env.language.call?_matrixType a b c d) rfl
  obtain ⟨_, hlast⟩ := output_computes (q := .matrix (ofAxes a b c d)) hg hn hproceeds.computes
    (fun pin ↦ .vector (if pin = "XAxis" then a else if pin = "YAxis" then b else
      if pin = "ZAxis" then c else d)) h (Quantity.type_matrix_ne _) hcall
    (by simpa [hkind, NodeKind.inputPins, PinSpec.axis] using ⟨hx, hy, hz, hw⟩) (by rw [hkind]; rfl)
  exact ⟨_, hproceeds.trans hlast⟩

theorem matrixOut_computes (hkind : n.kind = .matrixOut)
    (h : Returns env (matrixOut demand n) s () t) : ∃ τ, s.Proceeds env values σ t τ := by
  simp only [matrixOut, returns_bind, returns_pure] at h
  obtain ⟨v, s₁, hv, ⟨⟩, s₂, h, -, rfl⟩ := h
  obtain ⟨τ, m, hproceeds, hm, hstands⟩ := matrixInput_computes hdemand hg hn hs hv
  have haxes : ∀ x ∈ axisPins.zipIdx, ∃ k : Fin 4, axisOf? x.1 = some k ∧ x.2 = k.val := by
    decide +kernel
  obtain ⟨υ, hlast⟩ := columns_compute hg hn hproceeds.computes hkind
    (fun x ↦ by simp only [bind_assoc]) haxes hm hstands h
  exact ⟨υ, hproceeds.trans hlast⟩

/-- The emitter of a node that has outputs. -/
theorem emitKind_computes {p : Pin} (hp : p ∈ n.outputs)
    (h : Returns env (emitKind demand n) s () t) : ∃ τ, s.Proceeds env values σ t τ := by
  have halgebraic := hg.kinds n hn
  have houtputs : n.kind.outputPins ≠ [] := fun hnil ↦ by
    have hnames := (hg.wired.laidOut.nodes n hn).outputs
    rw [hnil] at hnames
    rw [List.map_eq_nil_iff.mp hnames] at hp
    cases hp
  unfold emitKind at h
  cases hkind : n.kind <;> rw [hkind] at h halgebraic houtputs
  case vector => exact constant_computes hg hn hs hkind h
  case uniform parameter type =>
    obtain rfl : type = .vec4 := by simpa [NodeKind.isAlgebraic] using halgebraic
    exact uniform_computes hg hn hs hkind h
  case matrixIn => exact matrixIn_computes hdemand hg hn hs hkind h
  case matrixOut => exact matrixOut_computes hdemand hg hn hs hkind h
  case transpose => exact transpose_computes hdemand hg hn hs hkind h
  case negate => exact negate_computes hdemand hg hn hs hkind h
  case arithmetic => exact arithmetic_computes hdemand hg hn hs hkind h
  case transform => exact transform_computes hdemand hg hn hs hkind h
  case pixelOutput | vertexOutput => exact absurd rfl houtputs
  all_goals cases halgebraic

end Emitters

/-! ## Evaluations -/

theorem StageShader.Computes.binding {x : StageShader} {pin : PinId} {v : Variable}
    (hx : x.Computes env values σ) (hv : x.binding? pin = some v) :
    ∃ q, env.graph.Carries env.language.product values pin q ∧ v.StandsFor env.language σ.values q := by
  unfold StageShader.binding? at hv
  rw [hx.outer, List.lookup_nil, Option.or_none] at hv
  exact hx.bindings _ (entry_mem_of_lookup hv)

theorem evaluateWithin_computes (hg : env.graph.IsAlgebraic) (depth : Nat) :
    Demand.Computes env values (evaluateWithin depth) := by
  intro id pin s v t σ hpin h
  refine evaluateWithin_emitKind_induction (P := fun id pin s v t ↦ ∀ σ, (∃ n p,
    env.graph.node? id = some n ∧ p ∈ n.outputs ∧ p.id = pin) → s.Computes env values σ →
    ∃ τ q, s.Proceeds env values σ t τ ∧ env.graph.Carries env.language.product values pin q ∧
      v.StandsFor env.language τ.values q) ?_ ?_ depth id pin s v t h σ hpin
  · intro id pin s v hv σ _ hs
    obtain ⟨q, hcarries, hstands⟩ := hs.shader.binding hv
    exact ⟨σ, q, hs.refl, hcarries, hstands⟩
  · rintro demand hdemand id pin n s v u hn - - - hrun hv σ ⟨n', p, hn', hp, -⟩ hs
    obtain rfl := Option.some.inj (hn.symm.trans hn')
    have hcomputes : demand.Computes env values := fun id pin s v t σ hpin h hs ↦
      hdemand id pin s v t h σ hpin hs
    have hbegin := hs.of_sameCode (.beginNode s n.id)
    obtain ⟨τ, hproceeds⟩ := emitKind_computes hcomputes hg (Graph.node?_mem hn)
      hbegin.computes hp hrun
    have hend := hproceeds.computes.of_sameCode (.endNode u n.id)
    obtain ⟨q, hcarries, hstands⟩ := hend.computes.shader.binding hv
    exact ⟨τ, q, (hbegin.trans hproceeds).trans hend, hcarries, hstands⟩

theorem evaluate_computes (hg : env.graph.IsAlgebraic) : Demand.Computes env values evaluate :=
  fun id pin s v t σ hpin h hs ↦
    evaluateWithin_computes hg _ id pin s v t σ hpin (returns_evaluate.mp h) hs

end ShaderGraph
