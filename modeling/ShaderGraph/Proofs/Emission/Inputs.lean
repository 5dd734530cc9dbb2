import ShaderGraph.Proofs.Data.Lists
import ShaderGraph.Proofs.Emission.Steps
import ShaderGraph.Proofs.Text.Syntax

/-!
# Steps of the common actions

Reading inputs, declaring outputs and forwarding values are single steps, whichever emitter takes
them.
-/

namespace ShaderGraph

theorem Step.le {env : EmitEnv} {demand : Demand} {n : Node} {H K : Held} {s t : EmitState}
    (h : Step env demand n H s K t) : H.Le K := by
  cases h <;> constructor <;> simp

theorem Steps.le {env : EmitEnv} {demand : Demand} {n : Node} {H K : Held} {s t : EmitState}
    (h : Steps env demand n H s K t) : H.Le K := by
  induction h with
  | refl => exact .refl H
  | snoc _ hstep ih => exact ih.trans hstep.le

namespace EmitM

variable {env : EmitEnv} {demand : Demand} {n : Node} {H : Held} {s t : EmitState} {pin : String}
  {v : Variable} {u : Unit}

/-- The value of an input is that of its driver, or its default, or none if it is optional. -/
theorem inputValue?_cases {value? : Option Variable}
    (h : Returns env (inputValue? demand n pin) s value? t) :
    ∃ p, n.input? pin = some p ∧
      ((∃ c v, env.graph.driver? p.id = some c ∧ value? = some v ∧
          Returns env (demand c.fromNode c.fromPin) s v t) ∨
        (env.graph.driver? p.id = none ∧ t = s ∧
          ((∃ l, p.default? = some l ∧
              value? = some ⟨env.dialect.vectorLiteral l.components, l.type⟩) ∨
            (p.default? = none ∧ p.isOptional ∧ value? = none)))) := by
  unfold inputValue? at h
  split at h
  · next p hp =>
    refine ⟨p, hp, ?_⟩
    simp only [returns_bind, returns_read] at h
    obtain ⟨_, s₁, ⟨rfl, rfl⟩, h⟩ := h
    split at h
    · next c hc =>
      simp only [returns_bind, returns_pure] at h
      obtain ⟨v, s₂, hv, rfl, rfl⟩ := h
      exact .inl ⟨c, v, hc, rfl, hv⟩
    · next hc =>
      split at h
      · next l hl =>
        simp only [returns_bind, returns_dialect, returns_pure] at h
        obtain ⟨_, s₂, ⟨rfl, rfl⟩, rfl, rfl⟩ := h
        exact .inr ⟨hc, rfl, .inl ⟨l, hl, rfl⟩⟩
      · next hl =>
        split at h
        · next hoptional =>
          obtain ⟨rfl, rfl⟩ := returns_pure.mp h
          exact .inr ⟨hc, rfl, .inr ⟨hl, hoptional, rfl⟩⟩
        · exact absurd h returns_throw
  · exact absurd h returns_throw

theorem returns_requireInput :
    Returns env (requireInput demand n pin) s v t ↔
      Returns env (inputValue? demand n pin) s (some v) t := by
  simp only [requireInput, returns_bind]
  constructor
  · rintro ⟨value?, t', hread, h⟩
    cases value? with
    | none => exact absurd h returns_throw
    | some w =>
      obtain ⟨rfl, rfl⟩ := returns_pure.mp h
      exact hread
  · exact fun h ↦ ⟨some v, t, h, returns_pure.mpr ⟨rfl, rfl⟩⟩

theorem step_requireInput (h : Returns env (requireInput demand n pin) s v t) :
    Step env demand n H s (H.read pin (some v)) t :=
  .read (returns_requireInput.mp h)

theorem step_vectorInput (h : Returns env (vectorInput demand n pin) s v t) :
    Step env demand n H s (H.read pin (some v)) t ∧ v.type.isVector := by
  simp only [vectorInput, returns_bind, returns_ite, returns_pure, returns_throw, and_false,
    or_false] at h
  obtain ⟨w, t', hread, hvector, rfl, rfl⟩ := h
  exact ⟨step_requireInput hread, hvector⟩

theorem step_scalarInput (h : Returns env (scalarInput demand n pin) s v t) :
    Step env demand n H s (H.read pin (some v)) t ∧ v.type = .scalar := by
  simp only [scalarInput, returns_bind, returns_ite, returns_pure, returns_throw, and_false,
    or_false] at h
  obtain ⟨w, t', hread, hscalar, rfl, rfl⟩ := h
  exact ⟨step_requireInput hread, hscalar⟩

theorem step_matrixInput (h : Returns env (matrixInput demand n pin) s v t) :
    Step env demand n H s (H.read pin (some v)) t ∧ v.type = .matrix4 := by
  simp only [matrixInput, returns_bind, returns_ite, returns_pure, returns_throw, and_false,
    or_false] at h
  obtain ⟨w, t', hread, hmatrix, rfl, rfl⟩ := h
  exact ⟨step_requireInput hread, hmatrix⟩

theorem step_textureInput (h : Returns env (textureInput demand n pin) s v t) :
    Step env demand n H s (H.read pin (some v)) t ∧ v.type.isTexture := by
  simp only [textureInput, returns_bind, returns_ite, returns_pure, returns_throw, and_false,
    or_false] at h
  obtain ⟨w, t', hread, htexture, rfl, rfl⟩ := h
  exact ⟨step_requireInput hread, htexture⟩

theorem steps_scalarOperand {text : String}
    (h : Returns env (scalarOperand demand n pin) s text t) :
    ∃ v, Steps env demand n H s ((H.read pin (some v)).addOperand text .scalar) t := by
  simp only [scalarOperand, returns_bind, returns_cast] at h
  obtain ⟨v, t', hread, hcast, rfl⟩ := h
  exact ⟨v, .snoc (.single (step_requireInput hread)) (.convert (by simp) hcast)⟩

theorem step_requireStage {stage : ShaderStage} (h : Returns env (requireStage stage n) s u t) :
    Step env demand n H s (H.addStage stage) t := by
  obtain ⟨rfl, rfl⟩ := returns_requireStage.mp h
  exact .guard

theorem step_require {f : Requirements → Requirements} (h : Returns env (require f) s u t)
    (hf : Requirements.IsAddition f) : Step env demand n H s H t := by
  obtain rfl := returns_require.mp h
  exact .require hf

theorem step_assignOutput {type : ValueType} {expr : String}
    (h : Returns env (assignOutput n type expr) s u t) (hnumeric : type.isNumeric)
    (hexpr : H.Computes env.dialect expr) : Step env demand n H s H t := by
  simp only [assignOutput, returns_bind, returns_emitOutput, returns_assign] at h
  obtain ⟨output, t', ⟨p, hp, rfl, rfl⟩, name, hname, rfl⟩ := h
  exact .define hp hnumeric hname hexpr

theorem step_bindOutput {w : Variable} (h : Returns env (bindOutput n pin v) s w t)
    (hv : v ∈ H.values ∨ (v.type.isVector ∧ H.Forms v.name ∧ ∃ w ∈ H.values, v.IsComponentOf w))
    (htexture : v.type.isTexture → n.kind.forwards) : Step env demand n H s H t := by
  obtain ⟨p, hp, rfl, rfl⟩ := returns_bindOutput.mp h
  exact .forward hp hv htexture

theorem step_forwardOutput (h : Returns env (forwardOutput n v) s u t) (hv : v ∈ H.values)
    (htexture : v.type.isTexture → n.kind.forwards) : Step env demand n H s H t := by
  simp only [forwardOutput, returns_bind, returns_pure] at h
  obtain ⟨w, t', h, -, rfl⟩ := h
  exact step_bindOutput h (.inl hv) htexture

/-- Hoisting evaluates outputs one after another. -/
theorem steps_hoist {outputs : List OutputRef} {pins : List String}
    (houtputs : ∀ o ∈ outputs,
      o ∈ env.graph.commonOutputs n pins ∨ o ∈ env.graph.frontier n pins)
    (h : Returns env (hoist demand outputs) s u t) : Steps env demand n H s H t := by
  unfold hoist at h
  induction outputs generalizing s with
  | nil =>
    obtain rfl := returns_forM_nil.mp h
    exact .refl
  | cons o os ih =>
    obtain ⟨s', ho, h⟩ := returns_forM_cons.mp h
    simp only [returns_bind, returns_pure] at ho
    obtain ⟨v, s'', ho, -, rfl⟩ := ho
    exact .trans (.single (.hoist (houtputs o (by simp)) ho))
      (ih (fun o' ho' ↦ houtputs o' (List.mem_cons_of_mem o ho')) h)

/-- A list of actions that are steps is a sequence of steps, and what each of them attains is kept by
those that follow. -/
theorem steps_mapM (demand : Demand) (n : Node) (H : Held) {α β : Type} {f : α → EmitM β}
    {G : Held → α → β → Prop} {as : List α} {bs : List β} (hf : ∀ a ∈ as, ∀ K s b t, H.Le K → Returns env (f a) s b t →
      ∃ L, Steps env demand n K s L t ∧ G L a b)
    (hmono : ∀ K L a b, Held.Le K L → G K a b → G L a b)
    (h : Returns env (as.mapM f) s bs t) :
    ∃ K, Steps env demand n H s K t ∧ List.Forall₂ (G K) as bs := by
  induction as generalizing H s bs with
  | nil =>
    obtain ⟨rfl, rfl⟩ := returns_mapM_nil.mp h
    exact ⟨H, .refl, .nil⟩
  | cons a as ih =>
    obtain ⟨b, s', bs, ha, has, rfl⟩ := returns_mapM_cons.mp h
    obtain ⟨K, hsteps, hgoal⟩ := hf a (by simp) H s b s' (.refl H) ha
    obtain ⟨L, hsteps', hgoals⟩ := ih K
      (fun a' ha' M s b t hle ↦ hf a' (List.mem_cons_of_mem a ha') M s b t (hsteps.le.trans hle)) has
    exact ⟨L, hsteps.trans hsteps', .cons (hmono K L a b hsteps'.le hgoal) hgoals⟩

theorem steps_forIn (demand : Demand) (n : Node) (H : Held) {α : Type}
    {f : α → PUnit → EmitM (ForInStep PUnit)} {g : α → EmitM PUnit} {G : Held → α → Prop}
    {as : List α} (hfg : ∀ a, f a ⟨⟩ = do g a; pure (.yield ⟨⟩))
    (hg : ∀ a ∈ as, ∀ K s t, H.Le K → Returns env (g a) s ⟨⟩ t →
      ∃ L, Steps env demand n K s L t ∧ G L a)
    (hmono : ∀ K L a, Held.Le K L → G K a → G L a)
    (h : Returns env (forIn as ⟨⟩ f) s ⟨⟩ t) :
    ∃ K, Steps env demand n H s K t ∧ ∀ a ∈ as, G K a := by
  induction as generalizing H s with
  | nil =>
    obtain rfl := returns_forIn_nil.mp h
    exact ⟨H, .refl, by simp⟩
  | cons a as ih =>
    obtain ⟨s', ha, has⟩ := (returns_forIn_cons hfg).mp h
    obtain ⟨K, hsteps, hgoal⟩ := hg a (by simp) H s s' (.refl H) ha
    obtain ⟨L, hsteps', hgoals⟩ := ih K
      (fun a' ha' M s t hle ↦ hg a' (List.mem_cons_of_mem a ha') M s t (hsteps.le.trans hle)) has
    refine ⟨L, hsteps.trans hsteps', fun a' ha' ↦ ?_⟩
    rcases List.mem_cons.mp ha' with rfl | ha'
    · exact hmono K L _ hsteps'.le hgoal
    · exact hgoals a' ha'

/-- The run from `s` to `t` consists of steps of an emitter that starts with nothing at hand, and in
its course each of the pins is read. -/
def RunsReading (env : EmitEnv) (demand : Demand) (n : Node) (pins : List String)
    (s t : EmitState) : Prop :=
  ∃ H, Steps env demand n {} s H t ∧ pins ⊆ H.pins

end EmitM

namespace ValueType

theorem isNumeric_of_isVector {t : ValueType} (h : t.isVector) : t.isNumeric := by
  cases t <;> first | rfl | cases h

theorem isTexture_of_isNumeric {t : ValueType} (h : t.isNumeric) : t.isTexture = false := by
  cases t <;> first | rfl | cases h

theorem isTexture_of_isVector {t : ValueType} (h : t.isVector) : t.isTexture = false :=
  isTexture_of_isNumeric (isNumeric_of_isVector h)

theorem common_isNumeric {a b t : ValueType} (h : common a b = .ok t) : t.isNumeric := by
  cases a <;> cases b <;> cases h <;> rfl

theorem foldlM_common_isNumeric {a t : ValueType} {ts : List ValueType}
    (h : ts.foldlM common a = .ok t) (ha : a.isNumeric) : t.isNumeric := by
  induction ts generalizing a with
  | nil =>
    cases h
    exact ha
  | cons b ts ih =>
    rw [List.foldlM_cons] at h
    cases hab : common a b with
    | error e =>
      rw [hab] at h
      cases h
    | ok c =>
      rw [hab] at h
      exact ih h (common_isNumeric hab)

/-- Two or more operands have no type in common but a numeric one. -/
theorem commonOf_isNumeric {a b t : ValueType} {ts : List ValueType}
    (h : commonOf (a :: b :: ts) = .ok t) : t.isNumeric := by
  change (b :: ts).foldlM common a = .ok t at h
  rw [List.foldlM_cons] at h
  cases hab : common a b with
  | error e =>
    rw [hab] at h
    cases h
  | ok c =>
    rw [hab] at h
    exact foldlM_common_isNumeric h (common_isNumeric hab)

end ValueType

end ShaderGraph
