import ShaderGraph.Program.Compile

/-!
# Successful runs

A run of an emission action that returns a value leaves a state behind. The run of a composed action
consists of the runs of its parts, and each primitive has one equation that says what it returns and
what it changes. All that is said about emitters goes through these equations.
-/

namespace ShaderGraph

/-- Name of the `k`-th temporary. -/
def temporary (k : Nat) : String :=
  s!"v{k}"

namespace EmitState

@[simp]
theorem shader_modifyShader (s : EmitState) (stage : ShaderStage) (f : StageShader → StageShader) :
    (s.modifyShader stage f).shader stage = f (s.shader stage) := by
  cases stage <;> rfl

theorem shader_modifyShader_of_ne {stage other : ShaderStage} (s : EmitState)
    (f : StageShader → StageShader) (h : other ≠ stage) :
    (s.modifyShader stage f).shader other = s.shader other := by
  cases stage <;> cases other <;> first | rfl | exact absurd rfl h

theorem modifyShader_const (s : EmitState) (stage : ShaderStage) (f : StageShader → StageShader) :
    (s.modifyShader stage fun _ ↦ f (s.shader stage)) = s.modifyShader stage f := by
  cases stage <;> rfl

section Fields

variable (s : EmitState) (stage : ShaderStage) (f : StageShader → StageShader)

@[simp]
theorem stage_modifyShader : (s.modifyShader stage f).stage = s.stage := by
  cases stage <;> rfl

@[simp]
theorem nextVariable_modifyShader : (s.modifyShader stage f).nextVariable = s.nextVariable := by
  cases stage <;> rfl

@[simp]
theorem uniforms_modifyShader : (s.modifyShader stage f).uniforms = s.uniforms := by
  cases stage <;> rfl

@[simp]
theorem samplers_modifyShader : (s.modifyShader stage f).samplers = s.samplers := by
  cases stage <;> rfl

@[simp]
theorem interpolators_modifyShader : (s.modifyShader stage f).interpolators = s.interpolators := by
  cases stage <;> rfl

@[simp]
theorem inProgress_modifyShader : (s.modifyShader stage f).inProgress = s.inProgress := by
  cases stage <;> rfl

@[simp]
theorem renderState?_modifyShader : (s.modifyShader stage f).renderState? = s.renderState? := by
  cases stage <;> rfl

@[simp]
theorem requirements_modifyShader : (s.modifyShader stage f).requirements = s.requirements := by
  cases stage <;> rfl

end Fields

/-! ## What the primitives do to the state -/

/-- Binds a pin in the current stage. -/
def bindPin (s : EmitState) (pin : PinId) (v : Variable) : EmitState :=
  s.modifyShader s.stage fun shader ↦ shader.bind pin v

/-- Takes the next temporary and binds a pin to it. -/
def allocate (s : EmitState) (pin : PinId) (t : ValueType) : EmitState :=
  { s with nextVariable := s.nextVariable + 1 }.bindPin pin ⟨temporary s.nextVariable, t⟩

@[simp]
theorem nextVariable_allocate (s : EmitState) (pin : PinId) (t : ValueType) :
    (s.allocate pin t).nextVariable = s.nextVariable + 1 :=
  nextVariable_modifyShader _ _ _

@[simp]
theorem stage_allocate (s : EmitState) (pin : PinId) (t : ValueType) :
    (s.allocate pin t).stage = s.stage :=
  stage_modifyShader _ _ _

/-- Changes the active body of the current stage. -/
def modifyBody (s : EmitState) (f : CodeBuffer → CodeBuffer) : EmitState :=
  s.modifyShader s.stage fun shader ↦ shader.modifyBody f

/-- Writes a line to the active body of the current stage. -/
def write (s : EmitState) (line : String) : EmitState :=
  s.modifyBody fun b ↦ b.line line

/-- Opens a scope in the current stage and redirects its body. -/
def beginCapture (s : EmitState) : EmitState :=
  s.modifyShader s.stage fun shader ↦ shader.beginCapture.openScope

/-- Text that the innermost capture of a stage holds. -/
def capturedText (s : EmitState) (stage : ShaderStage) : String :=
  (s.shader stage).closeScope.endCapture.1

/-- Returns to a stage and closes its innermost scope and capture. -/
def endCapture (s : EmitState) (stage : ShaderStage) : EmitState :=
  { s with stage }.modifyShader stage fun shader ↦ shader.closeScope.endCapture.2

/-- Changes the type of the latest scoped binding of a pin in the current stage. -/
def retype (s : EmitState) (pin : PinId) (t : ValueType) : EmitState :=
  s.modifyShader s.stage fun shader ↦ shader.retype pin t

end EmitState

namespace EmitM

variable {α β : Type} {env : EmitEnv} {s t u : EmitState}

/-- The action returns `a` in state `s` and leaves state `t`. -/
def Returns (env : EmitEnv) (x : EmitM α) (s : EmitState) (a : α) (t : EmitState) : Prop :=
  (x.run env).run.run s = (.ok a, t)

theorem isOk_iff_returns {x : EmitM α} :
    ((x.run env).run.run s).1.isOk ↔ ∃ a t, Returns env x s a t := by
  unfold Returns
  cases (x.run env).run.run s with
  | mk r t =>
    constructor
    · intro h
      cases r with
      | error e => cases h
      | ok a => exact ⟨a, t, rfl⟩
    · rintro ⟨_, _, h⟩
      cases h
      rfl

theorem toOption_eq_some_iff_returns {x : EmitM α} {a : α} :
    ((x.run env).run.run s).1.toOption = some a ↔ ∃ t, Returns env x s a t := by
  unfold Returns
  cases (x.run env).run.run s with
  | mk r t =>
    constructor
    · intro h
      cases r <;> cases h
      exact ⟨t, rfl⟩
    · rintro ⟨_, h⟩
      cases h
      rfl

/-! ## Composition -/

theorem returns_pure {a b : α} : Returns env (pure a) s b t ↔ b = a ∧ t = s := by
  constructor
  · intro h
    cases h
    exact ⟨rfl, rfl⟩
  · rintro ⟨rfl, rfl⟩
    rfl

theorem returns_bind {x : EmitM α} {f : α → EmitM β} {b : β} :
    Returns env (x >>= f) s b u ↔ ∃ a t, Returns env x s a t ∧ Returns env (f a) t b u := by
  simp only [Returns, ReaderT.run_bind, ExceptT.run_bind, StateT.run_bind]
  constructor
  · intro h
    cases hx : (x.run env).run.run s with
    | mk result t =>
      rw [hx] at h
      cases result with
      | ok a => exact ⟨a, t, rfl, h⟩
      | error e => cases h
  · rintro ⟨a, t, hx, hf⟩
    rw [hx]
    exact hf

theorem returns_throw {e : CompileError} {a : α} : ¬ Returns env (throw e) s a t := by
  intro h
  cases h

/-- A run of a conditional is a run of one of its branches. -/
theorem returns_ite {c : Prop} [Decidable c] {x y : EmitM α} {a : α} :
    Returns env (if c then x else y) s a t ↔
      (c ∧ Returns env x s a t) ∨ (¬ c ∧ Returns env y s a t) := by
  by_cases h : c <;> simp [h]

theorem returns_liftExcept {r : Except CompileError α} {a : α} :
    Returns env (liftExcept r) s a t ↔ r = .ok a ∧ t = s := by
  cases r with
  | ok b =>
    rw [liftExcept, returns_pure]
    constructor
    · rintro ⟨rfl, rfl⟩
      exact ⟨rfl, rfl⟩
    · rintro ⟨h, rfl⟩
      cases h
      exact ⟨rfl, rfl⟩
  | error e =>
    rw [liftExcept]
    constructor
    · intro h
      exact absurd h returns_throw
    · rintro ⟨h, -⟩
      cases h

theorem returns_attempt {x : EmitM α} {result : Except CompileError α} :
    Returns env (attempt x) s result t ↔ (x.run env).run.run s = (result, t) := by
  constructor
  · intro h
    cases h
    rfl
  · intro h
    simp only [Returns, attempt, ReaderT.run, ExceptT.run, ExceptT.mk, StateT.run_bind] at h ⊢
    rw [h]
    rfl

/-- An action that is run after an attempt and fails if the attempt did. -/
theorem returns_attempt_ok {x : EmitM α} {a : α} :
    Returns env (attempt x) s (.ok a) t ↔ Returns env x s a t :=
  returns_attempt

theorem returns_map {f : α → β} {x : EmitM α} {b : β} :
    Returns env (f <$> x) s b t ↔ ∃ a, Returns env x s a t ∧ b = f a := by
  rw [← bind_pure_comp, returns_bind]
  simp only [returns_pure]
  constructor
  · rintro ⟨a, u, hx, rfl, rfl⟩
    exact ⟨a, hx, rfl⟩
  · rintro ⟨a, hx, rfl⟩
    exact ⟨a, t, hx, rfl, rfl⟩

/-! ## Lists -/

theorem returns_mapM_nil {f : α → EmitM β} {bs : List β} :
    Returns env ([].mapM f) s bs t ↔ bs = [] ∧ t = s := by
  rw [List.mapM_nil, returns_pure]

theorem returns_mapM_cons {f : α → EmitM β} {a : α} {as : List α} {bs : List β} :
    Returns env ((a :: as).mapM f) s bs u ↔
      ∃ b t bs', Returns env (f a) s b t ∧ Returns env (as.mapM f) t bs' u ∧ bs = b :: bs' := by
  simp only [List.mapM_cons, returns_bind, returns_pure]
  constructor
  · rintro ⟨b, t, hb, bs', t', hbs, rfl, rfl⟩
    exact ⟨b, t, bs', hb, hbs, rfl⟩
  · rintro ⟨b, t, bs', hb, hbs, rfl⟩
    exact ⟨b, t, hb, bs', u, hbs, rfl, rfl⟩

theorem returns_forM_nil {f : α → EmitM PUnit} :
    Returns env (forM [] f) s ⟨⟩ t ↔ t = s := by
  rw [List.forM_nil, returns_pure]
  exact and_iff_right rfl

theorem returns_forM_cons {f : α → EmitM PUnit} {a : α} {as : List α} :
    Returns env (forM (a :: as) f) s ⟨⟩ u ↔
      ∃ t, Returns env (f a) s ⟨⟩ t ∧ Returns env (forM as f) t ⟨⟩ u := by
  rw [List.forM_cons, returns_bind]
  constructor
  · rintro ⟨⟨⟩, t, ha, has⟩
    exact ⟨t, ha, has⟩
  · rintro ⟨t, ha, has⟩
    exact ⟨⟨⟩, t, ha, has⟩

/-- A loop whose body always goes on is a sequence of runs of its body. -/
theorem returns_forIn_cons {f : α → PUnit → EmitM (ForInStep PUnit)} {g : α → EmitM PUnit}
    (hf : ∀ a, f a ⟨⟩ = do g a; pure (.yield ⟨⟩)) {a : α} {as : List α} :
    Returns env (forIn (a :: as) ⟨⟩ f) s ⟨⟩ u ↔
      ∃ t, Returns env (g a) s ⟨⟩ t ∧ Returns env (forIn as ⟨⟩ f) t ⟨⟩ u := by
  simp only [List.forIn_cons, hf, returns_bind, returns_pure]
  constructor
  · rintro ⟨step, t, ⟨⟨⟩, t', ha, rfl, rfl⟩, has⟩
    exact ⟨t, ha, has⟩
  · rintro ⟨t, ha, has⟩
    exact ⟨.yield ⟨⟩, t, ⟨⟨⟩, t, ha, rfl, rfl⟩, has⟩

theorem returns_forIn_nil {f : α → PUnit → EmitM (ForInStep PUnit)} :
    Returns env (forIn [] ⟨⟩ f) s ⟨⟩ t ↔ t = s := by
  rw [List.forIn_nil, returns_pure]
  exact and_iff_right rfl

/-! ## Primitives -/

theorem returns_get {a : EmitState} : Returns env get s a t ↔ a = s ∧ t = s := by
  constructor
  · intro h
    cases h
    exact ⟨rfl, rfl⟩
  · rintro ⟨rfl, rfl⟩
    rfl

theorem returns_read {a : EmitEnv} : Returns env read s a t ↔ env = a ∧ t = s := by
  constructor
  · intro h
    cases h
    exact ⟨rfl, rfl⟩
  · rintro ⟨rfl, rfl⟩
    rfl

theorem returns_set {a : PUnit} : Returns env (set u) s a t ↔ t = u := by
  constructor
  · intro h
    cases h
    rfl
  · rintro rfl
    rfl

theorem returns_modify {f : EmitState → EmitState} {a : PUnit} :
    Returns env (modify f) s a t ↔ t = f s := by
  constructor
  · intro h
    cases h
    rfl
  · rintro rfl
    rfl

theorem returns_dialect {d : Dialect} : Returns env dialect s d t ↔ d = env.dialect ∧ t = s := by
  simp only [dialect, returns_bind, returns_read, returns_pure, and_assoc, exists_and_left,
    exists_eq_left, exists_eq_left']

theorem returns_currentStage {stage : ShaderStage} :
    Returns env currentStage s stage t ↔ stage = s.stage ∧ t = s := by
  simp only [currentStage, returns_bind, returns_get, returns_pure, and_assoc, exists_and_left,
    exists_eq_left]

theorem returns_modifyShader {f : StageShader → StageShader} {a : Unit} :
    Returns env (modifyShader f) s a t ↔ t = s.modifyShader s.stage f :=
  returns_modify

theorem returns_modifyBody {f : CodeBuffer → CodeBuffer} {a : Unit} :
    Returns env (modifyBody f) s a t ↔ t = s.modifyBody f :=
  returns_modify

theorem returns_writeLine {line : String} {a : Unit} :
    Returns env (writeLine line) s a t ↔ t = s.write line :=
  returns_modify

theorem returns_freshName {name : String} :
    Returns env freshName s name t ↔
      name = temporary s.nextVariable ∧ t = { s with nextVariable := s.nextVariable + 1 } := by
  simp only [freshName, returns_bind, returns_get, returns_set, returns_pure, and_assoc,
    exists_and_left, exists_eq_left, exists_const]
  rfl

theorem returns_require {f : Requirements → Requirements} {a : Unit} :
    Returns env (require f) s a t ↔ t = { s with requirements := f s.requirements } :=
  returns_modify

theorem returns_allocateInterpolator {slot : Nat} :
    Returns env allocateInterpolator s slot t ↔
      slot = s.interpolators ∧ t = { s with interpolators := s.interpolators + 1 } := by
  simp only [allocateInterpolator, returns_bind, returns_get, returns_set, returns_pure, and_assoc,
    exists_and_left, exists_eq_left, exists_const]

theorem returns_requireStage {stage : ShaderStage} {n : Node} {a : Unit} :
    Returns env (requireStage stage n) s a t ↔ s.stage = stage ∧ t = s := by
  simp only [requireStage, returns_bind, returns_currentStage, and_assoc, exists_and_left,
    exists_eq_left]
  by_cases h : s.stage = stage <;> simp [h, returns_pure, returns_throw]

theorem returns_unsupported {n : Node} {feature : String} {a : α} :
    ¬ Returns env (unsupported n feature) s a t := by
  simp [unsupported, returns_bind, returns_throw]

theorem returns_typeName {n : Node} {type : ValueType} {name : String} :
    Returns env (typeName n type) s name t ↔ env.dialect.typeName? type = some name ∧ t = s := by
  simp only [typeName, returns_bind, returns_dialect, and_assoc, exists_and_left, exists_eq_left]
  cases env.dialect.typeName? type <;> simp [returns_pure, returns_throw, eq_comm]

theorem returns_cast {n : Node} {v : Variable} {type : ValueType} {text : String} :
    Returns env (cast n v type) s text t ↔ v.cast type env.dialect = .ok text ∧ t = s := by
  simp only [cast, returns_bind, returns_dialect, and_assoc, exists_and_left, exists_eq_left]
  cases v.cast type env.dialect <;> simp [returns_pure, returns_throw, eq_comm]

theorem returns_commonType {n : Node} {operands : List Variable} {type : ValueType} :
    Returns env (commonType n operands) s type t ↔
      ValueType.commonOf (operands.map Variable.type) = .ok type ∧ t = s := by
  simp only [commonType]
  cases ValueType.commonOf (operands.map Variable.type) <;>
    simp [returns_pure, returns_throw, eq_comm]

theorem returns_outputPin {n : Node} {pin : String} {id : PinId} :
    Returns env (outputPin n pin) s id t ↔ ∃ p, n.output? pin = some p ∧ id = p.id ∧ t = s := by
  simp only [outputPin]
  cases n.output? pin <;> simp [returns_pure, returns_throw]

theorem returns_bindOutput {n : Node} {pin : String} {v w : Variable} :
    Returns env (bindOutput n pin v) s w t ↔
      ∃ p, n.output? pin = some p ∧ w = v ∧ t = s.bindPin p.id v := by
  simp only [bindOutput, returns_bind, returns_outputPin, returns_modifyShader, returns_pure]
  constructor
  · rintro ⟨id, u, ⟨p, hp, rfl, rfl⟩, _, v, rfl, rfl, rfl⟩
    exact ⟨p, hp, rfl, rfl⟩
  · rintro ⟨p, hp, rfl, rfl⟩
    exact ⟨p.id, s, ⟨p, hp, rfl, rfl⟩, ⟨⟩, _, rfl, rfl, rfl⟩

theorem returns_emitOutput {n : Node} {pin : String} {type : ValueType} {v : Variable} :
    Returns env (emitOutput n pin type) s v t ↔
      ∃ p, n.output? pin = some p ∧ v = ⟨temporary s.nextVariable, type⟩ ∧
        t = s.allocate p.id type := by
  simp only [emitOutput, returns_bind, returns_freshName, returns_bindOutput]
  constructor
  · rintro ⟨name, u, ⟨rfl, rfl⟩, p, hp, rfl, rfl⟩
    exact ⟨p, hp, rfl, rfl⟩
  · rintro ⟨p, hp, rfl, rfl⟩
    exact ⟨_, _, ⟨rfl, rfl⟩, p, hp, rfl, rfl⟩

theorem returns_bindOuter {stage : ShaderStage} {n : Node} {pin : String} {v : Variable}
    {a : Unit} :
    Returns env (bindOuter stage n pin v) s a t ↔
      ∃ p, n.output? pin = some p ∧ t = s.modifyShader stage fun shader ↦ shader.bindOuter p.id v := by
  simp only [bindOuter, returns_bind, returns_outputPin]
  constructor
  · rintro ⟨id, u, ⟨p, hp, rfl, rfl⟩, h⟩
    exact ⟨p, hp, returns_modify.mp h⟩
  · rintro ⟨p, hp, rfl⟩
    exact ⟨p.id, s, ⟨p, hp, rfl, rfl⟩, returns_modify.mpr rfl⟩

theorem returns_retypeOutput {n : Node} {pin : String} {type : ValueType} {a : Unit} :
    Returns env (retypeOutput n pin type) s a t ↔
      ∃ p, n.output? pin = some p ∧ t = s.retype p.id type := by
  simp only [retypeOutput, returns_bind, returns_outputPin, returns_modifyShader]
  constructor
  · rintro ⟨id, u, ⟨p, hp, rfl, rfl⟩, rfl⟩
    exact ⟨p, hp, rfl⟩
  · rintro ⟨p, hp, rfl⟩
    exact ⟨p.id, s, ⟨p, hp, rfl, rfl⟩, rfl⟩

theorem returns_assign {n : Node} {v : Variable} {expr : String} {a : Unit} :
    Returns env (assign n v expr) s a t ↔
      ∃ name, env.dialect.typeName? v.type = some name ∧
        t = s.write s!"{name} {v.name} = {expr};" := by
  simp only [assign, returns_bind, returns_typeName, returns_writeLine]
  constructor
  · rintro ⟨name, u, ⟨h, rfl⟩, rfl⟩
    exact ⟨name, h, rfl⟩
  · rintro ⟨name, h, rfl⟩
    exact ⟨name, s, ⟨h, rfl⟩, rfl⟩

/-- A capture that succeeds leaves the redirected text behind and keeps what else was done. -/
theorem returns_capture {action : EmitM α} {a : α} {text : String} :
    Returns env (capture action) s (a, text) t ↔
      ∃ u, Returns env action s.beginCapture a u ∧ text = u.capturedText s.stage ∧
        t = u.endCapture s.stage := by
  simp only [capture, returns_bind, returns_currentStage]
  constructor
  · rintro ⟨stage, s₁, ⟨rfl, rfl⟩, ⟨⟩, s₂, h₁, result, s₃, h₂, ⟨⟩, s₄, h₃, s₅, s₆, h₄, ⟨⟩, s₇, h₅, h₆⟩
    obtain rfl := returns_modify.mp h₁
    obtain rfl := returns_modify.mp h₃
    obtain ⟨rfl, rfl⟩ := returns_get.mp h₄
    obtain rfl := returns_modify.mp h₅
    cases result with
    | error e => exact absurd h₆ returns_throw
    | ok b =>
      obtain ⟨h, rfl⟩ := returns_pure.mp h₆
      cases h
      exact ⟨s₃, returns_attempt_ok.mp h₂, rfl,
        EmitState.modifyShader_const { s₃ with stage := s₁.stage } s₁.stage
          fun shader ↦ shader.closeScope.endCapture.2⟩
  · rintro ⟨u, h, rfl, rfl⟩
    refine ⟨s.stage, s, ⟨rfl, rfl⟩, ⟨⟩, s.beginCapture, returns_modify.mpr rfl, .ok a, u,
      returns_attempt_ok.mpr h, ⟨⟩, _, returns_modify.mpr rfl, _, _, returns_get.mpr ⟨rfl, rfl⟩, ⟨⟩,
      _, returns_modify.mpr rfl, returns_pure.mpr ⟨rfl, ?_⟩⟩
    exact (EmitState.modifyShader_const { u with stage := s.stage } s.stage
      fun shader ↦ shader.closeScope.endCapture.2).symm

end EmitM

end ShaderGraph
