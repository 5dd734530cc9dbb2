import ShaderGraph.Proofs.Trace.Events

/-!
# Traces of common actions

An action that demands nothing and binds nothing is silent. The actions of emitters are put together
from silent actions, demands, and the few primitives that bind outputs or open scopes, so that each of
them has a trace from every state.
-/

namespace ShaderGraph

open EmitM

variable {env : EmitEnv} {α β : Type}

/-- However the action ends, it has only written. -/
def Silent (env : EmitEnv) (x : EmitM α) : Prop :=
  ∀ s r t, Ends env x s r t → s.Inscribed t

namespace Silent

theorem of_returns {x : EmitM α} (h : ∀ s, ∃ a t, Returns env x s a t ∧ s.Inscribed t) :
    Silent env x := by
  intro s r t hends
  obtain ⟨a, u, hreturns, hwritten⟩ := h s
  cases hreturns.symm.trans hends
  exact hwritten

theorem pure (a : α) : Silent env (pure a : EmitM α) :=
  of_returns fun s ↦ ⟨a, s, returns_pure.mpr ⟨rfl, rfl⟩, .refl s⟩

theorem throw (e : CompileError) : Silent env (throw e : EmitM α) := by
  intro s r t h
  cases h
  exact .refl s

theorem bind {x : EmitM α} {f : α → EmitM β} (hx : Silent env x) (hf : ∀ a, Silent env (f a)) :
    Silent env (x >>= f) := by
  intro s r t h
  obtain ⟨a, u, hfirst, hrest⟩ | ⟨e, hfail, -⟩ := ends_bind_cases h
  · exact (hx s _ u hfirst).trans (hf a u r t hrest)
  · exact hx s _ t hfail

theorem either {c : Prop} [Decidable c] {x y : EmitM α} (hx : Silent env x) (hy : Silent env y) :
    Silent env (if c then x else y) := by
  split
  · exact hx
  · exact hy

/-- An action that goes on after what it does under a condition. -/
theorem guard {c : Prop} [Decidable c] {x : EmitM Unit} {y : Unit → EmitM α} (hx : Silent env x)
    (hy : ∀ r, Silent env (y r)) : Silent env (if c then x >>= y else y ()) :=
  either (hx.bind hy) (hy ())

theorem modify {f : EmitState → EmitState} (hf : ∀ s : EmitState, s.Inscribed (f s)) :
    Silent env (modify f) :=
  of_returns fun s ↦ ⟨⟨⟩, f s, returns_modify.mpr rfl, hf s⟩

/-- An action that begins by looking at the state. -/
theorem get_bind {f : EmitState → EmitM β} (hf : ∀ s r t, Ends env (f s) s r t → s.Inscribed t) :
    Silent env (get >>= f) := by
  intro s r t h
  refine hf s r t ?_
  rw [Ends, run_bind_of_returns (returns_get.mpr ⟨rfl, rfl⟩)] at h
  exact h

theorem get : Silent env get :=
  of_returns fun s ↦ ⟨s, s, returns_get.mpr ⟨rfl, rfl⟩, .refl s⟩

theorem read : Silent env read :=
  of_returns fun s ↦ ⟨env, s, returns_read.mpr ⟨rfl, rfl⟩, .refl s⟩

theorem dialect : Silent env dialect :=
  read.bind fun _ ↦ pure _

theorem currentStage : Silent env currentStage :=
  get.bind fun _ ↦ pure _

theorem liftExcept (r : Except CompileError α) : Silent env (liftExcept r) := by
  cases r with
  | ok a => exact pure a
  | error e => exact throw e

theorem mapM {f : α → EmitM β} (hf : ∀ a, Silent env (f a)) (as : List α) :
    Silent env (as.mapM f) := by
  induction as with
  | nil => exact pure []
  | cons a as ih =>
    rw [List.mapM_cons]
    exact (hf a).bind fun _ ↦ ih.bind fun _ ↦ pure _

theorem modifyStage (stage : ShaderStage) {f : StageShader → StageShader}
    (hf : ∀ a : StageShader, a.Written (f a)) (hsignatures : ∀ a : StageShader, a.Remembers (f a)) :
    Silent env (modifyStage stage f) :=
  modify fun _ ↦ .modifyShader stage hf hsignatures

theorem modifyBody {f : CodeBuffer → CodeBuffer} (hf : ∀ b : CodeBuffer, b.Extends (f b)) :
    Silent env (modifyBody f) :=
  modify fun _ ↦ .modifyShader _ (.modifyBody hf) (.modifyBody f)

theorem writeLine (text : String) : Silent env (writeLine text) :=
  modifyBody fun b ↦ .line b text

theorem freshName : Silent env freshName :=
  of_returns fun _ ↦ ⟨_, _, returns_freshName.mpr ⟨rfl, rfl⟩, .of_shaders rfl rfl rfl rfl⟩

theorem require (f : Requirements → Requirements) : Silent env (require f) :=
  modify fun _ ↦ .of_shaders rfl rfl rfl rfl

theorem allocateInterpolator : Silent env allocateInterpolator :=
  of_returns fun _ ↦
    ⟨_, _, returns_allocateInterpolator.mpr ⟨rfl, rfl⟩, .of_shaders rfl rfl rfl rfl⟩

theorem setRenderState (state : RenderState) : Silent env (setRenderState state) :=
  get.bind fun _ ↦ either (throw _) (modify fun _ ↦ .of_shaders rfl rfl rfl rfl)

theorem declareOnce (block : Block) (name : String) (declaration? : Option String) :
    Silent env (declareOnce block name declaration?) :=
  of_returns fun s ↦ ⟨(), _, returns_declareOnce.mpr rfl, .declareOnce s block name declaration?⟩

theorem unrollAttribute : Silent env unrollAttribute := by
  refine dialect.bind fun _ ↦ read.bind fun _ ↦ ?_
  split
  · exact pure _
  · exact pure _
  · exact currentStage.bind fun _ ↦ pure _

theorem branchAttribute (hint : BranchHint) : Silent env (branchAttribute hint) := by
  refine dialect.bind fun d ↦ ?_
  cases hint <;> exact pure _

section Node

variable {n : Node}

theorem outputPin (pin : String) : Silent env (outputPin n pin) := by
  unfold EmitM.outputPin
  split
  · exact pure _
  · exact throw _

theorem typeName (t : ValueType) : Silent env (typeName n t) := by
  refine dialect.bind fun d ↦ ?_
  split
  · exact pure _
  · exact throw _

theorem assign (v : Variable) (expr : String) : Silent env (assign n v expr) :=
  (typeName v.type).bind fun _ ↦ writeLine _

theorem cast (v : Variable) (t : ValueType) : Silent env (cast n v t) := by
  refine dialect.bind fun d ↦ ?_
  split
  · exact pure _
  · exact throw _

theorem commonType (operands : List Variable) : Silent env (commonType n operands) := by
  unfold EmitM.commonType
  split
  · exact pure _
  · exact throw _

theorem unsupported (feature : String) : Silent env (unsupported n feature : EmitM α) :=
  read.bind fun _ ↦ throw _

theorem requireStage (stage : ShaderStage) : Silent env (requireStage stage n) :=
  currentStage.bind fun _ ↦ either (throw _) (pure _)

theorem declareUniform (name : String) (t : ValueType) (length? : Option UInt32) :
    Silent env (declareUniform n name t length?) := by
  refine get_bind fun s r u h ↦ ?_
  have hentry (entry : UniformDeclaration) {r : Except CompileError Unit} {u : EmitState}
      (h : Ends env (do
        set { s with uniforms := s.uniforms.insert name entry }
        EmitM.declareOnce .uniforms name
          ((← EmitM.dialect).uniformDeclaration? t name length?)) s r u) : s.Inscribed u := by
    rw [Ends, run_bind_of_returns (a := ⟨⟩) (returns_set.mpr rfl)] at h
    have hdeclare : (s.addUniform name entry).Inscribed u :=
      (dialect.bind fun d ↦ declareOnce .uniforms name (d.uniformDeclaration? t name length?)) _ r u h
    exact .trans (t := s.addUniform name entry) (.of_shaders rfl rfl rfl rfl) hdeclare
  split at h
  · exact hentry _ h
  · split at h
    · obtain ⟨a, u', h, -⟩ | ⟨e, h, -⟩ := ends_bind_cases h
      · exact absurd h returns_throw
      · exact throw _ s _ u h
    · exact hentry _ h

theorem declareSampler (texture : Variable) (state : SamplerState) (samplerType : String) :
    Silent env (declareSampler texture state samplerType) :=
  of_returns fun s ↦ ⟨_, _, returns_declareSampler.mpr ⟨rfl, rfl⟩,
    .trans (t := s.addSampler (s.samplerEntry env.dialect texture state))
      (.of_shaders rfl rfl rfl rfl) (.declareOnce _ .samplers _ _)⟩

theorem vertexAttribute (name : String) (usage : AttributeUsage) (t : ValueType) (index : UInt32) :
    Silent env (Emitter.vertexAttribute name usage t index) := by
  refine of_returns fun s ↦ ?_
  cases hattribute : (s.shader s.stage).attribute? name with
  | some v => exact ⟨v, s, returns_vertexAttribute.mpr (.inl ⟨hattribute, rfl⟩), .refl s⟩
  | none =>
    exact ⟨_, _, returns_vertexAttribute.mpr (.inr ⟨hattribute, rfl, rfl⟩), .addAttribute ..⟩

theorem defineScript (name signature body : String) :
    Silent env (Emitter.defineScript n name signature body) := by
  refine get_bind fun s r t h ↦ ?_
  split at h
  · split at h
    · exact throw _ s r t h
    · exact pure _ s r t h
  · next hnew =>
    cases h
    exact .addScript hnew signature body

end Node

end Silent

/-- The action has a trace from the state; `names` are the outputs that it may bind. -/
def HasTrace (env : EmitEnv) (depth : Nat) (own? : Option Node) (names : List String)
    (x : Demand → EmitM α) (s : EmitState) : Prop :=
  ∃ names' τ r t, names'.Sublist names ∧ Traced env depth own? names' x s τ r t

/-- The action has a trace from every state. -/
def Traceable (env : EmitEnv) (depth : Nat) (own? : Option Node) (names : List String)
    (x : Demand → EmitM α) : Prop :=
  ∀ s, HasTrace env depth own? names x s

/-- Every output from which a connection leads can be demanded. -/
def Demandable (env : EmitEnv) (depth : Nat) : Prop :=
  ∀ own? id pin, env.graph.IsSource id pin →
    Traceable env depth own? [] fun demand ↦ demand id pin

/-- An action that goes on after one that has a trace without bindings. -/
theorem HasTrace.next {depth : Nat} {own? : Option Node} {names : List String} {x : Demand → EmitM α}
    {f : α → Demand → EmitM β} {s t : EmitState} {τ : List Moment} {a : α}
    (hx : Traced env depth own? [] x s τ (.ok a) t) (hf : HasTrace env depth own? names (f a) t) :
    HasTrace env depth own? names (fun demand ↦ x demand >>= fun a ↦ f a demand) s := by
  obtain ⟨bound, σ, r, u, hbound, htraced⟩ := hf
  exact ⟨bound, τ ++ σ, r, u, hbound, .bind hx htraced⟩

/-- An action goes on in the stage in which a silent one leaves it. -/
theorem HasTrace.after {depth : Nat} {own? : Option Node} {names : List String} {x : EmitM α}
    {f : α → Demand → EmitM β} {s : EmitState} (hx : Silent env x)
    (hf : ∀ a t, t.stage = s.stage → HasTrace env depth own? names (f a) t) :
    HasTrace env depth own? names (fun demand ↦ x >>= fun a ↦ f a demand) s := by
  cases hrun : (x.run env).run.run s with
  | mk r t =>
    have hwritten := hx s r t hrun
    cases r with
    | error e => exact ⟨[], [], _, t, List.nil_sublist _, .fail (.quiet hrun hwritten.toWritten)⟩
    | ok a => exact next (.quiet hrun hwritten.toWritten) (hf a t hwritten.stage)

theorem HasTrace.currentStage_bind {depth : Nat} {own? : Option Node} {names : List String}
    {f : ShaderStage → Demand → EmitM β} {s : EmitState}
    (h : HasTrace env depth own? names (f s.stage) s) :
    HasTrace env depth own? names (fun demand ↦ currentStage >>= fun stage ↦ f stage demand) s :=
  next (.quiet (returns_currentStage.mpr ⟨rfl, rfl⟩) (.refl s)) h

theorem HasTrace.guard {depth : Nat} {own? : Option Node} {names : List String} {c : Prop}
    [Decidable c] {x : EmitM Unit} {y : Unit → Demand → EmitM α} {s : EmitState}
    (hx : Silent env x) (hy : ∀ r t, t.stage = s.stage → HasTrace env depth own? names (y r) t) :
    HasTrace env depth own? names
      (fun demand ↦ if c then x >>= fun r ↦ y r demand else y () demand) s := by
  by_cases hc : c
  · simpa only [if_pos hc] using after hx hy
  · simpa only [if_neg hc] using hy () s rfl

namespace Traceable

variable {depth : Nat} {own? : Option Node} {n : Node} {names names' : List String}

theorem weaken {x : Demand → EmitM α} (h : Traceable env depth own? names x)
    (hsub : names.Sublist names') : Traceable env depth own? names' x := by
  intro s
  obtain ⟨bound, τ, r, t, hbound, htraced⟩ := h s
  exact ⟨bound, τ, r, t, hbound.trans hsub, htraced⟩

theorem silent {x : EmitM α} (h : Silent env x) : Traceable env depth own? names fun _ ↦ x := by
  intro s
  cases hrun : (x.run env).run.run s with
  | mk r t => exact ⟨[], [], r, t, List.nil_sublist _, .quiet hrun (h s r t hrun).toWritten⟩

theorem bind {x : Demand → EmitM α} {f : α → Demand → EmitM β}
    (hx : Traceable env depth own? names x) (hf : ∀ a, Traceable env depth own? names' (f a)) :
    Traceable env depth own? (names ++ names') fun demand ↦ x demand >>= fun a ↦ f a demand := by
  intro s
  obtain ⟨bound, τ, r, t, hbound, htraced⟩ := hx s
  cases r with
  | error e => exact ⟨bound, τ, _, t, hbound.trans (List.sublist_append_left ..), .fail htraced⟩
  | ok a =>
    obtain ⟨bound', σ, r, u, hbound', htraced'⟩ := hf a t
    exact ⟨bound ++ bound', τ ++ σ, r, u, hbound.append hbound', .bind htraced htraced'⟩

theorem capture {x : Demand → EmitM α} (hkind : n.kind.opensScope)
    (h : Traceable env depth (some n) names x) :
    Traceable env depth (some n) names fun demand ↦ capture (x demand) := by
  intro s
  obtain ⟨bound, τ, r, t, hbound, htraced⟩ := h s.beginCapture
  exact ⟨bound, _, _, _, hbound, .capture hkind htraced⟩

/-! ## Outputs -/

theorem bindOutput (pin : String) (v : Variable) :
    Traceable env depth (some n) [pin] fun _ ↦ bindOutput n pin v := by
  cases hp : n.output? pin with
  | some p => exact fun s ↦ ⟨_, _, _, _, .refl _, .output hp⟩
  | none =>
    refine silent fun s r t h ↦ ?_
    rw [EmitM.bindOutput, EmitM.outputPin, hp] at h
    cases h
    exact .refl s

theorem retypeOutput (pin : String) (t : ValueType) :
    Traceable env depth (some n) [] fun _ ↦ retypeOutput n pin t := by
  cases hp : n.output? pin with
  | some p => exact fun s ↦ ⟨_, _, _, _, .refl _, .retype hp⟩
  | none =>
    refine silent fun s r t h ↦ ?_
    rw [EmitM.retypeOutput, EmitM.outputPin, hp] at h
    cases h
    exact .refl s

/-- Outputs are bound outside of all scopes in the pixel stage only. -/
theorem bindOuter (pin : String) (v : Variable) {s : EmitState} (hstage : s.stage = .pixel) :
    HasTrace env depth (some n) [pin] (fun _ ↦ bindOuter .pixel n pin v) s := by
  cases hp : n.output? pin with
  | some p => exact ⟨_, _, _, _, .refl _, .outer hp hstage rfl⟩
  | none =>
    refine silent (fun s r t h ↦ ?_) s
    rw [EmitM.bindOuter, EmitM.outputPin, hp] at h
    cases h
    exact .refl s

end Traceable

end ShaderGraph
