import ShaderGraph.Proofs.Emission.Declarations
import ShaderGraph.Proofs.Graph.Correspondence
import ShaderGraph.Proofs.Source.OptionalLines

/-!
# Lockstep

The emissions of two corresponding graphs are run side by side. They are in lockstep if whatever the
first one does successfully the second one does as well, and what decides their further course stays the
same: the stages and scopes, the pins that are bound and the types they are bound at, the tables, and the
counters. What they write may differ, unless they have the same target. Then they declare the same, and
their bodies are related, for instance the same but for attributes of loops that one of them may leave out.
Where corresponding nodes are the same ones, failures are the same as well.
-/

namespace ShaderGraph

namespace EmitM

theorem run_bind_of_returns {α β : Type} {env : EmitEnv} {x : EmitM α} {f : α → EmitM β}
    {s t : EmitState} {a : α} (h : Returns env x s a t) :
    ((x >>= f).run env).run.run s = ((f a).run env).run.run t := by
  simp only [ReaderT.run_bind, ExceptT.run_bind, StateT.run_bind]
  rw [h]
  rfl

theorem returns_enter {env : EmitEnv} {stage : ShaderStage} {s t : EmitState} {a : Unit} :
    Returns env (enter stage) s a t ↔ t = { s with stage } :=
  returns_modify

theorem returns_modifyStage {env : EmitEnv} {stage : ShaderStage} {f : StageShader → StageShader}
    {s t : EmitState} {a : Unit} :
    Returns env (modifyStage stage f) s a t ↔ t = s.modifyShader stage f :=
  returns_modify

/-- The outcome of an action whose state is cleaned up in the end, also if the action has failed. -/
def finishRun {α β : Type} (finish : EmitState → EmitState) (f : EmitState → α → β)
    (outcome : Except CompileError α × EmitState) : Except CompileError β × EmitState :=
  (outcome.1.map (f outcome.2), finish outcome.2)

end EmitM

/-- A sampling syntax that can express what another one can. -/
structure SampleTemplates.SupportedBy (s t : SampleTemplates) : Prop where
  coordinate : t.coordinate = s.coordinate
  bias : s.sampleBias?.isSome → t.sampleBias?.isSome
  lod : s.sampleLod?.isSome → t.sampleLod?.isSome
  compare : ∀ c, s.sampleCompare? = some c →
    ∃ c', t.sampleCompare? = some c' ∧ c'.coordinate = c.coordinate

/-- A dialect that can express what another one can. -/
structure Dialect.SupportedBy (d e : Dialect) : Prop where
  transpose : d.transpose?.isSome → e.transpose?.isSome
  instanceId : d.instanceId?.isSome → e.instanceId?.isSome
  unboundedLoops : d.unboundedLoops → e.unboundedLoops
  renderTargets : d.maxRenderTargets ≤ e.maxRenderTargets
  templates : ∀ t s, d.sampleTemplates? t = some s →
    ∃ s', e.sampleTemplates? t = some s' ∧ s.SupportedBy s'

theorem Dialect.SupportedBy.refl (d : Dialect) : d.SupportedBy d where
  transpose := id
  instanceId := id
  unboundedLoops := id
  renderTargets := Nat.le_refl _
  templates _ s hs := ⟨s, hs, rfl, id, id, fun c hc ↦ ⟨c, hc, rfl⟩⟩

/-- A comma sets the parameters of a subroutine apart, so a name that holds one is taken for several. -/
def ScriptPin.IsPlain (pin : ScriptPin) : Prop :=
  ',' ∉ pin.name.toList

/-- What a stage has declared. -/
structure StageShader.Declarations where
  uniforms : CodeBuffer
  samplers : CodeBuffer
  inputs : CodeBuffer
  outputs : CodeBuffer
  scripts : CodeBuffer
  declared : List String

/-- What a stage has written. -/
structure StageShader.Texts where
  declarations : Declarations
  main : CodeBuffer
  captures : List CodeBuffer

def StageShader.declarations (s : StageShader) : Declarations :=
  ⟨s.uniforms, s.samplers, s.inputs, s.outputs, s.scripts, s.declared⟩

def StageShader.texts (s : StageShader) : Texts :=
  ⟨s.declarations, s.main, s.captures⟩

/-- The same was declared, and related bodies were written. -/
structure StageShader.Texts.Agree (agree : String → String → Prop) (x y : Texts) : Prop where
  declarations : y.declarations = x.declarations
  main : x.main.Agrees agree y.main
  captures : List.Forall₂ (CodeBuffer.Agrees agree) x.captures y.captures

/-- The emissions that are compared. -/
structure Lock where
  left : EmitEnv
  right : EmitEnv
  matching : Matching
  /-- Whether both emissions write the same texts, but for a difference between their bodies. -/
  exact : Prop
  /-- How the texts of bodies may differ. -/
  agree : String → String → Prop
  /-- Whether it is known which emitters are running. -/
  tracked : Prop
  graphs : left.graph.Corresponds matching right.graph
  backend : exact → right.settings.backend = left.settings.backend
  unrolls : exact → right.settings.unrollLoops? = left.settings.unrollLoops? ∨
    ∀ line ∈ left.dialect.unrollAttribute?, CodeBuffer.Skips agree line
  blocks : CodeBuffer.KeepsBlocks agree
  supports : left.dialect.SupportedBy right.dialect
  exact_of_strict : matching.strict → exact

namespace Lock

variable {L : Lock}

instance : CodeBuffer.KeepsBlocks L.agree :=
  L.blocks

/-- Whether the emissions fail in the same way. -/
def strict (L : Lock) : Prop :=
  L.matching.strict

/-- Nodes that correspond. -/
abbrev Twin (L : Lock) (n m : Node) : Prop :=
  L.matching.Nodes n m

theorem dialect_eq (h : L.exact) : L.right.dialect = L.left.dialect := by
  rw [EmitEnv.dialect, L.backend h]
  rfl

/-- Values under which both emissions go on alike. Textures are told apart by their names. -/
structure Value (L : Lock) (v w : Variable) : Prop where
  type : w.type = v.type
  texture : v.type.isTexture → w.name = v.name
  exact : L.exact → w.name = v.name

theorem Value.refl (v : Variable) : L.Value v v :=
  ⟨rfl, fun _ ↦ rfl, fun _ ↦ rfl⟩

theorem Value.eq {v w : Variable} (h : L.Value v w) (hexact : L.exact) : w = v := by
  obtain ⟨name, type⟩ := v
  obtain ⟨name', type'⟩ := w
  obtain rfl : type' = type := h.type
  obtain rfl : name' = name := h.exact hexact
  rfl

/-- Texts that both emissions write. -/
def Text (L : Lock) (a b : String) : Prop :=
  L.exact → b = a

/-- Texts of bodies. -/
def Body (L : Lock) (a b : String) : Prop :=
  L.exact → L.agree a b

/-- Attributes in front of loops or branches. Unless they are the same, both may be left out. -/
def Attribute (L : Lock) (a? b? : Option String) : Prop :=
  L.exact → b? = a? ∨
    (∀ a ∈ a?, CodeBuffer.Skips L.agree a) ∧ ∀ b ∈ b?, CodeBuffer.Skips L.agree b

/-- Names in the tables: those that the graph gives are the same, and the others differ in the reserved
prefix only. -/
def Name (L : Lock) (a b : String) : Prop :=
  (b = a ∧ (L.right.dialect.reservedPrefix = L.left.dialect.reservedPrefix ∨
    (∀ rest, a ≠ L.left.dialect.reservedPrefix ++ rest) ∧
      ∀ rest, a ≠ L.right.dialect.reservedPrefix ++ rest)) ∨
    ∃ rest, a = L.left.dialect.reservedPrefix ++ rest ∧ b = L.right.dialect.reservedPrefix ++ rest

/-- Signatures of the subroutine with a name. -/
def Signature (L : Lock) (name a b : String) : Prop :=
  (b = a ∧ L.right.dialect.types = L.left.dialect.types) ∨
    ∃ inputs outputs, (∀ pin ∈ inputs ++ outputs, pin.IsPlain ∧ pin.type ≠ .void) ∧
      a = L.left.dialect.signature name inputs outputs ∧
      b = L.right.dialect.signature name inputs outputs

/-- Definitions of one subroutine. -/
def Script (L : Lock) (a b : String × String) : Prop :=
  b.1 = a.1 ∧ L.Signature a.1 a.2 b.2

/-- What a stage knows of pins, attributes and subroutines is the same. -/
structure SimilarShader (L : Lock) (s t : StageShader) : Prop where
  stage : t.stage = s.stage
  bindings : List.Forall₂ (Entry L.matching.pin L.Value) s.bindings t.bindings
  scopes : t.scopes = s.scopes
  outer : List.Forall₂ (Entry L.matching.pin L.Value) s.outer t.outer
  attributes : List.Forall₂ (Entry Eq L.Value) s.attributes t.attributes
  signatures : List.Forall₂ L.Script s.signatures t.signatures
  texts : L.exact → s.texts.Agree L.agree t.texts

/-- Declarations that differ in their names only. -/
structure Uniform (L : Lock) (u v : UniformDeclaration) : Prop where
  name : L.Name u.name v.name
  rest : v = { u with name := v.name }

structure Sampler (L : Lock) (u v : SamplerDeclaration) : Prop where
  name : L.Name u.name v.name
  rest : v = { u with name := v.name }

/-- States from which both emissions go on alike. If it is known which emitters are running, these are
the emitters of the nodes `running`. -/
structure Related (L : Lock) (running : List NodeId) (s t : EmitState) : Prop where
  stage : t.stage = s.stage
  shader : ∀ stage, L.SimilarShader (s.shader stage) (t.shader stage)
  nextVariable : t.nextVariable = s.nextVariable
  uniforms : List.Forall₂ (Entry L.Name L.Uniform) s.uniforms.entries t.uniforms.entries
  samplers : List.Forall₂ (Entry L.Name L.Sampler) s.samplers.entries t.samplers.entries
  interpolators : t.interpolators = s.interpolators
  renderState : t.renderState? = s.renderState?
  requirements : t.requirements = s.requirements
  inProgress : List.Forall₂ L.matching.node s.inProgress t.inProgress
  running : L.tracked → s.inProgress = running

/-- A success of the first emission is matched by the second one, and if the emissions fail alike, a
failure is matched as well. -/
inductive Outcome (L : Lock) (running : List NodeId) {α β : Type} (Q : α → β → Prop) :
    Except CompileError α × EmitState → Except CompileError β × EmitState → Prop
  | ok {a : α} {b : β} {s t : EmitState} (h : Q a b) (hst : L.Related running s t) :
    Outcome L running Q (.ok a, s) (.ok b, t)
  | error {e : CompileError} {s : EmitState} {result : Except CompileError β × EmitState}
    (h : L.strict → ∃ t, result = (.error e, t) ∧ L.Related running s t) :
    Outcome L running Q (.error e, s) result

/-- The actions are in lockstep: started in related states they have matching outcomes, of which the
results are related by `Q`. -/
def Lockstep (L : Lock) (running : List NodeId) {α β : Type} (Q : α → β → Prop) (x : EmitM α)
    (y : EmitM β) : Prop :=
  ∀ s t, L.Related running s t →
    L.Outcome running Q ((x.run L.left).run.run s) ((y.run L.right).run.run t)

variable {running inner : List NodeId} {α β γ δ : Type} {Q : α → β → Prop} {R : γ → δ → Prop}

namespace Lockstep

/-! ## Composition -/

theorem pure {a : α} {b : β} (h : Q a b) : L.Lockstep running Q (pure a) (pure b) :=
  fun _ _ hst ↦ .ok h hst

theorem throw {e e' : CompileError} (h : L.strict → e' = e) :
    L.Lockstep running Q (throw e) (throw e') :=
  fun _ t hst ↦ .error fun hstrict ↦ ⟨t, by rw [h hstrict]; rfl, hst⟩

theorem bind {x : EmitM α} {y : EmitM β} {f : α → EmitM γ} {g : β → EmitM δ}
    (h : L.Lockstep running Q x y) (hfg : ∀ a b, Q a b → L.Lockstep running R (f a) (g b)) :
    L.Lockstep running R (x >>= f) (y >>= g) := by
  intro s t hst
  have hxy := h s t hst
  simp only [ReaderT.run_bind, ExceptT.run_bind, StateT.run_bind]
  generalize (x.run L.left).run.run s = left at hxy
  generalize (y.run L.right).run.run t = right at hxy
  cases hxy with
  | ok hab hst' => exact hfg _ _ hab _ _ hst'
  | error herror =>
    refine .error fun hstrict ↦ ?_
    obtain ⟨t', rfl, hst'⟩ := herror hstrict
    exact ⟨t', rfl, hst'⟩

/-- Actions in sequence, of which the first one gives nothing to go on with. -/
theorem seq {x : EmitM α} {y : EmitM β} {f : EmitM γ} {g : EmitM δ}
    (h : L.Lockstep running Q x y) (hfg : L.Lockstep running R f g) :
    L.Lockstep running R (x >>= fun _ ↦ f) (y >>= fun _ ↦ g) :=
  h.bind fun _ _ _ ↦ hfg

theorem mono {Q' : α → β → Prop} {x : EmitM α} {y : EmitM β} (h : L.Lockstep running Q x y)
    (hQ : ∀ a b, Q a b → Q' a b) : L.Lockstep running Q' x y := by
  intro s t hst
  have hxy := h s t hst
  generalize (x.run L.left).run.run s = left at hxy ⊢
  generalize (y.run L.right).run.run t = right at hxy ⊢
  cases hxy with
  | ok hab hst' => exact .ok (hQ _ _ hab) hst'
  | error herror => exact .error herror

theorem ite {c : Prop} [Decidable c] {x x' : EmitM α} {y y' : EmitM β}
    (h : c → L.Lockstep running Q x y) (h' : ¬ c → L.Lockstep running Q x' y') :
    L.Lockstep running Q (if c then x else x') (if c then y else y') := by
  by_cases hc : c
  · simpa only [if_pos hc] using h hc
  · simpa only [if_neg hc] using h' hc

/-- Where a condition holds the actions fail, and else they go on. -/
theorem guard {c : Prop} [Decidable c] {e e' : CompileError} {x : EmitM α} {y : EmitM β}
    (he : L.strict → e' = e) (h : ¬ c → L.Lockstep running Q x y) :
    L.Lockstep running Q (if c then MonadExcept.throw e else x)
      (if c then MonadExcept.throw e' else y) :=
  .ite (fun _ ↦ .throw he) h

theorem read_bind {f : EmitEnv → EmitM α} {g : EmitEnv → EmitM β}
    (h : L.Lockstep running Q (f L.left) (g L.right)) :
    L.Lockstep running Q (read >>= f) (read >>= g) :=
  h

theorem dialect_bind {f : Dialect → EmitM α} {g : Dialect → EmitM β}
    (h : L.Lockstep running Q (f L.left.dialect) (g L.right.dialect)) :
    L.Lockstep running Q (EmitM.dialect >>= f) (EmitM.dialect >>= g) :=
  h

theorem get : L.Lockstep running (L.Related running) get get :=
  fun _ _ hst ↦ .ok hst hst

theorem set {s t : EmitState} (h : L.Related running s t) :
    L.Lockstep running Eq (set s) (set t : EmitM PUnit) :=
  fun _ _ _ ↦ .ok rfl h

theorem modify {f g : EmitState → EmitState}
    (h : ∀ s t, L.Related running s t → L.Related running (f s) (g t)) :
    L.Lockstep running Eq (modify f) (modify g : EmitM PUnit) :=
  fun s t hst ↦ .ok rfl (h s t hst)

/-- Actions that both succeed are in lockstep if their results and states are related. -/
theorem of_returns {x : EmitM α} {y : EmitM β}
    (h : ∀ s t, L.Related running s t → ∃ a s' b t', EmitM.Returns L.left x s a s' ∧
      EmitM.Returns L.right y t b t' ∧ Q a b ∧ L.Related running s' t') :
    L.Lockstep running Q x y := by
  intro s t hst
  obtain ⟨a, s', b, t', hx, hy, hab, hst'⟩ := h s t hst
  rw [hx, hy]
  exact .ok hab hst'

/-! ## Lists -/

theorem mapM {P : α → β → Prop} {as : List α} {bs : List β} {f : α → EmitM γ} {g : β → EmitM δ}
    (h : List.Forall₂ P as bs) (hfg : ∀ a b, P a b → L.Lockstep running R (f a) (g b)) :
    L.Lockstep running (List.Forall₂ R) (as.mapM f) (bs.mapM g) := by
  induction h with
  | nil => exact .pure .nil
  | cons hab _ ih =>
    simp only [List.mapM_cons]
    exact (hfg _ _ hab).bind fun c d hcd ↦ ih.bind fun cs ds hcds ↦ .pure (.cons hcd hcds)

theorem forM {P : α → β → Prop} {as : List α} {bs : List β} {f : α → EmitM PUnit}
    {g : β → EmitM PUnit} (h : List.Forall₂ P as bs)
    (hfg : ∀ a b, P a b → L.Lockstep running Eq (f a) (g b)) :
    L.Lockstep running Eq (as.forM f) (bs.forM g) := by
  induction h with
  | nil => exact .pure rfl
  | cons hab _ ih => exact (hfg _ _ hab).seq ih

/-- Loops whose bodies always go on. -/
theorem forIn {P : α → β → Prop} {as : List α} {bs : List β}
    {f : α → PUnit → EmitM (ForInStep PUnit)} {g : β → PUnit → EmitM (ForInStep PUnit)}
    (h : List.Forall₂ P as bs)
    (hfg : ∀ a b, P a b → L.Lockstep running (fun x y ↦ x = .yield ⟨⟩ ∧ y = .yield ⟨⟩) (f a ⟨⟩)
      (g b ⟨⟩)) :
    L.Lockstep running Eq (forIn as PUnit.unit f) (forIn bs PUnit.unit g) := by
  induction h with
  | nil => exact .pure rfl
  | cons hab _ ih =>
    rw [List.forIn_cons, List.forIn_cons]
    refine (hfg _ _ hab).bind fun x y hxy ↦ ?_
    rw [hxy.1, hxy.2]
    exact ih

/-! ## Frames -/

/-- Actions that run others between a preparation and a clean-up of the state. -/
theorem framed {x : EmitM α} {y : EmitM β} {x' : EmitM γ} {y' : EmitM δ}
    (prepare prepare' : EmitState → EmitState) (finish finish' : EmitState → EmitState → EmitState)
    (f : EmitState → EmitState → α → γ) (g : EmitState → EmitState → β → δ)
    (hx : ∀ s, (x'.run L.left).run.run s =
      EmitM.finishRun (finish s) (f s) ((x.run L.left).run.run (prepare s)))
    (hy : ∀ t, (y'.run L.right).run.run t =
      EmitM.finishRun (finish' t) (g t) ((y.run L.right).run.run (prepare' t)))
    (hprepare : ∀ s t, L.Related running s t → L.Related inner (prepare s) (prepare' t))
    (hfinish : ∀ s t u v, L.Related running s t → L.Related inner u v →
      L.Related running (finish s u) (finish' t v))
    (hresult : ∀ s t u v a b, L.Related running s t → L.Related inner u v → Q a b →
      R (f s u a) (g t v b))
    (h : L.Lockstep inner Q x y) : L.Lockstep running R x' y' := by
  intro s t hst
  rw [hx, hy]
  have hxy := h _ _ (hprepare s t hst)
  generalize (x.run L.left).run.run (prepare s) = left at hxy
  generalize (y.run L.right).run.run (prepare' t) = right at hxy
  cases hxy with
  | ok hab huv => exact .ok (hresult s t _ _ _ _ hst huv hab) (hfinish s t _ _ hst huv)
  | error herror =>
    refine .error fun hstrict ↦ ?_
    obtain ⟨v, rfl, huv⟩ := herror hstrict
    exact ⟨finish' t v, rfl, hfinish s t _ v hst huv⟩

end Lockstep

end Lock

/-! ## Names

The tables of two emissions hold related entries under related names, in the same order. The relation of
the names tells them apart as equality does, so a new name is new in both.
-/

namespace Lock

variable {L : Lock} {a b c d : String}

theorem Name.exact (h : L.Name a b) (hexact : L.exact) : b = a := by
  obtain ⟨rfl, -⟩ | ⟨rest, rfl, rfl⟩ := h
  · rfl
  · rw [L.dialect_eq hexact]

theorem Name.of_exact (hexact : L.exact) : L.Name a a :=
  .inl ⟨rfl, .inl (by rw [L.dialect_eq hexact])⟩

theorem Name.prefixed (rest : String) :
    L.Name (L.left.dialect.reservedPrefix ++ rest) (L.right.dialect.reservedPrefix ++ rest) :=
  .inr ⟨rest, rfl, rfl⟩

theorem faithful_name : Faithful L.Name := by
  rintro a b c d (⟨rfl, hab⟩ | ⟨x, rfl, rfl⟩) (⟨rfl, hcd⟩ | ⟨y, rfl, rfl⟩)
  · exact Iff.rfl
  · rcases hab with heq | ⟨hleft, hright⟩
    · rw [heq]
    · exact ⟨fun h ↦ absurd h (hleft y), fun h ↦ absurd h (hright y)⟩
  · rcases hcd with heq | ⟨hleft, hright⟩
    · rw [heq]
    · exact ⟨fun h ↦ absurd h.symm (hleft x), fun h ↦ absurd h.symm (hright x)⟩
  · rw [String.append_right_inj, String.append_right_inj]

theorem name_samplerName (rest : String) (k : Nat) :
    L.Name (EmitM.samplerName (L.left.dialect.reservedPrefix ++ rest) k)
      (EmitM.samplerName (L.right.dialect.reservedPrefix ++ rest) k) := by
  cases k with
  | zero => exact .prefixed rest
  | succ k =>
    have hname (base : String) : EmitM.samplerName (base ++ rest) (k + 1) =
        base ++ (rest ++ ("_" ++ toString (k + 1))) := by
      simp only [← String.append_assoc]
      rfl
    rw [hname, hname]
    exact .prefixed _

theorem name_freshSamplerName {m m' : OrderedMap String SamplerDeclaration}
    (h : List.Forall₂ (Entry L.Name L.Sampler) m.entries m'.entries) (rest : String) :
    L.Name (EmitM.freshSamplerName m (L.left.dialect.reservedPrefix ++ rest))
      (EmitM.freshSamplerName m' (L.right.dialect.reservedPrefix ++ rest)) := by
  have hsize : m'.size = m.size := h.length_eq.symm
  have hcontains {a b : String} (hab : L.Name a b) : m'.contains b = m.contains a := by
    have hrel := lookup_related faithful_name h hab
    unfold OrderedMap.contains OrderedMap.get?
    generalize m.entries.lookup a = left at hrel ⊢
    generalize m'.entries.lookup b = right at hrel ⊢
    cases hrel <;> rfl
  have hnames (ks : List Nat) : List.Forall₂ L.Name
      (ks.map (EmitM.samplerName (L.left.dialect.reservedPrefix ++ rest)))
      (ks.map (EmitM.samplerName (L.right.dialect.reservedPrefix ++ rest))) := by
    induction ks with
    | nil => exact .nil
    | cons k ks ih => exact .cons (name_samplerName rest k) ih
  have hfind := find?_related (hnames (List.range (m.size + 1)))
    (p := fun name ↦ !m.contains name) (q := fun name ↦ !m'.contains name)
    fun a b hab ↦ by rw [hcontains hab]
  simp only [EmitM.freshSamplerName, hsize]
  generalize ((List.range (m.size + 1)).map
    (EmitM.samplerName (L.left.dialect.reservedPrefix ++ rest))).find? _ = left at hfind ⊢
  generalize ((List.range (m.size + 1)).map
    (EmitM.samplerName (L.right.dialect.reservedPrefix ++ rest))).find? _ = right at hfind ⊢
  cases hfind with
  | none => exact .prefixed rest
  | some hab => exact hab

end Lock

end ShaderGraph
