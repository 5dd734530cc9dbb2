import ShaderGraph.Proofs.Emission.Evaluation
import ShaderGraph.Proofs.Lockstep.Control
import ShaderGraph.Proofs.Lockstep.Emitters

/-!
# Compilations in lockstep

A whole emission validates a graph, runs the emitters of its terminal nodes, and leaves a state from
which the program is assembled. If both emissions write the same texts, the programs are the same.
-/

namespace ShaderGraph

namespace EmitM

/-- Runs an action as the emitter of a node. -/
def runWith (n : Node) (action : EmitM Unit) : EmitM Unit := do
  beginNode n.id
  let result ← attempt action
  endNode n.id
  match result with
  | .ok _ => return
  | .error e => throw e

theorem runNode_eq_runWith (demand : Demand) (n : Node) :
    runNode demand n = runWith n (emitKind demand n) :=
  rfl

/-- One call of the evaluation, with the emitter of the node run by `emit`. -/
def evaluateWith (emit : Node → EmitM Unit) : Demand := fun id pin ↦ do
  if let some v ← lookup pin then return v
  let some n := (← read).graph.node? id
    | throw (.invalidGraph s!"unknown node {id.text}")
  if id ∈ (← get).inProgress then throw (.cycle (.ofNode n))
  if !(← hasBoundSibling n pin) then
    emit n
    if let some v ← lookup pin then return v
  throw (.missingOutput (.ofNode n) (pinName n pin))

/-- One call of the evaluation. The outputs that its emitter demands are evaluated by `demand`. -/
def evaluateStep (demand : Demand) : Demand :=
  evaluateWith (runNode demand)

/-- Emits both stages, with the demands of the emitters met by `demand`. -/
def emitProgramBy (demand : Demand) (pixelOutput : Node) (vertexOutputs : List Node) :
    EmitM Unit := do
  enter .pixel
  runNode demand pixelOutput
  enter .vertex
  vertexOutputs.forM (runNode demand)
  enter .pixel

theorem run_evaluate (env : EmitEnv) (id : NodeId) (pin : PinId) :
    (evaluate id pin).run env = (evaluateWithin (emissionDepth env.graph) id pin).run env := by
  rw [evaluate, ReaderT.run_bind]
  exact pure_bind env fun env' : EmitEnv ↦ (evaluateWithin (emissionDepth env'.graph) id pin).run env

theorem lt_emissionDepth {g : Graph} {k : Nat} (h : k ≤ g.nodes.size) : k < emissionDepth g := by
  unfold emissionDepth
  omega

theorem evaluateWithin_zero :
    evaluateWithin 0 = evaluateWith fun n ↦ throw (.cycle (.ofNode n)) := by
  funext id pin
  rw [evaluateWithin]
  rfl

theorem evaluateWithin_succ (depth : Nat) :
    evaluateWithin (depth + 1) = evaluateStep (evaluateWithin depth) := by
  funext id pin
  rw [evaluateWithin]
  rfl

theorem evaluateWithin_eq_iterate (depth : Nat) :
    evaluateWithin depth = evaluateStep^[depth] (evaluateWithin 0) := by
  induction depth with
  | zero => rfl
  | succ depth ih => rw [evaluateWithin_succ, ih, Function.iterate_succ_apply']

end EmitM

namespace Lock

variable {L : Lock} {running : List NodeId} {demand demand' : Demand} {n m : Node}

/-! ## Nodes -/

/-- A node whose names are given by the author and do not get mixed up with others. -/
structure Admits (L : Lock) (n : Node) : Prop where
  parameters : ∀ name ∈ n.kind.parameterNames, L.Name name name
  pins : ∀ name body inputs outputs, n.kind = .script name body inputs outputs →
    L.PlainPins (inputs ++ outputs)

/-- Emissions that write the same texts can emit all nodes. -/
theorem admits_of_exact (hexact : L.exact) (n : Node) : L.Admits n where
  parameters _ _ := .of_exact hexact
  pins _ _ _ _ _ := .inl (by rw [L.dialect_eq hexact])

namespace Related

variable {s t : EmitState}

theorem beginNode (hn : L.Twin n m) (h : L.Related running s t) :
    L.Related (n.id :: running) (s.beginNode n.id) (t.beginNode m.id) :=
  { h with
    shader := h.shader
    inProgress := .cons hn.id h.inProgress
    running := fun htracked ↦ congrArg (n.id :: ·) (h.running htracked) }

theorem endNode (hn : L.Twin n m) (hidle : L.tracked → n.id ∉ running)
    (h : L.Related (n.id :: running) s t) :
    L.Related running (s.endNode n.id) (t.endNode m.id) :=
  { h with
    shader := h.shader
    inProgress := List.rel_filter (fun a b hab ↦ by
      simp only [decide_eq_true_eq, ne_eq]
      exact not_congr (L.graphs.nodesApart _ _ _ _ hab hn.id)) h.inProgress
    running := fun htracked ↦ by
      have hrest : running.filter (· ≠ n.id) = running :=
        List.filter_eq_self.mpr fun other hother ↦ by
          simpa using ne_of_mem_of_not_mem hother (hidle htracked)
      simp only [EmitState.endNode, h.running htracked]
      rw [List.filter_cons_of_neg (by simp), hrest] }

end Related

namespace Lockstep

theorem emitKind (hn : L.Twin n m) (hadmits : L.Admits n)
    (hdemand : L.Agree running demand demand') :
    L.Lockstep running Eq (EmitM.emitKind demand n) (EmitM.emitKind demand' m) := by
  have hname {name : String} (h : name ∈ n.kind.parameterNames) := hadmits.parameters name h
  unfold EmitM.emitKind
  rw [hn.kind]
  cases hkind : n.kind with
  | intrinsic f => exact intrinsic hn hdemand f
  | angle f => exact angle hn hdemand f
  | arithmetic op => exact arithmetic hn hdemand op
  | vectorFunction f => exact vectorFunction hn hdemand f
  | negate => exact negate hn hdemand
  | round => exact round hn hdemand
  | truncate => exact truncate hn hdemand
  | log base => exact log hn hdemand base
  | length => exact length hn hdemand
  | clamp low high => exact clamp hn hdemand low high
  | derivative axis => exact derivative hn hdemand axis
  | arcusTan => exact arcusTan hn hdemand
  | mulAdd => exact mulAdd hn hdemand
  | lerp => exact lerp hn hdemand
  | power => exact power hn hdemand
  | polynomial => exact polynomial hn hdemand
  | dot => exact dot hn hdemand
  | cross => exact cross hn hdemand
  | reflect => exact reflect hn hdemand
  | swizzle pattern => exact swizzle hn hdemand pattern
  | mixIn => exact mixIn hn hdemand
  | mixOut => exact mixOut hn hdemand
  | matrixIn => exact matrixIn hn hdemand
  | matrixOut => exact matrixOut hn hdemand
  | transform => exact transform hn hdemand
  | transpose => exact transpose hn hdemand
  | scalar value => exact constant hn _
  | vector x y z w => exact constant hn _
  | color r g b a => exact constant hn _
  | conditional op hint => exact conditional hn hdemand op hint
  | switch cases hint => exact switch hn hdemand cases hint
  | discard op => exact discard hn hdemand op
  | iterate first last => exact emitLoop hn hdemand _
  | iterate2d firstX lastX firstY lastY => exact emitLoop hn hdemand _
  | sum first last => exact emitLoop hn hdemand _
  | repeatWhile => exact repeatWhile hn hdemand
  | vertexInput name usage type index => exact vertexInput hn name usage type index
  | vertexOutput => exact vertexOutput hn hdemand
  | pixelOutput state => exact pixelOutput hn hdemand state
  | interpolator => exact interpolator hn hdemand
  | fragmentPosition => exact fragmentPosition hn
  | frontFace => exact frontFace hn
  | instanceIndex => exact instanceIndex hn
  | targetSize => exact targetSize hn
  | uniform parameter type =>
    exact uniform hn (hname (by simp [hkind, NodeKind.parameterNames])) type
  | indexedUniform parameter type length =>
    exact indexedUniform hn hdemand (hname (by simp [hkind, NodeKind.parameterNames])) type length
  | sampler state => exact sampler hn hdemand state
  | textureSize => exact textureSize hn hdemand
  | script name body inputs outputs => exact script hn hdemand (hadmits.pins _ _ _ _ hkind)
  | external name => exact .throw fun h ↦ by rw [hn.same h]

/-- An emitter of which the arms are treated in ways of their own. -/
theorem emitArms (hn : L.Twin n m) (hadmits : L.Admits n) (hdemand : L.Agree running demand demand')
    {arms arms' : String → ArmRun} (harms : L.Arms running arms arms') :
    L.Lockstep running Eq (EmitM.emitArms demand arms n) (EmitM.emitArms demand' arms' m) := by
  have hkind := emitKind hn hadmits hdemand
  unfold EmitM.emitArms
  rw [hn.kind]
  cases n.kind with
  | conditional op hint => exact conditionalArms hn hdemand harms op hint
  | switch cases hint => exact switchArms hn hdemand harms cases hint
  | _ => exact hkind

theorem run_runWith {env : EmitEnv} {action : EmitM Unit} (s : EmitState) :
    ((EmitM.runWith n action).run env).run.run s =
      EmitM.finishRun (·.endNode n.id) (fun _ _ ↦ ())
        ((action.run env).run.run (s.beginNode n.id)) := by
  cases h : (action.run env).run.run (s.beginNode n.id) with
  | mk result u =>
    have hbegin : EmitM.Returns env (EmitM.beginNode n.id) s () (s.beginNode n.id) :=
      EmitM.returns_modify.mpr rfl
    have hend : EmitM.Returns env (EmitM.endNode n.id) u () (u.endNode n.id) :=
      EmitM.returns_modify.mpr rfl
    unfold EmitM.runWith
    rw [EmitM.run_bind_of_returns hbegin, EmitM.run_bind_of_returns (EmitM.returns_attempt.mpr h),
      EmitM.run_bind_of_returns hend]
    cases result <;> rfl

theorem run_runNode {env : EmitEnv} (s : EmitState) :
    ((EmitM.runNode demand n).run env).run.run s =
      EmitM.finishRun (·.endNode n.id) (fun _ _ ↦ ())
        (((EmitM.emitKind demand n).run env).run.run (s.beginNode n.id)) := by
  rw [EmitM.runNode_eq_runWith]
  exact run_runWith s

/-- An action is run as an emitter with the node running in addition. -/
theorem runWith (hn : L.Twin n m) (hidle : L.tracked → n.id ∉ running) {x y : EmitM Unit}
    (h : L.Lockstep (n.id :: running) Eq x y) :
    L.Lockstep running Eq (EmitM.runWith n x) (EmitM.runWith m y) :=
  .framed (·.beginNode n.id) (·.beginNode m.id) (fun _ u ↦ u.endNode n.id)
    (fun _ v ↦ v.endNode m.id) (fun _ _ _ ↦ ()) (fun _ _ _ ↦ ()) run_runWith run_runWith
    (fun _ _ hst ↦ hst.beginNode hn)
    (fun _ _ _ _ _ huv ↦ huv.endNode hn hidle) (fun _ _ _ _ _ _ _ _ _ ↦ rfl) h

/-- The emitter of a node demands with the node running. -/
theorem runNode (hn : L.Twin n m) (hadmits : L.Admits n) (hidle : L.tracked → n.id ∉ running)
    (hdemand : L.Agree (n.id :: running) demand demand') :
    L.Lockstep running Eq (EmitM.runNode demand n) (EmitM.runNode demand' m) :=
  runWith hn hidle (emitKind hn hadmits hdemand)

theorem hasBoundSibling (hn : L.Twin n m) {pin pin' : PinId} (hpin : L.matching.pin pin pin') :
    L.Lockstep running Eq (EmitM.hasBoundSibling n pin) (EmitM.hasBoundSibling m pin') :=
  .bind .get fun s t hst ↦ .pure <| (any_related hn.outputs fun p q hpq ↦ by
    have hother : (q.id ≠ pin') = (p.id ≠ pin) :=
      propext (not_congr (L.graphs.pinsApart _ _ _ _ hpq.id hpin).symm)
    have hbound : (t.binding? q.id).isSome = (s.binding? p.id).isSome := by
      have h := hst.binding? hpq.id
      generalize s.binding? p.id = x at h ⊢
      generalize t.binding? q.id = y at h ⊢
      cases h <;> rfl
    simp only [hother, hbound]).symm

/-- A call of the evaluation runs the emitter of its node only if the node is not running already. -/
theorem evaluateWith {emit emit' : Node → EmitM Unit}
    (hkeyed : L.tracked → ∀ id n, L.left.graph.node? id = some n → n.id = id)
    (hemit : ∀ id n m, L.left.graph.node? id = some n → L.Twin n m → (L.tracked → n.id ∉ running) →
      L.Lockstep running Eq (emit n) (emit' m)) :
    L.Agree running (EmitM.evaluateWith emit) (EmitM.evaluateWith emit') := by
  intro id id' pin pin' hid hpin
  refine .bind (lookup hpin) fun _ _ hbound ↦ ?_
  cases hbound with
  | some hv => exact .pure hv
  | none =>
    refine .read_bind ?_
    have hnodes := L.graphs.nodes _ _ hid
    cases hleft : L.left.graph.node? id with
    | none =>
      rw [hleft] at hnodes
      generalize L.right.graph.node? id' = m? at hnodes ⊢
      cases hnodes
      exact .throw fun h ↦ by rw [L.graphs.sameNodes h _ _ hid]
    | some n =>
      rw [hleft] at hnodes
      generalize L.right.graph.node? id' = m? at hnodes ⊢
      cases hnodes with
      | @some _ m hn =>
        refine .bind .get fun s t hst ↦ ?_
        dsimp only
        have hmet := mem_related L.graphs.nodesApart hst.inProgress hid
        simp only [hmet]
        refine .guard (fun h ↦ by rw [hn.same h]) fun hidle ↦ ?_
        have hrunning (h : L.tracked) : n.id ∉ running := by
          rw [hkeyed h id n hleft, ← hst.running h]
          exact hidle
        refine .bind (hasBoundSibling hn hpin) fun bound _ hbound ↦ ?_
        subst hbound
        have hmissing : L.Lockstep running L.Value
            (MonadExcept.throw (CompileError.missingOutput (.ofNode n) (EmitM.pinName n pin)))
            (MonadExcept.throw (CompileError.missingOutput (.ofNode m) (EmitM.pinName m pin'))) :=
          .throw fun h ↦ by rw [hn.same h, L.graphs.samePins h _ _ hpin]
        refine .ite (fun _ ↦ .seq (hemit id n m hleft hn hrunning) ?_) fun _ ↦ hmissing
        refine .bind (lookup hpin) fun _ _ hbound ↦ ?_
        cases hbound with
        | some hv => exact .pure hv
        | none => exact hmissing

/-- The emitter that a call of the evaluation runs demands with its node running in addition. -/
theorem evaluateStep (hkeyed : L.tracked → ∀ id n, L.left.graph.node? id = some n → n.id = id)
    (hadmits : ∀ id n, L.left.graph.node? id = some n → L.Admits n)
    (hdemand : ∀ id n, L.left.graph.node? id = some n → (L.tracked → n.id ∉ running) →
      L.Agree (n.id :: running) demand demand') :
    L.Agree running (EmitM.evaluateStep demand) (EmitM.evaluateStep demand') :=
  evaluateWith hkeyed fun id n _ hleft hn hidle ↦
    runNode hn (hadmits id n hleft) hidle (hdemand id n hleft hidle)

/-- Evaluations of the same depth are in lockstep, whatever is running. -/
theorem evaluateWithin (htracked : ¬ L.tracked)
    (hadmits : ∀ id n, L.left.graph.node? id = some n → L.Admits n) (depth : Nat) :
    L.Agree running (EmitM.evaluateWithin depth) (EmitM.evaluateWithin depth) := by
  induction depth generalizing running with
  | zero =>
    rw [EmitM.evaluateWithin_zero]
    exact evaluateWith (fun h ↦ absurd h htracked) fun _ _ _ _ hn _ ↦ .throw fun h ↦ by
      rw [hn.same h]
  | succ depth ih =>
    rw [EmitM.evaluateWithin_succ]
    exact evaluateStep (fun h ↦ absurd h htracked) hadmits fun _ _ _ _ ↦ ih

/-- Evaluations agree if they do at the depths that are computed from the graphs. -/
theorem evaluate (h : L.Agree running (EmitM.evaluateWithin (EmitM.emissionDepth L.left.graph))
    (EmitM.evaluateWithin (EmitM.emissionDepth L.right.graph))) :
    L.Agree running EmitM.evaluate EmitM.evaluate := by
  intro id id' pin pin' hid hpin s t hst
  rw [EmitM.run_evaluate, EmitM.run_evaluate]
  exact h id id' pin pin' hid hpin s t hst

/-! ## Programs -/

/-- A whole emission starts with no emitter running. -/
theorem emitProgramBy {outputs outputs' : List Node} (hn : L.Twin n m)
    (houtputs : List.Forall₂ L.Twin outputs outputs')
    (hadmits : ∀ p ∈ n :: outputs, L.Admits p)
    (hdemand : ∀ p ∈ n :: outputs, L.Agree [p.id] demand demand') :
    L.Lockstep [] Eq (EmitM.emitProgramBy demand n outputs)
      (EmitM.emitProgramBy demand' m outputs') := by
  have hnode (p q : Node) (hpq : L.Twin p q) (hp : p ∈ n :: outputs) :
      L.Lockstep [] Eq (EmitM.runNode demand p) (EmitM.runNode demand' q) :=
    runNode hpq (hadmits p hp) (fun _ ↦ by simp) (hdemand p hp)
  have hnodes : List.Forall₂ (fun p q ↦ p ∈ outputs ∧ L.Twin p q) outputs outputs' :=
    (List.forall₂_and_left _ _).mpr ⟨fun _ hp ↦ hp, houtputs⟩
  refine .seq (enter .pixel) (.seq (hnode n m hn List.mem_cons_self) ?_)
  exact .seq (enter .vertex) (.seq (.forM hnodes fun p q hpq ↦
    hnode p q hpq.2 (List.mem_cons_of_mem _ hpq.1)) (enter .pixel))

end Lockstep

theorem related_start : L.Related [] {} {} where
  stage := rfl
  shader stage := by
    cases stage <;>
      exact ⟨rfl, .nil, rfl, .nil, .nil, .nil, fun _ ↦ ⟨rfl, ⟨rfl, CodeBuffer.KeepsBlocks.empty⟩, .nil⟩⟩
  nextVariable := rfl
  uniforms := .nil
  samplers := .nil
  interpolators := rfl
  renderState := rfl
  requirements := rfl
  inProgress := .nil
  running _ := rfl

end Lock

/-! ## Compilations -/

/-! ### Assembly -/

namespace Assembly

variable {settings : Settings} {r : Requirements} {s t : StageShader}

/-- The source of a stage is made of its texts. -/
theorem stageSource_congr (hstage : t.stage = s.stage) (hdeclarations : t.declarations = s.declarations)
    (hmain : t.main = s.main) : stageSource settings r t = stageSource settings r s := by
  simp only [StageShader.declarations, StageShader.Declarations.mk.injEq] at hdeclarations
  obtain ⟨stage, uniforms, samplers, inputs, outputs, scripts, main⟩ := s
  obtain ⟨stage', uniforms', samplers', inputs', outputs', scripts', main'⟩ := t
  obtain ⟨rfl, rfl, rfl, rfl, rfl, -⟩ := hdeclarations
  obtain rfl : stage' = stage := hstage
  obtain rfl : main' = main := hmain
  rfl

end Assembly

/-! ### Emissions -/

/-- An emission that searches for cycles and meets demands in given ways. -/
def emissionBy (search : List NodeId → NodeId → StateT (List NodeId) (Except GraphError) Unit)
    (demand : Demand) (settings : Settings) (g : Graph) : Except CompileError EmitState := do
  (g.validateBy search).mapError (GraphError.toCompileError g)
  let pixelOutput ← g.terminal
  let action := EmitM.emitProgramBy demand pixelOutput (g.nodesOfKind NodeKind.isVertexOutput)
  let (result, state) := (action.run ⟨g, settings⟩).run.run {}
  let _ ← result
  return state

/-- A compilation that searches for cycles and meets demands in given ways. -/
def compileBy (search : List NodeId → NodeId → StateT (List NodeId) (Except GraphError) Unit)
    (demand : Demand) (settings : Settings) (g : Graph) : Except CompileError Artifact :=
  (emissionBy search demand settings g).map (·.artifact settings)

theorem compile_eq_compileBy (settings : Settings) (g : Graph) :
    compile settings g = compileBy (g.visit (g.nodes.size + 1)) EmitM.evaluate settings g :=
  compile_eq_map_emission settings g

namespace Lock

variable {L : Lock} {α β γ δ : Type} {Q : α → β → Prop} {R : γ → δ → Prop}

/-- A success is matched by a success, and if the emissions fail alike, a failure by the same failure. -/
inductive Follows (L : Lock) {α β : Type} (Q : α → β → Prop) :
    Except CompileError α → Except CompileError β → Prop
  | ok {a : α} {b : β} (h : Q a b) : Follows L Q (.ok a) (.ok b)
  | error {e : CompileError} {y : Except CompileError β} (h : L.strict → y = .error e) :
    Follows L Q (.error e) y

namespace Follows

variable {x : Except CompileError α} {y : Except CompileError β}

theorem refl {Q : α → α → Prop} (h : ∀ a, Q a a) (x : Except CompileError α) : L.Follows Q x x := by
  cases x with
  | ok a => exact .ok (h a)
  | error e => exact .error fun _ ↦ rfl

theorem bind {f : α → Except CompileError γ} {g : β → Except CompileError δ} (h : L.Follows Q x y)
    (hfg : ∀ a b, Q a b → L.Follows R (f a) (g b)) : L.Follows R (x >>= f) (y >>= g) := by
  cases h with
  | ok hab => exact hfg _ _ hab
  | error herror => exact .error fun hstrict ↦ by rw [herror hstrict]; rfl

theorem map {f : α → γ} {g : β → δ} (h : L.Follows Q x y) (hfg : ∀ a b, Q a b → R (f a) (g b)) :
    L.Follows R (x.map f) (y.map g) := by
  cases h with
  | ok hab => exact .ok (hfg _ _ hab)
  | error herror => exact .error fun hstrict ↦ by rw [herror hstrict]; rfl

theorem eq {x y : Except CompileError α} (hstrict : L.strict) (h : L.Follows Eq x y) : y = x := by
  cases h with
  | ok hab => rw [hab]
  | error herror => exact herror hstrict

theorem exists_ok {a : α} (h : L.Follows Q (.ok a) y) : ∃ b, y = .ok b ∧ Q a b := by
  cases h with
  | ok hab => exact ⟨_, rfl, hab⟩

end Follows

/-- What two emissions take for granted before they run. -/
structure Prepared (L : Lock)
    (search search' : List NodeId → NodeId → StateT (List NodeId) (Except GraphError) Unit) : Prop where
  validation : L.Follows (fun _ _ ↦ True)
    ((L.left.graph.validateBy search).mapError (GraphError.toCompileError L.left.graph))
    ((L.right.graph.validateBy search').mapError (GraphError.toCompileError L.right.graph))
  terminal : L.Follows L.Twin L.left.graph.terminal L.right.graph.terminal
  vertexOutputs : List.Forall₂ L.Twin (L.left.graph.nodesOfKind NodeKind.isVertexOutput)
    (L.right.graph.nodesOfKind NodeKind.isVertexOutput)
  admits : ∀ n ∈ L.left.graph.nodes.values, L.Admits n

/-- Emissions in which the demands of the terminal nodes agree. -/
theorem Prepared.emissionBy
    {search search' : List NodeId → NodeId → StateT (List NodeId) (Except GraphError) Unit}
    {demand demand' : Demand} (h : L.Prepared search search')
    (hdemand : ∀ n ∈ L.left.graph.nodes.values, L.Agree [n.id] demand demand') :
    L.Follows (L.Related []) (emissionBy search demand L.left.settings L.left.graph)
      (emissionBy search' demand' L.right.settings L.right.graph) := by
  refine h.validation.bind fun _ _ _ ↦ ?_
  -- The terminal nodes are stored nodes.
  have hterminal : L.Follows (fun n m ↦ L.left.graph.terminal = .ok n ∧ L.Twin n m)
      L.left.graph.terminal L.right.graph.terminal := by
    have hfollows := h.terminal
    cases hleft : L.left.graph.terminal with
    | error e =>
      rw [hleft] at hfollows
      cases hfollows with
      | error herror => exact .error herror
    | ok n =>
      rw [hleft] at hfollows
      obtain ⟨m, hright, hn⟩ := hfollows.exists_ok
      rw [hright]
      exact .ok ⟨rfl, hn⟩
  refine hterminal.bind fun n m ⟨hn, htwin⟩ ↦ ?_
  have hmem (p : Node) (hp : p ∈ n :: L.left.graph.nodesOfKind NodeKind.isVertexOutput) :
      p ∈ L.left.graph.nodes.values := by
    rcases List.mem_cons.mp hp with rfl | hp
    · exact Graph.terminal_mem hn
    · exact (List.mem_filter.mp hp).1
  have hrun := Lockstep.emitProgramBy htwin h.vertexOutputs (fun p hp ↦ h.admits p (hmem p hp))
    (fun p hp ↦ hdemand p (hmem p hp)) {} {} related_start
  dsimp only
  generalize ((EmitM.emitProgramBy demand n _).run L.left).run.run {} = left at hrun
  generalize ((EmitM.emitProgramBy demand' m _).run L.right).run.run {} = right at hrun
  cases hrun with
  | ok hab hst => exact .ok hst
  | error herror =>
    refine .error fun hstrict ↦ ?_
    obtain ⟨t, rfl, -⟩ := herror hstrict
    rfl

/-! ### Programs -/

theorem Uniform.eq {u v : UniformDeclaration} (h : L.Uniform u v) (hexact : L.exact) : v = u := by
  rw [h.rest, h.name.exact hexact]

theorem Sampler.eq {u v : SamplerDeclaration} (h : L.Sampler u v) (hexact : L.exact) : v = u := by
  rw [h.rest, h.name.exact hexact]

theorem Related.uniforms_eq {running : List NodeId} {s t : EmitState} (h : L.Related running s t)
    (hexact : L.exact) : t.uniforms.values = s.uniforms.values :=
  eq_of_related (values_related h.uniforms) fun _ _ huv ↦ huv.eq hexact

theorem Related.samplers_eq {running : List NodeId} {s t : EmitState} (h : L.Related running s t)
    (hexact : L.exact) : t.samplers.values = s.samplers.values :=
  eq_of_related (values_related h.samplers) fun _ _ huv ↦ huv.eq hexact

section Same

variable (hexact : L.exact) (hsettings : L.right.settings = L.left.settings)
  (hagree : L.agree = Eq)

include hexact hsettings hagree

theorem Related.artifact_eq {running : List NodeId} {s t : EmitState} (h : L.Related running s t) :
    t.artifact L.right.settings = s.artifact L.left.settings := by
  have hsource (stage : ShaderStage) :
      Assembly.stageSource L.left.settings s.requirements (t.shader stage) =
        Assembly.stageSource L.left.settings s.requirements (s.shader stage) := by
    have htexts := (h.shader stage).texts hexact
    have hmain : (t.shader stage).main = (s.shader stage).main :=
      (hagree ▸ htexts.main).eq
    exact Assembly.stageSource_congr (h.shader stage).stage htexts.declarations hmain
  have hvertex : Assembly.stageSource L.left.settings s.requirements t.vertex =
      Assembly.stageSource L.left.settings s.requirements s.vertex := hsource .vertex
  have hpixel : Assembly.stageSource L.left.settings s.requirements t.pixel =
      Assembly.stageSource L.left.settings s.requirements s.pixel := hsource .pixel
  rw [EmitState.artifact, EmitState.artifact, hsettings, h.requirements, h.uniforms_eq hexact,
    h.samplers_eq hexact, h.interpolators, h.renderState, hvertex, hpixel]

/-- Compilations that write the same texts under the same settings yield the same programs. -/
theorem Prepared.compileBy
    {search search' : List NodeId → NodeId → StateT (List NodeId) (Except GraphError) Unit}
    {demand demand' : Demand} (h : L.Prepared search search')
    (hdemand : ∀ n ∈ L.left.graph.nodes.values, L.Agree [n.id] demand demand') :
    L.Follows Eq (compileBy search demand L.left.settings L.left.graph)
      (compileBy search' demand' L.right.settings L.right.graph) :=
  (h.emissionBy hdemand).map fun _ _ hst ↦ (hst.artifact_eq hexact hsettings hagree).symm

end Same

/-- The emissions of corresponding graphs under the same settings. -/
def corresponding {g g' : Graph} {M : Matching} (settings : Settings) (h : g.Corresponds M g') :
    Lock where
  left := ⟨g, settings⟩
  right := ⟨g', settings⟩
  matching := M
  exact := True
  agree := Eq
  tracked := M.strict
  graphs := h
  backend _ := rfl
  unrolls _ := .inl rfl
  blocks := CodeBuffer.keepsBlocks_eq
  supports := .refl _
  exact_of_strict _ := trivial

end Lock

end ShaderGraph
