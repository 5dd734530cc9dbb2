import ShaderGraph.Proofs.Trace.Frame
import ShaderGraph.Proofs.Upstream.Coverage

/-!
# Restricted evaluation

Which emitters an evaluation runs is told by an evaluator that refuses to start others: where it does the
same as `evaluateWithin`, no other emitter has run. It does if the outputs that are needed one from
another are closed under the needs of the emitters that start, and all of these are allowed.
-/

namespace ShaderGraph

namespace EmitM

/-- Evaluates an output like `evaluateWithin`, and fails where an emitter is to start in a stage in which
it is not allowed. -/
def evaluateAmong (allowed : ShaderStage → Node → Prop) [∀ stage, DecidablePred (allowed stage)]
    (refusal : CompileError) : Nat → Demand
  | 0 => evaluateWithin 0
  | depth + 1 => evaluateWith fun n ↦ do
    if allowed (← currentStage) n then runNode (evaluateAmong allowed refusal depth) n
    else throw refusal

/-- Two actions run the same from a state: they end in the same way and in the same state. -/
def SameRun {α : Type} (env : EmitEnv) (s : EmitState) (x y : EmitM α) : Prop :=
  (x.run env).run.run s = (y.run env).run.run s

namespace SameRun

variable {env : EmitEnv} {s : EmitState} {α β : Type} {x y : EmitM α}

theorem bind {f g : α → EmitM β} (h : SameRun env s x y)
    (hfg : ∀ a t, Returns env y s a t → SameRun env t (f a) (g a)) :
    SameRun env s (x >>= f) (y >>= g) := by
  cases hy : (y.run env).run.run s with
  | mk r t =>
    have hx := Eq.trans h hy
    cases r with
    | ok a =>
      rw [SameRun, run_bind_of_returns hx, run_bind_of_returns hy]
      exact hfg a t hy
    | error e => exact (ends_bind_error hx).trans (ends_bind_error hy).symm

theorem capture (h : SameRun env s.beginCapture x y) : SameRun env s (capture x) (capture y) := by
  rw [SameRun, Lock.run_capture, Lock.run_capture, h]

theorem returns (h : SameRun env s x y) {a : α} {t : EmitState} (hy : Returns env y s a t) :
    Returns env x s a t :=
  Eq.trans h hy

end SameRun

end EmitM

open EmitM

/-! ## Composed actions -/

/-- A property of states that no evaluation, no capture and no change of the stage takes away. -/
structure Lasting (I : EmitState → Prop) : Prop where
  keeps : ∀ s t, I s → s.Keeps [] t → I t
  beginCapture : ∀ s, I s → I s.beginCapture
  beginNode : ∀ s id, I s → I (s.beginNode id)
  enter : ∀ s stage, I s → I { s with stage := stage }

namespace Composed

variable {env : EmitEnv} {n : Node} {own? : Option Node} {names : List String} {α : Type} {depth : Nat}
  {demand : Demand} {x : Demand → EmitM α} {I : EmitState → Prop}

theorem exists_traced (depth : Nat) (h : Composed env n own? names x) {s t : EmitState}
    {r : Except CompileError α} (hends : Ends env (x (evaluateWithin depth)) s r t) :
    ∃ names' τ, Traced env depth own? names' x s τ r t := by
  obtain ⟨names', τ, r', t', -, htraced⟩ := h.traceable (demandable env depth) s
  cases (htraced.ends fun _ _ ↦ rfl).symm.trans hends
  exact ⟨names', τ, htraced⟩

/-- A composed action keeps the stages, however it ends. -/
theorem retains (depth : Nat) (h : Composed env n own? names x) {s t : EmitState}
    {r : Except CompileError α} (hends : Ends env (x (evaluateWithin depth)) s r t) :
    s.Retains (ownPins own?) t := by
  obtain ⟨_, _, htraced⟩ := h.exists_traced depth hends
  exact htraced.retains

/-- A composed action keeps the state, however it ends. -/
theorem keeps (depth : Nat) (hkeyed : env.graph.IsKeyed) (h : Composed env n own? names x) {s t : EmitState}
    {r : Except CompileError α} (hends : Ends env (x (evaluateWithin depth)) s r t) :
    s.Keeps (ownPins own?) t := by
  obtain ⟨_, _, htraced⟩ := h.exists_traced depth hends
  exact htraced.keeps hkeyed

/-- A composed action runs the same under demands that run the same for what its node needs, while a
property holds that the action does not take away by changing outputs of its own node. -/
theorem sameRun (hkeyed : env.graph.IsKeyed) (hI : Lasting I) (h : Composed env n own? names x)
    {stage : ShaderStage}
    (hown : ∀ s t, I s → s.stage = stage → s.Keeps (ownPins own?) t → I t) (hdemand : ∀ o, env.graph.Needs n o → ∀ s, I s → s.stage = stage →
      SameRun env s (demand o.node o.pin) (evaluateWithin depth o.node o.pin))
    {s : EmitState} (hs : I s) (hstage : s.stage = stage) :
    SameRun env s (x demand) (x (evaluateWithin depth)) := by
  induction h generalizing s with
  | silent => rfl
  | read _ ih =>
    rw [SameRun, run_bind_of_returns (returns_read.mpr ⟨rfl, rfl⟩),
      run_bind_of_returns (returns_read.mpr ⟨rfl, rfl⟩)]
    exact ih hs hstage
  | bind hx _ ih ih' =>
    refine (ih hs hstage).bind fun a t ht ↦ ?_
    have hkeeps := hx.keeps depth hkeyed (r := .ok a) ht
    exact ih' a (hown _ _ hs hstage hkeeps) (hkeeps.stage.trans hstage)
  | demand h => exact hdemand _ h s hs hstage
  | output => rfl
  | retype => rfl
  | capture _ _ _ ih =>
    exact (ih (hI.beginCapture s hs) ((EmitState.stage_modifyShader ..).trans hstage)).capture
  | weaken _ _ ih => exact ih hs hstage

end Composed

/-! ## Emitters and evaluations -/

section Evaluation

variable {env : EmitEnv} {n : Node} {depth : Nat} {demand : Demand} {I : EmitState → Prop}
  {s : EmitState}

/-- The emitter of a node runs the same under demands that run the same for what the node needs, in the
stage in which its inputs are evaluated. -/
theorem sameRun_emitKind (hkeyed : env.graph.IsKeyed) (hI : Lasting I) (hs : I s)
    (hown : ∀ t u, I t → t.stage = s.stage → t.Keeps (ownPins (some n)) u → I u)
    (hdemand : ∀ o, env.graph.Needs n o → ∀ t, I t → t.stage = n.kind.inputStage s.stage →
      SameRun env t (demand o.node o.pin) (evaluateWithin depth o.node o.pin)) :
    SameRun env s (emitKind demand n) (emitKind (evaluateWithin depth) n) := by
  cases hinterpolator : n.kind.isInterpolator with
  | false =>
    obtain ⟨names, -, hcomposed⟩ := composed_emitKind env hinterpolator
    rw [NodeKind.inputStage, hinterpolator] at hdemand
    exact hcomposed.sameRun hkeyed hI hown hdemand hs rfl
  | true =>
    rw [NodeKind.inputStage, hinterpolator] at hdemand
    have hcomposed : Composed env n none [] fun demand ↦ requireInput demand n "Input" :=
      .requireInput "Input"
    have hinput (t : EmitState) (ht : I t) (hvertex : t.stage = .vertex) :
        SameRun env t (requireInput demand n "Input")
          (requireInput (evaluateWithin depth) n "Input") :=
      hcomposed.sameRun hkeyed hI (fun s t hs _ ↦ hI.keeps s t hs) hdemand ht hvertex
    simp only [emitKind, NodeKind.isInterpolator_iff.mp hinterpolator]
    rw [SameRun, Emitter.interpolator, run_bind_of_returns (returns_currentStage.mpr ⟨rfl, rfl⟩),
      Emitter.interpolator, run_bind_of_returns (returns_currentStage.mpr ⟨rfl, rfl⟩)]
    by_cases hvertex : s.stage = .vertex
    · rw [if_pos hvertex, if_pos hvertex]
      exact (hinput s hs hvertex).bind fun _ _ _ ↦ rfl
    · rw [if_neg hvertex, if_neg hvertex]
      have hvalue : SameRun env s (Emitter.vertexValue demand n "Input")
          (Emitter.vertexValue (evaluateWithin depth) n "Input") := by
        rw [SameRun, Lock.run_vertexValue, Lock.run_vertexValue, hinput _ (hI.enter s _ hs) rfl]
      exact hvalue.bind fun _ _ _ ↦ rfl

/-- The same, where nothing but the stage has to be known. -/
theorem sameRun_emitKind_of_stage (hkeyed : env.graph.IsKeyed)
    (hdemand : ∀ o, env.graph.Needs n o → ∀ t, t.stage = n.kind.inputStage s.stage →
      SameRun env t (demand o.node o.pin) (evaluateWithin depth o.node o.pin)) :
    SameRun env s (emitKind demand n) (emitKind (evaluateWithin depth) n) :=
  have hlasting : Lasting fun _ ↦ True :=
    ⟨fun _ _ _ _ ↦ trivial, fun _ _ ↦ trivial, fun _ _ _ ↦ trivial, fun _ _ _ ↦ trivial⟩
  sameRun_emitKind hkeyed hlasting trivial (fun _ _ _ _ _ ↦ trivial) fun o ho t _ ↦ hdemand o ho t

theorem sameRun_runWith {x y : EmitM Unit} (h : SameRun env (s.beginNode n.id) x y) :
    SameRun env s (runWith n x) (runWith n y) := by
  rw [SameRun, Lock.Lockstep.run_runWith, Lock.Lockstep.run_runWith, h]

theorem sameRun_runNode {demand' : Demand}
    (h : SameRun env (s.beginNode n.id) (emitKind demand n) (emitKind demand' n)) :
    SameRun env s (runNode demand n) (runNode demand' n) :=
  sameRun_runWith h

/-- One call of the evaluation runs the same if the emitter that it starts does. -/
theorem sameRun_evaluateWith {emit emit' : Node → EmitM Unit} {id : NodeId} {pin : PinId}
    (h : ∀ n, s.Starts env.graph id pin n → SameRun env s (emit n) (emit' n)) :
    SameRun env s (evaluateWith emit id pin) (evaluateWith emit' id pin) := by
  by_cases hstarts : ∃ n, s.Starts env.graph id pin n
  · obtain ⟨n, hstarts⟩ := hstarts
    rw [SameRun, run_evaluateWith_of_starts hstarts, run_evaluateWith_of_starts hstarts]
    exact (h n hstarts).bind fun _ _ _ ↦ rfl
  · obtain ⟨r, hends⟩ := ends_evaluateWith_of_not_starts (not_exists.mp hstarts)
    exact (hends emit).trans (hends emit').symm

/-- The outputs that are needed in the stages, one from another, by emitters that are allowed where they
start. -/
structure Confines (g : Graph) (allowed : ShaderStage → Node → Prop) (I : EmitState → Prop)
    (needed : ShaderStage → OutputRef → Prop) : Prop extends Lasting I where
  own : ∀ s t own, I s → s.Keeps own t → I t
  starts : ∀ s o n, I s → needed s.stage o → s.Starts g o.node o.pin n →
    allowed s.stage n ∧ ∀ o', g.Needs n o' → needed (n.kind.inputStage s.stage) o'

/-- Where all emitters that are needed one from another are allowed, no other one runs. -/
theorem sameRun_evaluateAmong {allowed : ShaderStage → Node → Prop}
    [∀ stage, DecidablePred (allowed stage)] {needed : ShaderStage → OutputRef → Prop}
    (hkeyed : env.graph.IsKeyed) (h : Confines env.graph allowed I needed) (refusal : CompileError)
    (depth : Nat) {o : OutputRef} (hs : I s) (ho : needed s.stage o) :
    SameRun env s (evaluateAmong allowed refusal depth o.node o.pin)
      (evaluateWithin depth o.node o.pin) := by
  induction depth generalizing s o with
  | zero => rfl
  | succ depth ih =>
    rw [evaluateAmong, evaluateWithin_succ]
    refine sameRun_evaluateWith fun n hstarts ↦ ?_
    obtain ⟨hallowed, hneeds⟩ := h.starts s o n hs ho hstarts
    rw [SameRun, run_bind_of_returns (returns_currentStage.mpr ⟨rfl, rfl⟩), if_pos hallowed]
    refine sameRun_runNode (sameRun_emitKind hkeyed h.toLasting (h.beginNode s _ hs)
      (fun t u ht _ ↦ h.own t u _ ht) ?_)
    exact fun o' ho' t ht hstage ↦ ih ht (hstage ▸ hneeds o' ho')

/-- An evaluation that starts an emitter ends in the state in which this returns. -/
theorem returns_of_starts {emit : Node → EmitM Unit} {id : NodeId} {pin : PinId} {v : Variable}
    {t : EmitState} (hstarts : s.Starts env.graph id pin n)
    (h : Returns env (evaluateWith emit id pin) s v t) : Returns env (emit n) s () t := by
  rw [Returns, run_evaluateWith_of_starts hstarts] at h
  obtain ⟨⟨⟩, u, hemit, h⟩ := returns_bind.mp h
  simp only [returns_bind, returns_lookup] at h
  obtain ⟨v?, _, ⟨rfl, rfl⟩, h⟩ := h
  split at h
  · obtain ⟨-, rfl⟩ := returns_pure.mp h
    exact hemit
  · exact absurd h returns_throw

/-- An evaluation finds the output bound, or the emitter of its node returns. -/
theorem evaluateWith_cases {emit : Node → EmitM Unit} {id : NodeId} {pin : PinId} {v : Variable}
    {t : EmitState} (h : Returns env (evaluateWith emit id pin) s v t) :
    t = s ∨ ∃ n, s.Starts env.graph id pin n ∧ Returns env (emit n) s () t := by
  by_cases hstarts : ∃ n, s.Starts env.graph id pin n
  · obtain ⟨n, hstarts⟩ := hstarts
    exact .inr ⟨n, hstarts, returns_of_starts hstarts h⟩
  · obtain ⟨r, hends⟩ := ends_evaluateWith_of_not_starts (not_exists.mp hstarts)
    cases (hends emit).symm.trans h
    exact .inl rfl

end Evaluation

/-! ## Bound outputs -/

/-- What is bound stays bound. -/
theorem StageShader.Keeps.boundPins {own : List PinId} {a b : StageShader} (h : a.Keeps own b) :
    a.boundPins ⊆ b.boundPins := by
  obtain ⟨new, old, hb, hold⟩ := h.bindings
  obtain ⟨added, houter⟩ := h.outer
  have hkeys : old.map Prod.fst = a.bindings.map Prod.fst :=
    List.forall₂_eq_eq_eq ▸ (List.forall₂_map_left_iff.mpr (List.forall₂_map_right_iff.mpr
      (hold.flip.imp fun _ _ hbc ↦ hbc.1)))
  intro pin hpin
  rw [StageShader.boundPins, hb, houter, List.map_append, List.map_append, hkeys]
  rcases List.mem_append.mp hpin with hpin | hpin
  · exact List.mem_append_left _ (List.mem_append_right _ hpin)
  · exact List.mem_append_right _ (List.mem_append_left _ hpin)

/-- The pins that are bound in the current stage. -/
def EmitState.boundPins (s : EmitState) : List PinId :=
  (s.shader s.stage).boundPins

theorem EmitState.Retains.boundPins {own : List PinId} {s t : EmitState} (h : s.Retains own t) :
    s.boundPins ⊆ t.boundPins := by
  rw [EmitState.boundPins, EmitState.boundPins, h.stage]
  exact (h.shader s.stage).boundPins

section Demands

variable {env : EmitEnv} {n : Node} {depth : Nat} {s t : EmitState}

theorem mem_boundPins_of_returns {id : NodeId} {pin : PinId} {v : Variable}
    (h : Returns env (evaluateWithin depth id pin) s v t) : pin ∈ t.boundPins := by
  have hbound : t.binding? pin = some v := by
    obtain ⟨hbound, rfl⟩ | ⟨_, _, _, _, _, _, _, _, _, _, hbound⟩ := evaluateWithin_cases h
    · exact hbound
    · exact hbound
  exact StageShader.isSome_binding?_iff.mp (by
    rw [EmitState.binding?] at hbound
    rw [hbound]
    rfl)

/-- What is hoisted is bound. -/
theorem mem_boundPins_of_hoist {outputs : List OutputRef}
    (hneeds : ∀ o ∈ outputs, env.graph.Needs n o)
    (h : Returns env (hoist (evaluateWithin depth) outputs) s () t) :
    ∀ o ∈ outputs, o.pin ∈ t.boundPins := by
  induction outputs generalizing s with
  | nil => simp
  | cons o os ih =>
    obtain ⟨-, hneeds⟩ := List.forall_mem_cons.mp hneeds
    obtain ⟨u, ho, hrest⟩ := returns_forM_cons.mp h
    obtain ⟨v, u', hdemand, hpure⟩ := returns_bind.mp ho
    obtain ⟨-, rfl⟩ := returns_pure.mp hpure
    have hretains : u.Retains (ownPins none) t :=
      (Composed.hoist hneeds).retains depth (r := .ok ()) hrest
    exact List.forall_mem_cons.mpr
      ⟨hretains.boundPins (mem_boundPins_of_returns hdemand), ih hneeds hrest⟩

end Demands

end ShaderGraph
