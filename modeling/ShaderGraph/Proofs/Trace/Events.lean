import ShaderGraph.Proofs.Graph.Wiring
import ShaderGraph.Proofs.Lockstep.Program
import ShaderGraph.Proofs.Trace.Writing

/-!
# Traces

A run of an emitter passes through moments: an emitter starts, a scope is opened or closed, an output
is bound. `Traced` relates an action of an emitter, as a function of the demand that it is given, to
its moments, its result and the state in which it ends, which may be a failure. What an action demands
is evaluated to a bounded depth, as by `evaluateWithin`.
-/

namespace ShaderGraph

open EmitM

/-- What happens at a moment. An output is bound in the innermost scope or outside of all scopes. -/
inductive Event
  | start (id : NodeId)
  | openScope
  | closeScope
  | bind (pin : PinId)
  | bindOuter (pin : PinId)
deriving DecidableEq

/-- An event, which takes place in the current stage, and the state right after it. -/
structure Moment where
  event : Event
  state : EmitState

namespace Moment

def stage (m : Moment) : ShaderStage :=
  m.state.stage

/-- The number of scopes that are open in the stage of the event. -/
def depth (m : Moment) : Nat :=
  (m.state.shader m.stage).scopeDepth

end Moment

/-- Kinds whose emitters open scopes. -/
def NodeKind.opensScope : NodeKind → Bool
  | .conditional .. | .switch .. => true
  | k => k.isLoop

theorem NodeKind.opensScope_of_isLoop {k : NodeKind} (h : k.isLoop) : k.opensScope := by
  cases k <;> first | exact h | rfl

/-- A connection starts at the output pin of the node. -/
def Graph.IsSource (g : Graph) (id : NodeId) (pin : PinId) : Prop :=
  ∃ c ∈ g.connections.values, c.fromNode = id ∧ c.fromPin = pin

namespace Graph.IsSource

variable {g : Graph}

theorem of_driver {pin : PinId} {c : Connection} (h : g.driver? pin = some c) :
    g.IsSource c.fromNode c.fromPin := by
  obtain ⟨id, -, hc⟩ := Option.bind_eq_some_iff.mp h
  exact ⟨c, OrderedMap.mem_values_of_get? hc, rfl, rfl⟩

theorem of_upstream {stop : NodeKind → Bool} {pin : PinId} {o : OutputRef}
    (h : g.Upstream stop pin o) : g.IsSource o.node o.pin := by
  cases h with
  | driver hc => exact of_driver hc
  | through _ _ _ _ hc => exact of_driver hc

end Graph.IsSource

/-- The evaluation of a pin starts the emitter of the node: neither the pin nor another output of the
node is bound, and the emitter is not running. -/
structure EmitState.Starts (g : Graph) (s : EmitState) (id : NodeId) (pin : PinId) (n : Node) :
    Prop where
  node : g.node? id = some n
  unbound : s.binding? pin = none
  idle : id ∉ s.inProgress
  alone : s.hasSibling n pin = false

namespace EmitM

/-- The action ends with a result or a failure. -/
def Ends {α : Type} (env : EmitEnv) (x : EmitM α) (s : EmitState) (r : Except CompileError α)
    (t : EmitState) : Prop :=
  (x.run env).run.run s = (r, t)

end EmitM

/-- The moments of an action, the result or failure in which it ends, and the state that it leaves
behind. `own?` is the node whose emitter acts, and `names` are the outputs of that node that the action
binds itself, one after another. -/
inductive Traced (env : EmitEnv) : (depth : Nat) → (own? : Option Node) → (names : List String) →
    {α : Type} → (Demand → EmitM α) → EmitState → List Moment → Except CompileError α →
      EmitState → Prop
  /-- An action that demands nothing and binds nothing. -/
  | quiet {depth : Nat} {own? : Option Node} {α : Type} {x : EmitM α} {s t : EmitState}
    {r : Except CompileError α} (hends : Ends env x s r t) (hwritten : s.Written t) :
    Traced env depth own? [] (fun _ ↦ x) s [] r t
  | bind {depth : Nat} {own? : Option Node} {names names' : List String} {α β : Type}
    {x : Demand → EmitM α} {f : α → Demand → EmitM β} {s t u : EmitState} {τ σ : List Moment} {a : α}
    {r : Except CompileError β} (hx : Traced env depth own? names x s τ (.ok a) t)
    (hf : Traced env depth own? names' (f a) t σ r u) :
    Traced env depth own? (names ++ names') (fun demand ↦ x demand >>= fun a ↦ f a demand) s (τ ++ σ)
      r u
  | fail {depth : Nat} {own? : Option Node} {names : List String} {α β : Type}
    {x : Demand → EmitM α} {f : α → Demand → EmitM β} {s t : EmitState} {τ : List Moment}
    {e : CompileError} (hx : Traced env depth own? names x s τ (.error e) t) :
    Traced env depth own? names (fun demand ↦ x demand >>= fun a ↦ f a demand) s τ (.error e) t
  | output {depth : Nat} {n : Node} {pin : String} {p : Pin} {v : Variable} {s : EmitState}
    (hp : n.output? pin = some p) :
    Traced env depth (some n) [pin] (fun _ ↦ bindOutput n pin v) s
      [⟨.bind p.id, s.bindPin p.id v⟩] (.ok v) (s.bindPin p.id v)
  | retype {depth : Nat} {n : Node} {pin : String} {p : Pin} {type : ValueType} {s : EmitState}
    (hp : n.output? pin = some p) :
    Traced env depth (some n) [] (fun _ ↦ retypeOutput n pin type) s [] (.ok ()) (s.retype p.id type)
  | outer {depth : Nat} {n : Node} {pin : String} {p : Pin} {v : Variable} {s t : EmitState}
    (hp : n.output? pin = some p) (hstage : s.stage = .pixel)
    (ht : t = s.modifyShader .pixel fun shader ↦ shader.bindOuter p.id v) :
    Traced env depth (some n) [pin] (fun _ ↦ bindOuter .pixel n pin v) s
      [⟨.bindOuter p.id, t⟩] (.ok ()) t
  | capture {depth : Nat} {n : Node} {names : List String} {α : Type} {x : Demand → EmitM α}
    {s u : EmitState} {τ : List Moment} {r : Except CompileError α} (hkind : n.kind.opensScope)
    (h : Traced env depth (some n) names x s.beginCapture τ r u) :
    Traced env depth (some n) names (fun demand ↦ capture (x demand)) s
      (⟨.openScope, s.beginCapture⟩ :: (τ ++ [⟨.closeScope, u.endCapture s.stage⟩]))
      (r.map fun a ↦ (a, u.capturedText s.stage)) (u.endCapture s.stage)
  /-- The input of an interpolator is evaluated in the vertex stage. -/
  | cross {depth : Nat} {n : Node} {pin : String} {s u : EmitState} {τ : List Moment}
    {r : Except CompileError Variable} (hstage : s.stage = .pixel)
    (h : Traced env depth none [] (fun demand ↦ requireInput demand n pin)
      { s with stage := .vertex } τ r u) :
    Traced env depth (some n) [] (fun demand ↦ Emitter.vertexValue demand n pin) s τ r
      { u with stage := .pixel }
  /-- A demand that starts no emitter. -/
  | find {depth : Nat} {own? : Option Node} {id : NodeId} {pin : PinId} {s : EmitState}
    {r : Except CompileError Variable} (hsource : env.graph.IsSource id pin)
    (hnone : depth = 0 ∨ ∀ n, ¬ s.Starts env.graph id pin n)
    (hends : Ends env (evaluateWithin depth id pin) s r s) :
    Traced env depth own? [] (fun demand ↦ demand id pin) s [] r s
  /-- A demand that starts an emitter. On a node with the outputs of its kind, under distinct names, an
  emitter binds no output twice. -/
  | start {depth : Nat} {own? : Option Node} {id : NodeId} {pin : PinId} {n : Node}
    {names : List String} {s u : EmitState} {τ : List Moment} {r : Except CompileError Unit}
    {r' : Except CompileError Variable} (hsource : env.graph.IsSource id pin)
    (hstarts : s.Starts env.graph id pin n)
    (h : Traced env depth (some n) names (fun demand ↦ emitKind demand n) (s.beginNode n.id) τ r u)
    (hnames : n.IsLaidOut → (n.outputs.map Pin.name).Nodup → names.Nodup)
    (hends : Ends env (evaluateWithin (depth + 1) id pin) s r' (u.endNode n.id)) :
    Traced env (depth + 1) own? [] (fun demand ↦ demand id pin) s
      (⟨.start n.id, s.beginNode n.id⟩ :: τ) r' (u.endNode n.id)

namespace EmitM

variable {env : EmitEnv} {α β : Type} {s t u : EmitState}

theorem ends_bind_ok {x : EmitM α} {f : α → EmitM β} {a : α} {r : Except CompileError β}
    (hx : Ends env x s (.ok a) t) (hf : Ends env (f a) t r u) : Ends env (x >>= f) s r u :=
  (run_bind_of_returns hx).trans hf

theorem ends_bind_error {x : EmitM α} {f : α → EmitM β} {e : CompileError}
    (hx : Ends env x s (.error e) t) : Ends env (x >>= f) s (.error e) t := by
  simp only [Ends, ReaderT.run_bind, ExceptT.run_bind, StateT.run_bind] at hx ⊢
  rw [hx]
  rfl

/-- The end of a composed action is the end of its second part, or the failure of its first. -/
theorem ends_bind_cases {x : EmitM α} {f : α → EmitM β} {r : Except CompileError β}
    (h : Ends env (x >>= f) s r u) :
    (∃ a t, Ends env x s (.ok a) t ∧ Ends env (f a) t r u) ∨
      ∃ e, Ends env x s (.error e) u ∧ r = .error e := by
  cases hx : (x.run env).run.run s with
  | mk result t =>
    cases result with
    | ok a => exact .inl ⟨a, t, hx, (run_bind_of_returns hx).symm.trans h⟩
    | error e =>
      have hfail : Ends env (x >>= f) s (.error e) t := ends_bind_error hx
      cases hfail.symm.trans h
      exact .inr ⟨e, hx, rfl⟩

end EmitM

namespace Traced

variable {env : EmitEnv} {depth : Nat} {own? : Option Node} {names : List String} {α : Type}
  {x : Demand → EmitM α} {s t : EmitState} {τ : List Moment} {r : Except CompileError α}

/-- A trace tells how its action ends, under every demand that evaluates outputs to its depth. -/
theorem ends (h : Traced env depth own? names x s τ r t) {demand : Demand}
    (hdemand : ∀ id pin, (demand id pin).run env = (evaluateWithin depth id pin).run env) :
    Ends env (x demand) s r t := by
  induction h with
  | quiet hends => exact hends
  | bind _ _ ih ih' => exact ends_bind_ok (ih hdemand) (ih' hdemand)
  | fail _ ih => exact ends_bind_error (ih hdemand)
  | output hp => exact returns_bindOutput.mpr ⟨_, hp, rfl, rfl⟩
  | retype hp => exact returns_retypeOutput.mpr ⟨_, hp, rfl⟩
  | outer hp _ ht => exact returns_bindOuter.mpr ⟨_, hp, ht⟩
  | capture _ _ ih =>
    rw [Ends, Lock.run_capture, ih hdemand]
    rfl
  | @cross _ _ _ _ _ _ r _ _ ih =>
    rw [Ends, Lock.run_vertexValue, ih hdemand]
    cases r <;> rfl
  | find _ _ hends => rw [Ends, hdemand]; exact hends
  | start _ _ _ _ hends _ => rw [Ends, hdemand]; exact hends

end Traced

end ShaderGraph
