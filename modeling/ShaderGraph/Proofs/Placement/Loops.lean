import ShaderGraph.Proofs.Graph.Dependence
import ShaderGraph.Proofs.Placement.Bodies
import ShaderGraph.Proofs.Placement.Restriction
import ShaderGraph.Proofs.Trace.Bindings

/-!
# Work in the bodies of loops

While the body of a loop is captured, the outputs ahead of it are bound. So the emitters that run belong
to nodes that depend on the loop, and they run in the stage of the loop. This holds as long as branches
in the body share no other work than what is bound in front of the loop. The search for what branches
share goes on behind the frontier, though, and then such work is evaluated in the body, over and over.
-/

namespace ShaderGraph

open EmitM Emitter

/-! ## In front of a loop -/

/-- States in which a loop is running and all pins are bound that were so in a stage of another state. -/
structure EmitState.Remains (entry : EmitState) (loop : NodeId) (s : EmitState) : Prop where
  running : loop ∈ s.inProgress
  bound : (entry.shader entry.stage).boundPins ⊆ (s.shader entry.stage).boundPins

theorem EmitState.Remains.of_keeps {entry s t : EmitState} {loop : NodeId} {own : List PinId}
    (hs : entry.Remains loop s) (h : s.Keeps own t) : entry.Remains loop t :=
  ⟨h.inProgress ▸ hs.running, List.Subset.trans hs.bound (h.shader entry.stage).boundPins⟩

theorem EmitState.lasting_remains (entry : EmitState) (loop : NodeId) :
    Lasting (entry.Remains loop) where
  keeps _ _ hs h := hs.of_keeps h
  beginCapture s hs := by
    refine ⟨?_, ?_⟩
    · rw [EmitState.beginCapture, EmitState.inProgress_modifyShader]
      exact hs.running
    · rw [boundPins_beginCapture]
      exact hs.bound
  beginNode s id hs := ⟨List.mem_cons_of_mem _ hs.running, hs.bound⟩
  enter s stage hs := ⟨hs.running, hs.bound⟩

/-- What is known before the body of a loop is captured. -/
structure LoopHead where
  initial? : Option Variable
  output : Variable
  names : List String

/-- The part of the emitter of a loop that runs before the body is captured. -/
def Emitter.loopHead (demand : Demand) (n : Node) (loop : Loop) : EmitM LoopHead := do
  hoist demand ((← read).graph.frontier n ["Input", "Condition"])
  let initial? ← initialValue? demand n
  let output ← emitOutput n "Output" ((initial?.map Variable.type).getD .void)
  let names ← loop.counters.mapM fun _ ↦ freshName
  return ⟨initial?, output, names⟩

section Head

variable {env : EmitEnv} {demand : Demand} {depth : Nat} {n : Node} {loop : Loop} {head : LoopHead}
  {s t : EmitState}

/-- A loop that is emitted captures its body after its head. -/
theorem exists_loopHead (h : Returns env (emitLoop demand n loop) s () t) :
    ∃ head entry result u, Returns env (loopHead demand n loop) s head entry ∧
      Returns env (capture (loopBody demand n loop head.names)) entry result u := by
  simp only [emitLoop, returns_bind] at h
  obtain ⟨e, s₁, hread, ⟨⟩, s₂, hhoist, initial?, s₃, hinitial, output, s₄, houtput, names, entry,
    hnames, result, u, hbody, -⟩ := h
  refine ⟨⟨initial?, output, names⟩, entry, result, u, ?_, hbody⟩
  simp only [loopHead, returns_bind, returns_pure]
  exact ⟨e, s₁, hread, (), s₂, hhoist, initial?, s₃, hinitial, output, s₄, houtput, names, entry,
    hnames, rfl, rfl⟩

/-- What drives the initial value is bound. -/
theorem mem_boundPins_of_initialValue? {initial? : Option Variable} {p : Pin} {c : Connection}
    (h : Returns env (initialValue? (evaluateWithin depth) n) s initial? t)
    (hp : n.input? "Initial" = some p) (hc : env.graph.driver? p.id = some c) :
    c.fromPin ∈ t.boundPins := by
  simp only [initialValue?, hp, Option.isNone_some, Bool.false_eq_true, if_false, returns_bind] at h
  obtain ⟨value?, u, hread, h⟩ := h
  obtain rfl : t = u := by
    cases value? with
    | none => exact (returns_pure.mp h).2
    | some v =>
      dsimp only at h
      split at h
      · simp [returns_map, returns_throw] at h
      · exact (returns_pure.mp h).2
  obtain ⟨q, hq, ⟨c', v, hc', -, hdemand⟩ | ⟨hnone, -⟩⟩ := inputValue?_cases hread
  · cases hp.symm.trans hq
    cases hc.symm.trans hc'
    exact mem_boundPins_of_returns hdemand
  · cases hp.symm.trans hq
    cases hc.symm.trans hnone

/-- Where the body of a loop begins, what is ahead of it is bound. -/
theorem LoopHead.mem_boundPins (hkeyed : env.graph.IsKeyed) (hloop : n.kind.isLoop)
    (h : Returns env (loopHead (evaluateWithin depth) n loop) s head t) :
    t.stage = s.stage ∧ t.inProgress = s.inProgress ∧
      ∀ o, env.graph.IsAhead n o → o.pin ∈ t.boundPins := by
  simp only [loopHead, returns_bind, returns_read, returns_pure] at h
  obtain ⟨e, s₁, ⟨rfl, rfl⟩, ⟨⟩, s₂, hhoist, initial?, s₃, hinitial, output, s₄, houtput, names, s₅,
    hnames, rfl, rfl⟩ := h
  have hneeds : ∀ o ∈ env.graph.frontier n ["Input", "Condition"], env.graph.Needs n o :=
    fun _ ho ↦ .hoisted (by rwa [Graph.hoisted_of_isLoop hloop])
  have hcomposed : Composed env n none [] fun demand ↦
      hoist demand (env.graph.frontier n ["Input", "Condition"]) := .hoist hneeds
  have hhoisted : s₁.Keeps [] s₂ := hcomposed.keeps depth hkeyed (r := .ok ()) hhoist
  have hvalue : s₂.Keeps (ownPins (some n)) s₃ :=
    Composed.initialValue?.keeps depth hkeyed (r := .ok initial?) hinitial
  have hrest : s₃.Keeps (ownPins (some n)) t :=
    ((Composed.emitOutput "Output" _).followed fun _ ↦
      .silent (.mapM (fun _ ↦ .freshName) loop.counters)).keeps depth hkeyed
      (r := .ok names) (returns_bind.mpr ⟨output, s₄, houtput, hnames⟩)
  refine ⟨?_, ?_, fun o ho ↦ ?_⟩
  · rw [hrest.stage, hvalue.stage, hhoisted.stage]
  · rw [hrest.inProgress, hvalue.inProgress, hhoisted.inProgress]
  · cases ho with
    | frontier ho =>
      exact hrest.boundPins (hvalue.boundPins (mem_boundPins_of_hoist hneeds hhoist o ho))
    | initial hp hc => exact hrest.boundPins (mem_boundPins_of_initialValue? hinitial hp hc)

end Head

/-! ## Bodies -/

/-- Nodes whose emitters run in the body of a loop: they depend on the loop, and run in its stage. -/
def Graph.BelongsInBody (g : Graph) (loop : NodeId) (home stage : ShaderStage) (n : Node) : Prop :=
  stage = home ∧ n.id ≠ loop ∧ g.DependsOn loop n.id

instance (g : Graph) (loop : NodeId) (home stage : ShaderStage) :
    DecidablePred (g.BelongsInBody loop home stage) :=
  fun _ ↦ inferInstanceAs (Decidable (_ ∧ _ ∧ _))

/-- What the branches in the body of a loop share is bound in the state, or depends on the loop as well. -/
def Graph.SharesBound (g : Graph) (loop : Node) (s : EmitState) : Prop :=
  ∀ o, g.InBody loop o → ∀ n, g.node? o.node = some n → n.kind.isLoop = false →
    g.DependsOn loop.id n.id → ∀ o' ∈ g.hoisted n, g.DependsOn loop.id o'.node ∨ o'.pin ∈ s.boundPins

/-- What is needed in the body of a loop: the outputs of the body, and those that are bound. -/
def Graph.NeededInBody (g : Graph) (loop : Node) (entry : EmitState) (stage : ShaderStage)
    (o : OutputRef) : Prop :=
  stage = entry.stage ∧ (g.InBody loop o ∨ o.pin ∈ entry.boundPins)

section Bodies

variable {env : EmitEnv} {n : Node} {loop : Loop} {entry : EmitState}

/-- Of what is needed in the body of a loop only nodes are evaluated that depend on the loop. -/
theorem confines_body (hkeyed : env.graph.IsKeyed) (hlaidOut : env.graph.IsLaidOut)
    (hnode : env.graph.node? n.id = some n) (hloop : n.kind.isLoop)
    (hahead : ∀ o, env.graph.IsAhead n o → ¬ env.graph.DependsOn n.id o.node)
    (hbound : ∀ o, env.graph.IsAhead n o → o.pin ∈ entry.boundPins)
    (hshared : env.graph.SharesBound n entry) :
    Confines env.graph (env.graph.BelongsInBody n.id entry.stage) (entry.Remains n.id)
      (env.graph.NeededInBody n entry) where
  toLasting := entry.lasting_remains n.id
  own _ _ _ hs h := hs.of_keeps h
  starts s o m hs := by
    rintro ⟨hstage, hneeded⟩ hstarts
    have hunbound : o.pin ∉ entry.boundPins := fun hpin ↦ by
      have hsome := StageShader.isSome_binding?_iff.mpr (hs.bound hpin)
      rw [← hstage] at hsome
      have hnone : (s.shader s.stage).binding? o.pin = none := hstarts.unbound
      simp [hnone] at hsome
    have hbody := hneeded.resolve_right hunbound
    have hbehind : ¬ env.graph.IsAhead n o := fun ho ↦ hunbound (hbound o ho)
    have hne : o.node ≠ n.id := fun hsame ↦ hstarts.idle (hsame ▸ hs.running)
    have hdepends := hbody.dependsOn hbehind
    have hid : m.id = o.node := hkeyed.id_eq hstarts.node
    refine ⟨⟨hstage, hid ▸ hne, hid ▸ hdepends⟩, fun o' ho' ↦ ⟨?_, ?_⟩⟩
    · rw [NodeKind.inputStage, hdepends.isInterpolator_eq_false hne hstarts.node, hstage]
      rfl
    · obtain hbody' | hahead' | ⟨hplain, hhoisted, hindependent⟩ :=
        hbody.needs hlaidOut hahead hkeyed hnode hloop hne hbehind hstarts.node ho'
      · exact .inl hbody'
      · exact .inr (hbound o' hahead')
      · exact .inr ((hshared o hbody m hstarts.node hplain (hid ▸ hdepends) o'
          hhoisted).resolve_left hindependent)

/-- What a loop itself needs is in its body or ahead of it. -/
theorem Graph.Needs.of_isLoop {g : Graph} (hlaidOut : n.IsLaidOut) (hloop : n.kind.isLoop)
    {o : OutputRef} (h : g.Needs n o) : g.InBody n o ∨ g.IsAhead n o := by
  cases h with
  | @input pin p c hp hc =>
    have hmem := List.mem_of_find?_eq_some hp
    obtain hbody | hinitial := Graph.name_mem_of_isLoop hlaidOut hloop hmem
    · exact .inl (.driver hbody (hlaidOut.input?_name hmem) hc)
    · exact .inr (.initial (hinitial ▸ hlaidOut.input?_name hmem) hc)
  | hoisted ho =>
    rw [Graph.hoisted_of_isLoop hloop] at ho
    exact .inr (.frontier ho)

/-- Evaluations that may start the emitters of a body only do not leave the stage of the loop. -/
theorem evaluateAmong_staysWithinStage (hkeyed : env.graph.IsKeyed) (loop : NodeId)
    (home : ShaderStage) (refusal : CompileError) (depth : Nat) :
    (evaluateAmong (env.graph.BelongsInBody loop home) refusal depth).StaysWithinStage env := by
  induction depth with
  | zero =>
    intro id pin s v t h
    rw [evaluateAmong, evaluateWithin_zero] at h
    obtain rfl | ⟨m, -, hemit⟩ := evaluateWith_cases h
    · exact .refl _
    · exact absurd hemit returns_throw
  | succ depth ih =>
    intro id pin s v t h
    rw [evaluateAmong] at h
    obtain rfl | ⟨m, hstarts, hemit⟩ := evaluateWith_cases h
    · exact .refl _
    · rw [Returns, run_bind_of_returns (returns_currentStage.mpr ⟨rfl, rfl⟩)] at hemit
      by_cases hallowed : env.graph.BelongsInBody loop home s.stage m
      · rw [if_pos hallowed] at hemit
        obtain ⟨u, hrun, rfl⟩ := returns_runNode.mp hemit
        obtain ⟨-, hne, hdepends⟩ := hallowed
        have hkind : m.kind.isInterpolator = false :=
          hdepends.isInterpolator_eq_false hne (hkeyed.id_eq hstarts.node ▸ hstarts.node)
        cases nodeRun_of_returns (fun id pin s v t h ↦ (ih id pin s v t h).stage) hrun with
        | within _ hmoves =>
          have hwithin := hmoves.withinStage ih
          exact ⟨hwithin.stage, hwithin.elsewhere⟩
        | across hacross => simp [hacross, NodeKind.isInterpolator] at hkind
      · rw [if_neg hallowed] at hemit
        exact absurd hemit returns_throw

/-- A captured body that is evaluated without leaving the stage leaves the other one alone. -/
theorem capture_loopBody_withinStage {demand : Demand} {names : List String}
    {result : (Variable × Option String) × String} {u : EmitState}
    (hdemand : demand.StaysWithinStage env)
    (h : Returns env (capture (loopBody demand n loop names)) entry result u) :
    entry.WithinStage u := by
  obtain ⟨t, hbody, -, rfl⟩ := returns_capture.mp h
  obtain ⟨_, -, -, hmoves⟩ :=
    Moves.loopBody (Moves.refl.move (Move.beginCapture (n := n))) hbody
  have hwithin := hmoves.withinStage hdemand
  have hend : Move n t (t.endCapture entry.stage) := .endCapture hwithin.stage
  exact hwithin.trans ⟨hend.stage, hend.elsewhere⟩

/-- Where what branches of the body share is bound before the body begins, no other emitters run while it
is captured than those of nodes that depend on the loop, in the stage of the loop. -/
theorem loopBody_confined (hkeyed : env.graph.IsKeyed) (hlaidOut : env.graph.IsLaidOut)
    (hnode : env.graph.node? n.id = some n) (hloop : n.kind.isLoop)
    (hahead : ∀ o, env.graph.IsAhead n o → ¬ env.graph.DependsOn n.id o.node) {depth : Nat}
    {s : EmitState} {head : LoopHead} (hrunning : n.id ∈ s.inProgress)
    (hhead : Returns env (loopHead (evaluateWithin depth) n loop) s head entry)
    (hshared : env.graph.SharesBound n entry) (refusal : CompileError) :
    SameRun env entry
      (capture (loopBody (evaluateAmong (env.graph.BelongsInBody n.id s.stage) refusal depth) n loop
        head.names))
      (capture (loopBody (evaluateWithin depth) n loop head.names)) := by
  obtain ⟨hstage, hinProgress, hbound⟩ := LoopHead.mem_boundPins hkeyed hloop hhead
  have hconfines := confines_body hkeyed hlaidOut hnode hloop hahead hbound hshared
  have hentry : entry.Remains n.id entry := ⟨hinProgress ▸ hrunning, List.Subset.refl _⟩
  rw [← hstage]
  have hdemand : ∀ o, env.graph.Needs n o → ∀ u, entry.Remains n.id u → u.stage = entry.stage →
      SameRun env u
        (evaluateAmong (env.graph.BelongsInBody n.id entry.stage) refusal depth o.node o.pin)
        (evaluateWithin depth o.node o.pin) := by
    intro o ho u hu hstage
    refine sameRun_evaluateAmong hkeyed hconfines refusal depth hu ⟨hstage, ?_⟩
    exact (ho.of_isLoop (hlaidOut.nodes n (OrderedMap.mem_values_of_get? hnode)) hloop).imp_right
      (hbound o)
  exact .capture ((Composed.loopBody loop head.names).sameRun hkeyed hconfines.toLasting
    (fun s t hs _ ↦ hconfines.own s t _ hs) hdemand (hconfines.beginCapture entry hentry)
    (EmitState.stage_modifyShader ..))

/-- Work that does not depend on a loop stays out of its body. Whenever a loop is emitted, its body is
captured all the same with an evaluation that refuses to start the emitters of nodes that do not depend on
the loop, and all emitters in the other stage, which is left as it was. What is ahead of the loop must not
depend on it, and what branches in the body share must be bound by then as far as it does not depend on
the loop. -/
theorem emitLoop_confined (settings : Settings) {g : Graph} (hkeyed : g.IsKeyed)
    (hlaidOut : g.IsLaidOut) (hnode : g.node? n.id = some n) (hloop : n.kind.isLoop)
    (hahead : ∀ o, g.IsAhead n o → ¬ g.DependsOn n.id o.node) {depth : Nat} {s t : EmitState}
    (hrunning : n.id ∈ s.inProgress)
    (hshared : ∀ head entry, Returns ⟨g, settings⟩ (loopHead (evaluateWithin depth) n loop) s head
      entry → g.SharesBound n entry)
    (h : Returns ⟨g, settings⟩ (emitLoop (evaluateWithin depth) n loop) s () t) :
    ∃ head entry result u,
      Returns ⟨g, settings⟩ (loopHead (evaluateWithin depth) n loop) s head entry ∧
      Returns ⟨g, settings⟩ (capture (loopBody (evaluateWithin depth) n loop head.names)) entry result
        u ∧
      (∀ refusal, Returns ⟨g, settings⟩ (capture (loopBody
        (evaluateAmong (g.BelongsInBody n.id s.stage) refusal depth) n loop head.names)) entry result
          u) ∧
      entry.WithinStage u := by
  obtain ⟨head, entry, result, u, hhead, hbody⟩ := exists_loopHead h
  have hconfined (refusal : CompileError) : Returns ⟨g, settings⟩ (capture (loopBody
      (evaluateAmong (g.BelongsInBody n.id s.stage) refusal depth) n loop head.names)) entry result u :=
    (loopBody_confined hkeyed hlaidOut hnode hloop hahead hrunning hhead (hshared head entry hhead)
      refusal).returns hbody
  refine ⟨head, entry, result, u, hhead, hbody, hconfined, ?_⟩
  exact capture_loopBody_withinStage
    (evaluateAmong_staysWithinStage hkeyed n.id s.stage (.cycle (.ofNode n)) depth) (hconfined _)

end Bodies

/-- A loop with a branch in its body, both arms of which use the same sine. -/
def sharedWork : Graph :=
  .numbered
    [.pixelOutput {}, .iterate 0 3, .conditional .less .auto, .arithmetic .add, .arithmetic .mul,
      .angle .sin, .uniform "A" .scalar]
    [⟨1, "Output", 0, "Input"⟩, ⟨2, "Output", 1, "Input"⟩, ⟨6, "Output", 2, "Input"⟩,
      ⟨6, "Output", 2, "Reference"⟩, ⟨3, "Output", 2, "CaseTrue"⟩, ⟨4, "Output", 2, "CaseFalse"⟩,
      ⟨5, "Output", 3, "Input1"⟩, ⟨1, "N", 3, "Input2"⟩, ⟨5, "Output", 4, "Input1"⟩,
      ⟨1, "N", 4, "Input2"⟩, ⟨6, "Output", 5, "Theta"⟩]

/-- A loop with one counter. -/
def fourTimes : Loop :=
  { counters := [⟨"N", some (0, 3)⟩] }

/-- The sine is evaluated in front of the loop, and the branch finds it bound. -/
theorem emitLoop_confined_sharedWork :
    ∃ n s t, sharedWork.node? (Graph.nodeNumber 1) = some n ∧
      Returns ⟨sharedWork, {}⟩ (emitLoop (evaluateWithin 8) n fourTimes) s () t ∧
      ∃ head entry result u,
        Returns ⟨sharedWork, {}⟩ (loopHead (evaluateWithin 8) n fourTimes) s head entry ∧
        (∀ refusal, Returns ⟨sharedWork, {}⟩ (capture (loopBody
          (evaluateAmong (sharedWork.BelongsInBody n.id s.stage) refusal 8) n fourTimes head.names))
          entry result u) ∧
        entry.WithinStage u := by
  let s : EmitState := { inProgress := [Graph.nodeNumber 1] }
  have hkeyed : sharedWork.IsKeyed := by decide +kernel
  have hlaidOut : sharedWork.IsLaidOut := by decide +kernel
  obtain ⟨n, hn⟩ : ∃ n, sharedWork.node? (Graph.nodeNumber 1) = some n :=
    Option.isSome_iff_exists.mp (by decide +kernel)
  have hloop : ∀ n ∈ sharedWork.node? (Graph.nodeNumber 1), n.kind.isLoop := by decide +kernel
  have hfrontier : ∀ n ∈ sharedWork.node? (Graph.nodeNumber 1),
      ∀ o ∈ sharedWork.frontier n ["Input", "Condition"], ¬ sharedWork.DependsOn n.id o.node := by
    decide +kernel
  have hinitial : ∀ n ∈ sharedWork.node? (Graph.nodeNumber 1), ∀ p ∈ n.input? "Initial",
      sharedWork.driver? p.id = none := by
    decide +kernel
  have hshared : ∀ n ∈ sharedWork.node? (Graph.nodeNumber 1), ∀ m ∈ sharedWork.nodes.values,
      m.kind.isLoop = false → ∀ o ∈ sharedWork.hoisted m, sharedWork.DependsOn n.id o.node ∨ o.pin ∈
        (((loopHead (evaluateWithin 8) n fourTimes).run ⟨sharedWork, {}⟩).run.run s).2.boundPins := by
    decide +kernel
  have hruns : ∀ n ∈ sharedWork.node? (Graph.nodeNumber 1),
      (((emitLoop (evaluateWithin 8) n fourTimes).run ⟨sharedWork, {}⟩).run.run s).1.isOk := by
    decide +kernel
  obtain ⟨⟨⟩, t, h⟩ := isOk_iff_returns.mp (hruns n hn)
  obtain ⟨head, entry, result, u, hhead, -, hconfined, hwithin⟩ :=
    emitLoop_confined {} hkeyed hlaidOut (hkeyed.id_eq hn ▸ hn) (hloop n hn)
      (fun o ho ↦ by
        cases ho with
        | frontier ho => exact hfrontier n hn o ho
        | initial hp hc =>
          rw [hinitial n hn _ hp] at hc
          cases hc)
      (List.mem_singleton.mpr (hkeyed.id_eq hn))
      (fun head entry hhead o _ m hm hplain _ ↦ by
        have hbound := hshared n hn m (OrderedMap.mem_values_of_get? hm) hplain
        rwa [show _ = (Except.ok head, entry) from hhead] at hbound) h
  exact ⟨n, s, t, hn, h, head, entry, result, u, hhead, hconfined, hwithin⟩

/-- The same, with the sine in an arm of another branch, of which only the output is evaluated in front of
the loop. -/
def sharedBehindBranch : Graph :=
  .numbered
    [.pixelOutput {}, .iterate 0 3, .conditional .less .auto, .arithmetic .add, .arithmetic .mul,
      .conditional .less .auto, .angle .sin, .uniform "A" .scalar]
    [⟨1, "Output", 0, "Input"⟩, ⟨2, "Output", 1, "Input"⟩, ⟨7, "Output", 2, "Input"⟩,
      ⟨7, "Output", 2, "Reference"⟩, ⟨3, "Output", 2, "CaseTrue"⟩, ⟨4, "Output", 2, "CaseFalse"⟩,
      ⟨5, "Output", 3, "Input1"⟩, ⟨1, "N", 3, "Input2"⟩, ⟨5, "Output", 4, "Input1"⟩,
      ⟨1, "N", 4, "Input2"⟩, ⟨7, "Output", 5, "Input"⟩, ⟨7, "Output", 5, "Reference"⟩,
      ⟨6, "Output", 5, "CaseTrue"⟩, ⟨7, "Output", 5, "CaseFalse"⟩, ⟨7, "Output", 6, "Theta"⟩]

/-- The sine does not depend on the loop, and yet the body is not captured if its emitter may not run. -/
theorem capture_sharedBehindBranch :
    sharedBehindBranch.Built ∧ sharedBehindBranch.IsLaidOut ∧ (compile {} sharedBehindBranch).isOk ∧
      ¬ sharedBehindBranch.DependsOn (Graph.nodeNumber 1) (Graph.nodeNumber 6) ∧
      ∃ n head entry, sharedBehindBranch.node? (Graph.nodeNumber 1) = some n ∧
        Returns ⟨sharedBehindBranch, {}⟩ (loopHead (evaluateWithin 8) n fourTimes)
          { inProgress := [n.id] } head entry ∧
        (∃ result u, Returns ⟨sharedBehindBranch, {}⟩
          (capture (loopBody (evaluateWithin 8) n fourTimes head.names)) entry result u) ∧
        ¬ ∃ result u, Returns ⟨sharedBehindBranch, {}⟩ (capture (loopBody
          (evaluateAmong (fun _ m ↦ m.id ≠ Graph.nodeNumber 6) (.cycle (.ofNode n)) 8) n fourTimes
            head.names)) entry result u := by
  let g := sharedBehindBranch
  obtain ⟨n, hn⟩ : ∃ n, g.node? (Graph.nodeNumber 1) = some n :=
    Option.isSome_iff_exists.mp (by decide +kernel)
  have hhead : ∀ n ∈ g.node? (Graph.nodeNumber 1), (((loopHead (evaluateWithin 8) n fourTimes).run
      ⟨g, {}⟩).run.run { inProgress := [n.id] }).1.isOk := by
    decide +kernel
  have hbody : ∀ n ∈ g.node? (Graph.nodeNumber 1),
      (((loopHead (evaluateWithin 8) n fourTimes >>= fun head ↦
        capture (loopBody (evaluateWithin 8) n fourTimes head.names)).run ⟨g, {}⟩).run.run
          { inProgress := [n.id] }).1.isOk := by
    decide +kernel
  have hrefused : ∀ n ∈ g.node? (Graph.nodeNumber 1),
      ¬ (((loopHead (evaluateWithin 8) n fourTimes >>= fun head ↦ capture (loopBody
        (evaluateAmong (fun _ m ↦ m.id ≠ Graph.nodeNumber 6) (.cycle (.ofNode n)) 8) n fourTimes
          head.names)).run ⟨g, {}⟩).run.run { inProgress := [n.id] }).1.isOk := by
    decide +kernel
  obtain ⟨head, entry, hreturns⟩ := isOk_iff_returns.mp (hhead n hn)
  have hbody := hbody n hn
  have hrefused := hrefused n hn
  rw [run_bind_of_returns hreturns, isOk_iff_returns] at hbody hrefused
  exact ⟨Graph.built_numbered _ _, by decide +kernel, by decide +kernel, by decide +kernel, n, head,
    entry, hn, hreturns, hbody, hrefused⟩

end ShaderGraph
