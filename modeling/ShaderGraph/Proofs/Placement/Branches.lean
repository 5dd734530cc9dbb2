import ShaderGraph.Proofs.Graph.Discovery
import ShaderGraph.Proofs.Placement.Restriction
import ShaderGraph.Proofs.Trace.Bindings

/-!
# Work that branches share

The outputs that are upstream of all branches are bound before the first branch is captured, and they
stay bound. An emitter starts only while no output of its node is bound, so no node that has such an
output runs in the stage of the branch from then on. This is told by capturing the branches with an
evaluation that refuses to start the emitters of these nodes: a conditional or switch is emitted all
the same.
-/

namespace ShaderGraph

open EmitM Emitter

/-! ## Shared work stays bound -/

/-- A node has none of the outputs, or the emission is not in the stage `home`. -/
def OwnsNone (home : ShaderStage) (shared : List OutputRef) (stage : ShaderStage) (n : Node) : Prop :=
  stage = home → ∀ p ∈ n.outputs, ∀ o ∈ shared, p.id ≠ o.pin

instance (home : ShaderStage) (shared : List OutputRef) (stage : ShaderStage) :
    DecidablePred (OwnsNone home shared stage) :=
  fun _ ↦ inferInstanceAs (Decidable (_ → ∀ _ ∈ _, ∀ _ ∈ _, _))

/-- The outputs are bound in the stage. -/
def EmitState.Binds (s : EmitState) (home : ShaderStage) (shared : List OutputRef) : Prop :=
  ∀ o ∈ shared, o.pin ∈ (s.shader home).boundPins

section Shared

variable {env : EmitEnv} {depth : Nat} {own? : Option Node} {names : List String} {α : Type}
  {x : Demand → EmitM α} {s t : EmitState} {home : ShaderStage} {shared : List OutputRef} {n : Node}

theorem EmitState.Binds.of_retains {own : List PinId} (hs : s.Binds home shared)
    (h : s.Retains own t) : t.Binds home shared :=
  fun o ho ↦ (h.shader home).boundPins (hs o ho)

/-- A node whose emitter starts has none of the outputs that are bound. -/
theorem EmitState.Binds.ownsNone (hs : s.Binds home shared) {id : NodeId} {pin : PinId}
    (h : s.Starts env.graph id pin n) : OwnsNone home shared s.stage n := by
  intro hstage p hp o ho hpin
  have hsome : ((s.shader home).binding? o.pin).isSome := StageShader.isSome_binding?_iff.mpr (hs o ho)
  have hnone : (s.shader s.stage).binding? p.id = none := h.outputs_unbound p hp
  rw [hstage, hpin] at hnone
  rw [hnone] at hsome
  cases hsome

/-- While the outputs are bound, a trace is also one under the evaluation that starts none of the nodes
that have them. -/
theorem Traced.ends_among {τ : List Moment} {r : Except CompileError α}
    (h : Traced env depth own? names x s τ r t) (refusal : CompileError) (hs : s.Binds home shared) :
    Ends env (x (evaluateAmong (OwnsNone home shared) refusal depth)) s r t := by
  induction h with
  | quiet hends => exact hends
  | bind hx _ ih ih' => exact ends_bind_ok (ih hs) (ih' (hs.of_retains hx.retains))
  | fail _ ih => exact ends_bind_error (ih hs)
  | output hp => exact returns_bindOutput.mpr ⟨_, hp, rfl, rfl⟩
  | retype hp => exact returns_retypeOutput.mpr ⟨_, hp, rfl⟩
  | outer hp _ ht => exact returns_bindOuter.mpr ⟨_, hp, ht⟩
  | capture _ _ ih =>
    rw [Ends, Lock.run_capture, ih fun o ho ↦ by rw [boundPins_beginCapture]; exact hs o ho]
    rfl
  | @cross _ _ _ s _ _ r _ _ ih =>
    have hvertex : EmitState.Binds { s with stage := .vertex } home shared := by
      cases home <;> exact hs
    rw [Ends, Lock.run_vertexValue, ih hvertex]
    cases r <;> rfl
  | @find depth _ _ _ _ _ _ hnone hends =>
    cases depth with
    | zero => exact hends
    | succ depth =>
      obtain ⟨r, hfound⟩ := ends_evaluateWith_of_not_starts (hnone.resolve_left (Nat.succ_ne_zero depth))
      rw [evaluateWithin_succ] at hends
      cases (hfound _).symm.trans hends
      exact hfound _
  | @start depth _ id pin n _ s _ _ _ _ _ hstarts htraced _ hends ih =>
    have hemit : SameRun env (s.beginNode n.id)
        (emitKind (evaluateAmong (OwnsNone home shared) refusal depth) n)
        (emitKind (evaluateWithin depth) n) :=
      (ih hs).trans (htraced.ends fun _ _ ↦ rfl).symm
    have hsame : SameRun env s (evaluateAmong (OwnsNone home shared) refusal (depth + 1) id pin)
        (evaluateWithin (depth + 1) id pin) := by
      rw [evaluateAmong, evaluateWithin_succ]
      refine sameRun_evaluateWith fun m hstarts' ↦ ?_
      obtain rfl : n = m := Option.some.inj (hstarts.node.symm.trans hstarts'.node)
      rw [SameRun, run_bind_of_returns (returns_currentStage.mpr ⟨rfl, rfl⟩),
        if_pos (hs.ownsNone hstarts)]
      exact sameRun_runNode hemit
    exact Eq.trans hsame hends

/-- While the outputs are bound, no action of an emitter runs the emitter of a node that has them. -/
theorem Composed.sameRun_among (h : Composed env n own? names x) (depth : Nat) (refusal : CompileError)
    (hs : s.Binds home shared) :
    SameRun env s (x (evaluateAmong (OwnsNone home shared) refusal depth)) (x (evaluateWithin depth)) := by
  obtain ⟨_, _, _, _, -, htraced⟩ := h.traceable (demandable env depth) s
  exact (htraced.ends_among refusal hs).trans (htraced.ends fun _ _ ↦ rfl).symm

/-- What is hoisted is bound in the stage. -/
theorem binds_of_hoist (hneeds : ∀ o ∈ shared, env.graph.Needs n o)
    (h : Returns env (hoist (evaluateWithin depth) shared) s () t) : t.Binds s.stage shared := by
  have hretains : s.Retains (ownPins none) t := (Composed.hoist hneeds).retains depth (r := .ok ()) h
  intro o ho
  rw [← hretains.stage]
  exact mem_boundPins_of_hoist hneeds h o ho

end Shared

/-! ## Branches -/

/-- Runs the emitter for the kind of a node, with a demand of its own inside of the branches. -/
def EmitM.emitBranching (demand inside : Demand) (n : Node) : EmitM Unit :=
  emitArms demand (fun _ ↦ ⟨inside, {}⟩) n

/-- Emitters have the same demand inside of the branches and outside. -/
theorem emitBranching_self (demand : Demand) (n : Node) :
    emitBranching demand demand n = emitKind demand n :=
  (emitKind_eq_emitArms demand n).symm

/-- Whatever a branch node demands runs the same as under an evaluation: the outputs in front of the
branch, then the operands of its test, and each arm under a demand of its own. The property `J` holds once
the outputs in front are evaluated. -/
structure ArmsRunAlike (env : EmitEnv) (depth : Nat) (demand : Demand) (arms : String → ArmRun) (n : Node)
    (s : EmitState) (J : EmitState → Prop) : Prop where
  hoist : SameRun env s (EmitM.hoist demand (env.graph.hoisted n))
    (EmitM.hoist (evaluateWithin depth) (env.graph.hoisted n))
  start : ∀ t, Returns env (EmitM.hoist (evaluateWithin depth) (env.graph.hoisted n)) s () t → J t
  retains : ∀ t own u, J t → t.Retains own u → J u
  beginCapture : ∀ t, J t → J t.beginCapture
  operand : ∀ pin ∉ n.kind.branchPins, ∀ t, J t →
    SameRun env t (requireInput demand n pin) (requireInput (evaluateWithin depth) n pin)
  arm : ∀ pin ∈ n.kind.branchPins, ∀ t, J t →
    SameRun env t (requireInput (arms pin).demand n pin) (requireInput (evaluateWithin depth) n pin)

namespace ArmsRunAlike

variable {env : EmitEnv} {depth : Nat} {demand : Demand} {arms : String → ArmRun} {n : Node}
  {s t : EmitState} {J : EmitState → Prop} {α : Type}

/-- After an operand of the test. -/
theorem scalarOperand (h : ArmsRunAlike env depth demand arms n s J) {pin : String}
    (hpin : pin ∉ n.kind.branchPins) (ht : J t) {f g : String → EmitM α}
    (hfg : ∀ operand u, J u → SameRun env u (f operand) (g operand)) :
    SameRun env t (EmitM.scalarOperand demand n pin >>= f)
      (EmitM.scalarOperand (evaluateWithin depth) n pin >>= g) := by
  have hoperand : SameRun env t (EmitM.scalarOperand demand n pin)
      (EmitM.scalarOperand (evaluateWithin depth) n pin) :=
    (h.operand pin hpin t ht).bind fun _ _ _ ↦ rfl
  refine hoperand.bind fun operand u hu ↦ hfg operand u ?_
  have hcomposed : Composed env n none [] fun demand ↦ EmitM.scalarOperand demand n pin :=
    .scalarOperand pin
  exact h.retains t _ u ht (hcomposed.retains depth (r := .ok operand) hu)

/-- After the capture of an arm. -/
theorem captureBranch (h : ArmsRunAlike env depth demand arms n s J) (hkind : n.kind.opensScope)
    {pin : String} (hpin : pin ∈ n.kind.branchPins) (ht : J t) {f g : Branch → EmitM α}
    (hfg : ∀ branch u, J u → SameRun env u (f branch) (g branch)) :
    SameRun env t (Emitter.captureBranch (arms pin).demand n pin >>= f)
      (Emitter.captureBranch (evaluateWithin depth) n pin >>= g) := by
  have harm : SameRun env t (Emitter.captureBranch (arms pin).demand n pin)
      (Emitter.captureBranch (evaluateWithin depth) n pin) :=
    (h.arm pin hpin _ (h.beginCapture t ht)).capture.bind fun _ _ _ ↦ rfl
  refine harm.bind fun branch u hu ↦ hfg branch u ?_
  have hcomposed : Composed env n (some n) [] fun demand ↦ Emitter.captureBranch demand n pin :=
    .captureBranch hkind pin
  exact h.retains t _ u ht (hcomposed.retains depth (r := .ok branch) hu)

/-- After the captures of several arms, one after another. -/
theorem captureBranches (h : ArmsRunAlike env depth demand arms n s J) (hkind : n.kind.opensScope)
    {pins : List String} (hpins : ∀ pin ∈ pins, pin ∈ n.kind.branchPins) (ht : J t)
    {f g : List Branch → EmitM α}
    (hfg : ∀ branches u, J u → SameRun env u (f branches) (g branches)) :
    SameRun env t
      ((pins.mapM fun pin ↦ Emitter.captureBranch (arms pin).demand n pin) >>= f)
      ((pins.mapM fun pin ↦ Emitter.captureBranch (evaluateWithin depth) n pin) >>= g) := by
  induction pins generalizing t f g with
  | nil =>
    simp only [List.mapM_nil, pure_bind]
    exact hfg [] t ht
  | cons pin pins ih =>
    obtain ⟨hpin, hpins⟩ := List.forall_mem_cons.mp hpins
    simp only [List.mapM_cons, bind_assoc, pure_bind]
    exact h.captureBranch hkind hpin ht fun branch u hu ↦
      ih hpins hu fun branches w hw ↦ hfg _ w hw

theorem conditional (h : ArmsRunAlike env depth demand arms n s J) {op : Comparison} {hint : BranchHint}
    (hkind : n.kind = .conditional op hint) :
    SameRun env s (conditionalArms demand arms n op hint)
      (conditionalArms (evaluateWithin depth) (fun pin ↦ ⟨evaluateWithin depth, (arms pin).style⟩) n op
        hint) := by
  have hscope : n.kind.opensScope := by rw [hkind]; rfl
  have hpins : n.kind.branchPins = ["CaseTrue", "CaseFalse"] := by rw [hkind]; rfl
  have hhoisted : env.graph.hoisted n = env.graph.commonOutputs n ["CaseTrue", "CaseFalse"] := by
    rw [Graph.hoisted, hkind]
  refine SameRun.bind rfl fun e t hread ↦ ?_
  obtain ⟨rfl, rfl⟩ := returns_read.mp hread
  rw [← hhoisted]
  refine h.hoist.bind fun _ t ht ↦ ?_
  refine h.scalarOperand (by simp [hpins]) (h.start t ht) fun input t ht ↦ ?_
  refine h.scalarOperand (by simp [hpins]) ht fun reference t ht ↦ ?_
  refine h.captureBranch hscope (by simp [hpins]) ht fun whenTrue t ht ↦ ?_
  exact h.captureBranch hscope (by simp [hpins]) ht fun whenFalse t _ ↦ rfl

theorem switch (h : ArmsRunAlike env depth demand arms n s J) {cases : List Int32} {hint : BranchHint}
    (hkind : n.kind = .switch cases hint) :
    SameRun env s (switchArms demand arms n cases hint)
      (switchArms (evaluateWithin depth) (fun pin ↦ ⟨evaluateWithin depth, (arms pin).style⟩) n cases
        hint) := by
  have hscope : n.kind.opensScope := by rw [hkind]; rfl
  have hpins : n.kind.branchPins = cases.map switchCasePin ++ ["Default"] := by rw [hkind]; rfl
  have hhoisted : env.graph.hoisted n =
      env.graph.commonOutputs n (cases.map switchCasePin ++ ["Default"]) := by
    rw [Graph.hoisted, hkind]
  have hselect : "Select" ∉ n.kind.branchPins := by
    simp [hpins, switchCasePin_ne_select]
  unfold switchArms
  cases firstDuplicate? [] cases with
  | some c => exact SameRun.bind rfl fun _ _ hthrow ↦ absurd hthrow returns_throw
  | none =>
    dsimp only
    refine SameRun.bind rfl fun e t hread ↦ ?_
    obtain ⟨rfl, rfl⟩ := returns_read.mp hread
    rw [← hhoisted]
    refine h.hoist.bind fun _ t ht ↦ ?_
    refine h.scalarOperand hselect (h.start t ht) fun select t ht ↦ ?_
    refine h.captureBranches hscope (by simp +contextual [hpins]) ht fun branches t ht ↦ ?_
    exact h.captureBranch hscope (by simp [hpins]) ht fun fallback t _ ↦ rfl

/-- The emitter of a branch runs the same if what it demands does. -/
theorem sameRun (h : ArmsRunAlike env depth demand arms n s J) (hbranch : n.kind.branchPins ≠ []) :
    SameRun env s (emitArms demand arms n)
      (emitArms (evaluateWithin depth) (fun pin ↦ ⟨evaluateWithin depth, (arms pin).style⟩) n) := by
  unfold emitArms
  cases hkind : n.kind with
  | conditional op hint => exact h.conditional hkind
  | switch cases hint => exact h.switch hkind
  | _ => simp [hkind, NodeKind.branchPins] at hbranch

end ArmsRunAlike

section Branches

variable {env : EmitEnv} {depth : Nat} (refusal : CompileError)

/-- Branches are emitted all the same if no emitter may run in them, in the stage of the branch, of a
node that has an output which the branches share. -/
theorem sameRun_emitBranching (n : Node) (s : EmitState) :
    SameRun env s
      (emitBranching (evaluateWithin depth)
        (evaluateAmong (OwnsNone s.stage (env.graph.commonOutputs n n.kind.branchPins)) refusal depth) n)
      (emitKind (evaluateWithin depth) n) := by
  rw [emitKind_eq_emitArms]
  by_cases hbranch : n.kind.branchPins = []
  · unfold emitBranching emitArms
    cases hkind : n.kind <;> simp [hkind, NodeKind.branchPins] at hbranch <;> rfl
  · have hshared : env.graph.commonOutputs n n.kind.branchPins = env.graph.hoisted n := by
      unfold Graph.hoisted
      cases hkind : n.kind <;> simp [hkind, NodeKind.branchPins] at hbranch <;> rfl
    have hneeds : ∀ o ∈ env.graph.hoisted n, env.graph.Needs n o := fun _ ho ↦ .hoisted ho
    refine ArmsRunAlike.sameRun (J := (·.Binds s.stage (env.graph.hoisted n))) ?_ hbranch
    refine ⟨rfl, fun t ht ↦ binds_of_hoist hneeds ht, fun _ _ _ ↦ EmitState.Binds.of_retains,
      fun t ht o ho ↦ ?_, fun _ _ _ _ ↦ rfl, fun pin _ t ht ↦ ?_⟩
    · rw [boundPins_beginCapture]
      exact ht o ho
    · have hcomposed : Composed env n none [] fun demand ↦ requireInput demand n pin :=
        .requireInput pin
      rw [hshared]
      exact hcomposed.sameRun_among depth refusal ht

end Branches

/-- The work that branches share is found exactly, and none of it is left to the branches. The outputs
that inputs share are found once each, in the order in which the depth-first walk behind the first input
discovers them, and they are the outputs upstream of all of the inputs. A conditional or switch is emitted
all the same if its branches are captured with an evaluation that refuses to start, in the stage of the
node, the emitters of nodes that have an output which the branches share. -/
theorem commonOutputs_exact_and_hoisted (settings : Settings) (g : Graph) (n : Node) :
    (∀ pin pins, ∃ discovered,
      (∀ found, g.DepthFirst [] ((n.input? pin).toList.map Pin.id) found ↔ found = discovered) ∧
      (g.commonOutputs n (pin :: pins)).Sublist discovered ∧
      (g.commonOutputs n (pin :: pins)).Nodup ∧
      ∀ o, o ∈ g.commonOutputs n (pin :: pins) ↔
        ∀ q ∈ pin :: pins, ∃ p, n.input? q = some p ∧ g.Upstream NodeKind.isBarrier p.id o) ∧
    ∀ depth s refusal,
      SameRun ⟨g, settings⟩ s
        (emitBranching (evaluateWithin depth)
          (evaluateAmong (OwnsNone s.stage (g.commonOutputs n n.kind.branchPins)) refusal depth) n)
        (emitKind (evaluateWithin depth) n) := by
  refine ⟨fun pin pins ↦ ?_, fun depth s refusal ↦ sameRun_emitBranching refusal n s⟩
  have hwalk := g.depthFirst_sources n pin
  have hsublist : (g.commonOutputs n (pin :: pins)).Sublist (g.sources n pin) := List.filter_sublist
  refine ⟨g.sources n pin, fun found ↦ ⟨fun h ↦ h.unique hwalk, fun h ↦ h ▸ hwalk⟩, hsublist,
    hsublist.nodup hwalk.nodup.1, fun o ↦ Graph.mem_commonOutputs_iff⟩

end ShaderGraph
