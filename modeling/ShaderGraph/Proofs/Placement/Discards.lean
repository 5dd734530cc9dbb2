import ShaderGraph.Proofs.Definitions.Subroutines
import ShaderGraph.Proofs.Emission.Moves
import ShaderGraph.Proofs.Graph.Dependence
import ShaderGraph.Proofs.Graph.Wiring
import ShaderGraph.Proofs.Placement.Bodies
import ShaderGraph.Proofs.Placement.Branches
import ShaderGraph.Proofs.Text.Phrase

/-!
# Discards in the arms of branches

A discard that leads to the pixel output through one branch pin only is to stand in the block of that
pin. It does unless some work that is evaluated in front of a branch or a loop leads through the pin.
Where its statements stand is told by an emission that refuses to start the emitter of the discard outside
of the arm, and that writes the blocks of the arm in another way: it succeeds all the same, and outside of
these blocks it writes the same text. The search for shared work goes through the pins of other branches
further up, and takes a discard out of them.
-/

namespace ShaderGraph

open EmitM Emitter

/-! ## Texts -/

/-- The texts are the same outside of blocks of arms. The first text has these between braces, and the
second one has them in another style. -/
inductive AgreeOutside (style : ArmStyle) : String → String → Prop
  | empty : AgreeOutside style "" ""
  | append {a b : String} (h : AgreeOutside style a b) (c : String) :
    AgreeOutside style (a ++ c) (b ++ c)
  | splice {a b s t : String} (level : Nat) (h : AgreeOutside style a b) (hst : AgreeOutside style s t) :
    AgreeOutside style (CodeBuffer.splice ⟨a, level⟩ s).text (CodeBuffer.splice ⟨b, level⟩ t).text
  | arm {a b s t : String} (level : Nat) (assignment : String) (h : AgreeOutside style a b)
    (hst : AgreeOutside style s t) :
    AgreeOutside style (CodeBuffer.arm ⟨a, level⟩ {} s assignment).text
      (CodeBuffer.arm ⟨b, level⟩ style t assignment).text

instance (style : ArmStyle) : CodeBuffer.KeepsBlocks (AgreeOutside style) where
  append h _ := h.append _
  empty := .empty
  splice := .splice

@[simp] theorem CodeBuffer.level_arm (b : CodeBuffer) (style : ArmStyle) (text assignment : String) :
    (b.arm style text assignment).level = b.level := by
  simp [arm, line, indent, dedent, level_splice]

/-! ## Branch pins -/

/-- A branch pin of a node. -/
structure BranchPin where
  node : NodeId
  pin : String
deriving DecidableEq

def NodeKind.isDiscard : NodeKind → Bool
  | .discard _ => true
  | _ => false

namespace Graph

/-- The nodes that lead to the pixel output otherwise than through a branch pin. -/
inductive Exposed (g : Graph) (arm : BranchPin) : NodeId → Prop
  | output {n : Node} (hn : n ∈ g.nodes.values) (hkind : n.kind.isPixelOutput) : Exposed g arm n.id
  | through {id : NodeId} {n : Node} {p : Pin} {c : Connection} (h : Exposed g arm id)
    (hn : g.node? id = some n) (hp : p ∈ n.inputs) (hpin : ⟨id, p.name⟩ ≠ arm)
    (hc : g.driver? p.id = some c) : Exposed g arm c.fromNode

/-- A discard that leads to the pixel output through one branch pin only. -/
structure DiscardBehind (g : Graph) (arm : BranchPin) (d : NodeId) : Prop where
  discard : ∃ n, g.node? d = some n ∧ n.kind.isDiscard
  branch : ∃ n, g.node? arm.node = some n ∧ arm.pin ∈ n.kind.branchPins
  behind : ¬ g.Exposed arm d

/-- Neither the outputs that branches share nor those in front of loops lead from a node through the
branch pin, so far as they are evaluated outside of its arm. -/
def HoistsPast (g : Graph) (arm : BranchPin) (d : NodeId) : Prop :=
  ∀ n ∈ g.nodes.values, g.Exposed arm n.id → ∀ o ∈ g.hoisted n,
    g.DependsOn d o.node → g.Exposed arm o.node

/-- Nodes that are evaluated without the node `d`, unless they evaluate the arm. -/
def IsApart (g : Graph) (arm : BranchPin) (d id : NodeId) : Prop :=
  g.DependsOn d id → g.Exposed arm id

variable {g : Graph} {arm : BranchPin} {d : NodeId} {n : Node} {o : OutputRef}

theorem IsApart.ne (hd : ¬ g.Exposed arm d) (h : g.IsApart arm d n.id) : n.id ≠ d := by
  rintro rfl
  exact hd (h .refl)

theorem DependsOn.of_needs (h : g.DependsOn d o.node) (hn : g.node? n.id = some n)
    (hkind : n.kind.isInterpolator = false) (hneeds : g.Needs n o) : g.DependsOn d n.id := by
  obtain ⟨p, hp, hupstream⟩ := hneeds.upstream
  clear hneeds
  induction hupstream with
  | driver hc => exact h.of_driver hn hkind hp hc
  | through _ hm hstop hq hc ih => exact ih (h.of_driver hm hstop hq hc)

/-- What drives an input of the node, other than the arm. -/
theorem IsApart.driver (h : g.IsApart arm d n.id) (hn : g.node? n.id = some n)
    (hkind : n.kind.isInterpolator = false) {pin : String} (hpin : ⟨n.id, pin⟩ ≠ arm) {p : Pin}
    {c : Connection} (hp : n.input? pin = some p) (hc : g.driver? p.id = some c) :
    g.IsApart arm d c.fromNode := by
  intro hdepends
  have hname : p.name = pin := by simpa using List.find?_some hp
  have hmem : p ∈ n.inputs := List.mem_of_find?_eq_some hp
  exact (h (hdepends.of_driver hn hkind hmem hc)).through hn hmem (hname ▸ hpin) hc

theorem IsApart.hoisted (hpast : g.HoistsPast arm d) (h : g.IsApart arm d n.id)
    (hn : g.node? n.id = some n) (hkind : n.kind.isInterpolator = false) (ho : o ∈ g.hoisted n) :
    g.IsApart arm d o.node := by
  intro hdepends
  have hexposed := h (hdepends.of_needs hn hkind (.hoisted ho))
  exact hpast n (OrderedMap.mem_values_of_get? hn) hexposed o ho hdepends

end Graph

/-! ## Evaluation outside of an arm -/

namespace EmitM

/-- Evaluates an output like `evaluateWithin`, but refuses to start the emitter of the node `d` in the
pixel stage, unless the arm of a branch pin is captured, and writes the blocks of that arm in a style. -/
def evaluateApart (d : NodeId) (arm : BranchPin) (style : ArmStyle) (refusal : CompileError) :
    Nat → Demand
  | 0 => evaluateWithin 0
  | depth + 1 => evaluateWith fun n ↦ do
    let outside := evaluateApart d arm style refusal depth
    if (← currentStage) = .pixel ∧ n.id = d then throw refusal
    else
      runWith n (emitArms outside
        (fun pin ↦ if ⟨n.id, pin⟩ = arm then ⟨evaluateWithin depth, style⟩ else ⟨outside, {}⟩) n)

end EmitM

section SameRun

variable {env : EmitEnv} {demand demand' : Demand} {n : Node} {s : EmitState} {arm : BranchPin}
  {d : NodeId} {refusal : CompileError} {depth : Nat}

theorem sameRun_requireInput {pin : String}
    (h : ∀ p c, n.input? pin = some p → env.graph.driver? p.id = some c →
      SameRun env s (demand c.fromNode c.fromPin) (demand' c.fromNode c.fromPin)) :
    SameRun env s (requireInput demand n pin) (requireInput demand' n pin) := by
  refine SameRun.bind ?_ fun _ _ _ ↦ rfl
  unfold inputValue?
  cases hp : n.input? pin with
  | none => rfl
  | some p =>
    refine SameRun.bind rfl fun e t hread ↦ ?_
    obtain ⟨rfl, rfl⟩ := returns_read.mp hread
    cases hc : env.graph.driver? p.id with
    | none => rfl
    | some c => exact (h p c hp hc).bind fun _ _ _ ↦ rfl

theorem sameRun_hoist {outputs : List OutputRef}
    (h : ∀ o ∈ outputs, ∀ t, t.stage = s.stage →
      SameRun env t (demand o.node o.pin) (evaluateWithin depth o.node o.pin)) :
    SameRun env s (hoist demand outputs) (hoist (evaluateWithin depth) outputs) := by
  induction outputs generalizing s with
  | nil => rfl
  | cons o os ih =>
    obtain ⟨ho, hos⟩ := List.forall_mem_cons.mp h
    refine SameRun.bind ((ho s rfl).bind fun _ _ _ ↦ rfl) fun _ t ht ↦ ih fun o' ho' u hu ↦ ?_
    obtain ⟨v, u', hdemand, hpure⟩ := returns_bind.mp ht
    obtain ⟨-, rfl⟩ := returns_pure.mp hpure
    exact hos o' ho' u (hu.trans (evaluateWithin_keepsStage depth _ _ _ _ _ hdemand))

/-- The evaluation that runs the node in the arm only does the same for nodes that are apart from it. -/
theorem sameRun_evaluateApart (hkeyed : env.graph.IsKeyed) (hbehind : env.graph.DiscardBehind arm d)
    (hpast : env.graph.HoistsPast arm d) (refusal : CompileError) (depth : Nat) {o : OutputRef}
    (ho : s.stage = .pixel → env.graph.IsApart arm d o.node) :
    SameRun env s (evaluateApart d arm {} refusal depth o.node o.pin)
      (evaluateWithin depth o.node o.pin) := by
  induction depth generalizing s o with
  | zero => rfl
  | succ depth ih =>
    rw [evaluateApart, evaluateWithin_succ]
    refine sameRun_evaluateWith fun n hstarts ↦ ?_
    have hid : n.id = o.node := hkeyed.id_eq hstarts.node
    have hn : env.graph.node? n.id = some n := hid ▸ hstarts.node
    rw [← hid] at ho
    rw [SameRun, run_bind_of_returns (returns_currentStage.mpr ⟨rfl, rfl⟩),
      if_neg fun h ↦ (ho h.1).ne hbehind.behind h.2]
    refine sameRun_runWith ?_
    by_cases hnode : n.id = arm.node
    · -- The arm is evaluated as ever, and nothing else that the branch demands leads through it.
      obtain ⟨m, hm, hpin⟩ := hbehind.branch
      obtain rfl : m = n := Option.some.inj (hm.symm.trans (hnode ▸ hn))
      have hplain : m.kind.isInterpolator = false := by
        cases hkind : m.kind <;> simp [hkind, NodeKind.branchPins] at hpin <;> rfl
      have hrun (pin : String) (hother : ⟨m.id, pin⟩ ≠ arm) (t : EmitState)
          (ht : t.stage = s.stage) :
          SameRun env t (requireInput (evaluateApart d arm {} refusal depth) m pin)
            (requireInput (evaluateWithin depth) m pin) :=
        sameRun_requireInput fun p c hp hc ↦ ih (o := c.source) fun hpixel ↦
          (ho (ht ▸ hpixel)).driver hn hplain hother hp hc
      have hbraces : (fun _ ↦ ⟨evaluateWithin depth, {}⟩ : String → ArmRun) = fun pin ↦
          ⟨evaluateWithin depth, (if ⟨m.id, pin⟩ = arm then (⟨evaluateWithin depth, {}⟩ : ArmRun)
            else ⟨evaluateApart d arm {} refusal depth, {}⟩).style⟩ := by
        funext pin
        split <;> rfl
      rw [emitKind_eq_emitArms, hbraces]
      refine ArmsRunAlike.sameRun (J := (·.stage = s.stage)) ?_ (List.ne_nil_of_mem hpin)
      refine ⟨?_, fun t ht ↦ ?_, fun t own u ht h ↦ h.stage.trans ht, fun t ht ↦ ?_, ?_, ?_⟩
      · exact sameRun_hoist fun o' ho' t ht ↦ ih fun hpixel ↦
          (ho (ht ▸ hpixel)).hoisted hpast hn hplain ho'
      · have hcomposed : Composed env m none [] fun demand ↦ hoist demand (env.graph.hoisted m) :=
          .hoist fun o' ho' ↦ .hoisted ho'
        exact (hcomposed.retains depth (r := .ok ()) ht).stage
      · exact (EmitState.stage_modifyShader ..).trans ht
      · intro pin hother t ht
        refine hrun pin (fun harm ↦ hother ?_) t ht
        rw [← congrArg BranchPin.pin harm] at hpin
        exact hpin
      · intro pin _ t ht
        by_cases harm : ⟨m.id, pin⟩ = arm
        · rw [if_pos harm]
          rfl
        · rw [if_neg harm]
          exact hrun pin harm t ht
    · have hother (pin : String) : ⟨n.id, pin⟩ ≠ arm := fun h ↦ hnode (congrArg BranchPin.node h)
      simp only [if_neg (hother _), ← emitKind_eq_emitArms]
      refine sameRun_emitKind_of_stage hkeyed fun o' hneeds t ht ↦ ?_
      refine ih fun hpixel ↦ ?_
      rw [ht] at hpixel
      cases hplain : n.kind.isInterpolator with
      | true => simp [NodeKind.inputStage, hplain] at hpixel
      | false =>
        have hstage : s.stage = .pixel := by rwa [NodeKind.inputStage, hplain] at hpixel
        cases hneeds with
        | input hp hc => exact (ho hstage).driver hn hplain (hother _) hp hc
        | hoisted ho' => exact (ho hstage).hoisted hpast hn hplain ho'

end SameRun

/-! ## Blocks in another style -/

/-- The emissions of a graph of which the second one writes the blocks of an arm in a style. -/
def Lock.styling (settings : Settings) (g : Graph) (style : ArmStyle) : Lock where
  left := ⟨g, settings⟩
  right := ⟨g, settings⟩
  matching := ⟨Eq, Eq, True⟩
  exact := True
  agree := AgreeOutside style
  tracked := False
  graphs := .refl _ _
  backend _ := rfl
  unrolls _ := .inl rfl
  blocks := inferInstance
  supports := .refl _
  exact_of_strict _ := trivial

namespace Lock

variable {settings : Settings} {g : Graph} {style : ArmStyle} {running : List NodeId}

/-- Where the first emission writes braces, the second one writes the style. -/
theorem styles_styling : (styling settings g style).Styles {} style := by
  intro _ b c s t assignment hbc hst
  obtain ⟨text, level⟩ := b
  obtain ⟨text', level'⟩ := c
  obtain rfl : level' = level := hbc.level
  exact ⟨by simp, .arm level' assignment hbc.text hst⟩

theorem agree_evaluateApart (d : NodeId) (arm : BranchPin) (refusal : CompileError) (depth : Nat) :
    (styling settings g style).Agree running (EmitM.evaluateApart d arm {} refusal depth)
      (EmitM.evaluateApart d arm style refusal depth) := by
  let L := styling settings g style
  have hadmits (n : Node) : L.Admits n := admits_of_exact trivial n
  have hinside (running : List NodeId) (depth : Nat) :
      L.Agree running (EmitM.evaluateWithin depth) (EmitM.evaluateWithin depth) :=
    Lockstep.evaluateWithin id (fun _ n _ ↦ hadmits n) depth
  induction depth generalizing running with
  | zero => exact hinside running 0
  | succ depth ih =>
    refine Lockstep.evaluateWith False.elim fun id n m _ hn _ ↦ ?_
    obtain rfl : n = m := (hn.same trivial).symm
    refine .bind .currentStage fun stage _ hstage ↦ ?_
    subst hstage
    refine .ite (fun _ ↦ .throw fun _ ↦ rfl) fun _ ↦ .runWith hn False.elim ?_
    refine .emitArms hn (hadmits n) ih ⟨fun pin ↦ ?_, fun pin ↦ ?_⟩
    · split
      · exact hinside _ depth
      · exact ih
    · split
      · exact styles_styling
      · exact styles_braces

end Lock

/-! ## Emissions -/

/-- The emission in which the node `d` runs in the pixel stage only where the arm of a branch pin is
captured, and in which the blocks of that arm are written in a style. -/
def emissionApart (d : NodeId) (arm : BranchPin) (style : ArmStyle) (refusal : CompileError)
    (settings : Settings) (g : Graph) : Except CompileError EmitState :=
  emissionBy (g.visit (g.nodes.size + 1)) (evaluateApart d arm style refusal (emissionDepth g)) settings g

section Emission

variable {settings : Settings} {g : Graph} {arm : BranchPin} {d : NodeId} {n : Node} {s : EmitState}

/-- A terminal node of a stage. -/
theorem sameRun_terminal (hg : g.Consistent) (hbehind : g.DiscardBehind arm d)
    (hpast : g.HoistsPast arm d) (refusal : CompileError) (hn : n ∈ g.nodes.values)
    (hkind : n.kind.isPixelOutput ∨ n.kind.isVertexOutput)
    (hstage : s.stage = .pixel → n.kind.isPixelOutput) :
    SameRun ⟨g, settings⟩ s (runNode (evaluateApart d arm {} refusal (emissionDepth g)) n)
      (runNode evaluate n) := by
  let env : EmitEnv := ⟨g, settings⟩
  have hplain : n.kind.isInterpolator = false := by
    cases hn : n.kind <;> simp [hn, NodeKind.isPixelOutput, NodeKind.isVertexOutput] at hkind <;> rfl
  have hbranch : n.kind.branchPins = [] := by
    cases hn : n.kind <;> simp [hn, NodeKind.isPixelOutput, NodeKind.isVertexOutput] at hkind <;> rfl
  have hnode : g.node? n.id = some n := hg.mem_nodes_iff.mp hn
  have hother (pin : String) : ⟨n.id, pin⟩ ≠ arm := by
    rintro rfl
    obtain ⟨m, hm, hpin⟩ := hbehind.branch
    obtain rfl : n = m := Option.some.inj (hnode.symm.trans hm)
    rw [hbranch] at hpin
    cases hpin
  have hevaluate : SameRun env (s.beginNode n.id) (emitKind evaluate n)
      (emitKind (evaluateWithin (emissionDepth g)) n) :=
    sameRun_emitKind_of_stage hg.isKeyed fun o _ _ _ ↦ by
      rw [SameRun, run_evaluate]
  refine sameRun_runNode (Eq.trans ?_ hevaluate.symm)
  refine sameRun_emitKind_of_stage hg.isKeyed fun o hneeds t ht ↦ ?_
  refine sameRun_evaluateApart hg.isKeyed hbehind hpast refusal _ fun hpixel ↦ ?_
  rw [ht, NodeKind.inputStage, hplain] at hpixel
  have hapart : g.IsApart arm d n.id := fun _ ↦ .output hn (hstage hpixel)
  cases hneeds with
  | input hp hc => exact hapart.driver hnode hplain (hother _) hp hc
  | hoisted ho => exact hapart.hoisted hpast hnode hplain ho

theorem sameRun_vertexOutputs (hg : g.Consistent) (hbehind : g.DiscardBehind arm d)
    (hpast : g.HoistsPast arm d) (refusal : CompileError) {ns : List Node}
    (hns : ∀ n ∈ ns, n ∈ g.nodes.values ∧ n.kind.isVertexOutput) (hs : s.stage = .vertex) :
    SameRun ⟨g, settings⟩ s (ns.forM (runNode (evaluateApart d arm {} refusal (emissionDepth g))))
      (ns.forM (runNode evaluate)) := by
  induction ns generalizing s with
  | nil =>
    change SameRun ⟨g, settings⟩ s (pure ()) (pure ())
    rfl
  | cons n ns ih =>
    obtain ⟨⟨hn, hkind⟩, hns⟩ := List.forall_mem_cons.mp hns
    have hnode : SameRun ⟨g, settings⟩ s
        (runNode (evaluateApart d arm {} refusal (emissionDepth g)) n) (runNode evaluate n) :=
      sameRun_terminal hg hbehind hpast refusal hn (.inr hkind) fun hpixel ↦ by
        rw [hs] at hpixel
        cases hpixel
    refine hnode.bind fun _ t ht ↦ ih hns ?_
    obtain ⟨u, hemit, rfl⟩ := returns_runNode.mp ht
    exact ((nodeRun_of_returns evaluate_keepsStage hemit).stage_eq evaluate_keepsStage).trans hs

/-- The emission that runs the node in the arm only is the emission. -/
theorem emissionApart_braces (hg : g.Consistent) (hbehind : g.DiscardBehind arm d)
    (hpast : g.HoistsPast arm d) (refusal : CompileError) (h : emission settings g = .ok s) :
    emissionApart d arm {} refusal settings g = .ok s := by
  obtain ⟨hvalid, n, hterminal, hrun⟩ := emission_eq_ok_iff.mp h
  have hpixel := Graph.isPixelOutput_of_terminal hterminal
  have hvertex : ∀ n ∈ g.nodesOfKind NodeKind.isVertexOutput,
      n ∈ g.nodes.values ∧ n.kind.isVertexOutput :=
    fun n hn ↦ ⟨(List.mem_filter.mp hn).1, by simpa using (List.mem_filter.mp hn).2⟩
  have hsame : SameRun ⟨g, settings⟩ {}
      (emitProgramBy (evaluateApart d arm {} refusal (emissionDepth g)) n
        (g.nodesOfKind NodeKind.isVertexOutput))
      (emitProgram n (g.nodesOfKind NodeKind.isVertexOutput)) := by
    refine SameRun.bind rfl fun _ s _ ↦ ?_
    refine SameRun.bind (sameRun_terminal hg hbehind hpast refusal (Graph.terminal_mem hterminal)
      (.inl hpixel) fun _ ↦ hpixel) fun _ t _ ↦ ?_
    refine SameRun.bind rfl fun _ u hu ↦ ?_
    refine SameRun.bind (sameRun_vertexOutputs hg hbehind hpast refusal hvertex ?_) fun _ _ _ ↦ rfl
    rw [returns_enter.mp hu]
  exact emissionBy_eq_ok hvalid hterminal (hsame.returns hrun)

end Emission

/-- Nodes that are found from the pixel output. -/
theorem Graph.Exposed.mem {g : Graph} {arm : BranchPin} {ids : List NodeId} {id : NodeId}
    (h : g.Exposed arm id) (hstart : ∀ n ∈ g.nodes.values, n.kind.isPixelOutput → n.id ∈ ids)
    (hclosed : ∀ id ∈ ids, ∀ n ∈ g.node? id, ∀ p ∈ n.inputs, ⟨id, p.name⟩ ≠ arm →
      ∀ c ∈ g.driver? p.id, c.fromNode ∈ ids) : id ∈ ids := by
  induction h with
  | output hn hkind => exact hstart _ hn hkind
  | through _ hn hp hpin hc ih => exact hclosed _ ih _ hn _ hp hpin _ hc

/-- A loop with a discard in one arm of the branch that makes its body. The discard depends on the loop,
and what it passes is shared with the other arm. -/
def discardInLoop : Graph :=
  .numbered
    [.pixelOutput {}, .iterate 0 3, .conditional .less .auto, .discard .less, .arithmetic .mul,
      .uniform "A" .scalar, .uniform "Color" .vec4]
    [⟨1, "Output", 0, "Input"⟩, ⟨2, "Output", 1, "Input"⟩, ⟨1, "N", 2, "Input"⟩,
      ⟨5, "Output", 2, "Reference"⟩, ⟨3, "Output", 2, "CaseTrue"⟩, ⟨4, "Output", 2, "CaseFalse"⟩,
      ⟨1, "N", 3, "Input"⟩, ⟨5, "Output", 3, "Reference"⟩, ⟨4, "Output", 3, "Pass"⟩,
      ⟨6, "Output", 4, "Input1"⟩, ⟨5, "Output", 4, "Input2"⟩]

/-- Depths of the blocks in which the discards of a text stand. -/
def discardDepths (depth : Nat) : List Token → List Nat
  | [] => []
  | t :: ts =>
    if t = .mark "\x7b" then discardDepths (depth + 1) ts
    else if t = .mark "\x7d" then discardDepths (depth - 1) ts
    else if t = .word "discard" then depth :: discardDepths depth ts
    else discardDepths depth ts

/-- A graph with a discard in one arm of a branch, which both arms of another branch share. -/
def discardInBranch : Graph :=
  .numbered
    [.pixelOutput {}, .conditional .less .auto, .conditional .less .auto, .discard .less,
      .uniform "A" .scalar, .uniform "B" .scalar, .uniform "Color" .vec4]
    [⟨1, "Output", 0, "Input"⟩, ⟨4, "Output", 1, "Input"⟩, ⟨5, "Output", 1, "Reference"⟩,
      ⟨2, "Output", 1, "CaseTrue"⟩, ⟨2, "Output", 1, "CaseFalse"⟩, ⟨4, "Output", 2, "Input"⟩,
      ⟨5, "Output", 2, "Reference"⟩, ⟨3, "Output", 2, "CaseTrue"⟩, ⟨6, "Output", 2, "CaseFalse"⟩,
      ⟨4, "Output", 3, "Input"⟩, ⟨5, "Output", 3, "Reference"⟩, ⟨6, "Output", 3, "Pass"⟩]

end ShaderGraph
