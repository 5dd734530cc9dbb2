import ShaderGraph.Emission.Node

/-!
# Arms of branches

The inputs that a conditional or switch captures are evaluated apart from each other, and each is written
into a block of its own, its arm. The emitters are stated here with a demand and a form of the block for
every arm. With the demand of the node for all arms, and braces around all blocks, they are the emitters.
-/

namespace ShaderGraph

/-- How the block of an arm is written: the lines around it, and what stands for its text. -/
structure ArmStyle where
  first : String := "\x7b"
  last : String := "\x7d"
  inner : String → String := id

/-- Writes the block of an arm, which ends in the assignment of its value. -/
def CodeBuffer.arm (b : CodeBuffer) (style : ArmStyle) (text assignment : String) : CodeBuffer :=
  (((b.line style.first).indent.splice (style.inner text)).line assignment).dedent.line style.last

/-- How an arm is evaluated and written. -/
structure ArmRun where
  demand : Demand
  style : ArmStyle := {}

/-- The inputs of a node that are captured as branches. -/
def NodeKind.branchPins : NodeKind → List String
  | .conditional .. => ["CaseTrue", "CaseFalse"]
  | .switch cases _ => cases.map switchCasePin ++ ["Default"]
  | _ => []

/-- The pin of a case is not the one whose value a switch tests. -/
theorem switchCasePin_ne_select (value : Int32) : switchCasePin value ≠ "Select" := by
  intro h
  have hhead : (switchCasePin value).toList.head? = some 'C' := by
    simp only [switchCasePin, String.toList_append]
    rfl
  rw [h] at hhead
  exact absurd hhead (by decide)

namespace Emitter

open EmitM

def writeArm (style : ArmStyle) (n : Node) (output : Variable) (branch : Branch) : EmitM Unit := do
  let value ← cast n branch.value output.type
  modifyBody fun b ↦ b.arm style branch.text s!"{output.name} = {value};"

/-- The emitter of a conditional. -/
def conditionalArms (demand : Demand) (arms : String → ArmRun) (n : Node) (op : Comparison)
    (hint : BranchHint) : EmitM Unit := do
  hoist demand ((← read).graph.commonOutputs n ["CaseTrue", "CaseFalse"])
  let input ← scalarOperand demand n "Input"
  let reference ← scalarOperand demand n "Reference"
  let whenTrue ← captureBranch (arms "CaseTrue").demand n "CaseTrue"
  let whenFalse ← captureBranch (arms "CaseFalse").demand n "CaseFalse"
  let output ← branchOutput n [whenTrue, whenFalse]
  writeAttribute (← branchAttribute hint)
  writeLine s!"if ({input} {op.token} {reference})"
  writeArm (arms "CaseTrue").style n output whenTrue
  writeLine "else"
  writeArm (arms "CaseFalse").style n output whenFalse

/-- The tests of a switch, each with the block of its case. -/
def writeCaseArms (styles : String → ArmStyle) (n : Node) (output : Variable)
    (select keyword : String) : List (Int32 × Branch) → EmitM Unit
  | [] => return
  | (value, branch) :: rest => do
    writeLine s!"{keyword} (int({select}) == {value.toInt})"
    writeArm (styles (switchCasePin value)) n output branch
    writeCaseArms styles n output select "else if" rest

/-- The emitter of a switch. -/
def switchArms (demand : Demand) (arms : String → ArmRun) (n : Node) (cases : List Int32)
    (hint : BranchHint) : EmitM Unit := do
  if let some c := firstDuplicate? [] cases then
    throw (.invalidGraph s!"{(NodeIdentity.ofNode n).text}: case {c.toInt} appears more than once")
  let pins := cases.map switchCasePin
  hoist demand ((← read).graph.commonOutputs n (pins ++ ["Default"]))
  let select ← scalarOperand demand n "Select"
  let branches ← pins.mapM fun pin ↦ captureBranch (arms pin).demand n pin
  let fallback ← captureBranch (arms "Default").demand n "Default"
  let output ← branchOutput n (branches ++ [fallback])
  writeAttribute (← branchAttribute hint)
  writeCaseArms (fun pin ↦ (arms pin).style) n output select "if" (cases.zip branches)
  if !branches.isEmpty then writeLine "else"
  writeArm (arms "Default").style n output fallback

theorem conditional_eq_conditionalArms (demand : Demand) (n : Node) (op : Comparison)
    (hint : BranchHint) :
    conditional demand n op hint = conditionalArms demand (fun _ ↦ ⟨demand, {}⟩) n op hint :=
  rfl

theorem writeCases_eq_writeCaseArms (n : Node) (output : Variable) (select keyword : String)
    (branches : List (Int32 × Branch)) :
    writeCases n output select keyword branches =
      writeCaseArms (fun _ ↦ {}) n output select keyword branches := by
  induction branches generalizing keyword with
  | nil => rfl
  | cons branch branches ih =>
    rw [writeCases, writeCaseArms, ih]
    rfl

theorem switch_eq_switchArms (demand : Demand) (n : Node) (cases : List Int32) (hint : BranchHint) :
    switch demand n cases hint = switchArms demand (fun _ ↦ ⟨demand, {}⟩) n cases hint := by
  unfold switch switchArms
  simp only [writeCases_eq_writeCaseArms]
  rfl

end Emitter

/-- Runs the emitter for the kind of a node, with its arms evaluated and written apart. -/
def EmitM.emitArms (demand : Demand) (arms : String → ArmRun) (n : Node) : EmitM Unit :=
  match n.kind with
  | .conditional op hint => Emitter.conditionalArms demand arms n op hint
  | .switch cases hint => Emitter.switchArms demand arms n cases hint
  | _ => emitKind demand n

/-- Emitters treat all arms alike. -/
theorem emitKind_eq_emitArms (demand : Demand) (n : Node) :
    EmitM.emitKind demand n = EmitM.emitArms demand (fun _ ↦ ⟨demand, {}⟩) n := by
  unfold EmitM.emitArms
  cases hkind : n.kind with
  | conditional op hint =>
    rw [EmitM.emitKind, hkind]
    exact Emitter.conditional_eq_conditionalArms demand n op hint
  | switch cases hint =>
    rw [EmitM.emitKind, hkind]
    exact Emitter.switch_eq_switchArms demand n cases hint
  | _ => rfl

end ShaderGraph
