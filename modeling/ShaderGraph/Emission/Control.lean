import ShaderGraph.Emission.Input

/-!
# Branches, discards and loops

The bodies of branches and loops are captured in scopes of their own and spliced into the construct
once the type of its result is known. Work that the branches share, or that does not depend on the
loop, is evaluated in front of the construct.
-/

namespace ShaderGraph

namespace Emitter

open EmitM

/-- The value of a captured branch and the text that computes it. -/
structure Branch where
  value : Variable
  text : String

def captureBranch (demand : Demand) (n : Node) (pin : String) : EmitM Branch := do
  let (value, text) ← capture (requireInput demand n pin)
  return ⟨value, text⟩

/-- Declares the variable that every branch assigns. -/
def branchOutput (n : Node) (branches : List Branch) : EmitM Variable := do
  let t ← commonType n (branches.map Branch.value)
  let output ← emitOutput n "Output" t
  let type ← typeName n t
  writeLine s!"{type} {output.name};"
  return output

/-- Writes the block of a branch, which ends in the assignment of its value. -/
def writeBranch (n : Node) (output : Variable) (branch : Branch) : EmitM Unit := do
  let value ← cast n branch.value output.type
  modifyBody fun b ↦
    ((b.openBlock.splice branch.text).line s!"{output.name} = {value};").closeBlock

def writeAttribute (attribute? : Option String) : EmitM Unit :=
  match attribute? with
  | some text => writeLine text
  | none => return

def conditional (demand : Demand) (n : Node) (op : Comparison) (hint : BranchHint) :
    EmitM Unit := do
  hoist demand ((← read).graph.commonOutputs n ["CaseTrue", "CaseFalse"])
  let input ← scalarOperand demand n "Input"
  let reference ← scalarOperand demand n "Reference"
  let whenTrue ← captureBranch demand n "CaseTrue"
  let whenFalse ← captureBranch demand n "CaseFalse"
  let output ← branchOutput n [whenTrue, whenFalse]
  writeAttribute (← branchAttribute hint)
  writeLine s!"if ({input} {op.token} {reference})"
  writeBranch n output whenTrue
  writeLine "else"
  writeBranch n output whenFalse

/-- The first value that occurs earlier in the list as well. -/
def firstDuplicate? (seen : List Int32) : List Int32 → Option Int32
  | [] => none
  | c :: cs => if c ∈ seen then some c else firstDuplicate? (c :: seen) cs

/-- The tests of a switch, each with the block of its case. -/
def writeCases (n : Node) (output : Variable) (select keyword : String) :
    List (Int32 × Branch) → EmitM Unit
  | [] => return
  | (value, branch) :: rest => do
    writeLine s!"{keyword} (int({select}) == {value.toInt})"
    writeBranch n output branch
    writeCases n output select "else if" rest

def switch (demand : Demand) (n : Node) (cases : List Int32) (hint : BranchHint) :
    EmitM Unit := do
  if let some c := firstDuplicate? [] cases then
    throw (.invalidGraph s!"{(NodeIdentity.ofNode n).text}: case {c.toInt} appears more than once")
  let pins := cases.map switchCasePin
  hoist demand ((← read).graph.commonOutputs n (pins ++ ["Default"]))
  let select ← scalarOperand demand n "Select"
  let branches ← pins.mapM (captureBranch demand n)
  let fallback ← captureBranch demand n "Default"
  let output ← branchOutput n (branches ++ [fallback])
  writeAttribute (← branchAttribute hint)
  writeCases n output select "if" (cases.zip branches)
  if !branches.isEmpty then writeLine "else"
  writeBranch n output fallback

/-- Keeps the pixel if the comparison holds and passes a value through. -/
def discard (demand : Demand) (n : Node) (op : Comparison) : EmitM Unit := do
  requireStage .pixel n
  let input ← scalarOperand demand n "Input"
  let reference ← scalarOperand demand n "Reference"
  writeLine s!"if (!({input} {op.token} {reference})) discard;"
  let pass ← requireInput demand n "Pass"
  forwardOutput n pass

/-- A counter of a loop: its pin, and its bounds unless the loop is unbounded. -/
structure Counter where
  pin : String
  bounds? : Option (Int32 × Int32)
deriving DecidableEq, Repr

/-- The part of a `for` header between its parentheses, after the type of the counter. -/
def Counter.header (c : Counter) (name : String) : String :=
  match c.bounds? with
  | some (first, last) =>
    let low := (Binary32.ofInt first.toInt).literal
    let high := (Binary32.ofInt last.toInt).literal
    s!"{name} = {low}; {name} <= {high}; ++{name}"
  | none => s!"{name} = 0.0;; ++{name}"

structure Loop where
  /-- The counters, the outermost first. -/
  counters : List Counter
  /-- Whether the value is added to the output instead of replacing it. -/
  accumulate : Bool := false
  /-- Whether the loop is left through its condition only. -/
  conditionRequired : Bool := false
deriving DecidableEq, Repr

/-- The initial value of the output of a loop. -/
def initialValue? (demand : Demand) (n : Node) : EmitM (Option Variable) := do
  if (n.input? "Initial").isNone then return none
  let initial? ← inputValue? demand n "Initial"
  if let some initial := initial? then
    if !initial.type.isNumeric then
      throw (.expected n "Initial" "a vector or matrix" initial.type)
  return initial?

/-- The condition under which a loop goes on. -/
def loopCondition? (demand : Demand) (n : Node) (isRequired : Bool) : EmitM (Option String) := do
  if isRequired then return some (← scalarOperand demand n "Condition")
  if (n.input? "Condition").isNone then return none
  match ← inputValue? demand n "Condition" with
  | some condition => return some (← cast n condition .scalar)
  | none => return none

/-- Evaluates the inputs of a loop body with the counters bound. -/
def loopBody (demand : Demand) (n : Node) (loop : Loop) (names : List String) :
    EmitM (Variable × Option String) := do
  for (counter, name) in loop.counters.zip names do
    let _ ← bindOutput n counter.pin ⟨name, .scalar⟩
  let condition? ← loopCondition? demand n loop.conditionRequired
  let value ← requireInput demand n "Input"
  return (value, condition?)

/-- Writes the nested headers of a loop around its body. -/
def writeLoop (loop : Loop) (names : List String) (scalar body : String)
    (condition? : Option String) (assignment : String) (b : CodeBuffer) : CodeBuffer :=
  let headers := (loop.counters.zip names).map fun p ↦ s!"for ({scalar} {p.1.header p.2})"
  let b := headers.foldl (fun b header ↦ (b.line header).openBlock) b
  let b := b.splice body
  let b := match condition? with
    | some condition => b.line s!"if ({condition} == 0.0) break;"
    | none => b
  headers.foldl (fun b _ ↦ b.closeBlock) (b.line assignment)

/-- Emits a loop. Unless an initial value fixes the type of the output, it is fixed by the value of
the body; a body that reads the output before that sees it as `void`. -/
def emitLoop (demand : Demand) (n : Node) (loop : Loop) : EmitM Unit := do
  hoist demand ((← read).graph.frontier n ["Input", "Condition"])
  let initial? ← initialValue? demand n
  let declared := (initial?.map Variable.type).getD .void
  let output ← emitOutput n "Output" declared
  let names ← loop.counters.mapM fun _ ↦ freshName
  let ((value, condition?), body) ← capture (loopBody demand n loop names)
  let t := if declared = .void then value.type else declared
  if !t.isNumeric then throw (.expected n "Input" "a vector or matrix" value.type)
  retypeOutput n "Output" t
  let result ← cast n value t
  let start ←
    match initial?, loop.accumulate with
    | some initial, false => cast n initial t
    | _, _ => pure ((← dialect).scalarLiteral t .zero)
  assign n ⟨output.name, t⟩ start
  writeAttribute (← unrollAttribute)
  let scalar ← typeName n .scalar
  let operator := if loop.accumulate then "+=" else "="
  modifyBody (writeLoop loop names scalar body condition? s!"{output.name} {operator} {result};")

def repeatWhile (demand : Demand) (n : Node) : EmitM Unit := do
  if !(← dialect).unboundedLoops then unsupported n "unbounded loops"
  emitLoop demand n { counters := [⟨"N", none⟩], conditionRequired := true }

end Emitter

end ShaderGraph
